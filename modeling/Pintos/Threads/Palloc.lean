import Mathlib.Order.Interval.Finset.Nat
import Pintos.Infra.Int32
import Pintos.Infra.Run
import Pintos.Lib.Bitmap
import Pintos.Threads.Vaddr

/-!
# page allocator（`threads/palloc.c`）

1 MB から RAM の終わりまでを kernel pool と user pool に分け、
それぞれの先頭に `used_map` を置く。

`init_ram_pages` は、起動時に `threads/start.S` が BIOS に尋ねて一度だけ書く。

pool の lock は、一つの呼び出しの途中にほかの呼び出しが挟まらないことしか決めないので、
ここでは扱わない。
-/

namespace Pintos

open Infra

/-! ## RAM の大きさ -/

/-- `threads/start.S`。BIOS が返す `AX` は、RAM の kB から 1024 を引いた値である。 -/
def initRamPages (ax : UInt16) : Nat := min (ax.toNat + 1024) 0x10000 / 4

def divRoundUp (x step : Nat) : Nat := (x + step - 1) / step

/-! ## pool -/

structure Pool where
  /-- `used_map` の番地。 -/
  mapAddr : Nat
  usedMap : Bitmap
  base : Nat

structure Palloc where
  kernelPool : Pool
  userPool : Pool
  /-- 番地ごとの byte。 -/
  mem : Nat → UInt8

inductive PallocPanic
  /-- `ptov` の `ASSERT`。 -/
  | ptovRange
  /-- `"Not enough memory in %s for bitmap."`。 -/
  | notEnoughMemory (user : Bool)
  /-- `bitmap_create_in_buf` の `ASSERT`。 -/
  | bufTooSmall
  /-- `"palloc_get: out of pages"`。 -/
  | outOfPages
  /-- `ASSERT (pg_ofs (pages) == 0)`。 -/
  | unaligned
  /-- `NOT_REACHED ()`。 -/
  | notReached
  /-- `ASSERT (bitmap_all (...))` か、その中の `ASSERT`。 -/
  | notAllocated
deriving DecidableEq

def initPool (user : Bool) (base pageCnt : Nat) (garbage : Nat → Bool) :
    Except PallocPanic Pool :=
  let bmPages := divRoundUp (Bitmap.bufSize pageCnt) pgSize
  if bmPages > pageCnt then .error (.notEnoughMemory user)
  else
    match Bitmap.createInBuf (pageCnt - bmPages) (bmPages * pgSize) garbage with
    | none => .error .bufTooSmall
    | some usedMap => .ok ⟨base, usedMap, (base + bmPages * pgSize) % 2 ^ 32⟩

/-- `(free_end - free_start) / PGSIZE`。番地の差は `ptrdiff_t` で、割ってから `size_t` にする。 -/
def pagesBetween (freeStart freeEnd : Nat) : Nat :=
  ((int32 ((freeEnd : Int) - freeStart)).tdiv pgSize % 2 ^ 32).toNat

/-- `palloc_init`。`garbage` と `mem` は memory の元の中身である。 -/
def pallocInit (initRamPages userPageLimit : Nat) (garbage : Bool → Nat → Bool)
    (mem : Nat → UInt8) : Except PallocPanic Palloc :=
  match ptov (1024 * 1024), ptov (initRamPages * pgSize % 2 ^ 32) with
  | some freeStart, some freeEnd =>
    let freePages := pagesBetween freeStart freeEnd
    let userPages := if freePages / 2 > userPageLimit then userPageLimit else freePages / 2
    let kernelPages := freePages - userPages
    (initPool false freeStart kernelPages (garbage false)).bind fun kernelPool =>
      (initPool true ((freeStart + kernelPages * pgSize) % 2 ^ 32) userPages (garbage true)).map
        fun userPool => ⟨kernelPool, userPool, mem⟩
  | _, _ => .error .ptovRange

/-- `enum palloc_flags`。 -/
structure PallocFlags where
  assert : Bool
  zero : Bool
  user : Bool
deriving DecidableEq

namespace Palloc

def pool (user : Bool) (p : Palloc) : Pool := if user then p.userPool else p.kernelPool

/-- 片方の pool の `used_map` を書き換える。 -/
def setMap (user : Bool) (usedMap : Bitmap) (p : Palloc) : Palloc :=
  if user then { p with userPool := { p.userPool with usedMap } }
  else { p with kernelPool := { p.kernelPool with usedMap } }

def memset (dst : Nat) (value : UInt8) (size : Nat) (p : Palloc) : Palloc :=
  { p with mem := fun a => if dst ≤ a ∧ a < dst + size then value else p.mem a }

@[simp] theorem pool_false (p : Palloc) : p.pool false = p.kernelPool := rfl

@[simp] theorem pool_true (p : Palloc) : p.pool true = p.userPool := rfl

@[simp] theorem pool_setMap_self (user : Bool) (m : Bitmap) (p : Palloc) :
    (p.setMap user m).pool user = { p.pool user with usedMap := m } := by
  cases user <;> rfl

@[simp] theorem pool_setMap_not (user : Bool) (m : Bitmap) (p : Palloc) :
    (p.setMap user m).pool (!user) = p.pool (!user) := by
  cases user <;> rfl

@[simp] theorem pool_mem (user : Bool) (mem : Nat → UInt8) (p : Palloc) :
    { p with mem := mem }.pool user = p.pool user := rfl

/-- `palloc_get_multiple`。返す番地 0 は `NULL` である。 -/
def getMultiple (flags : PallocFlags) (pageCnt : Nat) (p : Palloc) :
    Except PallocPanic (Nat × Palloc) :=
  let pool := p.pool flags.user
  if pageCnt = 0 then .ok (0, p)
  else
    let (pages, p) := match pool.usedMap.scanAndFlip 0 pageCnt false with
      | some (pageIdx, usedMap) =>
        ((pool.base + pgSize * pageIdx) % 2 ^ 32, p.setMap flags.user usedMap)
      | none => (0, p)
    if pages ≠ 0 then
      .ok (pages, if flags.zero then p.memset pages 0 (pgSize * pageCnt) else p)
    else if flags.assert then .error .outOfPages
    else .ok (0, p)

def pageFromPool (pool : Pool) (page : Nat) : Bool :=
  pgNo pool.base ≤ pgNo page && pgNo page < pgNo pool.base + pool.usedMap.bitCnt

/-- `palloc_free_multiple` が page を返す pool。 -/
def owningPool (pages : Nat) (p : Palloc) : Option Bool :=
  if pageFromPool p.kernelPool pages then some false
  else if pageFromPool p.userPool pages then some true
  else none

/-- `palloc_free_multiple`。 -/
def freeMultiple (pages pageCnt : Nat) (p : Palloc) : Except PallocPanic Palloc :=
  if pgOfs pages ≠ 0 then .error .unaligned
  else if pages = 0 ∨ pageCnt = 0 then .ok p
  else
    match p.owningPool pages with
    | none => .error .notReached
    | some user =>
      let usedMap := (p.pool user).usedMap
      let pageIdx := pgNo pages - pgNo (p.pool user).base
      if usedMap.all pageIdx pageCnt = some true then
        match usedMap.setMultiple pageIdx pageCnt false with
        | none => .error .notAllocated
        | some usedMap => .ok ((p.memset pages 0xcc (pgSize * pageCnt)).setMap user usedMap)
      else .error .notAllocated

end Palloc

/-! ## 呼び出しの列 -/

/-- `palloc_get_multiple` が返した page のうち、まだ返されていないもの。 -/
structure Allocation where
  user : Bool
  pages : Finset Nat
deriving DecidableEq

/-- allocator と、それを使う側が持っている page。 -/
structure PallocUse where
  palloc : Palloc
  live : List Allocation

inductive PallocEvent
  | get (flags : PallocFlags) (pageCnt : Nat)
  | free (pages pageCnt : Nat)

/-- 番地 `pages` から `pageCnt` 個の page の番号。 -/
def pageRange (pages pageCnt : Nat) : Finset Nat := Finset.Ico (pgNo pages) (pgNo pages + pageCnt)

namespace PallocUse

/-- page `n` は使われている。 -/
def Owned (n : Nat) (u : PallocUse) : Prop := ∃ a ∈ u.live, n ∈ a.pages

instance (n : Nat) (u : PallocUse) : Decidable (u.Owned n) :=
  inferInstanceAs (Decidable (∃ a ∈ u.live, n ∈ a.pages))

/-- page の先頭の番地で、どの page も使われている。 -/
def Allocated (pages pageCnt : Nat) (u : PallocUse) : Prop :=
  pgOfs pages = 0 ∧ ∀ n ∈ pageRange pages pageCnt, u.Owned n

instance (pages pageCnt : Nat) (u : PallocUse) : Decidable (u.Allocated pages pageCnt) :=
  inferInstanceAs (Decidable (_ ∧ _))

def acquire (flags : PallocFlags) (pages pageCnt : Nat) (p : Palloc) (u : PallocUse) : PallocUse where
  palloc := p
  live := if pages = 0 then u.live else u.live ++ [⟨flags.user, pageRange pages pageCnt⟩]

def release (pages pageCnt : Nat) (p : Palloc) (u : PallocUse) : PallocUse where
  palloc := p
  live := u.live.map fun a => { a with pages := a.pages \ pageRange pages pageCnt }

/-- 一つの呼び出し。返すのは、使われている page だけである。 -/
def step (u : PallocUse) (e : PallocEvent) : Option PallocUse :=
  match e with
  | .get flags pageCnt =>
    match u.palloc.getMultiple flags pageCnt with
    | .ok (pages, p) => some (u.acquire flags pages pageCnt p)
    | .error _ => none
  | .free pages pageCnt =>
    if u.Allocated pages pageCnt then
      match u.palloc.freeMultiple pages pageCnt with
      | .ok p => some (u.release pages pageCnt p)
      | .error _ => none
    else none

end PallocUse

/-- `palloc_init` の後の、任意の呼び出しの列。 -/
def pallocSystem (initRamPages userPageLimit : Nat) : System PallocUse PallocEvent :=
  System.ofFun (fun u => ∃ garbage mem,
    pallocInit initRamPages userPageLimit garbage mem = .ok u.palloc ∧ u.live = []) PallocUse.step

end Pintos
