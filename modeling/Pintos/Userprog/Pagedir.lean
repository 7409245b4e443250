import Mathlib.Tactic.Simps.Basic
import Pintos.Infra.Run

/-!
# page directory（`userprog/pagedir.c`、`threads/pte.h`）

page directory と page table は、どちらも 32 bit の語が 1024 個並ぶ page である。
memory は、kernel の page の番地と添字から語を返す関数とする。

## page を渡す側

`palloc_get_page` が返す page は `alloc` で与える。`none` は失敗である。
返す page は、使われている page ではない（`Fresh`）。
`pagedir_set_page` に渡す `kpage` は、呼ぶ側が使ってよい page であり、
page directory や page table ではない（`Usable`）。

`invalidate_pagedir` が消す TLB は扱わない。
-/

namespace Pintos.Pagedir

open Infra

abbrev Word := BitVec 32

/-! ## 番地（`threads/vaddr.h`、`threads/pte.h`） -/

def physBase : Word := 0xc0000000

def pgOfs (va : Word) : Word := va &&& 0xfff

def ptNo (va : Word) : Nat := ((va &&& 0x3ff000) >>> 12).toNat

def pdNo (va : Word) : Nat := (va >>> 22).toNat

def isUserVaddr (va : Word) : Bool := va < physBase

/-- 偽になった `ASSERT` と `NOT_REACHED`。 -/
inductive PagedirPanic
  | vtopUser
  | ptovRange
  | pageUnaligned
  | pdeNotPresent
  | nullPd
  | kernelCreate
  | upageUnaligned
  | kpageUnaligned
  | upageKernel
  | kpageOutOfRam
  | initPageDir
  | alreadyMapped
  | notReached
  | bitmapAll
deriving DecidableEq

def vtop (va : Word) : Except PagedirPanic Word :=
  if physBase ≤ va then .ok (va - physBase) else .error .vtopUser

def ptov (pa : Word) : Except PagedirPanic Word :=
  if pa < physBase then .ok (pa + physBase) else .error .ptovRange

/-! ## 語の中の bit -/

def pteAddr : Word := 0xfffff000

def pteP : Word := 0x1

def pteW : Word := 0x2

def pteU : Word := 0x4

def pteA : Word := 0x20

def pteD : Word := 0x40

def pdeCreate (pt : Word) : Except PagedirPanic Word :=
  if pgOfs pt ≠ 0 then .error .pageUnaligned
  else (vtop pt).map fun pa => pa ||| pteU ||| pteP ||| pteW

def pdeGetPt (pde : Word) : Except PagedirPanic Word :=
  if pde &&& pteP = 0 then .error .pdeNotPresent else ptov (pde &&& pteAddr)

def pteCreateKernel (page : Word) (writable : Bool) : Except PagedirPanic Word :=
  if pgOfs page ≠ 0 then .error .pageUnaligned
  else (vtop page).map fun pa => pa ||| pteP ||| (if writable then pteW else 0)

def pteCreateUser (page : Word) (writable : Bool) : Except PagedirPanic Word :=
  (pteCreateKernel page writable).map (· ||| pteU)

def pteGetPage (pte : Word) : Except PagedirPanic Word := ptov (pte &&& pteAddr)

/-! ## memory -/

/-- page の番地と添字から語を返す。 -/
abbrev Mem := Word → Nat → Word

namespace Mem

def write (page : Word) (idx : Nat) (w : Word) (mem : Mem) : Mem :=
  fun p i => if p = page ∧ i = idx then w else mem p i

/-- page をすべて `w` にする。 -/
def fill (page w : Word) (mem : Mem) : Mem := fun p i => if p = page then w else mem p i

/-- `memcpy (dst, src, PGSIZE)`。 -/
def copyPage (dst src : Word) (mem : Mem) : Mem := fun p i => if p = dst then mem src i else mem p i

theorem write_apply (page : Word) (idx : Nat) (w : Word) (mem : Mem) (p : Word) (i : Nat) :
    mem.write page idx w p i = if p = page ∧ i = idx then w else mem p i := rfl

theorem fill_apply (page w : Word) (mem : Mem) (p : Word) (i : Nat) :
    mem.fill page w p i = if p = page then w else mem p i := rfl

end Mem

/-! ## page directory -/

/-- `lookup_page`。返すのは page table とその添字で、`none` は `NULL` である。 -/
def lookupPage (pd vaddr : Word) (create : Bool) (alloc : Option Word) (mem : Mem) :
    Except PagedirPanic (Option (Word × Nat) × Mem) :=
  if pd = 0 then .error .nullPd
  else if create = true ∧ isUserVaddr vaddr = false then .error .kernelCreate
  else if mem pd (pdNo vaddr) = 0 then
    if create then
      match alloc with
      | none => .ok (none, mem)
      | some pt =>
        (pdeCreate pt).bind fun pde =>
          (pdeGetPt pde).map fun pt' =>
            (some (pt', ptNo vaddr), (mem.fill pt 0).write pd (pdNo vaddr) pde)
    else .ok (none, mem)
  else (pdeGetPt (mem pd (pdNo vaddr))).map fun pt => (some (pt, ptNo vaddr), mem)

/-- `pagedir_set_page`。 -/
def setPage (initPd : Word) (ramPages : Nat) (pd upage kpage : Word) (writable : Bool)
    (alloc : Option Word) (mem : Mem) : Except PagedirPanic (Bool × Mem) :=
  if pgOfs upage ≠ 0 then .error .upageUnaligned
  else if pgOfs kpage ≠ 0 then .error .kpageUnaligned
  else if isUserVaddr upage = false then .error .upageKernel
  else (vtop kpage).bind fun pa =>
    if ramPages ≤ (pa >>> 12).toNat then .error .kpageOutOfRam
    else if pd = initPd then .error .initPageDir
    else (lookupPage pd upage true alloc mem).bind fun
      | (some (pt, idx), mem) =>
        if mem pt idx &&& pteP ≠ 0 then .error .alreadyMapped
        else (pteCreateUser kpage writable).map fun pte => (true, mem.write pt idx pte)
      | (none, mem) => .ok (false, mem)

/-- `pagedir_get_page`。`none` は `NULL` である。 -/
def getPage (pd uaddr : Word) (mem : Mem) : Except PagedirPanic (Option Word) :=
  if isUserVaddr uaddr = false then .error .upageKernel
  else (lookupPage pd uaddr false none mem).bind fun
    | (some (pt, idx), mem) =>
      if mem pt idx &&& pteP ≠ 0 then
        (pteGetPage (mem pt idx)).map fun page => some (page + pgOfs uaddr)
      else .ok none
    | (none, _) => .ok none

/-- `pagedir_clear_page`。 -/
def clearPage (pd upage : Word) (mem : Mem) : Except PagedirPanic Mem :=
  if pgOfs upage ≠ 0 then .error .upageUnaligned
  else if isUserVaddr upage = false then .error .upageKernel
  else (lookupPage pd upage false none mem).map fun
    | (some (pt, idx), mem) =>
      if mem pt idx &&& pteP ≠ 0 then mem.write pt idx (mem pt idx &&& ~~~pteP) else mem
    | (none, mem) => mem

/-- `pagedir_set_dirty` と `pagedir_set_accessed`。`flag` の bit を `value` にする。 -/
def setFlag (flag : Word) (pd vpage : Word) (value : Bool) (mem : Mem) : Except PagedirPanic Mem :=
  (lookupPage pd vpage false none mem).map fun
    | (some (pt, idx), mem) =>
      mem.write pt idx (if value then mem pt idx ||| flag else mem pt idx &&& ~~~flag)
    | (none, mem) => mem

def setDirty : Word → Word → Bool → Mem → Except PagedirPanic Mem := setFlag pteD

def setAccessed : Word → Word → Bool → Mem → Except PagedirPanic Mem := setFlag pteA

/-! ## 破棄 -/

/-- memory と palloc の表。`pool` は、page が pool の外なら `none`、中なら `used_map` の bit である。 -/
structure Destroying where
  mem : Mem
  pool : Word → Option Bool

/-- `palloc_free_page`。返した page は `0xcc` で埋まる。 -/
def Destroying.freePage (d : Destroying) (page : Word) : Except PagedirPanic Destroying :=
  if pgOfs page ≠ 0 then .error .pageUnaligned
  else if page = 0 then .ok d
  else
    match d.pool page with
    | none => .error .notReached
    | some false => .error .bitmapAll
    | some true =>
      .ok ⟨d.mem.fill page 0xcccccccc, Function.update d.pool page (some false)⟩

/-- page table の一つの entry。 -/
def destroyPte (pt : Word) (d : Destroying) (j : Nat) : Except PagedirPanic Destroying :=
  if d.mem pt j &&& pteP ≠ 0 then (pteGetPage (d.mem pt j)).bind d.freePage else .ok d

/-- page directory の一つの entry。 -/
def destroyPde (pd : Word) (d : Destroying) (i : Nat) : Except PagedirPanic Destroying :=
  if d.mem pd i &&& pteP ≠ 0 then
    (pdeGetPt (d.mem pd i)).bind fun pt =>
      ((List.range 1024).foldlM (destroyPte pt) d).bind (·.freePage pt)
  else .ok d

/-- `pagedir_destroy`。 -/
def destroy (initPd pd : Word) (d : Destroying) : Except PagedirPanic Destroying :=
  if pd = 0 then .ok d
  else if pd = initPd then .error .initPageDir
  else ((List.range (pdNo physBase)).foldlM (destroyPde pd) d).bind (·.freePage pd)

/-! ## 操作の列 -/

/-- 一つの page directory と、memory の中で使われている page。 -/
structure DirState where
  mem : Mem
  pd : Word
  initPd : Word
  /-- `init_page_dir` の page table。 -/
  kernelTables : List Word
  /-- `pd` のために作った page table。 -/
  tables : List Word

/-- kernel の page の先頭。 -/
def IsPage (p : Word) : Prop := pgOfs p = 0 ∧ physBase ≤ p

namespace DirState

@[simps] def setMem (mem : Mem) (s : DirState) : DirState := { s with mem }

/-- page directory と page table。 -/
def structures (s : DirState) : List Word := s.initPd :: s.pd :: (s.kernelTables ++ s.tables)

/-- `kpage` に渡してよい page。 -/
def Usable (s : DirState) (k : Word) : Prop := IsPage k ∧ k ∉ s.structures

/-- `kpage` が user の page に置かれている。 -/
def MapsTo (s : DirState) (k : Word) : Prop :=
  ∃ pt ∈ s.tables, ∃ j < 1024, s.mem pt j &&& pteP ≠ 0 ∧ pteGetPage (s.mem pt j) = .ok k

/-- `palloc_get_page` が返しうる page。 -/
def Fresh (s : DirState) (p : Word) : Prop := s.Usable p ∧ ¬ s.MapsTo p

end DirState

inductive DirEvent
  | setPage (upage kpage : Word) (writable : Bool) (alloc : Option Word)
  | clearPage (upage : Word)
  | setDirty (vpage : Word) (dirty : Bool)
  | setAccessed (vpage : Word) (accessed : Bool)

namespace DirState

/-- 作った page table を記録する。 -/
@[simps] def grow (upage : Word) (alloc : Option Word) (s : DirState) : DirState :=
  { s with tables := if s.mem s.pd (pdNo upage) = 0 then s.tables ++ alloc.toList else s.tables }

/-- 呼ぶ側の約束。番地は page の先頭で、`upage` は user の、まだ置かれていない page である。 -/
def allowed (ramPages : Nat) (s : DirState) : DirEvent → Prop
  | .setPage upage kpage _ alloc =>
    pgOfs upage = 0 ∧ isUserVaddr upage = true ∧ getPage s.pd upage s.mem = .ok none ∧
    s.Usable kpage ∧ ((kpage - physBase) >>> 12).toNat < ramPages ∧
    ∀ pt ∈ alloc, s.Fresh pt ∧ pt ≠ kpage
  | .clearPage upage => pgOfs upage = 0 ∧ isUserVaddr upage = true
  | .setDirty _ _ | .setAccessed _ _ => True

/-- 一つの操作。`ASSERT` が偽なら `none` である。 -/
def step (ramPages : Nat) (s : DirState) : DirEvent → Option DirState
  | .setPage upage kpage writable alloc =>
    (setPage s.initPd ramPages s.pd upage kpage writable alloc s.mem).toOption.map fun r =>
      (s.grow upage alloc).setMem r.2
  | .clearPage upage => (clearPage s.pd upage s.mem).toOption.map fun mem => s.setMem mem
  | .setDirty vpage dirty => (setDirty s.pd vpage dirty s.mem).toOption.map fun mem => s.setMem mem
  | .setAccessed vpage accessed =>
    (setAccessed s.pd vpage accessed s.mem).toOption.map fun mem => s.setMem mem

end DirState

/-- `paging_init` が作る `init_page_dir`。user の側は空で、kernel の側は page table を指す。 -/
structure InitPageDir (mem : Mem) (initPd : Word) (kernelTables : List Word) : Prop where
  user : ∀ i < pdNo physBase, mem initPd i = 0
  kernel : ∀ i, pdNo physBase ≤ i → i < 1024 → mem initPd i = 0 ∨
    ∃ pt ∈ kernelTables, pdeCreate pt = .ok (mem initPd i)

/-- `pagedir_create` の後。 -/
def created (mem : Mem) (initPd : Word) (kernelTables : List Word) (pd : Word) : DirState where
  mem := mem.copyPage pd initPd
  pd := pd
  initPd := initPd
  kernelTables := kernelTables
  tables := []

/-- `pagedir_create` が返した page directory への、任意の操作の列。 -/
def dirSystem (ramPages : Nat) : System DirState DirEvent where
  init s := ∃ mem initPd kernelTables pd, InitPageDir mem initPd kernelTables ∧
    (∀ p ∈ initPd :: kernelTables, IsPage p) ∧ initPd ∉ kernelTables ∧
    IsPage pd ∧ pd ∉ initPd :: kernelTables ∧ s = created mem initPd kernelTables pd
  step s e s' := s.allowed ramPages e ∧ s.step ramPages e = some s'

end Pintos.Pagedir
