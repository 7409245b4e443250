import Pintos.Infra.Except
import Pintos.Infra.Run
import Pintos.Threads.Vaddr

/-!
# block allocator（`threads/malloc.c`）

16 byte から 1024 byte までの 2 の冪ごとに descriptor を置き、page を同じ大きさの block に分ける。
それより大きい要求には、page をまとめて渡す。

* `struct arena` は page の先頭にあり、page の番号で呼ぶ
* `free_list` は block の番地の列とする。list の link の書き換えは `Lib/LinkedList.lean` にある
* 番地は 32 bit の数で、`Nat` で表す。`size_t` の計算は `2 ^ 32` で折り返す

## page allocator

`palloc_get_multiple` がどの page を返すか、返すかどうかは、呼び出しごとの引数 `r` で決まる。
`held` は渡されていてまだ返していない page の範囲で、重なる範囲は渡されない。

## 省いたもの

descriptor の lock は、一つの呼び出しの途中に同じ descriptor の呼び出しが挟まらないことしか
決めないので扱わない。空いている block の中に置かれる link は `mem` に現さない。
`realloc` は持たない。
-/

namespace Pintos.Malloc

open Infra Function

/-! ## データ -/

/-- `sizeof (struct arena)`。 -/
def arenaSize : Nat := 12

def arenaMagic : Nat := 0x9a548eed

structure Desc where
  blockSize : Nat
  blocksPerArena : Nat
  freeList : List Nat

/-- `struct arena`。`desc` は `descs` の添字で、大きい block では NULL である。 -/
structure Arena where
  magic : Nat
  desc : Option Nat
  freeCnt : Nat

/-- allocator の状態。 -/
structure Heap where
  desc : Nat → Desc
  descCnt : Nat
  /-- page の先頭にある `struct arena`。 -/
  arena : Nat → Arena
  mem : Nat → UInt8
  /-- palloc から受け取っている page の、最初の番号と個数。 -/
  held : List (Nat × Nat)

inductive MallocPanic
  /-- `malloc_init` の `desc_cnt` の検査。 -/
  | descCnt
  /-- `block_to_arena` と `arena_to_block` の検査。 -/
  | arenaNull
  | arenaMagic
  | blockOfs
  | bigBlockOfs
  | blockIdx
  /-- `arena_to_block` で `a->desc` が NULL である。 -/
  | descNull
  /-- `free` の `ASSERT (a->free_cnt == d->blocks_per_arena)`。 -/
  | freeCnt
  /-- 空の `free_list` からの `list_pop_front`、`free_list` に無い block の `list_remove`。 -/
  | listPopFront
  | listRemove
  /-- `palloc_free_multiple` の検査。 -/
  | pallocFree
deriving DecidableEq

namespace Heap

variable (h : Heap)

def setFreeList (d : Nat) (l : List Nat) : Heap :=
  { h with desc := update h.desc d { h.desc d with freeList := l } }

def setArena (page : Nat) (a : Arena) : Heap :=
  { h with arena := update h.arena page a }

def setFreeCnt (page n : Nat) : Heap := h.setArena page { h.arena page with freeCnt := n }

def memset (dst : Nat) (value : UInt8) (size : Nat) : Heap :=
  { h with mem := fun a => if dst ≤ a ∧ a < dst + size then value else h.mem a }

/-! ### 書き換えと field -/

variable {h} {d e page q n : Nat} {l l' : List Nat} {a : Arena}

@[simp] theorem setFreeList_arena : (h.setFreeList d l).arena = h.arena := rfl

@[simp] theorem setFreeList_freeList_self : ((h.setFreeList d l).desc d).freeList = l := by
  simp [setFreeList]

theorem setFreeList_freeList_of_ne (hne : e ≠ d) :
    ((h.setFreeList d l).desc e).freeList = (h.desc e).freeList := by
  simp [setFreeList, hne]

@[simp] theorem setFreeList_blockSize :
    ((h.setFreeList d l).desc e).blockSize = (h.desc e).blockSize := by
  by_cases hne : e = d
  · subst hne; simp [setFreeList]
  · simp [setFreeList, hne]

@[simp] theorem setFreeList_blocksPerArena :
    ((h.setFreeList d l).desc e).blocksPerArena = (h.desc e).blocksPerArena := by
  by_cases hne : e = d
  · subst hne; simp [setFreeList]
  · simp [setFreeList, hne]

@[simp] theorem setFreeList_setFreeList :
    (h.setFreeList d l).setFreeList d l' = h.setFreeList d l' := by
  simp [setFreeList]

@[simp] theorem setFreeList_self : h.setFreeList d (h.desc d).freeList = h := by
  simp [setFreeList]

@[simp] theorem setArena_arena_self : (h.setArena page a).arena page = a := by
  simp [setArena]

theorem setArena_arena_of_ne (hne : q ≠ page) : (h.setArena page a).arena q = h.arena q := by
  simp [setArena, hne]

@[simp] theorem setFreeCnt_desc : (h.setFreeCnt page n).desc = h.desc := rfl

@[simp] theorem setFreeCnt_freeCnt_self : ((h.setFreeCnt page n).arena page).freeCnt = n := by
  simp [setFreeCnt]

theorem setFreeCnt_arena_of_ne (hne : q ≠ page) :
    (h.setFreeCnt page n).arena q = h.arena q :=
  setArena_arena_of_ne hne

@[simp] theorem setFreeCnt_magic : ((h.setFreeCnt page n).arena q).magic = (h.arena q).magic := by
  by_cases hq : q = page
  · subst hq; simp [setFreeCnt]
  · rw [setFreeCnt_arena_of_ne hq]

@[simp] theorem setFreeCnt_arena_desc :
    ((h.setFreeCnt page n).arena q).desc = (h.arena q).desc := by
  by_cases hq : q = page
  · subst hq; simp [setFreeCnt]
  · rw [setFreeCnt_arena_of_ne hq]

end Heap

/-! ## 初期化 -/

/-- `malloc_init` の for。`slots` は `descs` の残りの数である。 -/
def mallocInitLoop : (slots : Nat) → (blockSize : Nat) → Heap → Except MallocPanic Heap
  | 0, blockSize, h => if blockSize < pgSize / 2 then .error .descCnt else .ok h
  | slots + 1, blockSize, h =>
    if blockSize < pgSize / 2 then
      mallocInitLoop slots (blockSize * 2)
        { h with
          desc := update h.desc h.descCnt
            ⟨blockSize, (pgSize - arenaSize) / blockSize, []⟩
          descCnt := h.descCnt + 1 }
    else .ok h

/-- `malloc_init`。`arena` と `mem` は memory の元の中身である。 -/
def mallocInit (arena : Nat → Arena) (mem : Nat → UInt8) : Except MallocPanic Heap :=
  mallocInitLoop 10 16
    { desc := fun _ => ⟨0, 0, []⟩, descCnt := 0, arena := arena, mem := mem, held := [] }

/-! ## page -/

/-- 渡してよい page の範囲。NULL を含まず、番地の範囲に収まり、渡してある page と重ならない。 -/
def Heap.Grantable (h : Heap) (page pageCnt : Nat) : Prop :=
  0 < page ∧ page + pageCnt ≤ 2 ^ 20 ∧
    ∀ r ∈ h.held, page + pageCnt ≤ r.1 ∨ r.1 + r.2 ≤ page

instance (h : Heap) (page pageCnt : Nat) : Decidable (h.Grantable page pageCnt) :=
  inferInstanceAs (Decidable (_ ∧ _ ∧ _))

/-- `palloc_get_multiple (0, page_cnt)`。 -/
def pallocGetMultiple (pageCnt : Nat) (r : Option Nat) (h : Heap) : Option (Nat × Heap) :=
  if pageCnt = 0 then none
  else
    r.bind fun page =>
      if h.Grantable page pageCnt then some (page, { h with held := (page, pageCnt) :: h.held })
      else none

/-- 返された page の先頭。`0xcc` で埋められている。 -/
def clearedArena : Arena := ⟨0xcccccccc, some 0xcccccccc, 0xcccccccc⟩

def pallocFreeMultiple (page pageCnt : Nat) (h : Heap) : Except MallocPanic Heap :=
  if (page, pageCnt) ∈ h.held then
    .ok { h.memset (pgSize * page) 0xcc (pgSize * pageCnt) with
      arena := fun q => if page ≤ q ∧ q < page + pageCnt then clearedArena else h.arena q
      held := h.held.erase (page, pageCnt) }
  else .error .pallocFree

/-! ## block と arena -/

def blockToArena (b : Nat) (h : Heap) : Except MallocPanic Nat :=
  let page := pgNo b
  if page = 0 then .error .arenaNull
  else if (h.arena page).magic ≠ arenaMagic then .error .arenaMagic
  else
    match (h.arena page).desc with
    | some d =>
      if (pgOfs b + (2 ^ 32 - arenaSize)) % 2 ^ 32 % (h.desc d).blockSize = 0 then .ok page
      else .error .blockOfs
    | none => if pgOfs b = arenaSize then .ok page else .error .bigBlockOfs

def arenaToBlock (page idx : Nat) (h : Heap) : Except MallocPanic Nat :=
  if page = 0 then .error .arenaNull
  else if (h.arena page).magic ≠ arenaMagic then .error .arenaMagic
  else
    match (h.arena page).desc with
    | some d =>
      if idx < (h.desc d).blocksPerArena then
        .ok (pgSize * page + arenaSize + idx * (h.desc d).blockSize)
      else .error .blockIdx
    | none => .error .descNull

def blockSize (b : Nat) (h : Heap) : Except MallocPanic Nat :=
  (blockToArena b h).map fun page =>
    match (h.arena page).desc with
    | some d => (h.desc d).blockSize
    | none => (pgSize * (h.arena page).freeCnt + (2 ^ 32 - pgOfs b)) % 2 ^ 32

/-! ## malloc -/

/-- `size` が収まる最小の descriptor。 -/
def findDesc (size : Nat) (h : Heap) : Option Nat :=
  (List.range h.descCnt).find? fun d => size ≤ (h.desc d).blockSize

/-- `DIV_ROUND_UP (size + sizeof *a, PGSIZE)`。 -/
def bigPageCnt (size : Nat) : Nat := (size + arenaSize + pgSize - 1) % 2 ^ 32 / pgSize

/-- どの descriptor にも収まらない要求。 -/
def mallocBig (size : Nat) (r : Option Nat) (h : Heap) : Option Nat × Heap :=
  match pallocGetMultiple (bigPageCnt size) r h with
  | none => (none, h)
  | some (page, h) =>
    (some (pgSize * page + arenaSize), h.setArena page ⟨arenaMagic, none, bigPageCnt size⟩)

/-- 新しい arena の block を `free_list` に入れる for。 -/
def carveLoop (d page : Nat) : (n i : Nat) → Heap → Except MallocPanic Heap
  | 0, _, h => .ok h
  | n + 1, i, h =>
    (arenaToBlock page i h).bind fun b =>
      carveLoop d page n (i + 1) (h.setFreeList d ((h.desc d).freeList ++ [b]))

/-- 受け取った page を arena にする。 -/
def initArena (d page : Nat) (h : Heap) : Except MallocPanic Heap :=
  carveLoop d page (h.desc d).blocksPerArena 0
    (h.setArena page ⟨arenaMagic, some d, (h.desc d).blocksPerArena⟩)

/-- `free_list` の先頭を取る。 -/
def takeBlock (d : Nat) (h : Heap) : Except MallocPanic (Option Nat × Heap) :=
  match (h.desc d).freeList with
  | [] => .error .listPopFront
  | b :: bs =>
    let h := h.setFreeList d bs
    (blockToArena b h).map fun page =>
      (some b, h.setFreeCnt page (((h.arena page).freeCnt + (2 ^ 32 - 1)) % 2 ^ 32))

/-- descriptor `d` の block。`free_list` が空なら、先に arena を作る。 -/
def mallocSmall (d : Nat) (r : Option Nat) (h : Heap) : Except MallocPanic (Option Nat × Heap) :=
  if (h.desc d).freeList = [] then
    match pallocGetMultiple 1 r h with
    | none => .ok (none, h)
    | some (page, h) => (initArena d page h).bind (takeBlock d)
  else takeBlock d h

def malloc (size : Nat) (r : Option Nat) (h : Heap) : Except MallocPanic (Option Nat × Heap) :=
  if size = 0 then .ok (none, h)
  else
    match findDesc size h with
    | none => .ok (mallocBig size r h)
    | some d => mallocSmall d r h

def calloc (a b : Nat) (r : Option Nat) (h : Heap) : Except MallocPanic (Option Nat × Heap) :=
  let size := a * b % 2 ^ 32
  if size < a ∨ size < b then .ok (none, h)
  else
    (malloc size r h).map fun x =>
      match x.1 with
      | none => (none, x.2)
      | some p => (some p, x.2.memset p 0 size)

/-! ## free -/

/-- arena の block を `free_list` から外す for。 -/
def removeLoop (d page : Nat) : (n i : Nat) → Heap → Except MallocPanic Heap
  | 0, _, h => .ok h
  | n + 1, i, h =>
    (arenaToBlock page i h).bind fun b =>
      if b ∈ (h.desc d).freeList then
        removeLoop d page n (i + 1) (h.setFreeList d ((h.desc d).freeList.erase b))
      else .error .listRemove

/-- 使っている block の無くなった arena を返す。 -/
def releaseArena (d page : Nat) (h : Heap) : Except MallocPanic Heap :=
  if (h.arena page).freeCnt = (h.desc d).blocksPerArena then
    (removeLoop d page (h.desc d).blocksPerArena 0 h).bind (pallocFreeMultiple page 1)
  else .error .freeCnt

/-- descriptor のある block の `free`。 -/
def freeSmall (d page b : Nat) (h : Heap) : Except MallocPanic Heap :=
  let h := h.memset b 0xcc (h.desc d).blockSize
  let h := h.setFreeList d (b :: (h.desc d).freeList)
  let h := h.setFreeCnt page (((h.arena page).freeCnt + 1) % 2 ^ 32)
  if (h.desc d).blocksPerArena ≤ (h.arena page).freeCnt then releaseArena d page h else .ok h

/-- `free`。NULL は `none` である。 -/
def free (p : Option Nat) (h : Heap) : Except MallocPanic Heap :=
  match p with
  | none => .ok h
  | some b =>
    (blockToArena b h).bind fun page =>
      match (h.arena page).desc with
      | some d => freeSmall d page b h
      | none => pallocFreeMultiple page (h.arena page).freeCnt h

/-! ## 呼び出しの列 -/

/-- allocator と、使う側が持っている block。 -/
structure HeapUse where
  heap : Heap
  live : List Nat

inductive HeapEvent
  /-- `r` は、page allocator に頼んだときの答えである。 -/
  | malloc (size : BitVec 32) (r : Option Nat)
  | free (p : Option Nat)

/-- 一つの呼び出し。返せるのは、持っている block か NULL だけである。 -/
def HeapUse.step (u : HeapUse) (e : HeapEvent) : Option HeapUse :=
  match e with
  | .malloc size r =>
    match Malloc.malloc size.toNat r u.heap with
    | .ok (p, h) => some ⟨h, p.toList ++ u.live⟩
    | .error _ => none
  | .free p =>
    if p.toList ⊆ u.live then
      match Malloc.free p u.heap with
      | .ok h => some ⟨h, p.elim u.live u.live.erase⟩
      | .error _ => none
    else none

/-- `malloc_init` の後の、任意の呼び出しの列。 -/
def mallocSystem : System HeapUse HeapEvent :=
  System.ofFun (fun u => ∃ arena mem, mallocInit arena mem = .ok u.heap ∧ u.live = []) HeapUse.step

end Pintos.Malloc
