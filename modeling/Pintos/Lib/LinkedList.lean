import Pintos.Infra.Links

/-!
# 双方向 list（`lib/kernel/list.c`）

`struct list_elem` の `next` と `prev` を、pointer から pointer への写像 `Links` とする。
pointer の型 `α` は任意で、NULL は `none` である。

関数が `none` を返すのは、`ASSERT` が偽になるか、NULL を参照するときである。
fuel を取る loop では、fuel が尽きたときも `none` を返す。

C の式は書かれた順に評価し、書き換えた後の link は読み直す。
-/

namespace Pintos.Pointer

open Infra

variable {α : Type}

/-- `struct list`。両端の番兵の pointer を持つ。 -/
structure ListHdr (α : Type) where
  head : α
  tail : α
deriving DecidableEq

/-! ## 読むだけの関数 -/

section

variable (k : Links α) (l : ListHdr α) (e : α)

def isHead : Bool := (k.prev e).isNone && (k.next e).isSome

def isInterior : Bool := (k.prev e).isSome && (k.next e).isSome

def isTail : Bool := (k.prev e).isSome && (k.next e).isNone

def listBegin : Option α := k.next l.head

def listNext : Option α := if isHead k e || isInterior k e then k.next e else none

def listEnd : α := l.tail

def listRbegin : Option α := k.prev l.tail

def listPrev : Option α := if isInterior k e || isTail k e then k.prev e else none

def listRend : α := l.head

end

variable [DecidableEq α]

def listEmpty (k : Links α) (l : ListHdr α) : Bool := listBegin k l = some (listEnd l)

def listFront (k : Links α) (l : ListHdr α) : Option α :=
  if listEmpty k l then none else k.next l.head

def listBack (k : Links α) (l : ListHdr α) : Option α :=
  if listEmpty k l then none else k.prev l.tail

/-- `for (e = ...; e != stop; e = list_next (e))` が通る要素。 -/
def forward (k : Links α) (stop : α) : Nat → α → Option (List α)
  | 0, _ => none
  | fuel + 1, e =>
    if e = stop then some []
    else (listNext k e).bind fun e' => (forward k stop fuel e').map (e :: ·)

/-- `for (e = ...; e != stop; e = list_prev (e))` が通る要素。 -/
def backward (k : Links α) (stop : α) : Nat → α → Option (List α)
  | 0, _ => none
  | fuel + 1, e =>
    if e = stop then some []
    else (listPrev k e).bind fun e' => (backward k stop fuel e').map (e :: ·)

def traverse (k : Links α) (l : ListHdr α) (fuel : Nat) : Option (List α) :=
  (listBegin k l).bind (forward k (listEnd l) fuel)

def rtraverse (k : Links α) (l : ListHdr α) (fuel : Nat) : Option (List α) :=
  (listRbegin k l).bind (backward k (listRend l) fuel)

/-! ## link を書き換える関数 -/

def listInit (l : ListHdr α) (k : Links α) : Links α :=
  (((k.setPrev l.head none).setNext l.head (some l.tail)).setPrev l.tail (some l.head)).setNext
    l.tail none

def listInsert (before elem : α) (k : Links α) : Option (Links α) :=
  if isInterior k before || isTail k before then
    let k₁ := (k.setPrev elem (k.prev before)).setNext elem (some before)
    (k₁.prev before).map fun p => (k₁.setNext p (some elem)).setPrev before (some elem)
  else none

/-- 空でない範囲 `first` から `last` まで（`last` を含む）を、今の list から外す。 -/
def unlink (first last : α) (k : Links α) : Option (Links α) :=
  (k.prev first).bind fun p =>
    let k₁ := k.setNext p (k.next last)
    (k₁.next last).map fun n => k₁.setPrev n (k₁.prev first)

/-- 外した範囲を `before` の前に入れる。 -/
def relink (before first last : α) (k : Links α) : Option (Links α) :=
  let k₁ := (k.setPrev first (k.prev before)).setNext last (some before)
  (k₁.prev before).map fun p => (k₁.setNext p (some first)).setPrev before (some last)

/-- `list_splice`。`last` は範囲に含まれない。 -/
def listSplice (before first last : α) (k : Links α) : Option (Links α) :=
  if isInterior k before || isTail k before then
    if first = last then some k
    else
      (listPrev k last).bind fun last =>
        if isInterior k first && isInterior k last then
          (unlink first last k).bind (relink before first last)
        else none
  else none

def listPushFront (l : ListHdr α) (elem : α) (k : Links α) : Option (Links α) :=
  (listBegin k l).bind fun e => listInsert e elem k

def listPushBack (l : ListHdr α) (elem : α) (k : Links α) : Option (Links α) :=
  listInsert (listEnd l) elem k

/-- 外した要素の次の要素を返す。 -/
def listRemove (elem : α) (k : Links α) : Option (α × Links α) :=
  if isInterior k elem then
    (unlink elem elem k).bind fun k' => (k'.next elem).map fun e => (e, k')
  else none

def listPopFront (l : ListHdr α) (k : Links α) : Option (α × Links α) :=
  (listFront k l).bind fun front => (listRemove front k).map fun r => (front, r.2)

def listPopBack (l : ListHdr α) (k : Links α) : Option (α × Links α) :=
  (listBack k l).bind fun back => (listRemove back k).map fun r => (back, r.2)

/-! ## 反転 -/

/-- `swap (&e->prev, &e->next)`。 -/
def swapLinks (e : α) (k : Links α) : Links α :=
  (k.setPrev e (k.next e)).setNext e (k.prev e)

/-- 各要素の `prev` と `next` を入れ替える。次の要素は、入れ替えた後の `prev` である。 -/
def reverseLoop (stop : α) : Nat → α → Links α → Option (Links α)
  | 0, _, _ => none
  | fuel + 1, e, k =>
    if e = stop then some k
    else ((swapLinks e k).prev e).bind fun e' => reverseLoop stop fuel e' (swapLinks e k)

/-- 番兵の link を入れ替え、番兵の隣の要素の link を入れ替える。 -/
def swapEnds (l : ListHdr α) (k : Links α) : Option (Links α) :=
  let k₁ := (k.setNext l.head (k.prev l.tail)).setPrev l.tail (k.next l.head)
  (k₁.next l.head).bind fun front => (k₁.prev l.tail).map fun back =>
    (k₁.setPrev front (k₁.next back)).setNext back (k₁.prev front)

def listReverse (fuel : Nat) (l : ListHdr α) (k : Links α) : Option (Links α) :=
  if listEmpty k l then some k
  else
    (listBegin k l).bind fun e => (reverseLoop (listEnd l) fuel e k).bind (swapEnds l)

/-! ## 比較関数を使う関数 -/

section

variable (less : α → α → Bool)

/-- `elem` を入れる位置。 -/
def insertPoint (k : Links α) (stop elem : α) : Nat → α → Option α
  | 0, _ => none
  | fuel + 1, e =>
    if e = stop || less elem e then some e
    else (listNext k e).bind (insertPoint k stop elem fuel)

def listInsertOrdered (fuel : Nat) (l : ListHdr α) (elem : α) (k : Links α) : Option (Links α) :=
  ((listBegin k l).bind (insertPoint less k (listEnd l) elem fuel)).bind fun e =>
    listInsert e elem k

/-- `duplicates` が NULL でなければ、その最後に足す。 -/
def pushDuplicate (duplicates : Option (ListHdr α)) (e : α) (k : Links α) : Option (Links α) :=
  match duplicates with
  | none => some k
  | some d => listPushBack d e k

def uniqueLoop (stop : α) (duplicates : Option (ListHdr α)) : Nat → α → Links α → Option (Links α)
  | 0, _, _ => none
  | fuel + 1, elem, k =>
    (listNext k elem).bind fun next =>
      if next = stop then some k
      else if !less elem next && !less next elem then
        (listRemove next k).bind fun r =>
          (pushDuplicate duplicates next r.2).bind (uniqueLoop stop duplicates fuel elem)
      else uniqueLoop stop duplicates fuel next k

def listUnique (fuel : Nat) (l : ListHdr α) (duplicates : Option (ListHdr α)) (k : Links α) :
    Option (Links α) :=
  if listEmpty k l then some k
  else (listBegin k l).bind fun e => uniqueLoop less (listEnd l) duplicates fuel e k

/-! ## 整列 -/

/-- `is_sorted` の loop。`a` は調べ終えた最後の要素である。 -/
def isSortedLoop (k : Links α) (b : α) : Nat → α → Option Bool
  | 0, _ => none
  | fuel + 1, a =>
    (listNext k a).bind fun a =>
      if a = b then some true
      else (listPrev k a).bind fun p => if less a p then some false else isSortedLoop k b fuel a

def isSorted (fuel : Nat) (k : Links α) (a b : α) : Option Bool :=
  if a ≠ b then isSortedLoop less k b fuel a else some true

/-- `find_end_of_run` の `do ... while`。 -/
def endOfRunLoop (k : Links α) (b : α) : Nat → α → Option α
  | 0, _ => none
  | fuel + 1, a =>
    (listNext k a).bind fun a =>
      if a = b then some a
      else (listPrev k a).bind fun p => if less a p then some a else endOfRunLoop k b fuel a

def findEndOfRun (fuel : Nat) (k : Links α) (a b : α) : Option α :=
  if a ≠ b then endOfRunLoop less k b fuel a else none

/-- 前の run は `a0` から `a1b0` まで、後の run は `a1b0` から `b1` までである。 -/
def mergeLoop (b1 : α) : Nat → α → α → Links α → Option (Links α)
  | 0, _, _, _ => none
  | fuel + 1, a0, a1b0, k =>
    if a0 ≠ a1b0 ∧ a1b0 ≠ b1 then
      if !less a1b0 a0 then (listNext k a0).bind fun a0 => mergeLoop b1 fuel a0 a1b0 k
      else
        (listNext k a1b0).bind fun a1b0 => (listPrev k a1b0).bind fun first =>
          (listSplice a0 first a1b0 k).bind (mergeLoop b1 fuel a0 a1b0)
    else some k

def inplaceMerge (fuel : Nat) (a0 a1b0 b1 : α) (k : Links α) : Option (Links α) :=
  (isSorted less fuel k a0 a1b0).bind fun sortedA =>
    (isSorted less fuel k a1b0 b1).bind fun sortedB =>
      if sortedA && sortedB then mergeLoop less b1 fuel a0 a1b0 k else none

/-- 列を一度なめる `for` の loop。`fuel` は中の loop に渡す。 -/
def sortPass (fuel : Nat) (l : ListHdr α) : Nat → α → Nat → Links α → Option (Nat × Links α)
  | 0, _, _, _ => none
  | n + 1, a0, outputRunCnt, k =>
    if a0 = listEnd l then some (outputRunCnt, k)
    else
      (findEndOfRun less fuel k a0 (listEnd l)).bind fun a1b0 =>
        if a1b0 = listEnd l then some (outputRunCnt + 1, k)
        else
          (findEndOfRun less fuel k a1b0 (listEnd l)).bind fun b1 =>
            (inplaceMerge less fuel a0 a1b0 b1 k).bind (sortPass fuel l n b1 (outputRunCnt + 1))

/-- `do ... while (output_run_cnt > 1)`。 -/
def sortLoop (fuel : Nat) (l : ListHdr α) : Nat → Links α → Option (Links α)
  | 0, _ => none
  | n + 1, k =>
    (listBegin k l).bind fun a0 => (sortPass less fuel l fuel a0 0 k).bind fun r =>
      if 1 < r.1 then sortLoop fuel l n r.2 else some r.2

def listSort (fuel : Nat) (l : ListHdr α) (k : Links α) : Option (Links α) :=
  (sortLoop less fuel l fuel k).bind fun k => (listBegin k l).bind fun e =>
    (isSorted less fuel k e (listEnd l)).bind fun sorted => if sorted then some k else none

end

/-! ## 操作 -/

inductive ListOp (α : Type)
  | init (l : ListHdr α)
  | insert (before elem : α)
  | splice (before first last : α)
  | pushFront (l : ListHdr α) (elem : α)
  | pushBack (l : ListHdr α) (elem : α)
  | remove (elem : α)
  | popFront (l : ListHdr α)
  | popBack (l : ListHdr α)
  | reverse (l : ListHdr α)
  | insertOrdered (l : ListHdr α) (elem : α)
  | unique (l : ListHdr α) (duplicates : Option (ListHdr α))
deriving DecidableEq

/-- 操作の戻り値と、後の link。 -/
def exec (less : α → α → Bool) (fuel : Nat) (op : ListOp α) (k : Links α) :
    Option (Option α × Links α) :=
  match op with
  | .init l => some (none, listInit l k)
  | .insert before elem => (listInsert before elem k).map (none, ·)
  | .splice before first last => (listSplice before first last k).map (none, ·)
  | .pushFront l elem => (listPushFront l elem k).map (none, ·)
  | .pushBack l elem => (listPushBack l elem k).map (none, ·)
  | .remove elem => (listRemove elem k).map fun r => (some r.1, r.2)
  | .popFront l => (listPopFront l k).map fun r => (some r.1, r.2)
  | .popBack l => (listPopBack l k).map fun r => (some r.1, r.2)
  | .reverse l => (listReverse fuel l k).map (none, ·)
  | .insertOrdered l elem => (listInsertOrdered less fuel l elem k).map (none, ·)
  | .unique l duplicates => (listUnique less fuel l duplicates k).map (none, ·)

end Pintos.Pointer
