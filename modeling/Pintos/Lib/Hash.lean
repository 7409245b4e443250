import Mathlib.Logic.Function.Basic

/-!
# hash 表（`lib/kernel/hash.c`）

要素は `struct hash_elem` の node である。bucket は node の list で、先頭に入れて
どこからでも外す。`aux` は `hash` と `less` に含める。

`rehash` の `malloc` の成否は操作の引数 `alloc` である。要素の数は `Nat` で表す。
node は互いに重ならない番地にあるので、その数も bucket の数も 32 bit を越えない。
-/

namespace Pintos

/-- `struct hash`。`buckets i` は `i` 番目の bucket の node である。 -/
structure Hash (α : Type) where
  elemCnt : Nat
  bucketCnt : Nat
  buckets : Nat → List α

namespace Hash

variable {α : Type}

/-- `malloc` が成功したときの `hash_init`。 -/
def hashInit : Hash α := ⟨0, 4, fun _ => []⟩

/-- `hash_clear`。`destructor` があれば、要素ごとに一度呼ぶ。 -/
def hashClear (destructor : Bool) (h : Hash α) : List α × Hash α :=
  (if destructor then (List.range h.bucketCnt).flatMap h.buckets else [],
    { h with elemCnt := 0, buckets := fun _ => [] })

/-! ## `rehash` の bucket の数 -/

/-- `turn_off_least_1bit`。 -/
def turnOffLeast1bit (x : Nat) : Nat := x &&& (x - 1)

/-- `is_power_of_2`。 -/
def isPowerOf2 (x : Nat) : Bool := x != 0 && turnOffLeast1bit x == 0

theorem turnOffLeast1bit_lt {x : Nat} (h : x ≠ 0) : turnOffLeast1bit x < x :=
  Nat.lt_of_le_of_lt Nat.and_le_right (by omega)

/-- 2 の冪になるまで最下位の 1 を消す while。0 では終わらないが、呼ばれるのは 4 以上である。 -/
def reduceToPower (x : Nat) : Nat :=
  if isPowerOf2 x then x
  else if _h : x = 0 then 0
  else reduceToPower (turnOffLeast1bit x)
termination_by x
decreasing_by exact turnOffLeast1bit_lt _h

/-- `rehash` が選ぶ bucket の数。 -/
def newBucketCnt (elemCnt : Nat) : Nat :=
  let cnt := elemCnt / 2
  reduceToPower (if cnt < 4 then 4 else cnt)

/-! ## 操作 -/

variable [DecidableEq α] (hash : α → Nat) (less : α → α → Bool)

/-- `find_bucket`。bucket の番号を返す。 -/
def findBucket (h : Hash α) (e : α) : Nat := hash e &&& (h.bucketCnt - 1)

def findElem (bucket : List α) (e : α) : Option α :=
  bucket.find? fun hi => !less hi e && !less e hi

/-- `list_push_front`。 -/
def pushFront (h : Hash α) (bucket : Nat) (e : α) : Hash α :=
  { h with buckets := Function.update h.buckets bucket (e :: h.buckets bucket) }

/-- `rehash`。`alloc` は `malloc` の成否である。 -/
def rehash (alloc : Bool) (h : Hash α) : Hash α :=
  let cnt := newBucketCnt h.elemCnt
  if cnt = h.bucketCnt then h
  else if !alloc then h
  else
    (List.range h.bucketCnt).foldl
      (fun h' i => (h.buckets i).foldl (fun h' e => h'.pushFront (h'.findBucket hash e) e) h')
      { h with bucketCnt := cnt, buckets := fun _ => [] }

def insertElem (h : Hash α) (bucket : Nat) (e : α) : Hash α :=
  { h with elemCnt := h.elemCnt + 1 }.pushFront bucket e

/-- `remove_elem`。node は、どの bucket にあってもそこから外れる。 -/
def removeElem (h : Hash α) (e : α) : Hash α :=
  { h with elemCnt := h.elemCnt - 1, buckets := fun i => (h.buckets i).erase e }

def hashInsert (alloc : Bool) (new : α) (h : Hash α) : Option α × Hash α :=
  let bucket := h.findBucket hash new
  let old := findElem less (h.buckets bucket) new
  let h := if old = none then h.insertElem bucket new else h
  (old, h.rehash hash alloc)

def hashReplace (alloc : Bool) (new : α) (h : Hash α) : Option α × Hash α :=
  let bucket := h.findBucket hash new
  let old := findElem less (h.buckets bucket) new
  let h := match old with
    | some old => h.removeElem old
    | none => h
  (old, (h.insertElem bucket new).rehash hash alloc)

def hashFind (e : α) (h : Hash α) : Option α := findElem less (h.buckets (h.findBucket hash e)) e

def hashDelete (alloc : Bool) (e : α) (h : Hash α) : Option α × Hash α :=
  match findElem less (h.buckets (h.findBucket hash e)) e with
  | some found => (some found, (h.removeElem found).rehash hash alloc)
  | none => (none, h)

/-! ## 反復 -/

/-- `i->elem` の指すもの。bucket の `list_head`、要素、`NULL` のどれかである。 -/
inductive Cursor (α : Type)
  | head
  | node (e : α)
  | null

/-- `struct hash_iterator`。 -/
structure Iterator (α : Type) where
  bucket : Nat
  elem : Cursor α

def hashFirst : Iterator α := ⟨0, .head⟩

/-- bucket の中で、指す所より後の要素。 -/
def after (bucket : List α) : Cursor α → List α
  | .head => bucket
  | .node e => (bucket.dropWhile (· ≠ e)).tail
  | .null => []

/-- `hash_next` の while。`elem` は、bucket の `list_end` なら `none` である。 -/
def nextElem (h : Hash α) (bucket : Nat) : Option α → Iterator α
  | some e => ⟨bucket, .node e⟩
  | none =>
    if bucket + 1 ≥ h.bucketCnt then ⟨bucket + 1, .null⟩
    else nextElem h (bucket + 1) (h.buckets (bucket + 1)).head?
termination_by h.bucketCnt - bucket

def hashNext (h : Hash α) (it : Iterator α) : Iterator α :=
  nextElem h it.bucket (after (h.buckets it.bucket) it.elem).head?

/-- 指す要素。`hash_next` の返り値になる。 -/
def Cursor.toOption : Cursor α → Option α
  | .node e => some e
  | _ => none

/-- `hash_next` を `n` 回呼んだ返り値。 -/
def nexts (h : Hash α) : Nat → Iterator α → List (Option α)
  | 0, _ => []
  | n + 1, it => (hashNext h it).elem.toOption :: nexts h n (hashNext h it)

/-! ## 操作の列 -/

inductive Op (α : Type)
  | insert (new : α) (alloc : Bool)
  | replace (new : α) (alloc : Bool)
  | delete (e : α) (alloc : Bool)
  | find (e : α)
  | clear (destructor : Bool)

/-- 操作の結果。`destroyed` は `destructor` を呼んだ要素である。 -/
inductive Out (α : Type)
  | elem (e : Option α)
  | destroyed (es : List α)

def perform (h : Hash α) : Op α → Out α × Hash α
  | .insert new alloc => (h.hashInsert hash less alloc new).map .elem id
  | .replace new alloc => (h.hashReplace hash less alloc new).map .elem id
  | .delete e alloc => (h.hashDelete hash less alloc e).map .elem id
  | .find e => (.elem (h.hashFind hash less e), h)
  | .clear destructor => (h.hashClear destructor).map .destroyed id

end Hash

end Pintos
