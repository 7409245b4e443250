import Pintos.Infra.Int32
import Pintos.Infra.Rearrange

/-!
# 整列と探索（`lib/stdlib.c`）

`sort` と `qsort` は heapsort、`binary_search` と `bsearch` は二分探索である。

`sort` の配列は、1 から始まる番号から要素への関数で表す。`total` は配列の要素の数で、`1` から `total` の
外の番号を読み書きすると `outside` になる。要素は `SIZE` byte の塊であり、ここでは型 `α` の値と
する。

`size_t` は 32 bit なので、子の番号 `2 * i` と `2 * i + 1` は `2 ^ 32` で折り返す。
-/

namespace Pintos

open Infra

variable {α β : Type}

inductive SortFault
  | outside
  | outOfFuel
deriving DecidableEq

def doSwap (total : Nat) (array : Nat → α) (aIdx bIdx : Nat) : Except SortFault (Nat → α) :=
  if (1 ≤ aIdx ∧ aIdx ≤ total) ∧ (1 ≤ bIdx ∧ bIdx ≤ total) then
    .ok (swapAt array aIdx bIdx)
  else .error .outside

def doCompare (total : Nat) (compare : α → α → β → Int) (aux : β) (array : Nat → α)
    (aIdx bIdx : Nat) : Except SortFault Int :=
  if (1 ≤ aIdx ∧ aIdx ≤ total) ∧ (1 ≤ bIdx ∧ bIdx ≤ total) then
    .ok (compare (array aIdx) (array bIdx) aux)
  else .error .outside

/-- `heapify` の、子が `max` より大きければ `max` を子にする `if`。 -/
def pickMax (total : Nat) (compare : α → α → β → Int) (aux : β) (array : Nat → α)
    (cnt child max : Nat) : Except SortFault Nat :=
  if child ≤ cnt then
    (doCompare total compare aux array child max).map fun c => if c > 0 then child else max
  else .ok max

def heapify (total : Nat) (compare : α → α → β → Int) (aux : β) (cnt : Nat) :
    (fuel : Nat) → (array : Nat → α) → (i : Nat) → Except SortFault (Nat → α)
  | 0, _, _ => .error .outOfFuel
  | fuel + 1, array, i => do
    let left := 2 * i % 2 ^ 32
    let right := (2 * i + 1) % 2 ^ 32
    let max ← pickMax total compare aux array cnt left i
    let max ← pickMax total compare aux array cnt right max
    if max = i then .ok array
    else do
      let array ← doSwap total array i max
      heapify total compare aux cnt fuel array max

/-- heap を作る for。`i` から 1 まで下る。 -/
def buildHeap (compare : α → α → β → Int) (aux : β) (cnt fuel : Nat) :
    (i : Nat) → (array : Nat → α) → Except SortFault (Nat → α)
  | 0, array => .ok array
  | i + 1, array => do
    let array ← heapify cnt compare aux cnt fuel array (i + 1)
    buildHeap compare aux cnt fuel i array

/-- heap を並べる for。`i` から 2 まで下る。 -/
def sortHeap (compare : α → α → β → Int) (aux : β) (cnt fuel : Nat) :
    (i : Nat) → (array : Nat → α) → Except SortFault (Nat → α)
  | 0, array => .ok array
  | 1, array => .ok array
  | i + 2, array => do
    let array ← doSwap cnt array 1 (i + 2)
    let array ← heapify cnt compare aux (i + 1) fuel array 1
    sortHeap compare aux cnt fuel (i + 1) array

def sort (fuel : Nat) (array : Nat → α) (cnt : Nat) (compare : α → α → β → Int) (aux : β) :
    Except SortFault (Nat → α) := do
  let array ← buildHeap compare aux cnt fuel (cnt / 2) array
  sortHeap compare aux cnt fuel cnt array

def compareThunk (a b : α) (aux : α → α → Int) : Int := aux a b

def qsort (fuel : Nat) (array : Nat → α) (cnt : Nat) (compare : α → α → Int) :
    Except SortFault (Nat → α) :=
  sort fuel array cnt compareThunk compare

/-! ## 二分探索 -/

/-- `array` から `size` byte ずつ並ぶ `cnt` 個の要素のうち、address `p` にあるもの。
`elems` は 0 から始まる番号から要素への関数である。 -/
def elementAt (elems : Nat → α) (array cnt size p : Nat) : Except SortFault α :=
  if array ≤ p ∧ (p - array) % size = 0 ∧ (p - array) / size < cnt then
    .ok (elems ((p - array) / size))
  else .error .outside

/-- `binary_search` の while。`first` と `last` は address である。 -/
def searchLoop (key : α) (elems : Nat → α) (array cnt size : Nat) (compare : α → α → β → Int)
    (aux : β) : (fuel first last : Nat) → Except SortFault (Option Nat)
  | 0, _, _ => .error .outOfFuel
  | fuel + 1, first, last =>
    if first < last then do
      let range := (last - first) / size
      let middle := (first + range / 2 * size) % 2 ^ 32
      let element ← elementAt elems array cnt size middle
      let cmp := compare key element aux
      if cmp < 0 then searchLoop key elems array cnt size compare aux fuel first middle
      else if cmp > 0 then
        searchLoop key elems array cnt size compare aux fuel ((middle + size) % 2 ^ 32) last
      else .ok (some middle)
    else .ok none

/-- `binary_search`。見つけた要素の address を返す。 -/
def binarySearch (fuel : Nat) (key : α) (elems : Nat → α) (array cnt size : Nat)
    (compare : α → α → β → Int) (aux : β) : Except SortFault (Option Nat) :=
  searchLoop key elems array cnt size compare aux fuel array ((array + size * cnt) % 2 ^ 32)

def bsearch (fuel : Nat) (key : α) (elems : Nat → α) (array cnt size : Nat)
    (compare : α → α → Int) : Except SortFault (Option Nat) :=
  binarySearch fuel key elems array cnt size compareThunk compare

end Pintos
