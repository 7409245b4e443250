import Mathlib.Data.List.Basic
import Pintos.Infra.Int32

/-!
# 語の配列の bitmap（`lib/kernel/bitmap.c`）

`elem_type` は 32 bit で、bit `i` は `i / 32` 番目の語の下から `i % 32` 番目にある。
`size_t` も 32 bit なので、番号の和は `2 ^ 32` で折り返す。

範囲の `ASSERT` が偽になることは `none` で表す。
-/

namespace Pintos

namespace WordBitmap

def elemBits : Nat := 32

def elemIdx (bitIdx : Nat) : Nat := bitIdx / elemBits

def bitMask (bitIdx : Nat) : BitVec 32 := 1#32 <<< (bitIdx % elemBits)

/-- `elem_cnt`。`DIV_ROUND_UP` の和も `size_t` で計算する。 -/
def elemCnt (bitCnt : Nat) : Nat := (bitCnt + (elemBits - 1)) % 2 ^ 32 / elemBits

def bitmapError : Nat := 2 ^ 32 - 1

end WordBitmap

open WordBitmap

/--
`struct bitmap`。`elem_cnt` 個の語があり、どの bit もその中に収まる。

`bit_cnt` が `2 ^ 32 - 31` 以上だと `elem_cnt` が折り返して 0 になり、`bitmap_create` は
`NULL` を返す。そのような bitmap は作られない。
-/
structure WordBitmap where
  bitCnt : Nat
  bits : List (BitVec 32)
  length_bits : bits.length = elemCnt bitCnt
  covers : bitCnt ≤ elemBits * bits.length

namespace WordBitmap

/-- `idx` 番目の語を書き換える。 -/
def modifyWord (b : WordBitmap) (idx : Nat) (f : BitVec 32 → BitVec 32) : WordBitmap where
  bitCnt := b.bitCnt
  bits := b.bits.modify idx f
  length_bits := by rw [List.length_modify, b.length_bits]
  covers := by rw [List.length_modify]; exact b.covers

/-- `bitmap_mark`。範囲は検査しない。 -/
def bitmapMark (b : WordBitmap) (bitIdx : Nat) : WordBitmap :=
  b.modifyWord (elemIdx bitIdx) (· ||| bitMask bitIdx)

def bitmapReset (b : WordBitmap) (bitIdx : Nat) : WordBitmap :=
  b.modifyWord (elemIdx bitIdx) (· &&& ~~~bitMask bitIdx)

def bitmapFlip (b : WordBitmap) (bitIdx : Nat) : WordBitmap :=
  b.modifyWord (elemIdx bitIdx) (· ^^^ bitMask bitIdx)

def bitmapSet (b : WordBitmap) (idx : Nat) (value : Bool) : Option WordBitmap :=
  if idx < b.bitCnt then some (if value then b.bitmapMark idx else b.bitmapReset idx) else none

def bitmapTest (b : WordBitmap) (idx : Nat) : Option Bool :=
  if idx < b.bitCnt then some (b.bits.getD (elemIdx idx) 0 &&& bitMask idx != 0) else none

/-- 範囲を受け取る関数の初めの `ASSERT`。 -/
def InRange (b : WordBitmap) (start cnt : Nat) : Prop :=
  start ≤ b.bitCnt ∧ (start + cnt) % 2 ^ 32 ≤ b.bitCnt

instance (b : WordBitmap) (start cnt : Nat) : Decidable (b.InRange start cnt) :=
  inferInstanceAs (Decidable (_ ∧ _))

/-- `bitmap_set_multiple` の for。残りは `remaining` 回である。 -/
def setLoop (start : Nat) (value : Bool) : (remaining i : Nat) → WordBitmap → Option WordBitmap
  | 0, _, b => some b
  | remaining + 1, i, b =>
    (b.bitmapSet ((start + i) % 2 ^ 32) value).bind (setLoop start value remaining (i + 1))

def bitmapSetMultiple (b : WordBitmap) (start cnt : Nat) (value : Bool) : Option WordBitmap :=
  if b.InRange start cnt then setLoop start value cnt 0 b else none

/-- `bitmap_count` の for。 -/
def countLoop (b : WordBitmap) (start : Nat) (value : Bool) :
    (remaining i valueCnt : Nat) → Option Nat
  | 0, _, valueCnt => some valueCnt
  | remaining + 1, i, valueCnt =>
    (b.bitmapTest ((start + i) % 2 ^ 32)).bind fun bit =>
      countLoop b start value remaining (i + 1) (if bit == value then valueCnt + 1 else valueCnt)

def bitmapCount (b : WordBitmap) (start cnt : Nat) (value : Bool) : Option Nat :=
  if b.InRange start cnt then countLoop b start value cnt 0 0 else none

/-- `bitmap_contains` の for。 -/
def containsLoop (b : WordBitmap) (start : Nat) (value : Bool) : (remaining i : Nat) → Option Bool
  | 0, _ => some false
  | remaining + 1, i =>
    (b.bitmapTest ((start + i) % 2 ^ 32)).bind fun bit =>
      if bit == value then some true else containsLoop b start value remaining (i + 1)

def bitmapContains (b : WordBitmap) (start cnt : Nat) (value : Bool) : Option Bool :=
  if b.InRange start cnt then containsLoop b start value cnt 0 else none

/-- `bitmap_scan` の for。`i` が `last` を超えるまで残り `remaining` 回である。 -/
def scanLoop (b : WordBitmap) (cnt : Nat) (value : Bool) : (remaining i : Nat) → Option Nat
  | 0, _ => some bitmapError
  | remaining + 1, i =>
    (b.bitmapContains i cnt (!value)).bind fun found =>
      if !found then some i else scanLoop b cnt value remaining (i + 1)

def bitmapScan (b : WordBitmap) (start cnt : Nat) (value : Bool) : Option Nat :=
  if start ≤ b.bitCnt then
    if cnt ≤ b.bitCnt then
      let last := b.bitCnt - cnt
      scanLoop b cnt value (last + 1 - start) start
    else some bitmapError
  else none

def bitmapScanAndFlip (b : WordBitmap) (start cnt : Nat) (value : Bool) :
    Option (Nat × WordBitmap) :=
  (b.bitmapScan start cnt value).bind fun idx =>
    if idx ≠ bitmapError then (b.bitmapSetMultiple idx cnt (!value)).map fun b' => (idx, b')
    else some (idx, b)

end WordBitmap

end Pintos
