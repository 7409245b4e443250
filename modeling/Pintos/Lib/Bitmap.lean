import Mathlib.Data.List.Basic
import Mathlib.Data.Nat.Bitwise

/-!
# bitmap（`lib/kernel/bitmap.c`）

`bits` の `i` 番目が bit `i` である。語の配列に置くと bit `i` は byte `i / 8` の下から `i % 8` 番目に来るので、
file に書く byte の列（`toBytes`）もここで決まる。

`malloc` した語のうち `bit_cnt` を超えた余りの bit は初期化されない。
その値は任意とし、file には書かれるが、読み戻すときに `last_mask` で消える。

範囲の `ASSERT` が偽になることは `none` で表す。
-/

namespace Pintos

structure Bitmap where
  bitCnt : Nat
  bits : Nat → Bool

namespace Bitmap

/-- `elem_cnt`。語は 32 bit である。 -/
def elemCnt (bitCnt : Nat) : Nat := (bitCnt + 31) / 32

def byteCnt (bitCnt : Nat) : Nat := 4 * elemCnt bitCnt

/-- `bitmap_create`。`garbage` は `malloc` した memory の元の中身である。 -/
def create (bitCnt : Nat) (garbage : Nat → Bool) : Bitmap where
  bitCnt := bitCnt
  bits i := if i < bitCnt then false else garbage i

/-- `bitmap_buf_size`。`struct bitmap` は 8 byte である。 -/
def bufSize (bitCnt : Nat) : Nat := 8 + byteCnt bitCnt

/-- `bitmap_create_in_buf`。`garbage` は渡された memory の元の中身である。 -/
def createInBuf (bitCnt blockSize : Nat) (garbage : Nat → Bool) : Option Bitmap :=
  if bufSize bitCnt ≤ blockSize then some (create bitCnt garbage) else none

/-- `bitmap_mark`。範囲は検査しない。 -/
def mark (b : Bitmap) (i : Nat) : Bitmap := { b with bits := Function.update b.bits i true }

/-- `start` から `cnt` 個の bit を `value` にした bitmap。 -/
def fill (b : Bitmap) (start cnt : Nat) (value : Bool) : Bitmap where
  bitCnt := b.bitCnt
  bits i := if start ≤ i ∧ i < start + cnt then value else b.bits i

/-- `bitmap_set_multiple`。 -/
def setMultiple (b : Bitmap) (start cnt : Nat) (value : Bool) : Option Bitmap :=
  if start ≤ b.bitCnt ∧ start + cnt ≤ b.bitCnt then some (b.fill start cnt value) else none

/-- `bitmap_contains`。 -/
def contains (b : Bitmap) (start cnt : Nat) (value : Bool) : Option Bool :=
  if start ≤ b.bitCnt ∧ start + cnt ≤ b.bitCnt then
    some ((List.range cnt).any fun i => b.bits (start + i) == value)
  else none

/-- `bitmap_all`。 -/
def all (b : Bitmap) (start cnt : Nat) : Option Bool := (b.contains start cnt false).map (! ·)

/-- `bitmap_scan`。`none` は `BITMAP_ERROR` である。 -/
def scan (b : Bitmap) (start cnt : Nat) (value : Bool) : Option Nat :=
  if cnt ≤ b.bitCnt then
    let last := b.bitCnt - cnt
    (List.range' start (last + 1 - start)).find? fun i => b.contains i cnt (!value) == some false
  else none

/-- `bitmap_scan_and_flip`。 -/
def scanAndFlip (b : Bitmap) (start cnt : Nat) (value : Bool) : Option (Nat × Bitmap) :=
  (b.scan start cnt value).bind fun idx => (b.setMultiple idx cnt (!value)).map fun b' => (idx, b')

/-- `bitmap_file_size`。 -/
def fileSize (b : Bitmap) : Nat := byteCnt b.bitCnt

/-- 語の配列の `j` 番目の byte。 -/
def byte (b : Bitmap) (j : Nat) : UInt8 := UInt8.ofNat (Nat.ofBits fun i : Fin 8 => b.bits (8 * j + i))

/-- 語の配列全体。 -/
def toBytes (b : Bitmap) : List UInt8 := (List.range b.fileSize).map b.byte

/-- `bitmap_read` が file の中身から作る bitmap。 -/
def ofBytes (b : Bitmap) (bytes : List UInt8) : Bitmap :=
  { b with bits := fun i => i < b.bitCnt && (bytes.getD (i / 8) 0).toNat.testBit (i % 8) }

/-! ## 範囲 -/

variable {b b' : Bitmap} {start cnt : Nat} {value : Bool}

@[simp] theorem fill_bitCnt (b : Bitmap) (start cnt : Nat) (value : Bool) :
    (b.fill start cnt value).bitCnt = b.bitCnt := rfl

theorem setMultiple_of_le (h : start + cnt ≤ b.bitCnt) :
    b.setMultiple start cnt value = some (b.fill start cnt value) := by
  unfold setMultiple
  rw [if_pos ⟨by omega, h⟩]

theorem all_eq_some_true : b.all start cnt = some true ↔
    start + cnt ≤ b.bitCnt ∧ ∀ i, start ≤ i → i < start + cnt → b.bits i = true := by
  unfold all contains
  split
  · next h =>
    simp only [Option.map_some, Option.some.injEq, List.any_eq_false, List.mem_range,
      beq_false, Bool.not_eq_eq_eq_not, Bool.not_true, Bool.not_eq_false, h.2,
      true_and]
    constructor
    · intro hall i hi hlt
      have := hall (i - start) (by omega)
      rwa [Nat.add_sub_cancel' hi] at this
    · intro hall i hi
      exact hall _ (by omega) (by omega)
  · next h =>
    simp only [Option.map_none, reduceCtorEq, false_iff, not_and]
    omega

/-! ## 空きを探す -/

theorem scan_eq_some {idx : Nat} (h : b.scan start cnt value = some idx) :
    start ≤ idx ∧ idx + cnt ≤ b.bitCnt ∧ ∀ i, idx ≤ i → i < idx + cnt → b.bits i = value := by
  unfold scan at h
  split at h
  · next hcnt =>
    have hmem := List.mem_of_find?_eq_some h
    have hp := List.find?_some h
    rw [List.mem_range'_1] at hmem
    have hle : idx + cnt ≤ b.bitCnt := by omega
    refine ⟨hmem.1, hle, fun i hi hlt => ?_⟩
    simp only [contains, hle, show idx ≤ b.bitCnt by omega, and_self, if_true, beq_iff_eq,
      Option.some.injEq, List.any_eq_false, List.mem_range] at hp
    have := hp (i - idx) (by omega)
    rw [Nat.add_sub_cancel' hi] at this
    cases hb : b.bits i <;> cases value <;> simp_all
  · cases h

theorem scan_eq_none (h : b.scan start cnt value = none) {idx : Nat} (hs : start ≤ idx)
    (hle : idx + cnt ≤ b.bitCnt) : ∃ i, idx ≤ i ∧ i < idx + cnt ∧ b.bits i ≠ value := by
  unfold scan at h
  rw [if_pos (by omega), List.find?_eq_none] at h
  have hidx := h idx (by rw [List.mem_range'_1]; omega)
  simp only [contains, hle, show idx ≤ b.bitCnt by omega, and_self, if_true, beq_iff_eq,
    Option.some.injEq, Bool.not_eq_false, List.any_eq_true, List.mem_range] at hidx
  obtain ⟨i, hi, hv⟩ := hidx
  refine ⟨idx + i, by omega, by omega, ?_⟩
  rw [hv]
  cases value <;> decide

theorem scan_minimal {idx j : Nat} (h : b.scan start cnt value = some idx) (hs : start ≤ j)
    (hj : j < idx) : ∃ i, j ≤ i ∧ i < j + cnt ∧ b.bits i ≠ value := by
  have hle := (scan_eq_some h).2.1
  unfold scan at h
  rw [if_pos (by omega), List.find?_range'_eq_some] at h
  have hnot := h.2.2 j hs hj
  simp only [contains, show j + cnt ≤ b.bitCnt by omega, show j ≤ b.bitCnt by omega, and_self,
    if_true, Bool.not_eq_true', beq_eq_false_iff_ne, ne_eq, Option.some.injEq,
    Bool.not_eq_false, List.any_eq_true, List.mem_range, beq_iff_eq] at hnot
  obtain ⟨i, hi, hv⟩ := hnot
  refine ⟨j + i, by omega, by omega, ?_⟩
  rw [hv]
  cases value <;> decide

theorem scanAndFlip_eq (b : Bitmap) (start cnt : Nat) (value : Bool) :
    b.scanAndFlip start cnt value =
      (b.scan start cnt value).map fun idx => (idx, b.fill idx cnt (!value)) := by
  unfold scanAndFlip
  cases hs : b.scan start cnt value with
  | none => rfl
  | some idx =>
    obtain ⟨-, hle, -⟩ := scan_eq_some hs
    rw [Option.bind_some, setMultiple_of_le hle]
    rfl

/-! ## file との間 -/

@[simp] theorem length_toBytes (b : Bitmap) : b.toBytes.length = byteCnt b.bitCnt := by
  simp [toBytes, fileSize]

theorem byte_testBit (b : Bitmap) (i : Nat) : (b.byte (i / 8)).toNat.testBit (i % 8) = b.bits i := by
  have hlt : i % 8 < 8 := Nat.mod_lt _ (by decide)
  rw [byte, UInt8.toNat_ofNat', Nat.mod_eq_of_lt (Nat.ofBits_lt_two_pow _),
    Nat.testBit_ofBits_lt _ _ hlt]
  congr 1
  exact Nat.div_add_mod i 8

theorem div_lt_byteCnt {bitCnt i : Nat} (h : i < bitCnt) : i / 8 < byteCnt bitCnt := by
  simp only [byteCnt, elemCnt]
  omega

theorem toBytes_testBit (b : Bitmap) {i : Nat} (hi : i < b.bitCnt) :
    (b.toBytes.getD (i / 8) 0).toNat.testBit (i % 8) = b.bits i := by
  rw [toBytes, fileSize, List.getD_eq_getElem?_getD, List.getElem?_map,
    List.getElem?_range (div_lt_byteCnt hi)]
  exact byte_testBit b i

end Bitmap

end Pintos
