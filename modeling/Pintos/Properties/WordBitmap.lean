import Pintos.Lib.Bitmap
import Pintos.Lib.WordBitmap

/-!
# 語の配列は bit の列を実現する

語の配列の bitmap を bit の列（`Bitmap`）に写す `toBitmap` の下で、どの操作も bit の列の操作に
なる。

番号の和は 32 bit で折り返すので、範囲の `ASSERT` を通っても範囲の外に出ることがある。
そのときは一つずつの bit の `ASSERT` で止まる。
-/

namespace Pintos.WordBitmap

open Function

variable {b b' : WordBitmap} {start cnt idx i : Nat} {value : Bool}

def bit (b : WordBitmap) (i : Nat) : Bool := (b.bits.getD (i / 32) 0).getLsbD (i % 32)

def toBitmap (b : WordBitmap) : Bitmap where
  bitCnt := b.bitCnt
  bits := b.bit

theorem bitCnt_le (b : WordBitmap) : b.bitCnt ≤ 2 ^ 32 - 32 := by
  have hcovers := b.covers
  rw [b.length_bits, elemCnt, elemBits] at hcovers
  omega

/-! ## 一つの bit -/

theorem bitMask_eq (idx : Nat) : bitMask idx = BitVec.twoPow 32 (idx % 32) := rfl

theorem bitMask_getLsbD (idx j : Nat) : (bitMask idx).getLsbD j = decide (idx % 32 = j) := by
  have hlt : idx % 32 < 32 := Nat.mod_lt _ (by decide)
  rw [bitMask_eq, BitVec.getLsbD_twoPow, decide_eq_true hlt, Bool.true_and]

theorem bit_modifyWord (h : idx < b.bitCnt) (f : BitVec 32 → BitVec 32) (i : Nat) :
    (b.modifyWord (elemIdx idx) f).bit i =
      if i / 32 = idx / 32 then (f (b.bits.getD (idx / 32) 0)).getLsbD (i % 32) else b.bit i := by
  have hlen : idx / 32 < b.bits.length := by
    have hcovers : b.bitCnt ≤ 32 * b.bits.length := b.covers
    omega
  show ((b.bits.modify (idx / 32) f).getD (i / 32) 0).getLsbD (i % 32) = _
  rw [List.getD_eq_getElem?_getD, List.getElem?_modify]
  by_cases heq : i / 32 = idx / 32
  · rw [if_pos heq, heq, List.getD_eq_getElem?_getD, List.getElem?_eq_getElem hlen]
    simp
  · rw [if_neg heq]
    simp only [if_neg (Ne.symm heq), Option.map_eq_map, Option.map_id']
    rw [← List.getD_eq_getElem?_getD]
    rfl

/-- **mask の bit にだけ `g` を施す命令は、bit `idx` にだけ `g` を施す。** -/
theorem toBitmap_modifyWord (h : idx < b.bitCnt) {f : BitVec 32 → BitVec 32} {g : Bool → Bool}
    (hf : ∀ w j, j < 32 →
      (f w).getLsbD j = if idx % 32 = j then g (w.getLsbD j) else w.getLsbD j) :
    (b.modifyWord (elemIdx idx) f).toBitmap =
      { b.toBitmap with bits := update b.bit idx (g (b.bit idx)) } := by
  refine congrArg (Bitmap.mk b.bitCnt) (funext fun i => ?_)
  have hmod : i % 32 < 32 := Nat.mod_lt _ (by decide)
  rw [bit_modifyWord h]
  split
  · next hword =>
    rw [hf _ _ hmod]
    split
    · next hbit =>
      obtain rfl : i = idx := by omega
      rw [update_self]
      rfl
    · next hbit =>
      rw [update_of_ne (by rintro rfl; exact hbit rfl), ← hword]
      rfl
  · next hword => rw [update_of_ne (by rintro rfl; exact hword rfl)]

theorem toBitmap_mark (h : idx < b.bitCnt) :
    (b.bitmapMark idx).toBitmap = { b.toBitmap with bits := update b.bit idx true } :=
  toBitmap_modifyWord h (g := fun _ => true) fun w j _ => by
    rw [BitVec.getLsbD_or, bitMask_getLsbD]
    split <;> simp [*]

theorem toBitmap_reset (h : idx < b.bitCnt) :
    (b.bitmapReset idx).toBitmap = { b.toBitmap with bits := update b.bit idx false } :=
  toBitmap_modifyWord h (g := fun _ => false) fun w j hj => by
    rw [BitVec.getLsbD_and, BitVec.getLsbD_not, bitMask_getLsbD]
    split <;> simp [*]

theorem toBitmap_flip (h : idx < b.bitCnt) :
    (b.bitmapFlip idx).toBitmap =
      { b.toBitmap with bits := update b.bit idx (!b.bit idx) } :=
  toBitmap_modifyWord h (g := (! ·)) fun w j _ => by
    rw [BitVec.getLsbD_xor, bitMask_getLsbD]
    split <;> simp [*]

theorem bitmapSet_eq (value : Bool) (h : idx < b.bitCnt) :
    ∃ b', b.bitmapSet idx value = some b' ∧
      b'.toBitmap = { b.toBitmap with bits := update b.bit idx value } := by
  refine ⟨_, if_pos h, ?_⟩
  cases value with
  | true => exact toBitmap_mark h
  | false => exact toBitmap_reset h

theorem bitmapTest_eq (h : idx < b.bitCnt) : b.bitmapTest idx = some (b.bit idx) := by
  have hmask : BitVec.twoPow 32 (idx % 32) ≠ 0#32 := fun hzero => by
    have hbit := bitMask_getLsbD idx (idx % 32)
    rw [bitMask_eq, hzero] at hbit
    simp at hbit
  rw [bitmapTest, if_pos h, bitMask_eq, BitVec.and_twoPow]
  show some (_ != 0#32) = some ((b.bits.getD (idx / 32) 0).getLsbD (idx % 32))
  rw [show elemIdx idx = idx / 32 from rfl]
  cases (b.bits.getD (idx / 32) 0).getLsbD (idx % 32) with
  | true => simpa using hmask
  | false => rfl

theorem mod_of_le (h : i ≤ b.bitCnt) : i % 2 ^ 32 = i := by
  have hle := b.bitCnt_le
  exact Nat.mod_eq_of_lt (by omega)

/-! ## 範囲への loop -/

/-- **`bitmap_set_multiple` の loop。** 範囲の外に出るなら、途中の `ASSERT` で止まる。 -/
theorem setLoop_eq (remaining i : Nat) (b : WordBitmap) (h : start + i ≤ b.bitCnt) :
    (setLoop start value remaining i b).map toBitmap =
      if start + i + remaining ≤ b.bitCnt then some (b.toBitmap.fill (start + i) remaining value)
      else none := by
  induction remaining generalizing i b with
  | zero =>
    rw [Nat.add_zero, if_pos h, setLoop, Option.map_some]
    refine congrArg some (congrArg (Bitmap.mk b.bitCnt) (funext fun j => ?_))
    rw [if_neg (by omega)]
    rfl
  | succ remaining ih =>
    rw [setLoop, mod_of_le h]
    rcases Nat.lt_or_ge (start + i) b.bitCnt with hlt | hge
    · obtain ⟨b', hset, hb'⟩ := bitmapSet_eq value hlt
      have hcnt : b'.bitCnt = b.bitCnt := congrArg Bitmap.bitCnt hb'
      rw [hset, Option.bind_some, ih (i + 1) b' (by omega), hcnt, hb']
      rw [show start + (i + 1) + remaining = start + i + (remaining + 1) by omega]
      congr 2
      refine congrArg (Bitmap.mk b.bitCnt) (funext fun j => ?_)
      show (if _ then value else update b.bit (start + i) value j) = if _ then value else _
      by_cases hj : j = start + i
      · rw [hj, update_self, ite_self, if_pos (by omega)]
      · rw [update_of_ne hj]
        refine if_congr (by omega) rfl rfl
    · rw [bitmapSet, if_neg (by omega), if_neg (by omega)]
      rfl

theorem countLoop_eq (remaining i valueCnt : Nat) (h : start + i ≤ b.bitCnt) :
    countLoop b start value remaining i valueCnt =
      if start + i + remaining ≤ b.bitCnt then
        some (valueCnt + (List.range' (start + i) remaining).countP (b.bit · == value))
      else none := by
  induction remaining generalizing i valueCnt with
  | zero =>
    rw [Nat.add_zero, if_pos h, countLoop]
    rfl
  | succ remaining ih =>
    rw [countLoop, mod_of_le h]
    rcases Nat.lt_or_ge (start + i) b.bitCnt with hlt | hge
    · rw [bitmapTest_eq hlt, Option.bind_some, ih _ _ (by omega), List.range'_succ,
        List.countP_cons, show start + (i + 1) + remaining = start + i + (remaining + 1) by omega]
      rw [show start + (i + 1) = start + i + 1 from rfl]
      congr 2
      split <;> omega
    · rw [bitmapTest, if_neg (by omega), if_neg (by omega)]
      rfl

/-- **`bitmap_contains` の loop。** 見つけたら、範囲の外に出る前に返る。 -/
theorem containsLoop_eq (remaining i : Nat) (h : start + i ≤ b.bitCnt) :
    containsLoop b start value remaining i =
      if (List.range' (start + i) (min remaining (b.bitCnt - (start + i)))).any (b.bit · == value)
      then some true
      else if start + i + remaining ≤ b.bitCnt then some false else none := by
  induction remaining generalizing i with
  | zero =>
    rw [if_neg (by simp), Nat.add_zero, if_pos h, containsLoop]
  | succ remaining ih =>
    rw [containsLoop, mod_of_le h]
    rcases Nat.lt_or_ge (start + i) b.bitCnt with hlt | hge
    · rw [bitmapTest_eq hlt, Option.bind_some, ih _ (by omega),
        show min (remaining + 1) (b.bitCnt - (start + i))
          = min remaining (b.bitCnt - (start + (i + 1))) + 1 by omega, List.range'_succ,
        List.any_cons, show start + (i + 1) + remaining = start + i + (remaining + 1) by omega]
      cases b.bit (start + i) == value with
      | true => rfl
      | false => rfl
    · rw [bitmapTest, if_neg (by omega), if_neg (by simp; omega), if_neg (by omega)]
      rfl

/-! ## 範囲を受け取る関数 -/

theorem not_inRange (h : ¬ b.InRange start cnt) : ¬(start ≤ b.bitCnt ∧ start + cnt ≤ b.bitCnt) := by
  rintro ⟨hs, hc⟩
  exact h ⟨hs, by rw [mod_of_le hc]; exact hc⟩

theorem bitmapSetMultiple_eq (b : WordBitmap) (start cnt : Nat) (value : Bool) :
    (b.bitmapSetMultiple start cnt value).map toBitmap
      = b.toBitmap.setMultiple start cnt value := by
  unfold bitmapSetMultiple Bitmap.setMultiple
  split
  · next h =>
    rw [setLoop_eq cnt 0 b h.1]
    exact if_congr (by simp only [toBitmap, h.1, true_and, Nat.add_zero]) rfl rfl
  · next h =>
    exact (if_neg (not_inRange h)).symm

theorem bitmapCount_eq (b : WordBitmap) (start cnt : Nat) (value : Bool) :
    b.bitmapCount start cnt value =
      if start + cnt ≤ b.bitCnt then
        some ((List.range' start cnt).countP (b.bit · == value))
      else none := by
  unfold bitmapCount
  split
  · next h => rw [countLoop_eq cnt 0 0 h.1, Nat.zero_add, Nat.add_zero]
  · next h =>
    have hout := not_inRange h
    rw [if_neg (by omega)]

theorem bitmapContains_eq (b : WordBitmap) (start cnt : Nat) (value : Bool) :
    b.bitmapContains start cnt value =
      if b.InRange start cnt then
        if (List.range' start (min cnt (b.bitCnt - start))).any (b.bit · == value) then some true
        else if start + cnt ≤ b.bitCnt then some false else none
      else none := by
  unfold bitmapContains
  split
  · next h => rw [containsLoop_eq cnt 0 h.1, Nat.add_zero]
  · rfl

/-- **`bitmap_contains` が返すなら、その答えは正しい。** -/
theorem bitmapContains_eq_some {found : Bool} (h : b.bitmapContains start cnt value = some found) :
    found = true ↔ ∃ j, start ≤ j ∧ j < start + cnt ∧ j < b.bitCnt ∧ b.bit j = value := by
  have hany : (List.range' start (min cnt (b.bitCnt - start))).any (b.bit · == value) = true ↔
      ∃ j, start ≤ j ∧ j < start + cnt ∧ j < b.bitCnt ∧ b.bit j = value := by
    rw [List.any_eq_true]
    constructor
    · rintro ⟨j, hj, hv⟩
      rw [List.mem_range'_1] at hj
      exact ⟨j, hj.1, by omega, by omega, by simpa using hv⟩
    · rintro ⟨j, h1, h2, h3, hv⟩
      exact ⟨j, by rw [List.mem_range'_1]; omega, by simpa using hv⟩
  rw [bitmapContains_eq] at h
  split at h
  · split at h
    · next hfound =>
      obtain rfl := Option.some.inj h
      simpa using hany.mp hfound
    · next hnot =>
      split at h
      · obtain rfl := Option.some.inj h
        simpa using fun hex => hnot (hany.mpr hex)
      · cases h
  · cases h

theorem bitmapContains_of_le (h : start + cnt ≤ b.bitCnt) :
    b.bitmapContains start cnt value = b.toBitmap.contains start cnt value := by
  have hrange : b.InRange start cnt := ⟨by omega, by rw [mod_of_le h]; exact h⟩
  have habs : b.toBitmap.contains start cnt value
      = some ((List.range cnt).any fun j => b.bit (start + j) == value) := if_pos ⟨hrange.1, h⟩
  rw [habs, bitmapContains_eq, if_pos hrange, if_pos h, Nat.min_eq_left (by omega),
    List.range'_eq_map_range, List.any_map]
  show (if (List.range cnt).any (fun j => b.bit (start + j) == value) then some true
    else some false) = some ((List.range cnt).any fun j => b.bit (start + j) == value)
  cases (List.range cnt).any fun j => b.bit (start + j) == value <;> rfl

/-! ## 空きを探す -/

/-- `i` から `cnt` 個の bit が、どれも `value` である。 -/
def Group (b : WordBitmap) (start cnt : Nat) (value : Bool) (i : Nat) : Prop :=
  start ≤ i ∧ i + cnt ≤ b.bitCnt ∧ ∀ j, i ≤ j → j < i + cnt → b.bit j = value

theorem scanLoop_eq (remaining i : Nat) (hcnt : cnt ≤ b.bitCnt)
    (h : remaining ≤ b.bitCnt - cnt + 1 - i) :
    scanLoop b cnt value remaining i =
      some (((List.range' i remaining).find? fun i =>
        b.toBitmap.contains i cnt (!value) == some false).getD bitmapError) := by
  induction remaining generalizing i with
  | zero => rfl
  | succ remaining ih =>
    have hle : i + cnt ≤ b.bitCnt := by omega
    rw [scanLoop, bitmapContains_of_le hle, List.range'_succ, List.find?_cons, Bitmap.contains,
      if_pos ⟨by show i ≤ b.bitCnt; omega, hle⟩, Option.bind_some]
    cases (List.range cnt).any fun j => b.toBitmap.bits (i + j) == !value with
    | true => exact ih (i + 1) (by omega)
    | false => rfl

theorem bitmapScan_eq (h : start ≤ b.bitCnt) :
    b.bitmapScan start cnt value = some ((b.toBitmap.scan start cnt value).getD bitmapError) := by
  unfold bitmapScan Bitmap.scan
  rw [if_pos h]
  split
  · next hcnt =>
    have hcnt' : cnt ≤ b.toBitmap.bitCnt := hcnt
    rw [if_pos hcnt']
    exact scanLoop_eq _ _ hcnt (Nat.le_refl _)
  · next hcnt =>
    have hcnt' : ¬ cnt ≤ b.toBitmap.bitCnt := hcnt
    rw [if_neg hcnt']
    rfl

/-- **見つけた位置は最小の空きで、無いときだけ `BITMAP_ERROR` になる。** -/
theorem bitmapScan_spec (cnt : Nat) (value : Bool) (h : start ≤ b.bitCnt) :
    ∃ idx, b.bitmapScan start cnt value = some idx ∧
      (idx = bitmapError ↔ ¬∃ i, b.Group start cnt value i) ∧
      (idx ≠ bitmapError →
        b.Group start cnt value idx ∧ ∀ i, b.Group start cnt value i → idx ≤ i) := by
  refine ⟨_, bitmapScan_eq h, ?_⟩
  cases hs : b.toBitmap.scan start cnt value with
  | none =>
    refine ⟨⟨fun _ => ?_, fun _ => rfl⟩, fun hne => absurd rfl hne⟩
    rintro ⟨i, hstart, hle, hall⟩
    obtain ⟨j, h1, h2, h3⟩ := Bitmap.scan_eq_none hs hstart hle
    exact h3 (hall j h1 h2)
  | some idx =>
    obtain ⟨hstart, hle, hall⟩ := Bitmap.scan_eq_some hs
    have hgroup : b.Group start cnt value idx := ⟨hstart, hle, hall⟩
    have hne : idx ≠ bitmapError := by
      have hcnt := b.bitCnt_le
      have hidx : idx + cnt ≤ b.bitCnt := hle
      unfold bitmapError
      omega
    refine ⟨⟨fun heq => absurd heq hne, fun hno => absurd ⟨idx, hgroup⟩ hno⟩, fun _ =>
      ⟨hgroup, fun i hi => Nat.le_of_not_lt fun hlt => ?_⟩⟩
    obtain ⟨j, h1, h2, h3⟩ := Bitmap.scan_minimal hs hi.1 hlt
    exact h3 (hi.2.2 j h1 h2)

theorem bitmapScanAndFlip_spec (h : start ≤ b.bitCnt) :
    ∃ idx b', b.bitmapScanAndFlip start cnt value = some (idx, b') ∧
      b.bitmapScan start cnt value = some idx ∧ (idx = bitmapError → b' = b) ∧
      (idx ≠ bitmapError → b'.toBitmap = b.toBitmap.fill idx cnt (!value)) := by
  obtain ⟨idx, hscan, -, hgroup⟩ := bitmapScan_spec cnt value h
  unfold bitmapScanAndFlip
  rw [hscan, Option.bind_some]
  by_cases hidx : idx = bitmapError
  · exact ⟨idx, b, by rw [if_neg (not_not.mpr hidx)], rfl, fun _ => rfl, fun hne => absurd hidx hne⟩
  · obtain ⟨⟨-, hle, -⟩, -⟩ := hgroup hidx
    have hset := bitmapSetMultiple_eq b idx cnt (!value)
    rw [Bitmap.setMultiple_of_le (show idx + cnt ≤ b.toBitmap.bitCnt from hle)] at hset
    obtain ⟨b', hb', hfill⟩ := Option.map_eq_some_iff.mp hset
    refine ⟨idx, b', ?_, rfl, fun heq => absurd heq hidx, fun _ => hfill⟩
    rw [if_pos hidx, hb']
    rfl

/--
**語の配列は bit の列を実現する。**

* 一つの bit の操作は、その bit だけを変える
* 範囲の操作は、範囲が bitmap の中にあるときだけ終わり、ちょうど範囲を変えるか数える
* `bitmap_contains` が返した答えは正しい
* `bitmap_scan` は最小の空きを返し、無いときだけ `BITMAP_ERROR` を返す
* `bitmap_scan_and_flip` は見つけた範囲だけを反転し、見つからなければ何も変えない
-/
theorem wordBitmap_refines (b : WordBitmap) (start cnt : Nat) (value : Bool) :
    (∀ idx, idx < b.bitCnt →
      (∃ b', b.bitmapSet idx value = some b' ∧
        b'.toBitmap = { b.toBitmap with bits := update b.bit idx value }) ∧
      (b.bitmapMark idx).toBitmap = { b.toBitmap with bits := update b.bit idx true } ∧
      (b.bitmapReset idx).toBitmap = { b.toBitmap with bits := update b.bit idx false } ∧
      (b.bitmapFlip idx).toBitmap =
        { b.toBitmap with bits := update b.bit idx (!b.bit idx) }) ∧
    (b.bitmapSetMultiple start cnt value).map toBitmap
      = (if start + cnt ≤ b.bitCnt then some (b.toBitmap.fill start cnt value) else none) ∧
    b.bitmapCount start cnt value
      = (if start + cnt ≤ b.bitCnt then some ((List.range' start cnt).countP (b.bit · == value))
        else none) ∧
    (start + cnt ≤ b.bitCnt → (b.bitmapContains start cnt value).isSome) ∧
    (∀ found, b.bitmapContains start cnt value = some found →
      (found = true ↔ ∃ j, start ≤ j ∧ j < start + cnt ∧ j < b.bitCnt ∧ b.bit j = value)) ∧
    (start ≤ b.bitCnt → ∃ idx, b.bitmapScan start cnt value = some idx ∧
      (idx = bitmapError ↔ ¬∃ i, b.Group start cnt value i) ∧
      (idx ≠ bitmapError →
        b.Group start cnt value idx ∧ ∀ i, b.Group start cnt value i → idx ≤ i)) ∧
    (start ≤ b.bitCnt → ∃ idx b', b.bitmapScanAndFlip start cnt value = some (idx, b') ∧
      b.bitmapScan start cnt value = some idx ∧ (idx = bitmapError → b' = b) ∧
      (idx ≠ bitmapError → b'.toBitmap = b.toBitmap.fill idx cnt (!value))) := by
  refine ⟨fun idx h => ⟨bitmapSet_eq value h, toBitmap_mark h, toBitmap_reset h, toBitmap_flip h⟩, ?_,
    bitmapCount_eq b start cnt value, fun h => ?_, fun found h => bitmapContains_eq_some h,
    bitmapScan_spec cnt value, bitmapScanAndFlip_spec⟩
  · rw [bitmapSetMultiple_eq, Bitmap.setMultiple]
    exact if_congr (by show start ≤ b.bitCnt ∧ start + cnt ≤ b.bitCnt ↔ _; omega) rfl rfl
  · have hs : start ≤ b.bitCnt := by omega
    rw [bitmapContains_of_le h, Bitmap.contains, if_pos ⟨hs, h⟩]
    rfl

/-- `101` の中の、0 の bit。 -/
theorem wordBitmap_refines_three :
    let b : WordBitmap := ⟨3, [5#32], rfl, by decide⟩
    ∃ idx, b.bitmapScan 0 1 false = some idx ∧ b.Group 0 1 false idx := by
  intro b
  obtain ⟨idx, hscan, hnone, hsome⟩ :=
    (wordBitmap_refines b 0 1 false).2.2.2.2.2.1 (Nat.zero_le _)
  have hone : b.Group 0 1 false 1 := by
    refine ⟨by decide, by decide, fun j h1 h2 => ?_⟩
    obtain rfl : j = 1 := by omega
    decide
  exact ⟨idx, hscan, (hsome fun herr => hnone.mp herr ⟨1, hone⟩).1⟩

end Pintos.WordBitmap
