import Pintos.Properties.Sort

/-!
# 二分探索の正しさ

探す範囲 `[first, last)` は、いつも要素の境目から境目までである。範囲の前の要素はどれも key より
小さく、範囲の後の要素はどれも key より大きい。

* 比べた要素が key より大きければ、その要素から後ろを捨てる
* 小さければ、その要素までを捨てる

どちらでも範囲は必ず縮むので、要素の数の回数までに終わる。
-/

namespace Pintos

variable {α β : Type} {compare : α → α → β → Int} {aux : β} {key : α} {elems : Nat → α}
variable {array cnt size lo hi : Nat}

namespace TotalPreorder

variable {a b c : α}

theorem lt_of_lt_of_notAbove (h : TotalPreorder fun a b => compare a b aux)
    (hab : compare a b aux < 0) (hbc : NotAbove compare aux b c) : compare a c aux < 0 := by
  by_contra hge
  have hca : compare c a aux ≤ 0 := by
    have hsymm := h.symm c a
    omega
  have hba : compare b a aux ≤ 0 := h.trans b c a hbc hca
  have hsymm := h.symm b a
  omega

theorem gt_of_gt_of_notAbove (h : TotalPreorder fun a b => compare a b aux)
    (hac : compare a c aux > 0) (hbc : NotAbove compare aux b c) : compare a b aux > 0 := by
  by_contra hle
  have hab : compare a b aux ≤ 0 := Int.not_lt.mp hle
  have hac' : compare a c aux ≤ 0 := h.trans a b c hab hbc
  omega

end TotalPreorder

def Ascending (compare : α → α → β → Int) (aux : β) (elems : Nat → α) (cnt : Nat) : Prop :=
  ∀ i j, i < j → j < cnt → NotAbove compare aux (elems i) (elems j)

theorem Ascending.notAbove (h : TotalPreorder fun a b => compare a b aux)
    (hs : Ascending compare aux elems cnt) {i j : Nat} (hij : i ≤ j) (hj : j < cnt) :
    NotAbove compare aux (elems i) (elems j) := by
  rcases Nat.lt_or_eq_of_le hij with hlt | rfl
  · exact hs i j hlt hj
  · exact h.refl (elems i)

/-- 探す範囲は `lo` 番から `hi` 番の前までで、key はその外にない。 -/
structure Window (compare : α → α → β → Int) (aux : β) (key : α) (elems : Nat → α)
    (cnt lo hi : Nat) : Prop where
  le : lo ≤ hi
  inside : hi ≤ cnt
  below : ∀ i, i < lo → compare key (elems i) aux > 0
  above : ∀ i, hi ≤ i → i < cnt → compare key (elems i) aux < 0

theorem elementAt_index (hsize : 0 < size) {i : Nat} (hi : i < cnt) :
    elementAt elems array cnt size (array + size * i) = .ok (elems i) := by
  have hsub : array + size * i - array = size * i := Nat.add_sub_cancel_left ..
  unfold elementAt
  rw [hsub, Nat.mul_div_cancel_left i hsize, Nat.mul_mod_right]
  exact if_pos ⟨Nat.le_add_right .., rfl, hi⟩

theorem middle_eq (hsize : 0 < size) (hfit : array + size * cnt < 2 ^ 32) (hle : lo ≤ hi)
    (hhi : hi ≤ cnt) :
    (array + size * lo + (array + size * hi - (array + size * lo)) / size / 2 * size) % 2 ^ 32
      = array + size * (lo + (hi - lo) / 2) := by
  have hspan : array + size * hi - (array + size * lo) = size * (hi - lo) := by
    rw [Nat.add_sub_add_left, Nat.mul_sub]
  have hmul : size * (lo + (hi - lo) / 2) ≤ size * cnt := Nat.mul_le_mul_left _ (by omega)
  rw [hspan, Nat.mul_div_cancel_left _ hsize, Nat.mul_comm _ size, Nat.add_assoc, ← Nat.mul_add]
  exact Nat.mod_eq_of_lt (by omega)

/-- 結果が正しいとは、key と等しい要素の address であるか、そういう要素がないことをいう。 -/
def SearchCorrect (compare : α → α → β → Int) (aux : β) (key : α) (elems : Nat → α)
    (array cnt size : Nat) : Option Nat → Prop
  | some p => ∃ i < cnt, p = array + size * i ∧ compare key (elems i) aux = 0
  | none => ∀ i < cnt, compare key (elems i) aux ≠ 0

/-- 範囲の長さより多い回数があれば、while は正しい結果で終わる。 -/
theorem searchLoop_ok (h : TotalPreorder fun a b => compare a b aux)
    (hs : Ascending compare aux elems cnt) (hsize : 0 < size) (hfit : array + size * cnt < 2 ^ 32)
    {fuel : Nat} (hw : Window compare aux key elems cnt lo hi) (hfuel : hi - lo < fuel) :
    ∃ r, searchLoop key elems array cnt size compare aux fuel (array + size * lo)
        (array + size * hi) = .ok r ∧ SearchCorrect compare aux key elems array cnt size r := by
  induction fuel generalizing lo hi with
  | zero => omega
  | succ fuel ih =>
    rw [searchLoop]
    split
    · next hlt =>
      have hne : lo < hi := by
        have hmul : size * lo < size * hi := by omega
        exact Nat.lt_of_mul_lt_mul_left hmul
      have hin := hw.inside
      have hmid : lo + (hi - lo) / 2 < hi := by omega
      simp only [middle_eq hsize hfit hw.le hin]
      generalize hm : lo + (hi - lo) / 2 = mid at hmid ⊢
      have hlo : lo ≤ mid := by omega
      rw [elementAt_index hsize (Nat.lt_of_lt_of_le hmid hin)]
      show ∃ r, (if compare key (elems mid) aux < 0 then _ else _) = _ ∧ _
      split
      · -- 真ん中から後ろは、どれも key より大きい
        next hcmp =>
        refine ih ⟨hlo, by omega, hw.below, fun i hmi hi => ?_⟩ (by omega)
        exact h.lt_of_lt_of_notAbove hcmp (hs.notAbove h hmi hi)
      · split
        · -- 真ん中までは、どれも key より小さい
          next hcmp =>
          have hnext : (array + size * mid + size) % 2 ^ 32 = array + size * (mid + 1) := by
            have hmul : size * (mid + 1) ≤ size * cnt := Nat.mul_le_mul_left _ (by omega)
            rw [Nat.add_assoc, ← Nat.mul_add_one]
            exact Nat.mod_eq_of_lt (by omega)
          rw [hnext]
          refine ih ⟨by omega, hin, fun i hi => ?_, hw.above⟩ (by omega)
          exact h.gt_of_gt_of_notAbove hcmp (hs.notAbove h (by omega) (by omega))
        · exact ⟨_, rfl, mid, by omega, rfl, by omega⟩
    · next hge =>
      have heq : lo = hi := by
        refine Nat.le_antisymm hw.le (Nat.le_of_not_lt fun hlt => hge ?_)
        have hmul : size * lo < size * hi := Nat.mul_lt_mul_of_pos_left hlt hsize
        omega
      refine ⟨none, rfl, fun i hi => ?_⟩
      rcases Nat.lt_or_ge i lo with hlt | hle
      · exact Int.ne_of_gt (hw.below i hlt)
      · exact Int.ne_of_lt (hw.above i (heq ▸ hle) hi)

theorem binarySearch_ok (h : TotalPreorder fun a b => compare a b aux)
    (hs : Ascending compare aux elems cnt) (hsize : 0 < size)
    (hfit : array + size * cnt < 2 ^ 32) (key : α) {fuel : Nat} (hfuel : cnt < fuel) :
    ∃ r, binarySearch fuel key elems array cnt size compare aux = .ok r ∧
      SearchCorrect compare aux key elems array cnt size r := by
  have hw : Window compare aux key elems cnt 0 cnt :=
    ⟨Nat.zero_le _, Nat.le_refl _, by simp, fun i hge hlt => absurd hlt (by omega)⟩
  have hrun := searchLoop_ok h hs hsize hfit hw (show cnt - 0 < fuel by omega)
  rw [Nat.mul_zero, Nat.add_zero] at hrun
  rwa [binarySearch, Nat.mod_eq_of_lt hfit]

/--
**二分探索は、どの長さの並んだ配列でも止まり、key と等しい要素があればその一つの address を、
なければ NULL を返す。**

配列の外の要素と比べると `outside` になるので、比べるのは配列の中の要素だけである。
-/
theorem binarySearch_correct (key : α) (elems : Nat → α) (hsize : 0 < size)
    (hfit : array + size * cnt < 2 ^ 32) {fuel : Nat} (hfuel : cnt < fuel) :
    (∀ (β : Type) (compare : α → α → β → Int) (aux : β),
        (TotalPreorder fun a b => compare a b aux) → Ascending compare aux elems cnt →
        ∃ r, binarySearch fuel key elems array cnt size compare aux = .ok r ∧
          SearchCorrect compare aux key elems array cnt size r) ∧
      ∀ compare : α → α → Int, TotalPreorder compare →
        Ascending compareThunk compare elems cnt →
        ∃ r, bsearch fuel key elems array cnt size compare = .ok r ∧
          SearchCorrect compareThunk compare key elems array cnt size r := by
  refine ⟨fun β compare aux h hs => binarySearch_ok h hs hsize hfit key hfuel, ?_⟩
  intro compare h hs
  have hthunk : TotalPreorder fun a b => compareThunk a b compare := h
  exact binarySearch_ok hthunk hs hsize hfit key hfuel

/-- 三つの `int` の配列から探す。 -/
theorem binarySearch_correct_three :
    ∃ r, binarySearch 4 2 (fun i => 2 * (i : Int)) 0x1000 3 4 byDifference () = .ok r ∧
      SearchCorrect byDifference () 2 (fun i => 2 * (i : Int)) 0x1000 3 4 r := by
  have hs : Ascending byDifference () (fun i => 2 * (i : Int)) 3 := fun i j hij hj => by
    simp only [NotAbove, byDifference]
    omega
  have hrun := binarySearch_correct 2 (fun i => 2 * (i : Int)) (show 0 < 4 by decide)
    (show 0x1000 + 4 * 3 < 2 ^ 32 by decide) (show 3 < 4 by decide)
  exact hrun.1 Unit byDifference () totalPreorder_byDifference hs

end Pintos
