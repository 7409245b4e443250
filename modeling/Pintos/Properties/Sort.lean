import Pintos.Infra.Except
import Pintos.Lib.Sort

/-!
# heapsort の正しさ

* `heapify` は、`i` の下でだけ崩れた heap を直す
* `buildHeap` は heap を作り、`sortHeap` は大きいものから順に後ろに置く

子の番号は 32 bit で折り返すので、要素が `2 ^ 31` 個以上あると `2 * i` が 0 になることがある。
-/

namespace Pintos

open Infra

variable {α β : Type} {compare : α → α → β → Int} {aux : β}

/-- `compare` は全前順序である。 -/
structure TotalPreorder (compare : α → α → Int) : Prop where
  symm : ∀ a b, compare a b > 0 ↔ compare b a < 0
  trans : ∀ a b c, compare a b ≤ 0 → compare b c ≤ 0 → compare a c ≤ 0

/-- `a` は `b` より大きくない。 -/
def NotAbove (compare : α → α → β → Int) (aux : β) (a b : α) : Prop := compare a b aux ≤ 0

namespace TotalPreorder

variable {a b c : α}

theorem refl (h : TotalPreorder fun a b => compare a b aux) (a : α) :
    NotAbove compare aux a a := by
  have hiff := h.symm a a
  unfold NotAbove
  omega

theorem notAbove_trans (h : TotalPreorder fun a b => compare a b aux)
    (hab : NotAbove compare aux a b) (hbc : NotAbove compare aux b c) :
    NotAbove compare aux a c := h.trans a b c hab hbc

end TotalPreorder

/-! ## 一回の比較 -/

section

variable {total cnt : Nat}

theorem doSwap_ok {array : Nat → α} {i j : Nat} (hi : 1 ≤ i ∧ i ≤ total) (hj : 1 ≤ j ∧ j ≤ total) :
    doSwap total array i j = .ok (swapAt array i j) := if_pos ⟨hi, hj⟩

theorem pickMax_ok (h : TotalPreorder fun a b => compare a b aux) (array : Nat → α)
    (child : Nat) {max : Nat} (hcnt : cnt ≤ total) (hchild : 1 ≤ child) (hmax : 1 ≤ max ∧ max ≤ cnt) :
    ∃ m, pickMax total compare aux array cnt child max = .ok m ∧
      (m = max ∨ (m = child ∧ child ≤ cnt ∧ compare (array child) (array max) aux > 0)) ∧
      (child ≤ cnt → NotAbove compare aux (array child) (array m)) ∧
      NotAbove compare aux (array max) (array m) := by
  unfold pickMax doCompare
  split
  · next hle =>
    rw [if_pos ⟨⟨hchild, by omega⟩, hmax.1, by omega⟩]
    by_cases hgt : compare (array child) (array max) aux > 0
    · exact ⟨child, congrArg Except.ok (if_pos hgt), .inr ⟨rfl, hle, hgt⟩, fun _ => h.refl _,
        Int.le_of_lt ((h.symm _ _).mp hgt)⟩
    · exact ⟨max, congrArg Except.ok (if_neg hgt), .inl rfl, fun _ => Int.not_lt.mp hgt, h.refl _⟩
  · next hgt => exact ⟨max, rfl, .inl rfl, fun hle => absurd hle hgt, h.refl _⟩

end

/-! ## heap -/

/-- `lo` 以上の親について、子は親より大きくない。 -/
def HeapFrom (compare : α → α → β → Int) (aux : β) (array : Nat → α) (lo cnt : Nat) : Prop :=
  ∀ k, 2 ≤ k → k ≤ cnt → lo ≤ k / 2 → NotAbove compare aux (array k) (array (k / 2))

/--
`i` とその子の間でだけ崩れた heap。

`i` の子は、`i` の親より大きくない。`i` を子と入れ替えても上の順序が崩れないために要る。
-/
structure HeapExcept (compare : α → α → β → Int) (aux : β) (array : Nat → α) (lo cnt i : Nat) :
    Prop where
  except : ∀ k, 2 ≤ k → k ≤ cnt → lo ≤ k / 2 → k / 2 ≠ i →
    NotAbove compare aux (array k) (array (k / 2))
  grand : ∀ k, 2 ≤ k → k ≤ cnt → k / 2 = i → lo ≤ i / 2 → 2 ≤ i →
    NotAbove compare aux (array k) (array (i / 2))

variable {array : Nat → α} {lo cnt i m : Nat}

theorem HeapExcept.finish (hx : HeapExcept compare aux array lo cnt i)
    (hstop : ∀ k, k ≤ cnt → k / 2 = i → NotAbove compare aux (array k) (array i)) :
    HeapFrom compare aux array lo cnt := fun k hk hkc hlo => by
  by_cases hp : k / 2 = i
  · rw [hp]
    exact hstop k hkc hp
  · exact hx.except k hk hkc hlo hp

/-- **大きい方の子と入れ替えると、崩れは子の下に移る。** -/
theorem HeapExcept.move (hx : HeapExcept compare aux array lo cnt i) (hi : 1 ≤ i)
    (hm : m / 2 = i) (hmc : m ≤ cnt) (hgt : NotAbove compare aux (array i) (array m))
    (hmax : ∀ k, k ≤ cnt → k / 2 = i → NotAbove compare aux (array k) (array m)) :
    HeapExcept compare aux (swapAt array i m) lo cnt m where
  except k hk hkc hlo hp := by
    have hne : i ≠ m := by omega
    by_cases hkm : k = m
    · rw [hkm, hm, swapAt_right, swapAt_left]
      exact hgt
    by_cases hpi : k / 2 = i
    · rw [hpi, swapAt_left, swapAt_of_ne (by omega) hkm]
      exact hmax k hkc hpi
    rw [swapAt_of_ne hpi hp]
    by_cases hki : k = i
    · rw [hki, swapAt_left]
      exact hx.grand m (by omega) hmc hm (hki ▸ hlo) (hki ▸ hk)
    · rw [swapAt_of_ne hki hkm]
      exact hx.except k hk hkc hlo hpi
  grand k hk hkc hkm hlo hm2 := by
    rw [hm, swapAt_left, swapAt_of_ne (by omega) (by omega)]
    have horder := hx.except k hk hkc (by omega) (by omega)
    rwa [hkm] at horder

/--
**`heapify` は崩れを直す。**

一周ごとに崩れは深いところに移り、`cnt` までに止まる。
-/
theorem heapify_ok (h : TotalPreorder fun a b => compare a b aux) {total fuel : Nat}
    (hcnt : cnt ≤ total) (hbound : cnt < 2 ^ 31) (hi : 1 ≤ i ∧ i ≤ cnt) (hfuel : cnt < i + fuel)
    (hx : HeapExcept compare aux array lo cnt i) :
    ∃ array', heapify total compare aux cnt fuel array i = .ok array' ∧
      HeapFrom compare aux array' lo cnt ∧ Rearranged 1 cnt array array' := by
  induction fuel generalizing array i with
  | zero => omega
  | succ fuel ih =>
    obtain ⟨m₁, hpick₁, hcase₁, hleft, hkeep₁⟩ := pickMax_ok h array (2 * i) hcnt (by omega) hi
    have hm₁ : 1 ≤ m₁ ∧ m₁ ≤ cnt := by omega
    obtain ⟨m, hpick, hcase, hright, hkeep⟩ := pickMax_ok h array (2 * i + 1) hcnt
      (by omega) hm₁
    have hmax : ∀ k, k ≤ cnt → k / 2 = i → NotAbove compare aux (array k) (array m) := by
      intro k hkc hki
      obtain rfl | rfl : k = 2 * i ∨ k = 2 * i + 1 := by omega
      · exact h.notAbove_trans (hleft hkc) hkeep
      · exact hright hkc
    have himax : NotAbove compare aux (array i) (array m) := h.notAbove_trans hkeep₁ hkeep
    rw [heapify, Nat.mod_eq_of_lt (by omega), Nat.mod_eq_of_lt (by omega)]
    show ∃ array', (pickMax total compare aux array cnt (2 * i) i).bind _ = _ ∧ _
    rw [hpick₁]
    show ∃ array', (pickMax total compare aux array cnt (2 * i + 1) m₁).bind _ = _ ∧ _
    rw [hpick]
    show ∃ array', (if m = i then _ else _) = _ ∧ _
    split
    · next hmi => exact ⟨array, rfl, hx.finish (hmi ▸ hmax), .refl _⟩
    · next hmi =>
      have hchild : m / 2 = i ∧ m ≤ cnt ∧ i < m := by omega
      rw [doSwap_ok (by omega) (by omega)]
      obtain ⟨array', hrun, hheap, hperm⟩ := ih (by omega) (by omega)
        (hx.move hi.1 hchild.1 hchild.2.1 himax hmax)
      exact ⟨array', hrun, hheap, (Rearranged.swapAt (by omega) (by omega)).trans hperm⟩

/-- **heap を作る loop。** `i` より後ろの親はもう順序を満たしている。 -/
theorem buildHeap_ok (h : TotalPreorder fun a b => compare a b aux) {fuel : Nat}
    (hbound : cnt < 2 ^ 31) (hfuel : cnt < fuel) (hi : i ≤ cnt / 2)
    (hheap : HeapFrom compare aux array (i + 1) cnt) :
    ∃ array', buildHeap compare aux cnt fuel i array = .ok array' ∧
      HeapFrom compare aux array' 1 cnt ∧ Rearranged 1 cnt array array' := by
  induction i generalizing array with
  | zero => exact ⟨array, rfl, hheap, .refl _⟩
  | succ i ih =>
    have hx : HeapExcept compare aux array (i + 1) cnt (i + 1) :=
      { except := fun k hk hkc hlo hp => hheap k hk hkc (by omega)
        grand := fun k hk hkc hp hlo hi2 => by omega }
    obtain ⟨array₁, hrun₁, hheap₁, hperm₁⟩ := heapify_ok h (Nat.le_refl cnt) hbound (by omega)
      (show cnt < i + 1 + fuel by omega) hx
    obtain ⟨array₂, hrun₂, hheap₂, hperm₂⟩ := ih (by omega) hheap₁
    refine ⟨array₂, ?_, hheap₂, hperm₁.trans hperm₂⟩
    show (heapify cnt compare aux cnt fuel array (i + 1)).bind _ = _
    rw [hrun₁]
    exact hrun₂

theorem HeapFrom.notAbove_root (h : TotalPreorder fun a b => compare a b aux)
    (hheap : HeapFrom compare aux array 1 cnt) {k : Nat} (hk : 1 ≤ k ∧ k ≤ cnt) :
    NotAbove compare aux (array k) (array 1) := by
  induction k using Nat.strongRecOn with
  | ind k ih =>
    rcases Nat.lt_or_ge k 2 with hlt | hge
    · obtain rfl : k = 1 := by omega
      exact h.refl _
    · exact h.notAbove_trans (hheap k hge hk.2 (by omega)) (ih (k / 2) (by omega) (by omega))

/-- `i` より後ろは、前のどれよりも小さくない。 -/
def TailOrdered (compare : α → α → β → Int) (aux : β) (array : Nat → α) (i cnt : Nat) : Prop :=
  ∀ j k, 1 ≤ j → j < k → i < k → k ≤ cnt → NotAbove compare aux (array j) (array k)

/-- **根を後ろに移し、残りを並べ替えても、後ろは前のどれよりも小さくない。** -/
theorem TailOrdered.step (h : TotalPreorder fun a b => compare a b aux) {array' : Nat → α}
    (htail : TailOrdered compare aux array (i + 1) cnt)
    (hheap : HeapFrom compare aux array 1 (i + 1))
    (hperm : Rearranged 1 i (swapAt array 1 (i + 1)) array') :
    TailOrdered compare aux array' i cnt := by
  have hlast : array' (i + 1) = array 1 := by
    rw [hperm.outside (by omega), swapAt_right]
  have hall : Rearranged 1 (i + 1) array array' :=
    (Rearranged.swapAt (by omega) (by omega)).trans (hperm.mono (Nat.le_refl 1) (Nat.le_succ i))
  intro j k hj hjk hik hkc
  -- `j` の値は、もとは `k` より前のどこかにあった
  obtain ⟨j', hj', hfrom⟩ : ∃ j', (1 ≤ j' ∧ (j' ≤ i + 1 ∨ j' < k)) ∧ array' j = array j' := by
    by_cases hin : 1 ≤ j ∧ j ≤ i + 1
    · obtain ⟨j', h1, h2, he⟩ := hall.inside hin
      exact ⟨j', ⟨h1, .inl h2⟩, he⟩
    · exact ⟨j, ⟨hj, .inr hjk⟩, hall.outside hin⟩
  rw [hfrom]
  rcases Nat.lt_or_ge (i + 1) k with hlt | hge
  · rw [hall.outside (by omega)]
    exact htail j' k hj'.1 (by omega) hlt hkc
  · obtain rfl : k = i + 1 := by omega
    rw [hlast]
    exact hheap.notAbove_root h ⟨hj'.1, by omega⟩

theorem sortHeap_ok (h : TotalPreorder fun a b => compare a b aux) {fuel : Nat}
    (hbound : cnt < 2 ^ 31) (hfuel : cnt < fuel) (hi : i ≤ cnt)
    (hheap : HeapFrom compare aux array 1 i) (htail : TailOrdered compare aux array i cnt) :
    ∃ array', sortHeap compare aux cnt fuel i array = .ok array' ∧
      TailOrdered compare aux array' 1 cnt ∧ Rearranged 1 cnt array array' := by
  fun_induction sortHeap compare aux cnt fuel i array with
  | case1 array => exact ⟨array, rfl, fun j k hj hjk _ => htail j k hj hjk (by omega), .refl _⟩
  | case2 array => exact ⟨array, rfl, htail, .refl _⟩
  | case3 i array ih =>
    have hx : HeapExcept compare aux (swapAt array 1 (i + 2)) 1 (i + 1) 1 :=
      { except := fun k hk hkc hlo hp => by
          rw [swapAt_of_ne (by omega) (by omega), swapAt_of_ne (by omega) (by omega)]
          exact hheap k hk (by omega) hlo
        grand := fun k hk hkc hp hlo hi2 => by omega }
    obtain ⟨array₁, hrun₁, hheap₁, hperm₁⟩ := heapify_ok h (by omega : i + 1 ≤ cnt) (by omega)
      (by omega) (show i + 1 < 1 + fuel by omega) hx
    obtain ⟨array₂, hrun₂, htail₂, hperm₂⟩ := ih array₁ (by omega) hheap₁
      (htail.step h hheap hperm₁)
    refine ⟨array₂, ?_, htail₂, ?_⟩
    · rw [doSwap_ok (by omega) (by omega)]
      show (heapify cnt compare aux (i + 1) fuel (swapAt array 1 (i + 2)) 1).bind _ = _
      rw [hrun₁]
      exact hrun₂
    · exact (Rearranged.swapAt (by omega) (by omega)).trans
        ((hperm₁.mono (Nat.le_refl 1) (by omega)).trans hperm₂)

/-! ## `sort` -/

/-- 並べ終えた配列。配列の外は変わらない。 -/
structure Sorted (compare : α → α → β → Int) (aux : β) (cnt : Nat) (array array' : Nat → α) :
    Prop where
  perm : ((List.range' 1 cnt).map array').Perm ((List.range' 1 cnt).map array)
  ordered : ∀ j k, 1 ≤ j → j ≤ k → k ≤ cnt → NotAbove compare aux (array' j) (array' k)
  outside : ∀ k, ¬(1 ≤ k ∧ k ≤ cnt) → array' k = array k

/-- **要素が `2 ^ 31` 個より少なければ、`sort` は並べ終える。** -/
theorem sort_ok (h : TotalPreorder fun a b => compare a b aux) {fuel : Nat} (array : Nat → α)
    (hbound : cnt < 2 ^ 31) (hfuel : cnt < fuel) :
    ∃ array', sort fuel array cnt compare aux = .ok array' ∧
      Sorted compare aux cnt array array' := by
  obtain ⟨array₁, hrun₁, hheap, hperm₁⟩ := buildHeap_ok h hbound hfuel
    (Nat.le_refl _) (show HeapFrom compare aux array (cnt / 2 + 1) cnt from fun k hk hkc hlo => by omega)
  obtain ⟨array₂, hrun₂, htail, hperm₂⟩ := sortHeap_ok h hbound hfuel (Nat.le_refl cnt) hheap
    (fun j k _ _ hlt hle => by omega)
  have hperm := hperm₁.trans hperm₂
  refine ⟨array₂, ?_, ?_, fun j k hj hjk hk => ?_, fun k hk => hperm.outside hk⟩
  · show (buildHeap compare aux cnt fuel (cnt / 2) array).bind _ = _
    rw [hrun₁]
    exact hrun₂
  · exact hperm.perm
  · rcases Nat.eq_or_lt_of_le hjk with rfl | hlt
    · exact h.refl _
    · exact htail j k hj hlt (by omega) hk

/-! ## 全体 -/

/--
**`sort` と `qsort` は、どの配列も並べ終える。**

どの全前順序についても、配列の中だけを読み書きして止まり、結果は元の要素の入れ替えで、順に並んでいる。
`cnt` が 0 と 1 の場合も含む。一つの object は `2 ^ 31` byte より小さいので、`cnt` も `2 ^ 31` より小さい。
-/
theorem sort_correct (hcnt : cnt < 2 ^ 31) :
    (∀ (α β : Type) (compare : α → α → β → Int) (aux : β) (array : Nat → α),
      (TotalPreorder fun a b => compare a b aux) → ∃ bound, ∀ fuel, bound ≤ fuel →
        ∃ array', sort fuel array cnt compare aux = .ok array' ∧
          Sorted compare aux cnt array array') ∧
    ∀ (α : Type) (compare : α → α → Int) (array : Nat → α),
      TotalPreorder compare → ∃ bound, ∀ fuel, bound ≤ fuel →
        ∃ array', qsort fuel array cnt compare = .ok array' ∧
          Sorted compareThunk compare cnt array array' := by
  refine ⟨fun α β compare aux array h => ⟨cnt + 1, fun fuel hfuel => ?_⟩,
    fun α compare array h => ⟨cnt + 1, fun fuel hfuel => ?_⟩⟩
  · exact sort_ok h array hcnt hfuel
  · have hthunk : TotalPreorder fun a b => compareThunk a b compare := h
    exact sort_ok hthunk array hcnt hfuel

def byDifference (a b : Int) (_ : Unit) : Int := a - b

theorem totalPreorder_byDifference : TotalPreorder fun a b => byDifference a b () where
  symm a b := by unfold byDifference; omega
  trans a b c := by unfold byDifference; omega

/-- 三つの要素を差で比べて並べる。 -/
theorem sort_correct_three : ∃ fuel array',
    sort fuel (fun k => 4 - (k : Int)) 3 byDifference () = .ok array' ∧
      Sorted byDifference () 3 (fun k => 4 - (k : Int)) array' := by
  obtain ⟨bound, hrun⟩ := (sort_correct (show 3 < 2 ^ 31 by decide)).1
    Int Unit byDifference () (fun k => 4 - (k : Int)) totalPreorder_byDifference
  exact ⟨bound, hrun bound (Nat.le_refl _)⟩

end Pintos
