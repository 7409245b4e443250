import Mathlib.Algebra.Order.BigOperators.Group.Finset

/-!
# 一点だけ書き換えた和

番号で区別されたものの個数を数え、一つだけが変わったときの増減を言う。
-/

namespace Pintos.Infra

open Finset

theorem sum_range_eq_of_ne {n t : Nat} (ht : t < n) {f g : Nat → Nat}
    (h : ∀ u, u ≠ t → f u = g u) :
    ∑ u ∈ range n, f u + g t = ∑ u ∈ range n, g u + f t := by
  have hmem : t ∈ range n := mem_range.mpr ht
  rw [← sum_erase_add _ f hmem, ← sum_erase_add _ g hmem]
  have hrest : ∑ u ∈ (range n).erase t, f u = ∑ u ∈ (range n).erase t, g u :=
    sum_congr rfl fun u hu => h u (mem_erase.mp hu).1
  omega

end Pintos.Infra
