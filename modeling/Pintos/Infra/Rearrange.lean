import Mathlib.Data.List.Nodup
import Mathlib.Logic.Equiv.Basic

/-!
# 並べ替え

番号から値への関数としての列を、ある範囲の中だけで並べ替える。範囲の外は変わらず、範囲の中の値は
入れ替わるだけである。
-/

namespace Pintos.Infra

variable {α : Type} {f g h : Nat → α} {lo hi : Nat}

/-- `g` は `f` の `[lo, hi]` の中を並べ替えたものである。 -/
def Rearranged (lo hi : Nat) (f g : Nat → α) : Prop :=
  ∃ σ : Equiv.Perm Nat, (∀ k, ¬(lo ≤ k ∧ k ≤ hi) → σ k = k) ∧ g = f ∘ σ

/-- 二つの番号の値を入れ替えた列。 -/
def swapAt (f : Nat → α) (i j : Nat) : Nat → α := f ∘ Equiv.swap i j

@[simp] theorem swapAt_left (f : Nat → α) (i j : Nat) : swapAt f i j i = f j := by
  simp [swapAt]

@[simp] theorem swapAt_right (f : Nat → α) (i j : Nat) : swapAt f i j j = f i := by
  simp [swapAt]

theorem swapAt_of_ne {i j k : Nat} (hi : k ≠ i) (hj : k ≠ j) : swapAt f i j k = f k := by
  rw [swapAt, Function.comp_apply, Equiv.swap_apply_of_ne_of_ne hi hj]

theorem mem_of_fix_outside {σ : Equiv.Perm Nat} (hσ : ∀ k, ¬(lo ≤ k ∧ k ≤ hi) → σ k = k) (k : Nat) :
    (lo ≤ σ k ∧ σ k ≤ hi) ↔ (lo ≤ k ∧ k ≤ hi) := by
  constructor
  · intro hin
    by_contra hout
    rw [hσ k hout] at hin
    exact hout hin
  · intro hin
    by_contra hout
    -- `σ k` が外にあれば `σ (σ k) = σ k` なので `σ k = k` となる
    have hfix : σ k = k := σ.injective (hσ _ hout)
    rw [hfix] at hout
    exact hout hin

namespace Rearranged

theorem refl (f : Nat → α) : Rearranged lo hi f f := ⟨Equiv.refl Nat, fun _ _ => rfl, rfl⟩

theorem trans (hfg : Rearranged lo hi f g) (hgh : Rearranged lo hi g h) : Rearranged lo hi f h := by
  obtain ⟨σ, hσ, rfl⟩ := hfg
  obtain ⟨τ, hτ, rfl⟩ := hgh
  refine ⟨τ.trans σ, fun k hk => ?_, rfl⟩
  rw [Equiv.trans_apply, hτ k hk, hσ k hk]

theorem swapAt {i j : Nat} (hi' : lo ≤ i ∧ i ≤ hi) (hj : lo ≤ j ∧ j ≤ hi) :
    Rearranged lo hi f (swapAt f i j) :=
  ⟨Equiv.swap i j, fun k hk => Equiv.swap_apply_of_ne_of_ne (by rintro rfl; exact hk hi')
    (by rintro rfl; exact hk hj), rfl⟩

theorem mono {lo' hi' : Nat} (hfg : Rearranged lo hi f g) (hlo : lo' ≤ lo) (hhi : hi ≤ hi') :
    Rearranged lo' hi' f g := by
  obtain ⟨σ, hσ, rfl⟩ := hfg
  exact ⟨σ, fun k hk => hσ k fun hin => hk ⟨by omega, by omega⟩, rfl⟩

theorem outside (hfg : Rearranged lo hi f g) {k : Nat} (hk : ¬(lo ≤ k ∧ k ≤ hi)) : g k = f k := by
  obtain ⟨σ, hσ, rfl⟩ := hfg
  rw [Function.comp_apply, hσ k hk]

theorem inside (hfg : Rearranged lo hi f g) {k : Nat} (hk : lo ≤ k ∧ k ≤ hi) :
    ∃ j, lo ≤ j ∧ j ≤ hi ∧ g k = f j := by
  obtain ⟨σ, hσ, rfl⟩ := hfg
  obtain ⟨h1, h2⟩ := (mem_of_fix_outside hσ k).mpr hk
  exact ⟨σ k, h1, h2, rfl⟩

/-- **範囲の中の値を並べたものは、入れ替えで移り合う。** -/
theorem perm (hfg : Rearranged lo hi f g) :
    ((List.range' lo (hi + 1 - lo)).map g).Perm ((List.range' lo (hi + 1 - lo)).map f) := by
  obtain ⟨σ, hσ, rfl⟩ := hfg
  rw [← List.map_map]
  refine List.Perm.map f ?_
  have hnodup : (List.range' lo (hi + 1 - lo)).Nodup := List.nodup_range'
  refine (List.perm_ext_iff_of_nodup (List.Nodup.map σ.injective hnodup) hnodup).mpr fun k => ?_
  rw [List.mem_map]
  constructor
  · rintro ⟨j, hj, rfl⟩
    rw [List.mem_range'_1] at hj ⊢
    have hin := (mem_of_fix_outside hσ j).mpr (by omega)
    omega
  · intro hk
    rw [List.mem_range'_1] at hk
    have hin := (mem_of_fix_outside hσ (σ.symm k)).mp (by rw [σ.apply_symm_apply]; omega)
    exact ⟨σ.symm k, by rw [List.mem_range'_1]; omega, σ.apply_symm_apply k⟩

end Rearranged

end Pintos.Infra
