import Mathlib.Data.Finset.Insert

/-!
# 同値な要素を二つ持たない有限集合

同値関係 `r` について、同値な要素を高々一つしか持たない有限集合と、
ある要素と同値なものをその中から選ぶこと。
-/

namespace Pintos.Infra

variable {α : Type}

/-- どちらも他方より小さくない。 -/
def Incomp (lt : α → α → Prop) (a b : α) : Prop := ¬lt a b ∧ ¬lt b a

theorem incomp_equivalence (lt : α → α → Prop) [IsStrictWeakOrder α lt] :
    Equivalence (Incomp lt) where
  refl a := ⟨irrefl a, irrefl a⟩
  symm h := h.symm
  trans h h' := IsStrictWeakOrder.incomp_trans _ _ _ h h'

/-- 同値な要素は一つしかない。 -/
def Separated (r : α → α → Prop) (s : Finset α) : Prop := ∀ a ∈ s, ∀ b ∈ s, r a b → a = b

/-- `s` の中の、`e` と同値な要素。無ければ `none` である。 -/
def Represents (r : α → α → Prop) (s : Finset α) (e : α) : Option α → Prop
  | some x => x ∈ s ∧ r x e
  | none => ∀ x ∈ s, ¬r x e

end Pintos.Infra
