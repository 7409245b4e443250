import Pintos.Infra.Bytes

/-!
# byte の memory

番地から byte への関数としての memory と、連続した番地に並ぶ byte の列。
隣り合う列は `bytesAt_append` で一つにつながり、書き込みは離れた列を変えない。
-/

namespace Pintos.Infra

variable {mem : Nat → UInt8} {a b : Nat} {bs cs : List UInt8}

/-- `a` 番地から `bs` が並ぶ。 -/
def BytesAt (mem : Nat → UInt8) (a : Nat) (bs : List UInt8) : Prop :=
  ∀ i c, bs[i]? = some c → mem (a + i) = c

/-- `a` 番地から `bs` を書いた memory。 -/
def store (mem : Nat → UInt8) (a : Nat) (bs : List UInt8) : Nat → UInt8 := fun x =>
  if a ≤ x then bs[x - a]?.getD (mem x) else mem x

/-- `a` 番地にある 32 bit の語。 -/
def loadWord (mem : Nat → UInt8) (a : Nat) : Nat :=
  ofLe32 (mem a) (mem (a + 1)) (mem (a + 2)) (mem (a + 3))

@[simp] theorem bytesAt_nil : BytesAt mem a [] := fun _ _ h => by simp at h

theorem bytesAt_cons {c : UInt8} :
    BytesAt mem a (c :: bs) ↔ mem a = c ∧ BytesAt mem (a + 1) bs := by
  constructor
  · intro h
    refine ⟨h 0 c rfl, fun i x hi => ?_⟩
    rw [Nat.add_assoc, Nat.add_comm 1 i]
    exact h (i + 1) x hi
  · rintro ⟨h0, h⟩ i x hi
    cases i with
    | zero => exact h0.trans (Option.some.inj hi)
    | succ i =>
      rw [← Nat.add_assoc, Nat.add_right_comm]
      exact h i x hi

theorem bytesAt_append :
    BytesAt mem a (bs ++ cs) ↔ BytesAt mem a bs ∧ BytesAt mem (a + bs.length) cs := by
  induction bs generalizing a with
  | nil => simp
  | cons c bs ih =>
    rw [List.cons_append, bytesAt_cons, bytesAt_cons, ih, and_assoc, List.length_cons,
      Nat.add_assoc, Nat.add_comm 1]

theorem bytesAt_store : BytesAt (store mem a bs) a bs := fun i c hi => by
  simp [store, hi]

theorem store_of_not_mem {x : Nat} (h : x < a ∨ a + bs.length ≤ x) :
    store mem a bs x = mem x := by
  unfold store
  split
  · next hle => rw [List.getElem?_eq_none (by omega), Option.getD_none]
  · rfl

theorem BytesAt.store (h : BytesAt mem b cs) (hsep : a + bs.length ≤ b ∨ b + cs.length ≤ a) :
    BytesAt (store mem a bs) b cs := fun i c hi => by
  have hlt : i < cs.length := List.getElem?_eq_some_iff.mp hi |>.1
  rw [store_of_not_mem (by omega)]
  exact h i c hi

theorem loadWord_of_bytesAt {n : Nat} (h : BytesAt mem a (le32 n)) (hn : n < 2 ^ 32) :
    loadWord mem a = n := by
  have h0 := h 0 _ rfl
  have h1 := h 1 _ rfl
  have h2 := h 2 _ rfl
  have h3 := h 3 _ rfl
  unfold loadWord
  rw [show mem a = _ from h0, h1, h2, h3]
  exact ofLe32_le32 hn

theorem loadWord_of_bytesAt_flatMap {ns : List Nat} (h : BytesAt mem a (ns.flatMap le32))
    {i n : Nat} (hi : ns[i]? = some n) (hn : n < 2 ^ 32) : loadWord mem (a + 4 * i) = n := by
  induction ns generalizing a i with
  | nil => simp at hi
  | cons m ns ih =>
    obtain ⟨hm, hns⟩ := bytesAt_append.mp (List.flatMap_cons ▸ h)
    cases i with
    | zero =>
      obtain rfl := Option.some.inj hi
      exact loadWord_of_bytesAt hm hn
    | succ i =>
      rw [length_le32] at hns
      rw [show a + 4 * (i + 1) = a + 4 + 4 * i by omega]
      exact ih hns hi

end Pintos.Infra
