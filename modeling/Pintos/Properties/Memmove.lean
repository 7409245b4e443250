import Pintos.Lib.String

/-!
# `memmove`

重なりの向きに合わせて写すので、写す byte は読まれる前に上書きされない。
ただし返すのは while が動かした `dst` なので、前から写したときは `size` だけ先を指す。
-/

namespace Pintos

open Function

/-- `[dst, dst + size)` だけが変わり、前の `[src, src + size)` の byte が並ぶ。 -/
structure Moved (mem mem' : Nat → UInt8) (dst src size : Nat) : Prop where
  copied : ∀ i < size, mem' (dst + i) = mem (src + i)
  frame : ∀ a, a < dst ∨ dst + size ≤ a → mem' a = mem a

variable {mem : Nat → UInt8} {dst src size : Nat}

theorem Moved.zero : Moved mem mem dst src 0 :=
  ⟨fun _ h => absurd h (Nat.not_lt_zero _), fun _ _ => rfl⟩

/-- `dst` が前にあれば、前から写しても、まだ読んでいない `src` の byte は残る。 -/
theorem moveForward_moved (h : dst < src) :
    Moved mem (moveForward size mem dst src).1 dst src size := by
  induction size generalizing mem dst src with
  | zero => exact .zero
  | succ size ih =>
    have hm : Moved (update mem dst (mem src)) (moveForward (size + 1) mem dst src).1
        (dst + 1) (src + 1) size := ih (Nat.succ_lt_succ h)
    refine ⟨fun i hi => ?_, fun a ha => ?_⟩
    · cases i with
      | zero => exact (hm.frame dst (.inl (Nat.lt_succ_self dst))).trans (update_self ..)
      | succ i =>
        have hcopied := hm.copied i (Nat.lt_of_succ_lt_succ hi)
        rw [update_of_ne (by omega), Nat.add_right_comm, Nat.add_right_comm src] at hcopied
        exact hcopied
    · rw [hm.frame a (by omega), update_of_ne (by omega)]

theorem moveBackward_moved (h : src ≤ dst) :
    Moved mem (moveBackward size mem (dst + size) (src + size)).1 dst src size := by
  induction size generalizing mem with
  | zero => exact .zero
  | succ size ih =>
    have hm : Moved (update mem (dst + size) (mem (src + size)))
        (moveBackward (size + 1) mem (dst + (size + 1)) (src + (size + 1))).1 dst src size := ih
    refine ⟨fun i hi => ?_, fun a ha => ?_⟩
    · by_cases hlt : i < size
      · rw [hm.copied i hlt, update_of_ne (by omega)]
      · obtain rfl : i = size := Nat.le_antisymm (Nat.le_of_lt_succ hi) (Nat.not_lt.mp hlt)
        rw [hm.frame _ (.inr (Nat.le_refl _)), update_self]
    · rw [hm.frame a (by omega), update_of_ne (by omega)]

theorem moveForward_dst : (moveForward size mem dst src).2 = dst + size := by
  induction size generalizing mem dst src with
  | zero => rfl
  | succ size ih => rw [moveForward, ih, Nat.add_right_comm, Nat.add_assoc]

theorem moveBackward_dst : (moveBackward size mem (dst + size) (src + size)).2 = dst := by
  induction size generalizing mem with
  | zero => rfl
  | succ size ih => exact ih

/-- **`ASSERT` が通れば byte はいつも正しく写り、返す pointer だけが向きで変わる。** -/
theorem memmove_spec (mem : Nat → UInt8) (hdst : dst ≠ 0 ∨ size = 0) (hsrc : src ≠ 0 ∨ size = 0) :
    ∃ mem', memmove mem dst src size = some (mem', if dst < src then dst + size else dst) ∧
      Moved mem mem' dst src size := by
  rw [memmove, if_pos ⟨hdst, hsrc⟩]
  by_cases h : dst < src
  · rw [if_pos h, if_pos h]
    exact ⟨_, congrArg some (Prod.ext rfl moveForward_dst), moveForward_moved h⟩
  · rw [if_neg h, if_neg h]
    exact ⟨_, congrArg some (Prod.ext rfl moveBackward_dst), moveBackward_moved (Nat.not_lt.mp h)⟩

def MemmoveCorrect (mem : Nat → UInt8) (dst src size : Nat) : Prop :=
  ∃ mem', memmove mem dst src size = some (mem', dst) ∧ Moved mem mem' dst src size

/-- **`memmove` が正しいのは、`size` が 0 か、`src` が `NULL` でなく `dst` より後ろにないときに限る。** -/
theorem memmove_correct_iff (mem : Nat → UInt8) (dst src size : Nat) :
    MemmoveCorrect mem dst src size ↔ size = 0 ∨ src ≠ 0 ∧ src ≤ dst := by
  constructor
  · rintro ⟨mem', hmove, -⟩
    by_cases hassert : (dst ≠ 0 ∨ size = 0) ∧ (src ≠ 0 ∨ size = 0)
    · obtain ⟨mem₁, heq, -⟩ := memmove_spec mem hassert.1 hassert.2
      have hret := congrArg Prod.snd (Option.some.inj (hmove.symm.trans heq))
      dsimp only at hret
      split at hret <;> omega
    · rw [memmove, if_neg hassert] at hmove
      cases hmove
  · intro h
    have hdst : dst ≠ 0 ∨ size = 0 := by omega
    have hsrc : src ≠ 0 ∨ size = 0 := by omega
    obtain ⟨mem', hmove, hmoved⟩ := memmove_spec mem hdst hsrc
    refine ⟨mem', hmove.trans ?_, hmoved⟩
    split
    · have hzero : size = 0 := by omega
      rw [hzero, Nat.add_zero]
    · rfl

/-- **前にある `dst` に一 byte 写すと、返る pointer は `dst` の次を指す。** -/
theorem memmove_returns_past_dst :
    ∃ mem', memmove (fun _ => 0) 1 2 1 = some (mem', 2) ∧ ¬ MemmoveCorrect (fun _ => 0) 1 2 1 := by
  refine ⟨_, rfl, ?_⟩
  rintro ⟨mem', h, -⟩
  have hret : 2 = 1 := congrArg Prod.snd (Option.some.inj h)
  exact absurd hret (by decide)

end Pintos
