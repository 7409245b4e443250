import Mathlib.Data.List.Range

/-!
# 円環 buffer

大きさ `n` の配列を円環として使う FIFO の列。
`tail` から `head` の直前までが入っていて、`head = tail` が空、一つ空けて満杯とする。

位置の `next` は `(pos + 1) % n` である。
-/

namespace Pintos.Infra

open Function

variable {α : Type} {n : Nat}

def ringCount (n head tail : Nat) : Nat := (head + n - tail) % n

/-- `tail` から `count` 個の要素。 -/
def ringList (n : Nat) (buf : Nat → α) (tail count : Nat) : List α :=
  (List.range count).map fun i => buf ((tail + i) % n)

@[simp] theorem length_ringList (buf : Nat → α) (tail count : Nat) :
    (ringList n buf tail count).length = count := by
  simp [ringList]

/-! ## 位置 -/

section

variable {head tail : Nat}

theorem ringNext_eq (h : head < n) : (head + 1) % n = if head + 1 = n then 0 else head + 1 := by
  split
  · next he => rw [he, Nat.mod_self]
  · exact Nat.mod_eq_of_lt (by omega)

theorem ringNext_lt (h : head < n) : (head + 1) % n < n := Nat.mod_lt _ (by omega)

section

variable (hh : head < n) (ht : tail < n)
include hh ht

theorem ringCount_eq :
    ringCount n head tail = if tail ≤ head then head - tail else head + n - tail := by
  unfold ringCount
  split
  · rw [show head + n - tail = head - tail + n by omega, Nat.add_mod_right]
    exact Nat.mod_eq_of_lt (by omega)
  · exact Nat.mod_eq_of_lt (by omega)

theorem ringCount_lt : ringCount n head tail < n := by
  rw [ringCount_eq hh ht]
  split <;> omega

theorem ringCount_eq_zero_iff : ringCount n head tail = 0 ↔ head = tail := by
  rw [ringCount_eq hh ht]
  split <;> omega

theorem ringCount_eq_last_iff : ringCount n head tail + 1 = n ↔ (head + 1) % n = tail := by
  rw [ringCount_eq hh ht, ringNext_eq hh]
  split <;> split <;> omega

theorem ringCount_next_head (hfull : (head + 1) % n ≠ tail) :
    ringCount n ((head + 1) % n) tail = ringCount n head tail + 1 := by
  rw [ringCount_eq (ringNext_lt hh) ht, ringCount_eq hh ht]
  rw [ringNext_eq hh] at hfull ⊢
  by_cases hlast : head + 1 = n
  · rw [if_pos hlast] at hfull ⊢
    split <;> split <;> omega
  · rw [if_neg hlast] at hfull ⊢
    split <;> split <;> omega

theorem ringCount_next_tail (hempty : head ≠ tail) :
    ringCount n head ((tail + 1) % n) + 1 = ringCount n head tail := by
  rw [ringCount_eq hh (ringNext_lt ht), ringCount_eq hh ht, ringNext_eq ht]
  by_cases hlast : tail + 1 = n
  · rw [if_pos hlast]
    split <;> split <;> omega
  · rw [if_neg hlast]
    split <;> split <;> omega

theorem ring_head_eq : head = (tail + ringCount n head tail) % n := by
  rw [ringCount_eq hh ht]
  split
  · rw [show tail + (head - tail) = head by omega, Nat.mod_eq_of_lt hh]
  · rw [show tail + (head + n - tail) = head + n by omega, Nat.add_mod_right, Nat.mod_eq_of_lt hh]

end

theorem ring_pos_ne {i count : Nat} (hi : i < count) (hc : count < n) :
    (tail + i) % n ≠ (tail + count) % n := by
  intro he
  have hdvd : n ∣ (tail + count) - (tail + i) :=
    Nat.dvd_of_mod_eq_zero (Nat.sub_mod_eq_zero_of_mod_eq he.symm)
  have hzero := Nat.eq_zero_of_dvd_of_lt hdvd (by omega)
  omega

end

/-! ## 中身 -/

theorem ringList_succ (buf : Nat → α) {tail : Nat} (ht : tail < n) (count : Nat) :
    ringList n buf tail (count + 1) = buf tail :: ringList n buf ((tail + 1) % n) count := by
  unfold ringList
  rw [List.range_succ_eq_map, List.map_cons, List.map_map, Nat.add_zero, Nat.mod_eq_of_lt ht]
  congr 1
  refine List.map_congr_left fun i _ => ?_
  show buf ((tail + (i + 1)) % n) = buf (((tail + 1) % n + i) % n)
  rw [Nat.mod_add_mod, Nat.add_right_comm, Nat.add_assoc]

theorem ringList_write (buf : Nat → α) (tail : Nat) {count : Nat} (hc : count < n) (a : α) :
    ringList n (update buf ((tail + count) % n) a) tail (count + 1) =
      ringList n buf tail count ++ [a] := by
  unfold ringList
  rw [List.range_succ, List.map_append, List.map_singleton, update_self]
  congr 1
  refine List.map_congr_left fun i hi => ?_
  rw [update_of_ne (ring_pos_ne (List.mem_range.mp hi) hc)]

end Pintos.Infra
