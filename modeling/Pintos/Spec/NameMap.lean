import Mathlib.Data.List.Nodup
import Mathlib.Data.List.Perm.Basic

/-!
# 容量のある有限写像

鍵と値の組を `capacity` 個まで持つ写像。鍵は重ならない。
この module は特定の program を何も知らない。
-/

namespace Pintos.Spec

variable {κ ν : Type}

structure NameMap (κ ν : Type) where
  capacity : Nat
  entries : List (κ × ν)
  nodup : (entries.map Prod.fst).Nodup
  length_le : entries.length ≤ capacity

namespace NameMap

def empty (capacity : Nat) : NameMap κ ν := ⟨capacity, [], List.nodup_nil, Nat.zero_le _⟩

variable (m : NameMap κ ν) {k : κ} {a : ν}

def keys : List κ := m.entries.map Prod.fst

theorem mem_keys : k ∈ m.keys ↔ ∃ a, (k, a) ∈ m.entries := by
  simp [keys]

variable [DecidableEq κ]

def lookup (k : κ) : Option ν := (m.entries.find? fun p => p.1 = k).map Prod.snd

/-- 鍵 `k` に `a` を結び付ける。鍵が正しく、まだ無く、空きがあるときだけ成功する。 -/
def add (valid : κ → Bool) (k : κ) (a : ν) : Bool × NameMap κ ν :=
  if h : valid k = true ∧ k ∉ m.keys ∧ m.entries.length < m.capacity then
    (true,
      { capacity := m.capacity
        entries := (k, a) :: m.entries
        nodup := List.nodup_cons.mpr ⟨h.2.1, m.nodup⟩
        length_le := h.2.2 })
  else (false, m)

/-- 鍵 `k` を除く。在ったときだけ成功する。 -/
def remove (k : κ) : Bool × NameMap κ ν :=
  (decide (k ∈ m.keys),
    { capacity := m.capacity
      entries := m.entries.filter fun p => p.1 ≠ k
      nodup := m.nodup.sublist (List.filter_sublist.map Prod.fst)
      length_le := Nat.le_trans (List.length_filter_le ..) m.length_le })

theorem lookup_eq_some : m.lookup k = some a ↔ (k, a) ∈ m.entries := by
  unfold lookup
  constructor
  · intro h
    obtain ⟨p, hp, rfl⟩ := Option.map_eq_some_iff.mp h
    have hk : p.1 = k := by simpa using List.find?_some hp
    rw [← hk]
    exact List.mem_of_find?_eq_some hp
  · intro h
    cases hf : m.entries.find? fun p => p.1 = k with
    | none => simpa using List.find?_eq_none.mp hf _ h
    | some p =>
      have hk : p.1 = k := by simpa using List.find?_some hf
      have hp := List.mem_of_find?_eq_some hf
      have heq : p = (k, a) := List.inj_on_of_nodup_map m.nodup hp h hk
      rw [heq]
      rfl

theorem lookup_eq_none : m.lookup k = none ↔ k ∉ m.keys := by
  rw [Option.eq_none_iff_forall_ne_some, mem_keys]
  simp only [ne_eq, lookup_eq_some, not_exists]

theorem remove_of_mem (hk : k ∈ m.keys) : (m.remove k).1 = true := decide_eq_true hk

theorem remove_of_not_mem (hk : k ∉ m.keys) : m.remove k = (false, m) := by
  have hfilter : (m.entries.filter fun p => p.1 ≠ k) = m.entries := by
    refine List.filter_eq_self.mpr fun p hp => decide_eq_true ?_
    rintro rfl
    exact hk (List.mem_map_of_mem hp)
  unfold remove
  simp only [hfilter, hk, decide_false]

end NameMap

end Pintos.Spec
