import Mathlib.Data.List.Chain
import Mathlib.Data.List.Nodup

/-!
# 双方向の link

各 cell が `next` と `prev` を持つ heap と、その中の区間。
区間 `Seg k xs` は、`xs` の隣り合う cell が互いに指し合うことをいう。
区間が読むのは、最後以外の `next` と最初以外の `prev` だけである（`Seg.congr`）。

区間を外す `bridge` と、間に入れる `attach` は、端の link だけを書き換える。
-/

namespace Pintos.Infra

open Function

variable {α : Type}

/-- NULL は `none` である。 -/
@[ext] structure Links (α : Type) where
  next : α → Option α
  prev : α → Option α

/-- 隣り合う cell が互いに指し合う。 -/
def Seg (k : Links α) (xs : List α) : Prop :=
  xs.IsChain fun a b => k.next a = some b ∧ k.prev b = some a

variable {k : Links α}

theorem seg_append_iff {xs ys : List α} : Seg k (xs ++ ys) ↔ Seg k xs ∧ Seg k ys ∧
      ∀ a ∈ xs.getLast?, ∀ b ∈ ys.head?, k.next a = some b ∧ k.prev b = some a :=
  List.isChain_append

variable {xs : List α}

theorem Seg.uncons {x stop : α} (h : Seg k (x :: xs ++ [stop])) :
    k.next x = some (xs.headD stop) ∧ Seg k (xs ++ [stop]) := by
  have hsplit : Seg k ([x] ++ (xs ++ [stop])) := h
  obtain ⟨-, hrest, hjoin⟩ := seg_append_iff.mp hsplit
  exact ⟨(hjoin x rfl _ (by cases xs <;> rfl)).1, hrest⟩

theorem Seg.congr {k k' : Links α} (h : Seg k xs) (hn : ∀ a ∈ xs.dropLast, k'.next a = k.next a)
    (hp : ∀ b ∈ xs.tail, k'.prev b = k.prev b) : Seg k' xs := by
  induction xs with
  | nil => exact .nil
  | cons a xs ih =>
    cases xs with
    | nil => exact .singleton a
    | cons b xs =>
      obtain ⟨⟨hab, hba⟩, hrest⟩ := List.isChain_cons_cons.mp h
      refine List.isChain_cons_cons.mpr ⟨⟨?_, ?_⟩, ih hrest ?_ ?_⟩
      · rw [hn a (List.mem_cons_self ..), hab]
      · rw [hp b (List.mem_cons_self ..), hba]
      · exact fun c hc => hn c (List.mem_cons_of_mem _ hc)
      · exact fun c hc => hp c (List.mem_cons_of_mem _ hc)

theorem Seg.frame {k k' : Links α} (h : Seg k xs)
    (hk : ∀ a ∈ xs, k'.next a = k.next a ∧ k'.prev a = k.prev a) : Seg k' xs :=
  h.congr (fun a ha => (hk a (List.dropLast_subset _ ha)).1)
    fun b hb => (hk b (List.mem_of_mem_tail hb)).2

/-- `next` と `prev` を入れ替えた heap では、区間は逆順になる。 -/
theorem seg_reverse (h : Seg k xs) : Seg ⟨k.prev, k.next⟩ xs.reverse :=
  List.isChain_reverse.mpr (h.imp fun _ _ hab => hab.symm)

/-! ## 外すと入れる -/

variable [DecidableEq α]

namespace Links

@[simps] def setNext (a : α) (v : Option α) (k : Links α) : Links α :=
  { k with next := update k.next a v }

@[simps] def setPrev (a : α) (v : Option α) (k : Links α) : Links α :=
  { k with prev := update k.prev a v }

/-- `p` と `n` を直接つなぐ。 -/
@[simps] def bridge (p n : α) (k : Links α) : Links α where
  next := update k.next p (some n)
  prev := update k.prev n (some p)

/-- `p` と `n` の間に、`first` で始まり `last` で終わる区間を入れる。 -/
@[simps] def attach (p first last n : α) (k : Links α) : Links α where
  next := update (update k.next last (some n)) p (some first)
  prev := update (update k.prev first (some p)) n (some last)

end Links

section

variable {k : Links α} {A B M : List α} {p n first last : α}

/-- 間の区間を外すと、両側がつながり、外した区間は区間のままである。 -/
theorem Seg.detach (h : Seg k (A ++ [p] ++ M ++ n :: B)) (hnd : (A ++ [p] ++ M ++ n :: B).Nodup) :
    Seg (k.bridge p n) (A ++ [p] ++ n :: B) ∧ Seg (k.bridge p n) M := by
  obtain ⟨hAM, hB, -⟩ := seg_append_iff.mp h
  obtain ⟨hA, hM, -⟩ := seg_append_iff.mp hAM
  simp only [List.nodup_append, List.nodup_cons, List.mem_append, List.mem_cons] at hnd
  refine ⟨seg_append_iff.mpr ⟨hA.congr ?_ ?_, hB.congr ?_ ?_, ?_⟩, hM.frame ?_⟩
  · intro a ha
    rw [List.dropLast_concat] at ha
    exact update_of_ne (by grind) ..
  · intro b hb
    have := List.mem_of_mem_tail hb
    exact update_of_ne (by grind) ..
  · intro a ha
    have := List.dropLast_subset _ ha
    exact update_of_ne (by grind) ..
  · intro b hb
    exact update_of_ne (by grind) ..
  · simp
  · intro a ha
    exact ⟨update_of_ne (by grind) .., update_of_ne (by grind) ..⟩

theorem Seg.attach (hA : Seg k (A ++ [p])) (hM : Seg k M) (hB : Seg k (n :: B))
    (hf : M.head? = some first) (hl : M.getLast? = some last)
    (hnd : (A ++ [p] ++ M ++ n :: B).Nodup) :
    Seg (k.attach p first last n) (A ++ [p] ++ M ++ n :: B) := by
  obtain ⟨M₁, rfl⟩ := List.getLast?_eq_some_iff.mp hl
  obtain ⟨M₂, hM₂⟩ := List.head?_eq_some_iff.mp hf
  have hMnd : (first :: M₂).Nodup := by
    rw [← hM₂]
    exact hnd.sublist (by simp)
  have hfirst : first ∈ M₁ ++ [last] := by rw [hM₂]; exact List.mem_cons_self ..
  have htail : ∀ b ∈ (M₁ ++ [last]).tail, b ∈ M₂ := by rw [hM₂]; exact fun _ => id
  simp only [List.nodup_append, List.nodup_cons, List.mem_append, List.mem_cons] at hnd
  have next_of_ne : ∀ a, a ≠ last → a ≠ p → (k.attach p first last n).next a = k.next a := by
    intro a h₁ h₂
    rw [Links.attach_next, update_of_ne h₂, update_of_ne h₁]
  have prev_of_ne : ∀ b, b ≠ first → b ≠ n → (k.attach p first last n).prev b = k.prev b := by
    intro b h₁ h₂
    rw [Links.attach_prev, update_of_ne h₂, update_of_ne h₁]
  refine seg_append_iff.mpr ⟨seg_append_iff.mpr ⟨hA.congr ?_ ?_, hM.congr ?_ ?_, ?_⟩,
    hB.congr ?_ ?_, ?_⟩
  · intro a ha
    rw [List.dropLast_concat] at ha
    exact next_of_ne a (by grind) (by grind)
  · intro b hb
    have := List.mem_of_mem_tail hb
    exact prev_of_ne b (by grind) (by grind)
  · intro a ha
    rw [List.dropLast_concat] at ha
    exact next_of_ne a (by grind) (by grind)
  · intro b hb
    have := htail b hb
    exact prev_of_ne b (by grind) (by grind)
  · simp only [List.getLast?_concat, hf, Option.mem_def, Option.some.injEq]
    rintro _ rfl _ rfl
    exact ⟨update_self .., by
      rw [Links.attach_prev, update_of_ne (by grind), update_self]⟩
  · intro a ha
    have := List.dropLast_subset _ ha
    exact next_of_ne a (by grind) (by grind)
  · intro b hb
    exact prev_of_ne b (by grind) (by grind)
  · rw [List.getLast?_append, hl]
    simp only [Option.some_or, List.head?_cons, Option.mem_def, Option.some.injEq]
    rintro _ rfl _ rfl
    exact ⟨by rw [Links.attach_next, update_of_ne (by grind), update_self],
      update_self ..⟩

end

end Pintos.Infra
