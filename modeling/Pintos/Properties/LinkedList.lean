import Pintos.Lib.LinkedList

/-!
# 双方向 list は列を表す

pointer の link が表す列の組を `Seqs` とし、link の書き換えが列をどう変えるかを示す。
列の上での操作の意味と、`list.c` の操作がそれを実現することは
`Properties/ListRefinement.lean` にある。

`list_insert` は一要素の `attach`、`list_remove` は一要素の `detach`、
`list_splice` は `detach` の後の `attach` である。
-/

namespace Pintos.Pointer

open Infra Function

variable {α : Type}

/-! ## 表す列 -/

/-- 番兵を含む cell の列。 -/
def ListHdr.cells (l : ListHdr α) (xs : List α) : List α := l.head :: xs ++ [l.tail]

/-- 列 `ys` の前の位置。`ys` の先頭か、空なら末尾の番兵である。 -/
def ListHdr.pos (l : ListHdr α) (ys : List α) : α := ys.headD l.tail

/-- 列 `xs` の最後。空なら先頭の番兵である。 -/
def ListHdr.last (l : ListHdr α) (xs : List α) : α := xs.getLastD l.head

/-- **link が list `l` に列 `xs` を持たせる。** -/
structure IsList (k : Links α) (l : ListHdr α) (xs : List α) : Prop where
  seg : Seg k (l.cells xs)
  nodup : (l.cells xs).Nodup
  head : k.prev l.head = none
  tail : k.next l.tail = none

/-- 初期化された list と、その列。 -/
abbrev Seqs (α : Type) := ListHdr α → Option (List α)

/-- **link が列の組を表す。** 別々の list は cell を共有しない。 -/
structure Represents (k : Links α) (s : Seqs α) : Prop where
  isList : ∀ l xs, s l = some xs → IsList k l xs
  disjoint : ∀ l m xs ys, l ≠ m → s l = some xs → s m = some ys →
    (l.cells xs).Disjoint (m.cells ys)

theorem represents_empty (k : Links α) : Represents k fun _ => none := ⟨nofun, nofun⟩

/-- どの list にも無い cell の列。 -/
def Detached (s : Seqs α) (M : List α) : Prop :=
  ∀ l xs, s l = some xs → (l.cells xs).Disjoint M

section cells

variable (l : ListHdr α) (xs ys : List α)

theorem cells_append : l.cells (xs ++ ys) = (l.head :: xs) ++ (ys ++ [l.tail]) := by
  simp [ListHdr.cells]

theorem exists_front : ∃ A, l.head :: xs = A ++ [l.last xs] := by
  cases xs using List.reverseRecOn with
  | nil => exact ⟨[], rfl⟩
  | append_singleton xs x => exact ⟨l.head :: xs, by simp [ListHdr.last]⟩

theorem exists_back : ∃ B, ys ++ [l.tail] = l.pos ys :: B := by
  cases ys with
  | nil => exact ⟨[], rfl⟩
  | cons y ys => exact ⟨ys ++ [l.tail], rfl⟩

theorem cells_split : ∃ A B, l.cells (xs ++ ys) = A ++ [l.last xs] ++ l.pos ys :: B ∧
    (∀ M, l.cells (xs ++ M ++ ys) = A ++ [l.last xs] ++ M ++ l.pos ys :: B) ∧
    l.head ∈ A ++ [l.last xs] ∧ l.tail ∈ l.pos ys :: B := by
  obtain ⟨A, hA⟩ := exists_front l xs
  obtain ⟨B, hB⟩ := exists_back l ys
  refine ⟨A, B, ?_, fun M => ?_, ?_, ?_⟩
  · rw [cells_append, hA, hB]
  · rw [cells_append, ← List.cons_append, hA, hB]
  · rw [← hA]; exact List.mem_cons_self ..
  · rw [← hB]; simp

end cells

variable {l : ListHdr α}

theorem last_mem_cells {xs ys : List α} : l.last xs ∈ l.cells (xs ++ ys) := by
  obtain ⟨A, hA⟩ := exists_front l xs
  rw [cells_append, hA]
  simp

theorem pos_mem_cells {xs ys : List α} : l.pos ys ∈ l.cells (xs ++ ys) := by
  obtain ⟨B, hB⟩ := exists_back l ys
  rw [cells_append, hB]
  simp

theorem last_append {xs M : List α} {last : α} (h : M.getLast? = some last)
    : l.last (xs ++ M) = last := by
  simp [ListHdr.last, List.getLastD_eq_getLast?, List.getLast?_append, h]

theorem mem_cells_append {xs ys M : List α} {a : α} :
    a ∈ l.cells (xs ++ M ++ ys) ↔ a ∈ l.cells (xs ++ ys) ∨ a ∈ M := by
  simp [ListHdr.cells]
  tauto

def Seqs.set [DecidableEq α] (s : Seqs α) (l : ListHdr α) (xs : List α) : Seqs α :=
  update s l (some xs)

theorem Seqs.set_self [DecidableEq α] {s : Seqs α} {xs : List α} (h : s l = some xs)
    : s.set l xs = s := by
  rw [Seqs.set, ← h, update_eq_self]

section

variable {k k' : Links α} {l m : ListHdr α} {xs ys : List α}

theorem IsList.frame (h : IsList k l xs)
    (hk : ∀ a ∈ l.cells xs, k'.next a = k.next a ∧ k'.prev a = k.prev a) : IsList k' l xs where
  seg := h.seg.frame hk
  nodup := h.nodup
  head := (hk _ (by simp [ListHdr.cells])).2.trans h.head
  tail := (hk _ (by simp [ListHdr.cells])).1.trans h.tail

variable [DecidableEq α] {s : Seqs α}

/-- 一つの list を書き換える規則。ほかの list は、`W` の外の link が変わらないことで保たれる。 -/
theorem Represents.set (h : Represents k s) (hl : IsList k' l ys) (W : List α)
    (hframe : ∀ a ∉ W, k'.next a = k.next a ∧ k'.prev a = k.prev a)
    (hother : ∀ m zs, m ≠ l → s m = some zs → (m.cells zs).Disjoint W)
    (hys : ∀ m zs, m ≠ l → s m = some zs → (m.cells zs).Disjoint (l.cells ys)) :
    Represents k' (s.set l ys) := by
  have hset : ∀ m zs, s.set l ys m = some zs → m = l ∧ zs = ys ∨ m ≠ l ∧ s m = some zs := by
    intro m zs hm
    by_cases hml : m = l
    · rw [Seqs.set, hml, update_self] at hm
      exact .inl ⟨hml, (Option.some.inj hm).symm⟩
    · exact .inr ⟨hml, (update_of_ne hml ..).symm.trans hm⟩
  refine ⟨fun m zs hm => ?_, fun m₁ m₂ zs₁ zs₂ hne hm₁ hm₂ => ?_⟩
  · obtain ⟨rfl, rfl⟩ | ⟨hml, hm⟩ := hset m zs hm
    · exact hl
    · exact (h.isList m zs hm).frame fun a ha => hframe a (hother m zs hml hm ha)
  · obtain ⟨rfl, rfl⟩ | ⟨h₁, hs₁⟩ := hset m₁ zs₁ hm₁
    · obtain ⟨rfl, rfl⟩ | ⟨h₂, hs₂⟩ := hset m₂ zs₂ hm₂
      · exact absurd rfl hne
      · exact fun a ha ha' => hys m₂ zs₂ h₂ hs₂ ha' ha
    · obtain ⟨rfl, rfl⟩ | ⟨h₂, hs₂⟩ := hset m₂ zs₂ hm₂
      · exact hys m₁ zs₁ h₁ hs₁
      · exact h.disjoint m₁ m₂ zs₁ zs₂ hne hs₁ hs₂

end

/-! ## 範囲を外す -/

section

variable {k : Links α} {l : ListHdr α} {xs ys M : List α} {first last : α}

theorem IsList.ends (h : IsList k l (xs ++ M ++ ys)) (hf : M.head? = some first)
    (hl : M.getLast? = some last) :
    k.prev first = some (l.last xs) ∧ k.next last = some (l.pos ys) := by
  obtain ⟨A, B, -, hcells, -, -⟩ := cells_split l xs ys
  have hseg := h.seg
  rw [hcells] at hseg
  obtain ⟨hAM, -, hjoin⟩ := seg_append_iff.mp hseg
  constructor
  · exact ((seg_append_iff.mp hAM).2.2 _ (by simp) first hf).2
  · exact (hjoin last (by rw [List.getLast?_append, hl]; rfl) _ (by simp)).1

variable [DecidableEq α]

theorem IsList.detach (h : IsList k l (xs ++ M ++ ys)) :
    IsList (k.bridge (l.last xs) (l.pos ys)) l (xs ++ ys) ∧
    Seg (k.bridge (l.last xs) (l.pos ys)) M := by
  obtain ⟨A, B, hcells', hcells, hhead, htail⟩ := cells_split l xs ys
  have hnd := h.nodup
  have hseg := h.seg
  rw [hcells] at hnd hseg
  obtain ⟨hrest, hM⟩ := hseg.detach hnd
  refine ⟨⟨by rwa [hcells'], ?_, ?_, ?_⟩, hM⟩
  · rw [hcells']
    exact hnd.sublist (by simp)
  · rw [Links.bridge_prev, update_of_ne, h.head]
    rintro he
    simp only [List.nodup_append] at hnd
    grind
  · rw [Links.bridge_next, update_of_ne, h.tail]
    simp only [List.nodup_append] at hnd
    grind

theorem unlink_eq (h : IsList k l (xs ++ M ++ ys)) (hf : M.head? = some first)
    (hl : M.getLast? = some last) :
    unlink first last k = some (k.bridge (l.last xs) (l.pos ys)) := by
  obtain ⟨hp, hn⟩ := h.ends hf hl
  have hne : last ≠ l.last xs := by
    obtain ⟨A, B, -, hcells, -, -⟩ := cells_split l xs ys
    have hnd := h.nodup
    rw [hcells] at hnd
    have hmem := List.mem_of_getLast? hl
    simp only [List.nodup_append] at hnd
    grind
  simp [unlink, hp, hn, update_of_ne hne, Links.setNext, Links.setPrev, Links.bridge]

end

section

variable [DecidableEq α] {k : Links α} {s : Seqs α} {l m : ListHdr α} {xs ys us vs M : List α}
  {first last : α}

theorem Represents.detach (h : Represents k s) (hl : s l = some (xs ++ M ++ ys)) :
    Represents (k.bridge (l.last xs) (l.pos ys)) (s.set l (xs ++ ys)) ∧
    Seg (k.bridge (l.last xs) (l.pos ys)) M ∧ M.Nodup ∧ Detached (s.set l (xs ++ ys)) M := by
  have hlist := h.isList l _ hl
  obtain ⟨hdet, hM⟩ := hlist.detach
  have hother : ∀ m zs, m ≠ l → s m = some zs → (m.cells zs).Disjoint (l.cells (xs ++ M ++ ys)) :=
    fun m zs hml hm => h.disjoint m l zs _ hml hm hl
  have hnd := hlist.nodup
  refine ⟨h.set hdet (l.cells (xs ++ M ++ ys)) ?_ hother ?_, hM, ?_, ?_⟩
  · intro a ha
    have hp : a ≠ l.last xs := fun he => ha (mem_cells_append.mpr (.inl (he ▸ last_mem_cells)))
    have hn : a ≠ l.pos ys := fun he => ha (mem_cells_append.mpr (.inl (he ▸ pos_mem_cells)))
    exact ⟨update_of_ne hp .., update_of_ne hn ..⟩
  · exact fun m zs hml hm a ha ha' => hother m zs hml hm ha (mem_cells_append.mpr (.inl ha'))
  · rw [cells_append, ← List.cons_append] at hnd
    exact (List.nodup_append.mp (List.nodup_append.mp hnd).1).2.1
  · intro m zs hm a ha haM
    by_cases hml : m = l
    · rw [Seqs.set, hml, update_self] at hm
      cases hm
      rw [hml] at ha
      simp only [ListHdr.cells, List.nodup_append, List.mem_append, List.mem_cons] at hnd ha
      grind
    · rw [Seqs.set, update_of_ne hml] at hm
      exact hother m zs hml hm ha (mem_cells_append.mpr (.inr haM))

/-! ## 範囲を入れる -/

theorem Represents.attach (h : Represents k s) (hl : s l = some (us ++ vs)) (hM : Seg k M)
    (hnd : M.Nodup) (hd : Detached s M) (hf : M.head? = some first)
    (hlast : M.getLast? = some last) :
    Represents (k.attach (l.last us) first last (l.pos vs)) (s.set l (us ++ M ++ vs)) := by
  have hlist := h.isList l _ hl
  have hnd' : (l.cells (us ++ M ++ vs)).Nodup := by
    have hbase := hlist.nodup
    have hdis := hd l _ hl
    rw [cells_append] at hbase hdis
    rw [cells_append, ← List.cons_append]
    simp only [List.nodup_append, List.mem_append] at hbase ⊢
    grind [List.Disjoint]
  obtain ⟨A, B, hcells', hcells, hhead, htail⟩ := cells_split l us vs
  have hseg := hlist.seg
  rw [hcells'] at hseg
  obtain ⟨hsA, hsB, -⟩ := seg_append_iff.mp hseg
  have hfirst : first ∈ M := List.mem_of_head? hf
  have hlastM : last ∈ M := List.mem_of_getLast? hlast
  rw [hcells] at hnd'
  have hsplit := hnd'
  simp only [List.nodup_append] at hsplit
  refine h.set ⟨?_, by rwa [hcells], ?_, ?_⟩ (l.cells (us ++ M ++ vs)) ?_ ?_ ?_
  · rw [hcells]
    exact hsA.attach hM hsB hf hlast hnd'
  · rw [Links.attach_prev, update_of_ne (by grind), update_of_ne (by grind)]
    exact hlist.head
  · rw [Links.attach_next, update_of_ne (by grind), update_of_ne (by grind)]
    exact hlist.tail
  · intro a ha
    rw [hcells] at ha
    simp only [Links.attach_next, Links.attach_prev]
    constructor
    · rw [update_of_ne (by grind), update_of_ne (by grind)]
    · rw [update_of_ne (by grind), update_of_ne (by grind)]
  all_goals
    intro m zs hml hm a ha ha'
    rcases mem_cells_append.mp ha' with ha' | ha'
    · exact h.disjoint m l zs _ hml hm hl ha ha'
    · exact hd m zs hm ha ha'

end

variable {fuel : Nat}

/-! ## 読むだけの関数 -/

section

variable {k : Links α} {l : ListHdr α} {xs : List α} {a b : α}

theorem listNext_eq (h : k.next a = some b) : listNext k a = some b := by
  cases hp : k.prev a <;> simp [listNext, isHead, isInterior, h, hp]

theorem listPrev_eq (h : k.prev b = some a) : listPrev k b = some a := by
  cases hn : k.next b <;> simp [listPrev, isTail, isInterior, h, hn]

theorem before_ok (h : k.prev b = some a) : (isInterior k b || isTail k b) = true := by
  cases hn : k.next b <;> simp [isTail, isInterior, h, hn]

theorem isInterior_of_mem (h : IsList k l xs) (ha : a ∈ xs) : isInterior k a = true := by
  obtain ⟨us, vs, rfl⟩ := List.append_of_mem ha
  have h' : IsList k l (us ++ [a] ++ vs) := by simpa using h
  have hends : k.prev a = some (l.last us) ∧ k.next a = some (l.pos vs) := h'.ends rfl rfl
  simp [isInterior, hends]

theorem exists_prev (h : IsList k l xs) (ha : a ∈ xs ++ [l.tail]) : ∃ p, k.prev a = some p := by
  obtain ⟨us, vs, heq⟩ := List.append_of_mem ha
  have hseg := h.seg
  rw [ListHdr.cells, List.cons_append, heq, ← List.cons_append] at hseg
  have hne : (l.head :: us).getLast? ≠ none := by simp
  obtain ⟨p, hp⟩ := Option.ne_none_iff_exists'.mp hne
  exact ⟨p, ((seg_append_iff.mp hseg).2.2 p hp a rfl).2⟩

theorem next_last (us vs : List α) (h : IsList k l (us ++ vs)) :
    k.next (l.last us) = some (l.pos vs) ∧ k.prev (l.pos vs) = some (l.last us) := by
  obtain ⟨A, B, hcells, -, -, -⟩ := cells_split l us vs
  have hseg := h.seg
  rw [hcells] at hseg
  exact (seg_append_iff.mp hseg).2.2 _ (by simp) _ (by simp)

theorem IsList.listNext_mid {us rest : List α} (h : IsList k l (us ++ a :: rest)) :
    listNext k a = some (l.pos rest) := by
  rw [List.append_cons] at h
  exact listNext_eq (h.ends rfl rfl).2

theorem listBegin_eq (h : IsList k l xs) : listBegin k l = some (l.pos xs) :=
  (next_last [] xs h).1

theorem listRbegin_eq (h : IsList k l xs) : listRbegin k l = some (l.last xs) :=
  (next_last xs [] (by rwa [List.append_nil])).2

variable [DecidableEq α]

theorem listEmpty_eq (h : IsList k l xs) : listEmpty k l = xs.isEmpty := by
  rw [listEmpty, listBegin_eq h]
  cases xs with
  | nil => simp [ListHdr.pos, listEnd]
  | cons x xs =>
    have hne : x ≠ l.tail := by
      have hnd := h.nodup
      simp only [ListHdr.cells, List.nodup_append] at hnd
      exact hnd.2.2 x (by simp) l.tail (by simp)
    simpa [ListHdr.pos, listEnd] using hne

theorem forward_eq {stop : α} (ys : List α) (h : Seg k (ys ++ [stop])) (hnd : (ys ++ [stop]).Nodup)
    (hf : ys.length < fuel) : forward k stop fuel (ys.headD stop) = some ys := by
  induction ys generalizing fuel with
  | nil =>
    obtain ⟨fuel, rfl⟩ := Nat.exists_eq_succ_of_ne_zero (Nat.ne_zero_of_lt hf)
    simp [forward]
  | cons y ys ih =>
    obtain ⟨fuel, rfl⟩ := Nat.exists_eq_succ_of_ne_zero (Nat.ne_zero_of_lt hf)
    have hne : y ≠ stop := by
      rintro rfl
      simp at hnd
    obtain ⟨hnext, hrest⟩ := h.uncons
    rw [List.headD_cons, forward, if_neg hne, listNext_eq hnext, Option.bind_some,
      ih hrest (List.nodup_cons.mp hnd).2 (Nat.lt_of_succ_lt_succ hf)]
    rfl

theorem backward_eq (stop : α) (fuel : Nat) (e : α) :
    backward k stop fuel e = forward ⟨k.prev, k.next⟩ stop fuel e := by
  have hprev : ∀ e, listPrev k e = listNext ⟨k.prev, k.next⟩ e := by
    intro e
    cases hp : k.prev e <;> cases hn : k.next e <;>
      simp [listPrev, listNext, isHead, isTail, isInterior, hp, hn]
  induction fuel generalizing e with
  | zero => rfl
  | succ fuel ih =>
    rw [backward, forward, hprev]
    simp only [ih]

theorem traverse_eq (h : IsList k l xs) (hf : xs.length < fuel) : traverse k l fuel = some xs := by
  rw [traverse, listBegin_eq h]
  exact forward_eq xs (List.IsChain.tail h.seg) (List.nodup_cons.mp h.nodup).2 hf

theorem rtraverse_eq (h : IsList k l xs) (hf : xs.length < fuel) :
    rtraverse k l fuel = some xs.reverse := by
  have hseg : Seg k (l.head :: xs) := (seg_append_iff.mp h.seg).1
  have hrev := seg_reverse hseg
  have hnd : (l.head :: xs).reverse.Nodup :=
    List.nodup_reverse.mpr (List.nodup_append.mp h.nodup).1
  rw [List.reverse_cons] at hrev hnd
  rw [rtraverse, listRbegin_eq h, Option.bind_some, backward_eq]
  have hlast : l.last xs = xs.reverse.headD l.head := by
    simp [ListHdr.last, List.headD_eq_head?_getD, List.getLastD_eq_getLast?]
  rw [hlast]
  exact forward_eq xs.reverse hrev hnd (by simpa using hf)

end

/-! ## 一要素の挿入と削除 -/

section

variable [DecidableEq α] {k : Links α} {s : Seqs α} {l : ListHdr α} {xs ys us vs M : List α}
  {e first last : α}

theorem relink_eq (h : IsList k l (us ++ vs)) (hf : first ∉ l.cells (us ++ vs)) :
    relink (l.pos vs) first last k = some (k.attach (l.last us) first last (l.pos vs)) := by
  have hp := (next_last us vs h).2
  have hne : l.pos vs ≠ first := fun he => hf (he ▸ pos_mem_cells)
  simp [relink, Links.setNext, Links.setPrev, Links.attach, update_of_ne hne, hp]

theorem Represents.listInsert (h : Represents k s) (hl : s l = some (xs ++ ys))
    (he : Detached s [e]) :
    ∃ k', listInsert (l.pos ys) e k = some k' ∧ Represents k' (s.set l (xs ++ e :: ys)) := by
  have hlist := h.isList l _ hl
  have hnot : e ∉ l.cells (xs ++ ys) := fun hmem => he l _ hl hmem (List.mem_singleton_self e)
  refine ⟨k.attach (l.last xs) e e (l.pos ys), ?_, ?_⟩
  · rw [Pointer.listInsert, if_pos (before_ok (next_last xs ys hlist).2)]
    exact relink_eq hlist hnot
  · have hatt := h.attach hl (.singleton e) (List.nodup_singleton e) he rfl rfl
    rwa [List.append_assoc, List.singleton_append] at hatt

theorem Represents.listRemove (h : Represents k s) (hl : s l = some (xs ++ e :: ys)) :
    ∃ k', listRemove e k = some (l.pos ys, k') ∧ Represents k' (s.set l (xs ++ ys)) ∧
      Detached (s.set l (xs ++ ys)) [e] := by
  rw [List.append_cons] at hl
  have hlist := h.isList l _ hl
  have hends : k.prev e = some (l.last xs) ∧ k.next e = some (l.pos ys) := hlist.ends rfl rfl
  obtain ⟨hrep, -, -, hdet⟩ := h.detach hl
  refine ⟨k.bridge (l.last xs) (l.pos ys), ?_, hrep, hdet⟩
  have hne : e ≠ l.last xs := fun he =>
    hdet l _ (update_self ..) last_mem_cells (by simp [he])
  have hun : unlink e e k = some (k.bridge (l.last xs) (l.pos ys)) := unlink_eq hlist rfl rfl
  rw [Pointer.listRemove, if_pos (isInterior_of_mem hlist (by simp)), hun]
  simp [update_of_ne hne, hends]

/-- **`list_splice` は範囲を移す。** 移す先は、範囲を外した後の列の位置である。 -/
theorem Represents.listSplice {m : ListHdr α} (h : Represents k s)
    (hl : s l = some (xs ++ first :: M ++ ys)) (hm : s.set l (xs ++ ys) m = some (us ++ vs)) :
    ∃ k', listSplice (m.pos vs) first (l.pos ys) k = some k' ∧
      Represents k' ((s.set l (xs ++ ys)).set m (us ++ first :: M ++ vs)) := by
  have hlist := h.isList l _ hl
  obtain ⟨last, hlast⟩ : ∃ last, (first :: M).getLast? = some last :=
    Option.ne_none_iff_exists'.mp (by simp)
  obtain ⟨hrep, hM, hnd, hdet⟩ := h.detach hl
  have hlist' := hrep.isList m _ hm
  refine ⟨_, ?_, hrep.attach hm hM hnd hdet rfl hlast⟩
  -- `BEFORE` は、外す前の link でも前の cell を持つ
  have hbefore : ∃ p, k.prev (m.pos vs) = some p := by
    by_cases hml : m = l
    · subst hml
      rw [Seqs.set, update_self] at hm
      have hmem : m.pos vs ∈ (us ++ vs) ++ [m.tail] := by
        obtain ⟨B, hB⟩ := exists_back m vs
        rw [List.append_assoc, hB]
        simp
      rw [← Option.some.inj hm] at hmem
      refine exists_prev hlist ?_
      simp only [List.mem_append] at hmem ⊢
      tauto
    · have hm' : s m = some (us ++ vs) := (update_of_ne hml ..).symm.trans hm
      exact ⟨_, (next_last us vs (h.isList m _ hm')).2⟩
  obtain ⟨p, hp⟩ := hbefore
  have hne : first ≠ l.pos ys := fun he =>
    hdet l _ (update_self ..) pos_mem_cells (by simp [he])
  have hprev : listPrev k (l.pos ys) = some last := by
    refine listPrev_eq ((next_last _ _ hlist).2.trans ?_)
    rw [last_append hlast]
  have hlastM : last ∈ first :: M := List.mem_of_getLast? hlast
  rw [Pointer.listSplice, if_pos (before_ok hp), if_neg hne, hprev, Option.bind_some,
    isInterior_of_mem hlist (by simp),
    isInterior_of_mem hlist (List.mem_append_left _ (List.mem_append_right _ hlastM))]
  rw [Bool.and_self, if_pos rfl, unlink_eq hlist rfl hlast, Option.bind_some]
  exact relink_eq hlist' fun hmem => hdet m _ hm hmem (List.mem_cons_self ..)

end

/-! ## 反転 -/

section

variable [DecidableEq α] {k : Links α} {s : Seqs α} {l : ListHdr α} {xs : List α}

/-- `xs` の要素だけ `next` と `prev` を入れ替えた link。 -/
def swapAll (xs : List α) (k : Links α) : Links α where
  next a := if a ∈ xs then k.prev a else k.next a
  prev a := if a ∈ xs then k.next a else k.prev a

theorem reverseLoop_eq {stop : α} (ys : List α) {k : Links α} (h : Seg k (ys ++ [stop]))
    (hnd : (ys ++ [stop]).Nodup) (hf : ys.length < fuel) :
    reverseLoop stop fuel (ys.headD stop) k = some (swapAll ys k) := by
  induction ys generalizing fuel k with
  | nil =>
    obtain ⟨fuel, rfl⟩ := Nat.exists_eq_succ_of_ne_zero (Nat.ne_zero_of_lt hf)
    simp [reverseLoop, swapAll]
  | cons y ys ih =>
    obtain ⟨fuel, rfl⟩ := Nat.exists_eq_succ_of_ne_zero (Nat.ne_zero_of_lt hf)
    obtain ⟨hy, hnd⟩ := List.nodup_cons.mp hnd
    have hne : y ≠ stop := by
      rintro rfl
      simp at hy
    obtain ⟨hnext, htail⟩ := h.uncons
    have hswap : (swapLinks y k).prev y = some (ys.headD stop) := by
      simp [swapLinks, hnext]
    have hrest : Seg (swapLinks y k) (ys ++ [stop]) := by
      refine htail.frame fun a ha => ?_
      have hay : a ≠ y := fun he => hy (he ▸ ha)
      simp [swapLinks, update_of_ne hay]
    rw [List.headD_cons, reverseLoop, if_neg hne, hswap, Option.bind_some,
      ih hrest hnd (Nat.lt_of_succ_lt_succ hf)]
    congr 1
    have hy' : y ∉ ys := fun hmem => hy (List.mem_append_left _ hmem)
    ext a : 2
    · by_cases hay : a = y
      · simp [swapAll, swapLinks, hay, hy']
      · simp [swapAll, swapLinks, hay]
    · by_cases hay : a = y
      · simp [swapAll, swapLinks, hay, hy']
      · simp [swapAll, swapLinks, hay]

theorem seg_swapAll (h : Seg k xs) : Seg (swapAll xs k) xs.reverse :=
  (seg_reverse h).frame fun a ha => by simp [swapAll, List.mem_reverse.mp ha]

theorem swapEnds_eq {first last : α} (h : IsList k l xs) (hf : xs.head? = some first)
    (hl : xs.getLast? = some last) :
    swapEnds l (swapAll xs k) = some ((swapAll xs k).attach l.head last first l.tail) := by
  have hnd := h.nodup
  have hfirst : first ∈ xs := List.mem_of_head? hf
  have hlast : last ∈ xs := List.mem_of_getLast? hl
  simp only [ListHdr.cells, List.nodup_append, List.nodup_cons] at hnd
  have hh : l.head ∉ xs := by grind
  have ht : l.tail ∉ xs := by grind
  have hends : k.prev first = some l.head ∧ k.next last = some l.tail :=
    IsList.ends (show IsList k l ([] ++ xs ++ []) by simpa using h) hf hl
  have hbegin : k.next l.head = some first := by
    rw [show k.next l.head = _ from listBegin_eq h, ListHdr.pos, List.headD_eq_head?_getD, hf]
    rfl
  have hrbegin : k.prev l.tail = some last := by
    rw [show k.prev l.tail = _ from listRbegin_eq h, ListHdr.last, List.getLastD_eq_getLast?, hl]
    rfl
  have hfh : first ≠ l.head := fun he => hh (he ▸ hfirst)
  have hlt : last ≠ l.tail := fun he => ht (he ▸ hlast)
  simp only [swapEnds, Links.setNext, Links.setPrev, swapAll, Links.attach, hh, ht, hfirst, hlast,
    if_true, if_false, hbegin, hrbegin, update_self, update_of_ne hfh,
    update_of_ne hlt, hends, Option.bind_some, Option.map_some]
  congr 2
  · exact update_comm hfh.symm ..
  · exact update_comm hlt.symm ..

theorem Represents.listReverse (h : Represents k s) (hl : s l = some xs) (hf : xs.length < fuel) :
    ∃ k', listReverse fuel l k = some k' ∧ Represents k' (s.set l xs.reverse) := by
  have hlist := h.isList l xs hl
  rw [Pointer.listReverse, listEmpty_eq hlist]
  by_cases hnil : xs = []
  · subst hnil
    refine ⟨k, rfl, ?_⟩
    rw [List.reverse_nil, Seqs.set_self hl]
    exact h
  have hnempty : xs.isEmpty = false := by simpa using hnil
  obtain ⟨first, hfirst⟩ := Option.ne_none_iff_exists'.mp (mt List.head?_eq_none_iff.mp hnil)
  obtain ⟨last, hlast⟩ := Option.ne_none_iff_exists'.mp (mt List.getLast?_eq_none_iff.mp hnil)
  have hloop := reverseLoop_eq xs (List.IsChain.tail hlist.seg) (List.nodup_cons.mp hlist.nodup).2 hf
  rw [hnempty, if_neg Bool.false_ne_true, listBegin_eq hlist, Option.bind_some,
    show reverseLoop (listEnd l) fuel (l.pos xs) k = _ from hloop, Option.bind_some,
    swapEnds_eq hlist hfirst hlast]
  have hcells : l.cells xs.reverse = [] ++ [l.head] ++ xs.reverse ++ l.tail :: [] := rfl
  have hperm : (l.cells xs.reverse).Perm (l.cells xs) :=
    ((List.reverse_perm xs).append_right _).cons _
  have hnd : (l.cells xs.reverse).Nodup := hperm.nodup_iff.mpr hlist.nodup
  have hseg : Seg k xs := (seg_append_iff.mp (List.IsChain.tail hlist.seg)).1
  have hfirst' : first ∈ xs := List.mem_of_head? hfirst
  have hlast' : last ∈ xs := List.mem_of_getLast? hlast
  have hsplit := hlist.nodup
  simp only [ListHdr.cells, List.nodup_append, List.nodup_cons] at hsplit
  have hmem : ∀ a, a ∈ l.cells xs ↔ a = l.head ∨ a ∈ xs ∨ a = l.tail := by
    simp [ListHdr.cells]
  refine ⟨_, rfl, h.set ⟨?_, hnd, ?_, ?_⟩ (l.cells xs) ?_ ?_ ?_⟩
  · rw [hcells] at hnd ⊢
    exact Seg.attach (.singleton _) (seg_swapAll hseg) (.singleton _) (by simpa using hlast)
      (by simpa using hfirst) hnd
  · rw [Links.attach_prev, update_of_ne (by grind), update_of_ne (by grind)]
    exact (if_neg (by grind)).trans hlist.head
  · rw [Links.attach_next, update_of_ne (by grind), update_of_ne (by grind)]
    exact (if_neg (by grind)).trans hlist.tail
  · intro a ha
    rw [hmem] at ha
    simp only [Links.attach_next, Links.attach_prev, swapAll]
    constructor
    · rw [update_of_ne (by grind), update_of_ne (by grind), if_neg (by grind)]
    · rw [update_of_ne (by grind), update_of_ne (by grind), if_neg (by grind)]
  · exact fun m zs hml hm => h.disjoint m l zs xs hml hm hl
  · exact fun m zs hml hm a ha ha' => h.disjoint m l zs xs hml hm hl ha (hperm.mem_iff.mp ha')

end

end Pintos.Pointer
