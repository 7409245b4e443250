import Pintos.Lib.List
import Pintos.Properties.LinkedList

/-!
# link の上の `list_sort`

link の上の整列が、列の上の整列 `Pintos.listSort` を実現することを示す。

* 読むだけの `is_sorted` と `find_end_of_run` は、`IsList` の列の位置で述べる
* `inplace_merge` は一要素の `list_splice` の繰り返しで、前後の要素を `us` と `vs` に置いて
  `List.merge` の再帰に沿わせる
* pass は `Pintos.sortPass` の帰納法、pass の繰り返しは run の数で述べる
-/

namespace Pintos.Pointer

open Infra Function

variable {α : Type} {fuel : Nat}

/-! ## 列の位置 -/

section

variable {k : Links α} {l : ListHdr α} {us ms ws : List α} {a b : α}

theorem IsList.pos_ne (h : IsList k l (us ++ (a :: ms ++ ws))) : a ≠ l.pos ws := by
  have hnd := h.nodup
  rw [cells_append] at hnd
  have hrest := (List.nodup_append.mp hnd).2.1
  obtain ⟨B, hB⟩ := exists_back l ws
  rw [List.cons_append, List.cons_append, List.append_assoc, hB] at hrest
  exact fun he => (List.nodup_cons.mp hrest).1 (by simp [he])

theorem IsList.listPrev_mid (h : IsList k l (us ++ a :: ws)) :
    listPrev k (l.pos ws) = some a := by
  rw [List.append_cons] at h
  refine listPrev_eq ((next_last _ _ h).2.trans ?_)
  rw [last_append rfl]
  rfl

theorem IsList.pos_ne_end (h : IsList k l (us ++ ws)) (hne : ws ≠ []) : l.pos ws ≠ listEnd l := by
  cases ws with
  | nil => exact absurd rfl hne
  | cons a ws =>
    have h' : IsList k l (us ++ (a :: ws ++ [])) := by rwa [List.append_nil]
    exact h'.pos_ne

end

variable [DecidableEq α]

theorem Seqs.set_set (s : Seqs α) (l : ListHdr α) (xs ys : List α) :
    (s.set l xs).set l ys = s.set l ys :=
  update_idem ..

/-! ## is_sorted と find_end_of_run -/

section

variable {less : α → α → Bool} {k : Links α} {l : ListHdr α} {us ws : List α}

theorem isSortedLoop_eq {a : α} (ms : List α)
    (h : IsList k l (us ++ (a :: ms ++ ws))) (hs : ListSorted less (a :: ms))
    (hf : ms.length < fuel) : isSortedLoop less k (l.pos ws) fuel a = some true := by
  induction ms generalizing us a fuel with
  | nil =>
    obtain ⟨fuel, rfl⟩ := Nat.exists_eq_succ_of_ne_zero (Nat.ne_zero_of_lt hf)
    have hnext : listNext k a = some (l.pos ws) := h.listNext_mid
    rw [isSortedLoop, hnext, Option.bind_some, if_pos rfl]
  | cons b ms ih =>
    obtain ⟨fuel, rfl⟩ := Nat.exists_eq_succ_of_ne_zero (Nat.ne_zero_of_lt hf)
    obtain ⟨hle, hs'⟩ := List.pairwise_cons.mp hs
    have hnext : listNext k a = some b := h.listNext_mid
    have hprev : listPrev k b = some a := h.listPrev_mid
    have hba : less b a = false := hle b (List.mem_cons_self ..)
    have h' : IsList k l ((us ++ [a]) ++ (b :: ms ++ ws)) := by simpa using h
    rw [isSortedLoop, hnext, Option.bind_some, if_neg h'.pos_ne, hprev, Option.bind_some, hba,
      if_neg Bool.false_ne_true]
    exact ih h' hs' (Nat.lt_of_succ_lt_succ hf)

theorem isSorted_eq {ms : List α} (h : IsList k l (us ++ (ms ++ ws)))
    (hs : ListSorted less ms) (hf : ms.length < fuel) :
    isSorted less fuel k (l.pos (ms ++ ws)) (l.pos ws) = some true := by
  cases ms with
  | nil => exact if_neg (not_not.mpr rfl)
  | cons a ms =>
    have hne : l.pos (a :: ms ++ ws) ≠ l.pos ws := h.pos_ne
    rw [isSorted, if_pos hne]
    exact isSortedLoop_eq ms h hs (Nat.lt_of_succ_lt hf)

theorem endOfRunLoop_eq {a : α} (rest : List α) (h : IsList k l (us ++ a :: rest))
    (hf : rest.length < fuel) :
    endOfRunLoop less k l.tail fuel a =
      some (l.pos (Pintos.findEndOfRun less (a :: rest)).2) := by
  induction rest generalizing us a fuel with
  | nil =>
    obtain ⟨fuel, rfl⟩ := Nat.exists_eq_succ_of_ne_zero (Nat.ne_zero_of_lt hf)
    have hnext : listNext k a = some l.tail := h.listNext_mid
    rw [endOfRunLoop, hnext, Option.bind_some, if_pos rfl]
    rfl
  | cons b rest ih =>
    obtain ⟨fuel, rfl⟩ := Nat.exists_eq_succ_of_ne_zero (Nat.ne_zero_of_lt hf)
    have hnext : listNext k a = some b := h.listNext_mid
    have hprev : listPrev k b = some a := h.listPrev_mid
    have h' : IsList k l ((us ++ [a]) ++ b :: rest) := by rwa [← List.append_cons]
    have hne : b ≠ l.tail := h'.pos_ne_end (List.cons_ne_nil b rest)
    rw [endOfRunLoop, hnext, Option.bind_some, if_neg hne, hprev, Option.bind_some,
      Pintos.findEndOfRun]
    cases less b a with
    | true => rfl
    | false => exact ih h' (Nat.lt_of_succ_lt_succ hf)

theorem findEndOfRun_eq {ys : List α} (h : IsList k l (us ++ ys)) (hne : ys ≠ [])
    (hf : ys.length < fuel) :
    findEndOfRun less fuel k (l.pos ys) (listEnd l) =
      some (l.pos (Pintos.findEndOfRun less ys).2) := by
  cases ys with
  | nil => exact absurd rfl hne
  | cons a rest =>
    rw [findEndOfRun, if_pos (h.pos_ne_end hne)]
    exact endOfRunLoop_eq rest h (Nat.lt_of_succ_lt hf)

end

/-! ## inplace_merge -/

section

variable {less : α → α → Bool} {k : Links α} {s : Seqs α} {l : ListHdr α}

theorem Represents.mergeLoop {vs : List α} (us as bs : List α)
    (h : Represents k s) (hl : s l = some (us ++ (as ++ (bs ++ vs))))
    (hf : as.length + bs.length < fuel) :
    ∃ k', mergeLoop less (l.pos vs) fuel (l.pos (as ++ (bs ++ vs))) (l.pos (bs ++ vs)) k = some k' ∧
      Represents k' (s.set l (us ++ (Pintos.inplaceMerge less as bs ++ vs))) := by
  induction fuel generalizing us as bs k s with
  | zero => exact absurd hf (Nat.not_lt_zero _)
  | succ fuel ih =>
    have hlist := h.isList l _ hl
    rw [Pointer.mergeLoop, Pintos.inplaceMerge]
    cases as with
    | nil =>
      refine ⟨k, if_neg fun hne => hne.1 rfl, ?_⟩
      rw [List.nil_merge, show s.set l (us ++ (bs ++ vs)) = s from Seqs.set_self hl]
      exact h
    | cons a as =>
      cases bs with
      | nil =>
        refine ⟨k, if_neg fun hne => hne.2 rfl, ?_⟩
        rw [List.merge_right, show s.set l (us ++ (a :: as ++ vs)) = s from Seqs.set_self hl]
        exact h
      | cons b bs =>
        have hab : l.pos (a :: as ++ (b :: bs ++ vs)) ≠ l.pos (b :: bs ++ vs) := hlist.pos_ne
        have hlist' : IsList k l ((us ++ a :: as) ++ (b :: bs ++ vs)) := by simpa using hlist
        have hb : l.pos (b :: bs ++ vs) ≠ l.pos vs := hlist'.pos_ne
        rw [if_pos ⟨hab, hb⟩, List.cons_merge_cons]
        simp only [List.length_cons] at hf
        show ∃ k', (if !less b a then (listNext k a).bind _ else (listNext k b).bind _) = some k' ∧ _
        cases hba : less b a with
        | false =>
          -- 前の run の先頭はそのままで、`a0` だけが進む
          have hnext : listNext k a = some (l.pos (as ++ (b :: bs ++ vs))) := hlist.listNext_mid
          have hl' : s l = some ((us ++ [a]) ++ (as ++ (b :: bs ++ vs))) := by simpa using hl
          obtain ⟨k', hk', hrep⟩ := ih (us ++ [a]) as (b :: bs) h hl' (by simp; omega)
          refine ⟨k', ?_, ?_⟩
          · rw [Bool.not_false, if_pos rfl, hnext]
            exact hk'
          · simpa [Pintos.inplaceMerge] using hrep
        | true =>
          -- 後の run の先頭 `b` を `a` の前に移す
          have hnext : listNext k b = some (l.pos (bs ++ vs)) := hlist'.listNext_mid
          have hprev : listPrev k (l.pos (bs ++ vs)) = some b := hlist'.listPrev_mid
          have hsplit : s l = some ((us ++ a :: as) ++ b :: [] ++ (bs ++ vs)) := by simpa using hl
          have hrest : s.set l ((us ++ a :: as) ++ (bs ++ vs)) l =
              some (us ++ (a :: as ++ (bs ++ vs))) := by
            simp [Seqs.set]
          obtain ⟨k₁, hk₁, hrep₁⟩ := h.listSplice hsplit hrest
          rw [Seqs.set_set] at hrep₁
          obtain ⟨k', hk', hrep⟩ := ih (us ++ [b]) (a :: as) bs hrep₁ (by simp [Seqs.set])
            (by simp; omega)
          refine ⟨k', ?_, ?_⟩
          · have hsplice : Pointer.listSplice (l.pos (a :: as ++ (b :: bs ++ vs))) b
                (l.pos (bs ++ vs)) k = some k₁ := hk₁
            rw [Bool.not_true, if_neg Bool.false_ne_true, hnext, Option.bind_some, hprev,
              Option.bind_some, hsplice]
            exact hk'
          · rw [Seqs.set_set] at hrep
            simpa [Pintos.inplaceMerge] using hrep

/-- **`inplace_merge` は隣り合う二つの run を併せる。** 検査は run が整列していれば通る。 -/
theorem Represents.inplaceMerge {us as bs vs : List α} (h : Represents k s)
    (hl : s l = some (us ++ (as ++ (bs ++ vs)))) (ha : ListSorted less as)
    (hb : ListSorted less bs) (hf : as.length + bs.length < fuel) :
    ∃ k', inplaceMerge less fuel (l.pos (as ++ (bs ++ vs))) (l.pos (bs ++ vs)) (l.pos vs) k =
        some k' ∧
      Represents k' (s.set l (us ++ (Pintos.inplaceMerge less as bs ++ vs))) := by
  have hlist := h.isList l _ hl
  have hlist' : IsList k l ((us ++ as) ++ (bs ++ vs)) := by rwa [List.append_assoc]
  rw [Pointer.inplaceMerge, isSorted_eq hlist ha (by omega), Option.bind_some,
    isSorted_eq hlist' hb (by omega), Option.bind_some, Bool.and_self, if_pos rfl]
  exact h.mergeLoop us as bs hl hf

end

/-! ## list_sort -/

section

variable {less : α → α → Bool} (ho : StrictWeakOrder less) {k : Links α} {s : Seqs α}
  {l : ListHdr α}

include ho

theorem Represents.sortPass (ys : List α) : ∀ (us : List α) (cnt : Nat) {n : Nat}
    {k : Links α} {s : Seqs α}, Represents k s → s l = some (us ++ ys) →
    ys.length < n → ys.length < fuel →
    ∃ k', sortPass less fuel l n (l.pos ys) cnt k =
        some (cnt + (Pintos.sortPass less ys).2, k') ∧
      Represents k' (s.set l (us ++ (Pintos.sortPass less ys).1)) := by
  induction ys using Pintos.sortPass.induct less with
  | case1 =>
    intro us cnt n k s h hl hn _
    obtain ⟨n, rfl⟩ := Nat.exists_eq_succ_of_ne_zero (Nat.ne_zero_of_lt hn)
    rw [Pintos.sortPass, dif_pos rfl]
    refine ⟨k, if_pos rfl, ?_⟩
    rw [Seqs.set_self hl]
    exact h
  | case2 ys hne hone =>
    intro us cnt n k s h hl hn hf
    obtain ⟨n, rfl⟩ := Nat.exists_eq_succ_of_ne_zero (Nat.ne_zero_of_lt hn)
    have hlist := h.isList l _ hl
    rw [Pintos.sortPass, dif_neg hne, dif_pos hone]
    refine ⟨k, ?_, by rw [Seqs.set_self hl]; exact h⟩
    rw [Pointer.sortPass, if_neg (hlist.pos_ne_end hne), findEndOfRun_eq hlist hne hf, hone,
      Option.bind_some]
    exact if_pos rfl
  | case3 ys hne hmany r ih =>
    intro us cnt n k s h hl hn hf
    obtain ⟨n, rfl⟩ := Nat.exists_eq_succ_of_ne_zero (Nat.ne_zero_of_lt hn)
    have hlist := h.isList l _ hl
    have happ := findEndOfRun_append less ys
    have happ' : r.1 ++ r.2 = (Pintos.findEndOfRun less ys).2 := findEndOfRun_append less _
    have hlen := congrArg List.length happ
    have hlen' := congrArg List.length happ'
    rw [List.length_append] at hlen hlen'
    have hlt := findEndOfRun_length_lt less hne
    have hruns : (Pintos.findEndOfRun less ys).1.length + r.1.length < fuel := by omega
    have hrest : r.2.length < n := by omega
    -- 列を `us`、二つの run、残りに分ける
    have hsplit : s l = some (us ++ ((Pintos.findEndOfRun less ys).1 ++ (r.1 ++ r.2))) := by
      rw [happ', happ, hl]
    have hlist' : IsList k l ((us ++ (Pintos.findEndOfRun less ys).1) ++
        (Pintos.findEndOfRun less ys).2) := by
      rwa [List.append_assoc, happ]
    obtain ⟨k₁, hk₁, hrep₁⟩ :=
      h.inplaceMerge hsplit (findEndOfRun_sorted ho _) (findEndOfRun_sorted ho _) hruns
    rw [happ', happ] at hk₁
    obtain ⟨k', hk', hrep⟩ := ih _ (cnt + 1) hrep₁
      (by rw [Seqs.set, update_self, ← List.append_assoc]) hrest (by omega)
    have hpass : Pintos.sortPass less ys =
        (Pintos.inplaceMerge less (Pintos.findEndOfRun less ys).1 r.1 ++
          (Pintos.sortPass less r.2).1, (Pintos.sortPass less r.2).2 + 1) := by
      rw [Pintos.sortPass, dif_neg hne, dif_neg hmany]
    refine ⟨k', ?_, ?_⟩
    · rw [Pointer.sortPass, if_neg (hlist.pos_ne_end hne), findEndOfRun_eq hlist hne hf,
        Option.bind_some, if_neg (hlist'.pos_ne_end hmany),
        findEndOfRun_eq hlist' hmany (by omega), Option.bind_some, hk₁, Option.bind_some, hk',
        hpass, Nat.add_assoc, Nat.add_comm 1]
    · rw [Seqs.set_set, List.append_assoc] at hrep
      rwa [hpass]

theorem Represents.sortLoop (m : Nat) {xs : List α} {n : Nat} (h : Represents k s)
    (hl : s l = some xs) (hm : runCount less xs ≤ m) (hn : runCount less xs < n)
    (hf : xs.length < fuel) :
    ∃ k', sortLoop less fuel l n k = some k' ∧
      Represents k' (s.set l (Pintos.sortLoop less m xs)) := by
  induction m generalizing xs n k s with
  | zero =>
    -- run が無い列は空で、pass を一度だけ通る
    have hnil : xs = [] := by
      by_contra hne
      have := runCount_pos less hne
      omega
    subst hnil
    obtain ⟨n, rfl⟩ := Nat.exists_eq_succ_of_ne_zero (Nat.ne_zero_of_lt hn)
    obtain ⟨k', hk', hrep⟩ := Represents.sortPass ho [] [] 0 h hl hf hf
    refine ⟨k', ?_, by simpa [Pintos.sortPass, Pintos.sortLoop] using hrep⟩
    rw [Pointer.sortLoop, listBegin_eq (h.isList l _ hl), Option.bind_some, hk']
    simp [Pintos.sortPass]
  | succ m ih =>
    obtain ⟨n, rfl⟩ := Nat.exists_eq_succ_of_ne_zero (Nat.ne_zero_of_lt hn)
    obtain ⟨k₁, hk₁, hrep₁⟩ := Represents.sortPass ho xs [] 0 h hl hf hf
    obtain ⟨hcnt, hle⟩ := sortPass_runCount ho xs
    have hlen := (sortPass_perm less xs).length_eq
    rw [Pointer.sortLoop, listBegin_eq (h.isList l _ hl), Option.bind_some, hk₁, Option.bind_some,
      Nat.zero_add, Pintos.sortLoop]
    by_cases hmany : 1 < (Pintos.sortPass less xs).2
    · rw [if_pos hmany, if_pos hmany]
      have hset : (s.set l ([] ++ (Pintos.sortPass less xs).1)) l =
          some (Pintos.sortPass less xs).1 :=
        update_self ..
      have hn' : runCount less (Pintos.sortPass less xs).1 < n := by omega
      obtain ⟨k', hk', hrep⟩ := ih hrep₁ hset (by omega) hn' (by omega)
      rw [Seqs.set_set] at hrep
      exact ⟨k', hk', hrep⟩
    · rw [if_neg hmany, if_neg hmany]
      exact ⟨k₁, rfl, hrep₁⟩

/-- **`list_sort` は列の整列を実現する。** 検査はどれも通る。 -/
theorem Represents.listSort {xs : List α} (h : Represents k s) (hl : s l = some xs)
    (hf : xs.length < fuel) :
    ∃ k', listSort less fuel l k = some k' ∧ Represents k' (s.set l (Pintos.listSort less xs)) := by
  have hruns := runCount_le_length less xs
  obtain ⟨k', hk', hrep⟩ := Represents.sortLoop ho xs.length h hl hruns (by omega : _ < fuel) hf
  refine ⟨k', ?_, hrep⟩
  have hlist : IsList k' l ([] ++ (Pintos.listSort less xs ++ [])) := by
    rw [List.append_nil]
    exact hrep.isList l _ (update_self ..)
  have hsorted : isSorted less fuel k' (l.pos ([] ++ (Pintos.listSort less xs ++ [])))
      (listEnd l) = some true :=
    isSorted_eq hlist (listSort_sorted ho xs) (by rwa [(listSort_perm less xs).length_eq])
  rw [Pointer.listSort, hk', Option.bind_some, listBegin_eq hlist, Option.bind_some, hsorted]
  rfl

end

/-! ## 主定理 -/

/-- 比べられない要素の順が同じである。 -/
def StableOrder (less : α → α → Bool) (xs ys : List α) : Prop :=
  ∀ a, ys.filter (fun b => !less a b && !less b a) = xs.filter fun b => !less a b && !less b a

/--
**`list_sort` は、どの長さの list も安定に整列する。**

`less` が strict weak order であれば、十分な fuel で検査を通って終わり、後の link が表す列は

* 元の要素の並べ替えで、整列していて
* 比べられない要素の順を保つ

ほかの list の列は変わらない。
-/
theorem listSort_correct {less : α → α → Bool} (ho : StrictWeakOrder less) {k : Links α}
    {s : Seqs α} (h : Represents k s) {l : ListHdr α} {xs : List α} (hl : s l = some xs) :
    ∃ ys, ys.Perm xs ∧ ListSorted less ys ∧ StableOrder less xs ys ∧
      ∃ n, ∀ fuel, n < fuel →
        ∃ k', listSort less fuel l k = some k' ∧ Represents k' (s.set l ys) := by
  refine ⟨Pintos.listSort less xs, listSort_perm less xs, listSort_sorted ho xs, ?_, xs.length,
    fun fuel hf => h.listSort ho hl hf⟩
  intro a
  refine listSort_filter ho ?_ xs
  intro x y hx hy
  simp only [Bool.and_eq_true, Bool.not_eq_true'] at hx hy
  exact ho.trans y a x hy.1 hx.2

/-- `7`、`4`、`6`、`5` を半分の値で比べる。 -/
theorem listSort_correct_halves :
    let less : Nat → Nat → Bool := fun a b => decide (a / 2 < b / 2)
    let s : Seqs Nat := Seqs.set (fun _ => none) ⟨0, 1⟩ [7, 4, 6, 5]
    ∃ k : Links Nat, Represents k s ∧
      ∃ ys, ys.Perm [7, 4, 6, 5] ∧ ListSorted less ys ∧ StableOrder less [7, 4, 6, 5] ys ∧
        ∃ n, ∀ fuel, n < fuel →
          ∃ k', listSort less fuel ⟨0, 1⟩ k = some k' ∧ Represents k' (s.set ⟨0, 1⟩ ys) := by
  intro less s
  have ho : StrictWeakOrder less := by
    constructor
    · intro a b hab
      simp only [less, decide_eq_true_eq, decide_eq_false_iff_not] at hab ⊢
      omega
    · intro a b c hab hbc
      simp only [less, decide_eq_false_iff_not] at hab hbc ⊢
      omega
  let k : Links Nat :=
    { next := fun | 0 => some 7 | 7 => some 4 | 4 => some 6 | 6 => some 5 | 5 => some 1 | _ => none
      prev := fun | 7 => some 0 | 4 => some 7 | 6 => some 4 | 5 => some 6 | 1 => some 5 | _ => none }
  have honly : ∀ m xs, s m = some xs → m = ⟨0, 1⟩ ∧ xs = [7, 4, 6, 5] := by
    intro m xs hm
    by_cases hml : m = ⟨0, 1⟩
    · rw [hml, show s ⟨0, 1⟩ = some [7, 4, 6, 5] from update_self ..] at hm
      exact ⟨hml, (Option.some.inj hm).symm⟩
    · cases (update_of_ne hml ..).symm.trans hm
  have hk : Represents k s := by
    refine ⟨fun m xs hm => ?_, fun m m' xs ys hne hm hm' => ?_⟩
    · obtain ⟨rfl, rfl⟩ := honly m xs hm
      exact ⟨by simp [Seg, ListHdr.cells, k], by decide, rfl, rfl⟩
    · exact absurd ((honly m xs hm).1.trans (honly m' ys hm').1.symm) hne
  exact ⟨k, hk, listSort_correct ho hk (update_self ..)⟩

end Pintos.Pointer
