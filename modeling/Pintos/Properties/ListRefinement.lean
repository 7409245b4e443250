import Mathlib.Data.List.Destutter
import Pintos.Lib.List
import Pintos.Properties.LinkedList

/-!
# `list.c` は列の操作を実現する

列の上での操作の意味 `SeqStep` を定め、link の上の操作 `exec` がそれを実現することを示す。

`list_unique` が残す要素は `List.destutter` で、取り除く要素は `duplicates` である。
-/

namespace Pintos.Pointer

open Infra Function

variable {α : Type} [DecidableEq α]

/-! ## list_insert_ordered -/

variable {fuel : Nat}

theorem insertPoint_eq (less : α → α → Bool) {k : Links α} {stop : α} (elem : α) (ys : List α)
    (h : Seg k (ys ++ [stop])) (hnd : (ys ++ [stop]).Nodup) (hf : ys.length < fuel) :
    ∃ us vs, ys = us ++ vs ∧ Pintos.listInsertOrdered less elem ys = us ++ elem :: vs ∧
      insertPoint less k stop elem fuel (ys.headD stop) = some (vs.headD stop) := by
  induction ys generalizing fuel with
  | nil =>
    obtain ⟨fuel, rfl⟩ := Nat.exists_eq_succ_of_ne_zero (Nat.ne_zero_of_lt hf)
    exact ⟨[], [], rfl, rfl, by simp [insertPoint]⟩
  | cons y ys ih =>
    obtain ⟨fuel, rfl⟩ := Nat.exists_eq_succ_of_ne_zero (Nat.ne_zero_of_lt hf)
    obtain ⟨hnext, hrest⟩ := h.uncons
    have hne : y ≠ stop := by
      rintro rfl
      simp at hnd
    rw [Pintos.listInsertOrdered, List.headD_cons, insertPoint]
    cases hless : less elem y with
    | true => exact ⟨[], y :: ys, rfl, rfl, by simp⟩
    | false =>
      obtain ⟨us, vs, rfl, hins, hpt⟩ :=
        ih hrest (List.nodup_cons.mp hnd).2 (Nat.lt_of_succ_lt_succ hf)
      refine ⟨y :: us, vs, rfl, by simp [hins], ?_⟩
      simpa [hne, listNext_eq hnext] using hpt

variable {xs : List α}

theorem Represents.listInsertOrdered {less : α → α → Bool} {k : Links α} {s : Seqs α}
    {l : ListHdr α} {e : α} (h : Represents k s) (hl : s l = some xs) (he : Detached s [e])
    (hf : xs.length < fuel) : ∃ k', listInsertOrdered less fuel l e k = some k' ∧
      Represents k' (s.set l (Pintos.listInsertOrdered less e xs)) := by
  have hlist := h.isList l xs hl
  obtain ⟨us, vs, rfl, hins, hpt⟩ := insertPoint_eq less e xs (List.IsChain.tail hlist.seg)
    (List.nodup_cons.mp hlist.nodup).2 hf
  obtain ⟨k', hk', hrep⟩ := h.listInsert hl he
  refine ⟨k', ?_, by rwa [hins]⟩
  rw [Pointer.listInsertOrdered, listBegin_eq hlist, Option.bind_some]
  rw [show insertPoint less k (listEnd l) e fuel (l.pos (us ++ vs)) = _ from hpt]
  exact hk'

/-! ## list_unique -/

section

variable (less : α → α → Bool)

def Differ (a b : α) : Prop := less a b = true ∨ less b a = true

instance : DecidableRel (Differ less) := fun _ _ => inferInstanceAs (Decidable (_ ∨ _))

/-- 直前に残した要素と等しい要素。 -/
def duplicatesAfter (e : α) : List α → List α
  | [] => []
  | next :: rest =>
    if Differ less e next then duplicatesAfter next rest else next :: duplicatesAfter e rest

/-- `list_unique` が取り除く要素を、並んでいた順に並べたもの。 -/
def duplicates : List α → List α
  | [] => []
  | e :: rest => duplicatesAfter less e rest

end

/-- 取り除いた要素を、`DUPLICATES` があればその最後に足す。 -/
def Seqs.appendTo (d : Option (ListHdr α)) (es : List α) (s : Seqs α) : Seqs α :=
  match d with
  | none => s
  | some d => update s d ((s d).map (· ++ es))

/-- `DUPLICATES` は NULL か、別の list である。 -/
def OtherList (s : Seqs α) (l : ListHdr α) (d : Option (ListHdr α)) : Prop :=
  ∀ d', d = some d' → d' ≠ l ∧ ∃ ds, s d' = some ds

section

variable {less : α → α → Bool} {k : Links α} {s : Seqs α} {l : ListHdr α} {e : α}
  {d : Option (ListHdr α)}

theorem Represents.pushDuplicate (h : Represents k s) (he : Detached s [e])
    (hd : OtherList s l d) :
    ∃ k', pushDuplicate d e k = some k' ∧ Represents k' (s.appendTo d [e]) := by
  cases d with
  | none => exact ⟨k, rfl, h⟩
  | some d =>
    obtain ⟨-, ds, hds⟩ := hd d rfl
    rw [← List.append_nil ds] at hds
    obtain ⟨k', hk', hrep⟩ := h.listInsert hds he
    refine ⟨k', hk', ?_⟩
    rw [Seqs.appendTo, hds, List.append_nil]
    exact hrep

theorem appendTo_nil (s : Seqs α) (d : Option (ListHdr α)) : s.appendTo d [] = s := by
  cases d <;> simp [Seqs.appendTo]

theorem appendTo_of_other (hd : OtherList s l d) (es : List α) : s.appendTo d es l = s l := by
  cases d with
  | none => rfl
  | some d => exact update_of_ne (hd d rfl).1.symm ..

theorem OtherList.set (hd : OtherList s l d) (xs : List α) : OtherList (s.set l xs) l d := by
  intro d' hd'
  obtain ⟨hne, ds, hds⟩ := hd d' hd'
  exact ⟨hne, ds, (update_of_ne hne ..).trans hds⟩

theorem OtherList.appendTo (hd : OtherList s l d) (es : List α) :
    OtherList (s.appendTo d es) l d := by
  rintro d' rfl
  obtain ⟨hne, ds, hds⟩ := hd d' rfl
  exact ⟨hne, ds ++ es, by simp [Seqs.appendTo, hds]⟩

theorem appendTo_cons (hd : OtherList s l d) (xs ys : List α) (e : α) (es : List α) :
    (((s.set l xs).appendTo d [e]).set l ys).appendTo d es = (s.set l ys).appendTo d (e :: es) := by
  cases d with
  | none => simp [Seqs.appendTo, Seqs.set]
  | some d =>
    obtain ⟨hne, ds, hds⟩ := hd d rfl
    funext m
    by_cases hm : m = d
    · subst hm
      simp [Seqs.appendTo, Seqs.set, update_of_ne hne, hds]
    · by_cases hml : m = l
      · subst hml
        simp [Seqs.appendTo, Seqs.set, update_of_ne hm]
      · simp [Seqs.appendTo, Seqs.set, update_of_ne hm, update_of_ne hml]

/-- `elem` より前は済んでいて、`rest` が残っている loop。 -/
theorem Represents.uniqueLoop (xs rest : List α) (h : Represents k s)
    (hl : s l = some (xs ++ e :: rest)) (hd : OtherList s l d) (hf : rest.length < fuel) :
    ∃ k', uniqueLoop less l.tail d fuel e k = some k' ∧
      Represents k' ((s.set l (xs ++ rest.destutter' (Differ less) e)).appendTo d
        (duplicatesAfter less e rest)) := by
  induction rest generalizing k s e xs fuel with
  | nil =>
    obtain ⟨fuel, rfl⟩ := Nat.exists_eq_succ_of_ne_zero (Nat.ne_zero_of_lt hf)
    rw [Pointer.uniqueLoop, (h.isList l _ hl).listNext_mid, Option.bind_some]
    refine ⟨k, if_pos rfl, ?_⟩
    rw [List.destutter'_nil, duplicatesAfter, Seqs.set_self hl, appendTo_nil]
    exact h
  | cons next rest ih =>
    obtain ⟨fuel, rfl⟩ := Nat.exists_eq_succ_of_ne_zero (Nat.ne_zero_of_lt hf)
    have hf' := Nat.lt_of_succ_lt_succ hf
    have hlist := h.isList l _ hl
    have hne : next ≠ l.tail := by
      have hnd := hlist.nodup
      simp only [ListHdr.cells, List.nodup_append] at hnd
      exact hnd.2.2 next (by simp) l.tail (by simp)
    rw [Pointer.uniqueLoop, hlist.listNext_mid, Option.bind_some, ListHdr.pos, List.headD_cons,
      if_neg hne]
    rw [List.append_cons] at hl
    by_cases hdiff : Differ less e next
    · -- 等しくない要素は残し、次からはそれと比べる
      rw [List.destutter'_cons_pos _ hdiff, duplicatesAfter, if_pos hdiff, List.append_cons]
      have hcond : ¬(!less e next && !less next e) = true := by
        simpa [Differ, Decidable.or_iff_not_imp_left] using hdiff
      rw [if_neg hcond]
      exact ih _ h hl hd hf'
    · rw [List.destutter'_cons_neg _ hdiff, duplicatesAfter, if_neg hdiff]
      have hcond : (!less e next && !less next e) = true := by
        simpa [Differ] using hdiff
      obtain ⟨k₁, hk₁, hrep₁, hdet⟩ := h.listRemove hl
      obtain ⟨k₂, hk₂, hrep₂⟩ := hrep₁.pushDuplicate hdet (hd.set _)
      rw [if_pos hcond, hk₁, Option.bind_some, hk₂, Option.bind_some, ← appendTo_cons hd]
      refine ih _ hrep₂ ?_ ((hd.set _).appendTo _) hf'
      rw [appendTo_of_other (hd.set _), ← List.append_cons]
      exact update_self ..

/-- **`list_unique` は隣り合う等しい要素の二つ目からを取り除く。** -/
theorem Represents.listUnique (h : Represents k s) (hl : s l = some xs) (hd : OtherList s l d)
    (hf : xs.length < fuel) : ∃ k', listUnique less fuel l d k = some k' ∧
      Represents k' ((s.set l (xs.destutter (Differ less))).appendTo d (duplicates less xs)) := by
  rw [Pointer.listUnique, listEmpty_eq (h.isList l xs hl), listBegin_eq (h.isList l xs hl)]
  cases xs with
  | nil =>
    refine ⟨k, rfl, ?_⟩
    rw [List.destutter_nil, duplicates, Seqs.set_self hl, appendTo_nil]
    exact h
  | cons e rest => exact Represents.uniqueLoop [] rest h hl hd (Nat.lt_of_succ_lt hf)

end

/-! ## 列の操作 -/

/--
**列の組の上での操作の意味。**

位置は `l.pos ys`、すなわち `ys` の前で表す。
`splice` の移す先は、範囲 `first :: mid` を外した後の列 `us ++ vs` の位置なので、範囲の中ではない。
-/
inductive SeqStep (less : α → α → Bool) (s : Seqs α) : ListOp α → Option α → Seqs α → Prop
  | init (l : ListHdr α) : l.head ≠ l.tail →
      (∀ m zs, m ≠ l → s m = some zs → (m.cells zs).Disjoint (l.cells [])) →
      SeqStep less s (.init l) none (s.set l [])
  | insert (l : ListHdr α) (xs ys : List α) (elem : α) : s l = some (xs ++ ys) →
      Detached s [elem] →
      SeqStep less s (.insert (l.pos ys) elem) none (s.set l (xs ++ elem :: ys))
  | spliceEmpty (l : ListHdr α) (xs ys : List α) (first : α) : s l = some (xs ++ ys) →
      SeqStep less s (.splice (l.pos ys) first first) none s
  | splice (l m : ListHdr α) (xs ys us vs mid : List α) (first : α) :
      s l = some (xs ++ first :: mid ++ ys) → s.set l (xs ++ ys) m = some (us ++ vs) →
      SeqStep less s (.splice (m.pos vs) first (l.pos ys)) none
        ((s.set l (xs ++ ys)).set m (us ++ first :: mid ++ vs))
  | pushFront (l : ListHdr α) (xs : List α) (elem : α) : s l = some xs → Detached s [elem] →
      SeqStep less s (.pushFront l elem) none (s.set l (elem :: xs))
  | pushBack (l : ListHdr α) (xs : List α) (elem : α) : s l = some xs → Detached s [elem] →
      SeqStep less s (.pushBack l elem) none (s.set l (xs ++ [elem]))
  | remove (l : ListHdr α) (xs ys : List α) (elem : α) : s l = some (xs ++ elem :: ys) →
      SeqStep less s (.remove elem) (some (l.pos ys)) (s.set l (xs ++ ys))
  | popFront (l : ListHdr α) (xs : List α) (front : α) : s l = some (front :: xs) →
      SeqStep less s (.popFront l) (some front) (s.set l xs)
  | popBack (l : ListHdr α) (xs : List α) (back : α) : s l = some (xs ++ [back]) →
      SeqStep less s (.popBack l) (some back) (s.set l xs)
  | reverse (l : ListHdr α) (xs : List α) : s l = some xs →
      SeqStep less s (.reverse l) none (s.set l xs.reverse)
  | insertOrdered (l : ListHdr α) (xs : List α) (elem : α) : s l = some xs → Detached s [elem] →
      SeqStep less s (.insertOrdered l elem) none (s.set l (Pintos.listInsertOrdered less elem xs))
  | unique (l : ListHdr α) (d : Option (ListHdr α)) (xs : List α) : s l = some xs →
      OtherList s l d →
      SeqStep less s (.unique l d) none
        ((s.set l (xs.destutter (Differ less))).appendTo d (duplicates less xs))

section

variable {less : α → α → Bool} {k : Links α} {s s' : Seqs α} {l : ListHdr α}

theorem Represents.listInit (h : Represents k s) (hne : l.head ≠ l.tail)
    (hother : ∀ m zs, m ≠ l → s m = some zs → (m.cells zs).Disjoint (l.cells [])) :
    Represents (listInit l k) (s.set l []) := by
  refine h.set ⟨?_, ?_, ?_, ?_⟩ (l.cells []) ?_ hother hother
  · exact List.isChain_pair.mpr ⟨by simp [Pointer.listInit, update_of_ne hne],
      by simp [Pointer.listInit]⟩
  · simpa [ListHdr.cells] using hne
  · simp [Pointer.listInit, update_of_ne hne]
  · simp [Pointer.listInit]
  · intro a ha
    obtain ⟨hh, ht⟩ : a ≠ l.head ∧ a ≠ l.tail := by simpa [ListHdr.cells] using ha
    simp [Pointer.listInit, update_of_ne hh, update_of_ne ht]

theorem Represents.listPopFront {front : α} (h : Represents k s) (hl : s l = some (front :: xs)) :
    ∃ k', listPopFront l k = some (front, k') ∧ Represents k' (s.set l xs) := by
  have hlist := h.isList l _ hl
  have hl' : s l = some ([] ++ front :: xs) := hl
  obtain ⟨k', hk', hrep, -⟩ := h.listRemove hl'
  refine ⟨k', ?_, hrep⟩
  have hfront : listFront k l = some front := by
    rw [listFront, listEmpty_eq hlist]
    exact listBegin_eq hlist
  rw [Pointer.listPopFront, hfront, Option.bind_some, hk']
  rfl

theorem Represents.listPopBack {back : α} (h : Represents k s) (hl : s l = some (xs ++ [back])) :
    ∃ k', listPopBack l k = some (back, k') ∧ Represents k' (s.set l xs) := by
  have hlist := h.isList l _ hl
  obtain ⟨k', hk', hrep, -⟩ := h.listRemove hl
  refine ⟨k', ?_, by rwa [List.append_nil] at hrep⟩
  have hback : listBack k l = some back := by
    rw [listBack, listEmpty_eq hlist, if_neg (by simp)]
    refine (listRbegin_eq hlist).trans ?_
    rw [last_append rfl]
    rfl
  rw [Pointer.listPopBack, hback, Option.bind_some, hk']
  rfl

/-- `s` を表すどの link でも、十分な fuel があれば、`r` を返して終わり、後の link が `s'` を表す。 -/
def Implements (less : α → α → Bool) (op : ListOp α) (s : Seqs α) (r : Option α) (s' : Seqs α) :
    Prop :=
  ∃ n, ∀ k fuel, Represents k s → n < fuel →
    ∃ k', exec less fuel op k = some (r, k') ∧ Represents k' s'

variable {op : ListOp α}

theorem implements_of_links {f : Nat → Links α → Option (Links α)} (n : Nat)
    (hop : ∀ fuel k, exec less fuel op k = (f fuel k).map (none, ·))
    (h : ∀ k fuel, Represents k s → n < fuel → ∃ k', f fuel k = some k' ∧ Represents k' s') :
    Implements less op s none s' := by
  refine ⟨n, fun k fuel hk hf => ?_⟩
  obtain ⟨k', hk', hrep⟩ := h k fuel hk hf
  exact ⟨k', by rw [hop, hk']; rfl, hrep⟩

theorem implements_of_elem {f : Links α → Option (α × Links α)} {e : α}
    (hop : ∀ fuel k, exec less fuel op k = (f k).map fun r => (some r.1, r.2))
    (h : ∀ k, Represents k s → ∃ k', f k = some (e, k') ∧ Represents k' s') :
    Implements less op s (some e) s' := by
  refine ⟨0, fun k fuel hk _ => ?_⟩
  obtain ⟨k', hk', hrep⟩ := h k hk
  exact ⟨k', by rw [hop, hk']; rfl, hrep⟩

theorem exec_refines {r : Option α} (hs : SeqStep less s op r s') : Implements less op s r s' := by
  cases hs with
  | init l hne hother => exact ⟨0, fun _ _ h _ => ⟨_, rfl, h.listInit hne hother⟩⟩
  | insert l xs ys elem hl he =>
    exact implements_of_links 0 (fun _ _ => rfl) fun _ _ h _ => h.listInsert hl he
  | spliceEmpty l xs ys first hl =>
    refine implements_of_links 0 (fun _ _ => rfl) fun k _ h _ => ⟨k, ?_, h⟩
    rw [Pointer.listSplice, if_pos (before_ok (next_last xs ys (h.isList l _ hl)).2), if_pos rfl]
  | splice l m xs ys us vs mid first hl hm =>
    exact implements_of_links 0 (fun _ _ => rfl) fun _ _ h _ => h.listSplice hl hm
  | pushFront l xs elem hl he =>
    have hl' : s l = some ([] ++ xs) := hl
    refine implements_of_links 0 (fun _ _ => rfl) fun k _ h _ => ?_
    rw [listPushFront, listBegin_eq (h.isList l xs hl)]
    exact h.listInsert hl' he
  | pushBack l xs elem hl he =>
    rw [← List.append_nil xs] at hl
    exact implements_of_links 0 (fun _ _ => rfl) fun _ _ h _ => h.listInsert hl he
  | remove l xs ys elem hl =>
    refine implements_of_elem (fun _ _ => rfl) fun k h => ?_
    obtain ⟨k', hk', hrep, -⟩ := h.listRemove hl
    exact ⟨k', hk', hrep⟩
  | popFront l xs front hl => exact implements_of_elem (fun _ _ => rfl) fun _ h => h.listPopFront hl
  | popBack l xs back hl => exact implements_of_elem (fun _ _ => rfl) fun _ h => h.listPopBack hl
  | reverse l xs hl =>
    exact implements_of_links xs.length (fun _ _ => rfl) fun _ _ h hf => h.listReverse hl hf
  | insertOrdered l xs elem hl he =>
    exact implements_of_links xs.length (fun _ _ => rfl)
      fun _ _ h hf => h.listInsertOrdered hl he hf
  | unique l d xs hl hd =>
    exact implements_of_links xs.length (fun _ _ => rfl) fun _ _ h hf => h.listUnique hl hd hf

end

/-! ## 操作の列 -/

inductive SeqRun (less : α → α → Bool) : Seqs α → List (ListOp α × Option α) → Seqs α → Prop
  | nil (s : Seqs α) : SeqRun less s [] s
  | cons {s s₁ s' : Seqs α} {op : ListOp α} {r : Option α} {tr : List (ListOp α × Option α)} :
      SeqStep less s op r s₁ → SeqRun less s₁ tr s' → SeqRun less s ((op, r) :: tr) s'

def execAll (less : α → α → Bool) (fuel : Nat) :
    List (ListOp α) → Links α → Option (List (Option α) × Links α)
  | [], k => some ([], k)
  | op :: ops, k =>
    (exec less fuel op k).bind fun r =>
      (execAll less fuel ops r.2).map fun rs => (r.1 :: rs.1, rs.2)

/-- **操作を続けても、link は列を表し続ける。** -/
theorem execAll_refines {less : α → α → Bool} {s s' : Seqs α}
    {tr : List (ListOp α × Option α)} (h : SeqRun less s tr s') :
    ∃ n, ∀ k fuel, Represents k s → n < fuel →
      ∃ k', execAll less fuel (tr.map Prod.fst) k = some (tr.map Prod.snd, k') ∧
        Represents k' s' := by
  induction h with
  | nil s => exact ⟨0, fun k _ hk _ => ⟨k, rfl, hk⟩⟩
  | cons hs _ ih =>
    obtain ⟨n₁, h₁⟩ := exec_refines hs
    obtain ⟨n₂, h₂⟩ := ih
    -- どちらの段階にも足りる fuel を取る
    refine ⟨max n₁ n₂, fun k fuel hk hf => ?_⟩
    obtain ⟨k₁, hk₁, hrep₁⟩ := h₁ k fuel hk (by omega)
    obtain ⟨k', hk', hrep⟩ := h₂ k₁ fuel hrep₁ (by omega)
    exact ⟨k', by simp [execAll, hk₁, hk'], hrep⟩

/-! ### 二つの list の例 -/

def twoLists (xs ys : List Nat) : Seqs Nat := (Seqs.set (fun _ => none) ⟨0, 1⟩ xs).set ⟨2, 3⟩ ys

theorem twoLists_set_left (xs ys zs : List Nat) : (twoLists xs ys).set ⟨0, 1⟩ zs = twoLists zs ys := by
  unfold twoLists Seqs.set
  rw [update_comm (by decide), update_idem]

theorem twoLists_set_right (xs ys zs : List Nat) : (twoLists xs ys).set ⟨2, 3⟩ zs = twoLists xs zs :=
  update_idem ..

theorem detached_twoLists {xs ys : List Nat} {e : Nat} (h : e ∉ [0, 1, 2, 3] ++ xs ++ ys) :
    Detached (twoLists xs ys) [e] := by
  intro l zs hl
  unfold twoLists Seqs.set at hl
  rw [update_apply, update_apply] at hl
  rw [List.disjoint_singleton]
  split at hl
  · cases hl
    simp_all [ListHdr.cells]
  · split at hl
    · cases hl
      simp_all [ListHdr.cells]
    · cases hl

/-- 三つ入れた list の前の二つを移し、移した先を裏返して一つ外す。 -/
theorem twoLists_run : SeqRun (fun a b : Nat => a < b) (fun _ => none)
    [(.init ⟨0, 1⟩, none), (.init ⟨2, 3⟩, none), (.pushBack ⟨0, 1⟩ 5, none),
      (.pushBack ⟨0, 1⟩ 6, none), (.pushBack ⟨0, 1⟩ 7, none), (.pushFront ⟨2, 3⟩ 9, none),
      (.splice 9 5 7, none), (.reverse ⟨2, 3⟩, none), (.remove 6, some 5)] (twoLists [7] [9, 5]) := by
  refine .cons (.init _ (by decide) nofun) (.cons (.init _ (by decide) ?_) ?_)
  · intro m zs _ hm
    rw [Seqs.set, update_apply] at hm
    obtain ⟨rfl, h⟩ := Option.ite_none_right_eq_some.mp hm
    cases h
    simp [ListHdr.cells]
  change SeqRun _ (twoLists [] []) _ _
  refine .cons (.pushBack _ [] 5 rfl (detached_twoLists (by decide))) ?_
  rw [twoLists_set_left]
  refine .cons (.pushBack _ [5] 6 rfl (detached_twoLists (by decide))) ?_
  rw [twoLists_set_left]
  refine .cons (.pushBack _ [5, 6] 7 rfl (detached_twoLists (by decide))) ?_
  rw [twoLists_set_left]
  refine .cons (.pushFront _ [] 9 rfl (detached_twoLists (by decide))) ?_
  rw [twoLists_set_right]
  refine .cons (.splice ⟨0, 1⟩ ⟨2, 3⟩ [] [7] [] [9] [6] 5 rfl rfl) ?_
  rw [twoLists_set_left, twoLists_set_right]
  refine .cons (.reverse _ [5, 6, 9] rfl) ?_
  rw [twoLists_set_right]
  refine .cons (.remove ⟨2, 3⟩ [9] [5] 6 rfl) ?_
  rw [twoLists_set_right]
  exact .nil _

theorem execAll_refines_two : ∃ fuel k', execAll (fun a b : Nat => a < b) fuel
    [.init ⟨0, 1⟩, .init ⟨2, 3⟩, .pushBack ⟨0, 1⟩ 5, .pushBack ⟨0, 1⟩ 6, .pushBack ⟨0, 1⟩ 7,
      .pushFront ⟨2, 3⟩ 9, .splice 9 5 7, .reverse ⟨2, 3⟩, .remove 6]
      ⟨fun _ => none, fun _ => none⟩ =
        some ([none, none, none, none, none, none, none, none, some 5], k') ∧
    Represents k' (twoLists [7] [9, 5]) := by
  obtain ⟨n, h⟩ := execAll_refines twoLists_run
  obtain ⟨k', he, hk'⟩ := h ⟨fun _ => none, fun _ => none⟩ (n + 1) (represents_empty _) n.lt_succ_self
  exact ⟨n + 1, k', he, hk'⟩

/--
**双方向 list は列を実現する。**

互いに cell を共有しない整った list の組について、次が成り立つ。

* 列の操作 `SeqStep` のそれぞれを link の上の操作が実現し、検査はどれも通り、
  ほかの list の列は変わらない
* 前から後ろへの走査と後ろから前への走査は、同じ要素を逆の順に通る
-/
theorem list_refines_sequences (less : α → α → Bool) (s : Seqs α) :
    (∀ op r s', SeqStep less s op r s' → Implements less op s r s') ∧
    ∀ k l xs, Represents k s → s l = some xs →
      k.prev l.head = none ∧ k.next l.tail = none ∧
      ∃ n, ∀ fuel, n < fuel →
        traverse k l fuel = some xs ∧ rtraverse k l fuel = some xs.reverse := by
  refine ⟨fun op r s' hs => exec_refines hs, fun k l xs h hl => ?_⟩
  have hlist := h.isList l xs hl
  exact ⟨hlist.head, hlist.tail, xs.length,
    fun _ hf => ⟨traverse_eq hlist hf, rtraverse_eq hlist hf⟩⟩

/-- `twoLists_run` の後の二つの list。 -/
theorem list_refines_sequences_two : ∃ k : Links Nat, Represents k (twoLists [7] [9, 5]) ∧
    ∃ n, ∀ fuel, n < fuel → traverse k ⟨2, 3⟩ fuel = some [9, 5] ∧
      rtraverse k ⟨2, 3⟩ fuel = some [5, 9] := by
  have hrun {s s' : Seqs Nat} {tr : List (ListOp Nat × Option Nat)}
      (h : SeqRun (fun a b => a < b) s tr s') (hs : ∃ k, Represents k s) : ∃ k, Represents k s' := by
    induction h with
    | nil => exact hs
    | cons hstep _ ih =>
      obtain ⟨k, hk⟩ := hs
      obtain ⟨n, hn⟩ := (list_refines_sequences _ _).1 _ _ _ hstep
      obtain ⟨k', -, hk'⟩ := hn k (n + 1) hk n.lt_succ_self
      exact ih ⟨k', hk'⟩
  obtain ⟨k, hk⟩ := hrun twoLists_run ⟨⟨fun _ => none, fun _ => none⟩, represents_empty _⟩
  exact ⟨k, hk, ((list_refines_sequences (fun a b => a < b) _).2 k ⟨2, 3⟩ [9, 5] hk rfl).2.2⟩

end Pintos.Pointer
