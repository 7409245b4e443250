import Mathlib.Data.List.Basic

/-!
# 順序付きの挿入と整列（`lib/kernel/list.c`）

`struct list` を要素の列として見たときの `list_insert_ordered` と `list_sort`。
比較関数 `list_less_func` は `less : α → α → Bool` である。

`list_sort` は natural merge sort で、隣り合う二つの run を併せる pass を、
出力した run が一つになるまで繰り返す。

## 停止性

pass の繰り返しは fuel で回す。`runCount` が pass ごとに減るので、
列の長さだけの fuel があれば足りる（`listSort_sorted`）。
-/

namespace Pintos

variable {α : Type} {less : α → α → Bool} {l : List α} {x : α}

/-- `less` が strict weak order であること。`trans` は「後ろが前より小さくない」の推移である。 -/
structure StrictWeakOrder (less : α → α → Bool) : Prop where
  asymm : ∀ a b, less a b = true → less b a = false
  trans : ∀ a b c, less b a = false → less c b = false → less c a = false

/-- 後ろの要素が前の要素より小さくない列。 -/
def ListSorted (less : α → α → Bool) (l : List α) : Prop :=
  l.Pairwise fun a b => less b a = false

/-! ## list_insert_ordered -/

/-- `elem` を、それより大きい最初の要素の直前に入れる。 -/
def listInsertOrdered (less : α → α → Bool) (elem : α) : List α → List α
  | [] => [elem]
  | e :: es => if less elem e then elem :: e :: es else e :: listInsertOrdered less elem es

theorem listInsertOrdered_perm (less : α → α → Bool) (x : α) :
    ∀ l : List α, (listInsertOrdered less x l).Perm (x :: l)
  | [] => List.Perm.refl _
  | e :: es => by
    rw [listInsertOrdered]
    split
    · exact List.Perm.refl _
    · exact ((listInsertOrdered_perm less x es).cons e).trans (List.Perm.swap x e es)

@[simp] theorem mem_listInsertOrdered {y : α} : y ∈ listInsertOrdered less x l ↔ y = x ∨ y ∈ l := by
  rw [(listInsertOrdered_perm less x l).mem_iff, List.mem_cons]

theorem head?_listInsertOrdered_cons (less : α → α → Bool) (x e : α) (es : List α) :
    (listInsertOrdered less x (e :: es)).head? = some (if less x e then x else e) := by
  rw [listInsertOrdered]
  split <;> rfl

theorem nodup_listInsertOrdered (hx : x ∉ l) (hl : l.Nodup) : (listInsertOrdered less x l).Nodup :=
  (listInsertOrdered_perm less x l).nodup_iff.mpr (List.nodup_cons.mpr ⟨hx, hl⟩)

theorem listInsertOrdered_sorted (ho : StrictWeakOrder less) (x : α) :
    ∀ {l : List α}, ListSorted less l → ListSorted less (listInsertOrdered less x l)
  | [], _ => List.pairwise_singleton ..
  | e :: es, h => by
    rw [listInsertOrdered]
    have hes := List.pairwise_cons.mp h
    split
    · next hlt =>
      refine List.pairwise_cons.mpr ⟨?_, h⟩
      intro y hy
      have hex : less e x = false := ho.asymm _ _ hlt
      rcases List.mem_cons.mp hy with rfl | hy
      · exact hex
      · exact ho.trans _ _ _ hex (hes.1 y hy)
    · next hge =>
      refine List.pairwise_cons.mpr ⟨?_, listInsertOrdered_sorted ho x hes.2⟩
      intro y hy
      rcases mem_listInsertOrdered.mp hy with rfl | hy
      · simpa using hge
      · exact hes.1 y hy

/-! ## find_end_of_run と inplace_merge -/

/-- 先頭から続く小さくならない run と、その残り。 -/
def findEndOfRun (less : α → α → Bool) : List α → List α × List α
  | [] => ([], [])
  | [a] => ([a], [])
  | a :: b :: l =>
    if less b a then ([a], b :: l)
    else (a :: (findEndOfRun less (b :: l)).1, (findEndOfRun less (b :: l)).2)

theorem findEndOfRun_append (less : α → α → Bool) :
    ∀ l : List α, (findEndOfRun less l).1 ++ (findEndOfRun less l).2 = l
  | [] => rfl
  | [_] => rfl
  | a :: b :: l => by
    rw [findEndOfRun]
    split
    · rfl
    · rw [List.cons_append, findEndOfRun_append less (b :: l)]

theorem findEndOfRun_cons (less : α → α → Bool) (a : α) :
    ∀ l : List α, ∃ r, (findEndOfRun less (a :: l)).1 = a :: r
  | [] => ⟨[], rfl⟩
  | b :: l => by
    rw [findEndOfRun]
    split
    · exact ⟨[], rfl⟩
    · exact ⟨_, rfl⟩

theorem findEndOfRun_length_lt (less : α → α → Bool) (h : l ≠ []) :
    (findEndOfRun less l).2.length < l.length := by
  cases l with
  | nil => exact absurd rfl h
  | cons a l =>
    obtain ⟨r, hr⟩ := findEndOfRun_cons less a l
    have happ := congrArg List.length (findEndOfRun_append less (a :: l))
    rw [hr] at happ
    simp only [List.length_append, List.length_cons] at happ ⊢
    omega

theorem findEndOfRun_sorted (ho : StrictWeakOrder less) :
    ∀ l : List α, ListSorted less (findEndOfRun less l).1
  | [] => List.Pairwise.nil
  | [_] => List.pairwise_singleton ..
  | a :: b :: l => by
    rw [findEndOfRun]
    split
    · exact List.pairwise_singleton ..
    · next hba =>
      have ih := findEndOfRun_sorted ho (b :: l)
      obtain ⟨r, hr⟩ := findEndOfRun_cons less b l
      refine List.pairwise_cons.mpr ⟨?_, ih⟩
      intro y hy
      have hab : less b a = false := by simpa using hba
      simp only [hr] at hy ih
      rcases List.mem_cons.mp hy with rfl | hy
      · exact hab
      · exact ho.trans _ _ _ hab ((List.pairwise_cons.mp ih).1 y hy)

/-- 二つの run を併せる。等しい要素では前の run の側が先に出る。 -/
def inplaceMerge (less : α → α → Bool) (as bs : List α) : List α :=
  as.merge bs fun a b => !less b a

theorem inplaceMerge_sorted (ho : StrictWeakOrder less) {as bs : List α}
    (ha : ListSorted less as) (hb : ListSorted less bs) :
    ListSorted less (inplaceMerge less as bs) := by
  have h : (as.merge bs fun a b => !less b a).Pairwise fun a b => (!less b a) = true :=
    List.pairwise_merge (fun a b c hab hbc => by
        simp only [Bool.not_eq_true'] at hab hbc ⊢
        exact ho.trans a b c hab hbc)
      (fun a b => by
        cases hl : less b a with
        | false => simp
        | true => simp [ho.asymm b a hl])
      as bs (ha.imp (by simp)) (hb.imp (by simp))
  exact h.imp (by simp)

/-! ## list_sort -/

/-- 列を一度なめる。返すのは、隣り合う run を併せた列と出力した run の数である。 -/
def sortPass (less : α → α → Bool) (l : List α) : List α × Nat :=
  if _h : l = [] then ([], 0)
  else if _h' : (findEndOfRun less l).2 = [] then (l, 1)
  else
    let r := findEndOfRun less (findEndOfRun less l).2
    let p := sortPass less r.2
    (inplaceMerge less (findEndOfRun less l).1 r.1 ++ p.1, p.2 + 1)
termination_by l.length
decreasing_by
  have h1 := findEndOfRun_length_lt less _h
  have h2 := findEndOfRun_length_lt less _h'
  omega

/-- 出力した run が一つになるまで pass を繰り返す。 -/
def sortLoop (less : α → α → Bool) : Nat → List α → List α
  | 0, l => l
  | fuel + 1, l =>
    if 1 < (sortPass less l).2 then sortLoop less fuel (sortPass less l).1
    else (sortPass less l).1

def listSort (less : α → α → Bool) (l : List α) : List α := sortLoop less l.length l

/-- pass が二つの run を一つにするときに保たれる関係は、pass の前後で成り立つ。 -/
theorem sortPass_rule {less : α → α → Bool} {P : List α → List α → Prop} (refl : ∀ l, P l l)
    (merge : ∀ {zs zs'} l ys, P zs' zs → P (inplaceMerge less (findEndOfRun less l).1 ys ++ zs')
      ((findEndOfRun less l).1 ++ (ys ++ zs))) (l : List α) : P (sortPass less l).1 l := by
  induction l using sortPass.induct less with
  | case1 => simpa [sortPass] using refl []
  | case2 l h h' =>
    rw [sortPass, dif_neg h, dif_pos h']
    exact refl l
  | case3 l h h' r ih =>
    have hmerge := merge l r.1 ih
    rw [findEndOfRun_append, findEndOfRun_append] at hmerge
    rw [sortPass, dif_neg h, dif_neg h']
    exact hmerge

theorem sortLoop_rule {less : α → α → Bool} {P : List α → List α → Prop}
    (pass : ∀ l, P (sortPass less l).1 l) (refl : ∀ l, P l l)
    (trans : ∀ {l₁ l₂ l₃}, P l₁ l₂ → P l₂ l₃ → P l₁ l₃) :
    ∀ (fuel : Nat) (l : List α), P (sortLoop less fuel l) l
  | 0, l => refl l
  | fuel + 1, l => by
    rw [sortLoop]
    split
    · exact trans (sortLoop_rule pass refl trans fuel _) (pass l)
    · exact pass l

theorem sortPass_perm (less : α → α → Bool) : ∀ l : List α, (sortPass less l).1.Perm l :=
  sortPass_rule .refl fun _ _ ih => ((List.merge_perm_append _).append ih).trans
    (.of_eq (List.append_assoc ..))

theorem listSort_perm (less : α → α → Bool) (l : List α) : (listSort less l).Perm l :=
  sortLoop_rule (sortPass_perm less) .refl .trans _ l

/-! ## run の数 -/

/-- 列を小さくならない極大な run に切ったときの個数。 -/
def runCount (less : α → α → Bool) : List α → Nat
  | [] => 0
  | [_] => 1
  | a :: b :: l => if less b a then runCount less (b :: l) + 1 else runCount less (b :: l)

theorem runCount_pos (less : α → α → Bool) : ∀ {l : List α}, l ≠ [] → 0 < runCount less l
  | [], h => absurd rfl h
  | [_], _ => Nat.one_pos
  | a :: b :: l, _ => by
    rw [runCount]
    have := runCount_pos less (l := b :: l) (by simp)
    split <;> omega

theorem runCount_le_length (less : α → α → Bool) : ∀ l : List α, runCount less l ≤ l.length
  | [] => Nat.le_refl _
  | [_] => Nat.le_refl _
  | a :: b :: l => by
    rw [runCount]
    have := runCount_le_length less (b :: l)
    simp only [List.length_cons] at this ⊢
    split <;> omega

theorem runCount_findEndOfRun (less : α → α → Bool) :
    ∀ {l : List α}, l ≠ [] → runCount less l = runCount less (findEndOfRun less l).2 + 1
  | [], h => absurd rfl h
  | [_], _ => rfl
  | a :: b :: l, _ => by
    rw [runCount, findEndOfRun]
    split
    · rfl
    · exact runCount_findEndOfRun less (l := b :: l) (by simp)

/-- 継ぎ目で増える run は高々零なので、run の数は連結で劣加法的である。 -/
theorem runCount_append_le (less : α → α → Bool) :
    ∀ l₁ l₂ : List α, runCount less (l₁ ++ l₂) ≤ runCount less l₁ + runCount less l₂
  | [], l₂ => by simp [runCount]
  | [a], [] => by simp [runCount]
  | [a], b :: l₂ => by
    simp only [List.cons_append, List.nil_append, runCount]
    split <;> omega
  | a :: b :: l₁, l₂ => by
    have ih := runCount_append_le less (b :: l₁) l₂
    simp only [List.cons_append, runCount] at ih ⊢
    split <;> omega

theorem runCount_of_sorted : ∀ {l : List α}, ListSorted less l → runCount less l ≤ 1
  | [], _ => Nat.zero_le _
  | [_], _ => Nat.le_refl _
  | a :: b :: l, h => by
    have hc := List.pairwise_cons.mp h
    rw [runCount, if_neg (by simp [hc.1 b (List.mem_cons_self ..)])]
    exact runCount_of_sorted hc.2

theorem sorted_of_runCount (ho : StrictWeakOrder less) (h : runCount less l ≤ 1) :
    ListSorted less l := by
  by_cases hl : l = []
  · rw [hl]; exact List.Pairwise.nil
  · have hr := runCount_findEndOfRun less hl
    have hnil : (findEndOfRun less l).2 = [] := by
      by_contra hne
      have := runCount_pos less hne
      omega
    have happ := findEndOfRun_append less l
    rw [hnil, List.append_nil] at happ
    rw [← happ]
    exact findEndOfRun_sorted ho l

/-- 一度の pass は run の数を半分（切り上げ）にし、その数を返す。 -/
theorem sortPass_runCount (ho : StrictWeakOrder less) (l : List α) :
    (sortPass less l).2 = (runCount less l + 1) / 2 ∧
      runCount less (sortPass less l).1 ≤ (sortPass less l).2 := by
  induction l using sortPass.induct less with
  | case1 => simp [sortPass, runCount]
  | case2 l h h' =>
    rw [sortPass, dif_neg h, dif_pos h', runCount_findEndOfRun less h, h']
    simp [runCount]
  | case3 l h h' r ih =>
    rw [sortPass, dif_neg h, dif_neg h']
    simp only []
    have h1 := runCount_findEndOfRun less h
    have h2 : runCount less (findEndOfRun less l).2 = runCount less r.2 + 1 :=
      runCount_findEndOfRun less h'
    have hm := runCount_of_sorted (inplaceMerge_sorted ho (findEndOfRun_sorted ho l)
      (findEndOfRun_sorted ho (findEndOfRun less l).2))
    have happ := runCount_append_le less
      (inplaceMerge less (findEndOfRun less l).1 r.1) (sortPass less r.2).1
    simp only [r] at h2 happ ih
    obtain ⟨ih1, ih2⟩ := ih
    constructor <;> omega

theorem sortLoop_sorted (ho : StrictWeakOrder less) :
    ∀ (fuel : Nat) (l : List α), runCount less l ≤ fuel → ListSorted less (sortLoop less fuel l)
  | 0, l, h => sorted_of_runCount ho (Nat.le_trans h (Nat.zero_le 1))
  | fuel + 1, l, h => by
    obtain ⟨hcnt, hle⟩ := sortPass_runCount ho l
    rw [sortLoop]
    split
    · next hmany => exact sortLoop_sorted ho fuel _ (by omega)
    · next hone => exact sorted_of_runCount ho (by omega)

theorem listSort_sorted (ho : StrictWeakOrder less) (l : List α) : ListSorted less (listSort less l) :=
  sortLoop_sorted ho _ l (runCount_le_length less l)

theorem findEndOfRun_of_sorted : ∀ {l : List α}, ListSorted less l → findEndOfRun less l = (l, [])
  | [], _ => rfl
  | [_], _ => rfl
  | a :: b :: l, h => by
    have hc := List.pairwise_cons.mp h
    rw [findEndOfRun, if_neg (by simp [hc.1 b (List.mem_cons_self ..)]),
      findEndOfRun_of_sorted hc.2]

theorem listSort_of_sorted (h : ListSorted less l) : listSort less l = l := by
  cases l with
  | nil => rfl
  | cons a l =>
    have hpass : sortPass less (a :: l) = (a :: l, 1) := by
      rw [sortPass, dif_neg (by simp), dif_pos (by rw [findEndOfRun_of_sorted h])]
    rw [listSort, List.length_cons, sortLoop, hpass]
    rfl

/-! ## 安定性

互いに比べられない要素だけを選ぶ `p` で絞ると、整列の前後で列は変わらず、
`list_insert_ordered` は選ばれた要素の最後に入れる。
-/

section Stable

variable {less : α → α → Bool} (ho : StrictWeakOrder less) {p : α → Bool}
  (hp : ∀ x y, p x = true → p y = true → less x y = false)

include ho hp

theorem filter_eq_nil_of_less {a b : α} {as : List α} (hs : ListSorted less (a :: as))
    (hb : p b = true) (hba : less b a = true) : (a :: as).filter p = [] := by
  refine List.filter_eq_nil_iff.mpr fun x hx hpx => ?_
  have hxa : less x a = false := by
    rcases List.mem_cons.mp hx with rfl | hx
    · exact hp x x hpx hpx
    · exact (List.pairwise_cons.mp hs).1 x hx
  rw [ho.trans a x b hxa (hp b x hb hpx)] at hba
  cases hba

theorem listInsertOrdered_filter (x : α) {l : List α} (hs : ListSorted less l) :
    (listInsertOrdered less x l).filter p = l.filter p ++ [x].filter p := by
  induction l with
  | nil => rfl
  | cons e es ih =>
    rw [listInsertOrdered]
    split
    · next hlt =>
      by_cases hx : p x = true
      · rw [List.filter_cons_of_pos hx, filter_eq_nil_of_less ho hp hs hx hlt,
          List.filter_cons_of_pos hx]
        rfl
      · rw [List.filter_cons_of_neg hx, List.filter_cons_of_neg hx, List.filter_nil,
          List.append_nil]
    · have hrest := ih (List.pairwise_cons.mp hs).2
      by_cases he : p e = true
      · rw [List.filter_cons_of_pos he, List.filter_cons_of_pos he, hrest, List.cons_append]
      · rw [List.filter_cons_of_neg he, List.filter_cons_of_neg he, hrest]

theorem inplaceMerge_filter {as : List α} (ha : ListSorted less as) (bs : List α) :
    (inplaceMerge less as bs).filter p = as.filter p ++ bs.filter p := by
  rw [inplaceMerge]
  induction as generalizing bs with
  | nil => simp
  | cons a as iha =>
    induction bs with
    | nil => simp
    | cons b bs ihb =>
      rw [List.cons_merge_cons]
      cases hba : less b a with
      | false =>
        rw [Bool.not_false, if_pos rfl, List.filter_cons, List.filter_cons,
          iha (List.pairwise_cons.mp ha).2]
        split <;> rfl
      | true =>
        rw [Bool.not_true, if_neg Bool.false_ne_true, List.filter_cons, ihb]
        by_cases hb : p b = true
        · rw [if_pos hb, filter_eq_nil_of_less ho hp ha hb hba, List.filter_cons_of_pos hb]
          rfl
        · rw [if_neg hb, List.filter_cons_of_neg hb]

/-- **`list_sort` は、比べられない要素の順を変えない。** -/
theorem listSort_filter (l : List α) : (listSort less l).filter p = l.filter p := by
  refine sortLoop_rule (P := fun xs ys => xs.filter p = ys.filter p)
    (sortPass_rule (P := fun xs ys => xs.filter p = ys.filter p) (fun _ => rfl) fun _ _ ih => ?_)
    (fun _ => rfl) Eq.trans _ l
  rw [List.filter_append, ih, inplaceMerge_filter ho hp (findEndOfRun_sorted ho _)]
  simp

end Stable

end Pintos
