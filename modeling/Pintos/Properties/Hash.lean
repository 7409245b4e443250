import Mathlib.Algebra.Order.Group.Multiset
import Mathlib.Data.Finset.Card
import Mathlib.Data.List.Pairwise
import Pintos.Infra.EquivSet
import Pintos.Infra.Run
import Pintos.Lib.Hash

/-!
# hash 表は集合である

`less` が狭義の弱順序で、同値な要素の `hash` が等しければ、hash 表は同値な要素を二つ持たない
有限集合を実現する。

要素の列 `elems` は bucket を順に並べたものである。どの操作も `elems` を並べ替えを除いて
決まった形に変えるので（`elems_pushFront`、`elems_removeElem`、`rehash_spec`）、個数と
同値な要素の無いことは、そこから従う。
-/

namespace Pintos.Hash

open Infra Function

variable {α : Type} {hash : α → Nat} {less : α → α → Bool} {h : Hash α} {x : α} {l : List α}

/-! ## bucket の数 -/

theorem isPowerOf2_iff {x : Nat} : isPowerOf2 x = true ↔ x ≠ 0 ∧ x.isPowerOfTwo := by
  simp only [isPowerOf2, turnOffLeast1bit, Bool.and_eq_true, bne_iff_ne, beq_iff_eq]
  exact and_congr_right fun hx => Nat.and_sub_one_eq_zero_iff_isPowerOfTwo hx

theorem le_turnOffLeast1bit {x : Nat} (hx : 4 ≤ x) (h : ¬isPowerOf2 x) :
    4 ≤ turnOffLeast1bit x := by
  have hx0 : x ≠ 0 := by omega
  have hbit := Nat.and_sub_one_testBit_log2 hx0 fun hpow => h (isPowerOf2_iff.mpr ⟨hx0, hpow⟩)
  have hlog : 2 ≤ x.log2 := (Nat.le_log2 hx0).mpr hx
  calc 4 = 2 ^ 2 := rfl
    _ ≤ 2 ^ x.log2 := Nat.pow_le_pow_right (by decide) hlog
    _ ≤ turnOffLeast1bit x := Nat.ge_two_pow_of_testBit hbit

theorem reduceToPower_spec {x : Nat} (hx : 4 ≤ x) :
    ∃ k, 2 ≤ k ∧ reduceToPower x = 2 ^ k := by
  fun_induction reduceToPower x with
  | case1 x hpow =>
    obtain ⟨-, k, hk⟩ := isPowerOf2_iff.mp hpow
    refine ⟨k, ?_, hk⟩
    have : 2 ^ 2 ≤ 2 ^ k := by omega
    exact (Nat.pow_le_pow_iff_right (by decide)).mp this
  | case2 => omega
  | case3 x hnot _ ih => exact ih (le_turnOffLeast1bit hx hnot)

theorem newBucketCnt_spec (n : Nat) : ∃ k, 2 ≤ k ∧ newBucketCnt n = 2 ^ k := by
  unfold newBucketCnt
  apply reduceToPower_spec
  split <;> omega

/-! ## 要素の列 -/

def elems (h : Hash α) : List α := (List.range h.bucketCnt).flatMap h.buckets

/-- どの要素も、`hash & (bucket_cnt - 1)` の bucket にある。 -/
structure Placed (hash : α → Nat) (h : Hash α) : Prop where
  power : ∃ k, 2 ≤ k ∧ h.bucketCnt = 2 ^ k
  bucket : ∀ i e, e ∈ h.buckets i → h.findBucket hash e = i

theorem Placed.findBucket_lt (hp : Placed hash h) (e : α) : h.findBucket hash e < h.bucketCnt := by
  obtain ⟨k, -, hk⟩ := hp.power
  rw [findBucket, hk, Nat.and_two_pow_sub_one_eq_mod]
  exact Nat.mod_lt _ (Nat.two_pow_pos k)

theorem Placed.mem_elems (hp : Placed hash h) {e : α} :
    e ∈ elems h ↔ e ∈ h.buckets (h.findBucket hash e) := by
  simp only [elems, List.mem_flatMap, List.mem_range]
  constructor
  · rintro ⟨i, -, he⟩
    rwa [hp.bucket i e he]
  · intro he
    exact ⟨_, hp.findBucket_lt e, he⟩

theorem Placed.nodup_bucket (hp : Placed hash h) (hnodup : (elems h).Nodup) (i : Nat) :
    (h.buckets i).Nodup := by
  by_cases hi : i < h.bucketCnt
  · exact (List.nodup_flatMap.mp hnodup).1 i (List.mem_range.mpr hi)
  · have hnil : h.buckets i = [] := List.eq_nil_iff_forall_not_mem.mpr fun e he =>
      hi (hp.bucket i e he ▸ hp.findBucket_lt e)
    rw [hnil]
    exact List.nodup_nil

theorem flatMap_update_perm (f : Nat → List α) {i n : Nat} (hi : i < n) (l : List α) :
    ((List.range n).flatMap (update f i l) ++ f i).Perm
      ((List.range n).flatMap f ++ l) := by
  induction n with
  | zero => omega
  | succ n ih =>
    simp only [List.range_succ, List.flatMap_append, List.flatMap_singleton,
      ← Multiset.coe_eq_coe, ← Multiset.coe_add] at ih ⊢
    rcases Nat.lt_succ_iff_lt_or_eq.mp hi with hlt | rfl
    · rw [update_of_ne (by omega), add_right_comm, ih hlt, add_right_comm]
    · have hsame : (List.range i).flatMap (update f i l) = (List.range i).flatMap f := by
        rw [List.flatMap_def, List.flatMap_def]
        congr 1
        exact List.map_congr_left fun j hj =>
          update_of_ne (Nat.ne_of_lt (List.mem_range.mp hj)) ..
      rw [hsame, update_self, add_right_comm]

theorem elems_pushFront (hp : Placed hash h) (e : α) :
    (elems (h.pushFront (h.findBucket hash e) e)).Perm (e :: elems h) := by
  have hperm := flatMap_update_perm h.buckets (hp.findBucket_lt e)
    (e :: h.buckets (h.findBucket hash e))
  rw [← List.perm_append_right_iff (h.buckets (h.findBucket hash e))]
  exact hperm.trans List.perm_middle

theorem Placed.pushFront (hp : Placed hash h) (e : α) :
    Placed hash (h.pushFront (h.findBucket hash e) e) where
  power := hp.power
  bucket i x hx := by
    by_cases hi : i = h.findBucket hash e
    · subst hi
      simp only [Hash.pushFront, update_self] at hx
      rcases List.mem_cons.mp hx with rfl | hx
      · rfl
      · exact hp.bucket _ x hx
    · simp only [Hash.pushFront, update_of_ne hi] at hx
      exact hp.bucket i x hx

/-! ## `rehash` -/

theorem foldl_pushFront (l : List α) (hp : Placed hash h) :
    Placed hash (l.foldl (fun h e => h.pushFront (h.findBucket hash e) e) h) ∧
    (elems (l.foldl (fun h e => h.pushFront (h.findBucket hash e) e) h)).Perm (l ++ elems h) ∧
    (l.foldl (fun h e => h.pushFront (h.findBucket hash e) e) h).elemCnt = h.elemCnt := by
  induction l generalizing h with
  | nil => exact ⟨hp, .refl _, rfl⟩
  | cons e l ih =>
    obtain ⟨hplaced, hperm, hcnt⟩ := ih (hp.pushFront e)
    refine ⟨hplaced, hperm.trans ?_, hcnt⟩
    exact ((elems_pushFront hp e).append_left l).trans List.perm_middle

/-- **`rehash` は、割り当てに失敗しても、要素を変えない。** -/
theorem rehash_spec (alloc : Bool) (hp : Placed hash h) :
    Placed hash (h.rehash hash alloc) ∧ (elems (h.rehash hash alloc)).Perm (elems h) ∧
      (h.rehash hash alloc).elemCnt = h.elemCnt := by
  unfold rehash
  extract_lets cnt
  split
  · exact ⟨hp, .refl _, rfl⟩
  split
  · exact ⟨hp, .refl _, rfl⟩
  rw [← List.foldl_flatMap]
  have hfresh : Placed hash { h with bucketCnt := cnt, buckets := fun _ => [] } :=
    ⟨newBucketCnt_spec h.elemCnt, fun i e he => by cases he⟩
  obtain ⟨hplaced, hperm, hcnt⟩ := foldl_pushFront (elems h) hfresh
  refine ⟨hplaced, hperm.trans ?_, hcnt⟩
  rw [show elems { h with bucketCnt := cnt, buckets := fun _ => [] } = [] by simp [elems],
    List.append_nil]

/-! ## 同値な要素 -/

/-- `less` で比べられない要素。 -/
def Same (less : α → α → Bool) : α → α → Prop := Incomp fun a b => less a b = true

theorem same_equivalence [IsStrictWeakOrder α fun a b => less a b = true] :
    Equivalence (Same less) := incomp_equivalence _

theorem nodup_of_pairwise [IsStrictWeakOrder α fun a b => less a b = true]
    (h : l.Pairwise fun a b => ¬Same less a b) : l.Nodup := by
  refine h.imp ?_
  rintro a b hab rfl
  exact hab (same_equivalence.refl a)

/-! ## 一つの要素を外す -/

variable [DecidableEq α]

theorem elems_removeElem (hp : Placed hash h) (hx : x ∈ elems h) :
    Placed hash (h.removeElem x) ∧ (x :: elems (h.removeElem x)).Perm (elems h) := by
  have hbucket : x ∈ h.buckets (h.findBucket hash x) := hp.mem_elems.mp hx
  have hupdate : (h.removeElem x).buckets = update h.buckets (h.findBucket hash x)
      ((h.buckets (h.findBucket hash x)).erase x) := by
    funext i
    by_cases hi : i = h.findBucket hash x
    · subst hi
      rw [update_self]
      rfl
    · rw [update_of_ne hi]
      exact List.erase_of_not_mem fun hmem => hi (hp.bucket i x hmem).symm
  refine ⟨⟨hp.power, fun i e he => hp.bucket i e (List.mem_of_mem_erase he)⟩, ?_⟩
  have hperm := flatMap_update_perm h.buckets (hp.findBucket_lt x)
    ((h.buckets (h.findBucket hash x)).erase x)
  rw [← hupdate] at hperm
  rw [← List.perm_append_right_iff ((h.buckets (h.findBucket hash x)).erase x)]
  refine List.Perm.trans ?_ hperm
  exact List.perm_middle.symm.trans ((List.perm_cons_erase hbucket).symm.append_left _)

/-! ## 集合としての操作 -/

def stored (h : Hash α) : Finset α := (elems h).toFinset

/-- 見つかった要素を除く。 -/
def eraseOld (s : Finset α) : Option α → Finset α
  | some old => s.erase old
  | none => s

/-- 集合の操作として、結果と次の集合がどうあるべきか。 -/
def Prescribes (less : α → α → Bool) (s : Finset α) : Op α → Out α → Finset α → Prop
  | .insert new _, out, s' => ∃ old, out = .elem old ∧ Represents (Same less) s new old ∧
      s' = if old = none then insert new s else s
  | .replace new _, out, s' => ∃ old, out = .elem old ∧ Represents (Same less) s new old ∧
      s' = insert new (eraseOld s old)
  | .delete e _, out, s' => ∃ found, out = .elem found ∧ Represents (Same less) s e found ∧
      s' = eraseOld s found
  | .find e, out, s' => ∃ found, out = .elem found ∧ Represents (Same less) s e found ∧ s' = s
  | .clear destructor, out, s' => (∃ es, out = .destroyed es ∧
      if destructor then es.Nodup ∧ es.toFinset = s else es = []) ∧ s' = ∅

structure Inv (hash : α → Nat) (less : α → α → Bool) (h : Hash α) : Prop where
  placed : Placed hash h
  count : h.elemCnt = (elems h).length
  distinct : (elems h).Pairwise fun a b => ¬Same less a b

section

variable [IsStrictWeakOrder α fun a b => less a b = true]

theorem Inv.of_perm (hp : Placed hash h) (hperm : (elems h).Perm l)
    (hcnt : h.elemCnt = l.length) (hd : l.Pairwise fun a b => ¬Same less a b) :
    Inv hash less h ∧ stored h = l.toFinset := by
  refine ⟨⟨hp, hcnt.trans hperm.length_eq.symm, ?_⟩, List.toFinset_eq_of_perm _ _ hperm⟩
  exact (hperm.pairwise_iff fun hab hba => hab (same_equivalence.symm hba)).mpr hd

omit [IsStrictWeakOrder α fun a b => less a b = true] in
/-- `find_elem` は、同値な要素を選ぶ。同値な要素は同じ bucket にある。 -/
theorem findElem_represents (hagree : ∀ a b, Same less a b → hash a = hash b)
    (hp : Placed hash h) (e : α) :
    Represents (Same less) (stored h) e
      (findElem less (h.buckets (h.findBucket hash e)) e) := by
  have hfound : ∀ x, (!less x e && !less e x) = true ↔ Same less x e := fun x => by
    simp [Same, Incomp]
  cases hf : findElem less (h.buckets (h.findBucket hash e)) e with
  | none =>
    intro x hx hsame
    have hbucket := hp.mem_elems.mp (List.mem_toFinset.mp hx)
    rw [findBucket, hagree x e hsame, ← findBucket] at hbucket
    exact List.find?_eq_none.mp hf x hbucket ((hfound x).mpr hsame)
  | some x =>
    unfold findElem at hf
    have hbucket := List.mem_of_find?_eq_some hf
    have hsame := List.find?_some hf
    refine ⟨List.mem_toFinset.mpr (hp.mem_elems.mpr ?_), (hfound x).mp hsame⟩
    rwa [hp.bucket _ x hbucket]

theorem Inv.rehash (hi : Inv hash less h) (alloc : Bool) :
    Inv hash less (h.rehash hash alloc) ∧ stored (h.rehash hash alloc) = stored h := by
  obtain ⟨hp, hperm, hcnt⟩ := rehash_spec alloc hi.placed
  exact Inv.of_perm hp hperm (hcnt.trans hi.count) hi.distinct

theorem Inv.insertElem (hi : Inv hash less h) {new : α}
    (hnew : Represents (Same less) (stored h) new none) :
    Inv hash less (h.insertElem (h.findBucket hash new) new) ∧
      stored (h.insertElem (h.findBucket hash new) new) = insert new (stored h) := by
  have hp := hi.placed.pushFront new
  have hperm := elems_pushFront hi.placed new
  show _ ∧ _ = insert new (elems h).toFinset
  rw [← List.toFinset_cons]
  refine Inv.of_perm ⟨hp.power, hp.bucket⟩ hperm ?_ (List.pairwise_cons.mpr ⟨?_, hi.distinct⟩)
  · rw [List.length_cons, ← hi.count]
    rfl
  · intro x hx hsame
    exact hnew x (List.mem_toFinset.mpr hx) (same_equivalence.symm hsame)

theorem Inv.removeElem (hi : Inv hash less h) (hx : x ∈ stored h) :
    Inv hash less (h.removeElem x) ∧ stored (h.removeElem x) = (stored h).erase x := by
  obtain ⟨hp, hperm⟩ := elems_removeElem hi.placed (List.mem_toFinset.mp hx)
  have hdistinct := (hperm.pairwise_iff
    fun hab hba => hab (same_equivalence.symm hba)).mpr hi.distinct
  have hnodup := nodup_of_pairwise hdistinct
  have hlen := hperm.length_eq
  rw [List.length_cons, ← hi.count] at hlen
  refine ⟨⟨hp, ?_, (List.pairwise_cons.mp hdistinct).2⟩, ?_⟩
  · show h.elemCnt - 1 = _
    omega
  · rw [stored, stored, ← List.toFinset_eq_of_perm _ _ hperm, List.toFinset_cons,
      Finset.erase_insert (by simpa using (List.nodup_cons.mp hnodup).1)]

theorem represents_none_erase {s : Finset α} (hs : Separated (Same less) s) {e : α}
    (hx : Represents (Same less) s e (some x)) :
    Represents (Same less) (s.erase x) e none := by
  intro y hy hsame
  obtain ⟨hne, hmem⟩ := Finset.mem_erase.mp hy
  exact hne (hs y hmem x hx.1 (same_equivalence.trans hsame (same_equivalence.symm hx.2)))

theorem Inv.separated (hi : Inv hash less h) : Separated (Same less) (stored h) := by
  intro a ha b hb hsame
  have : Std.Symm fun a b => ¬Same less a b :=
    ⟨fun _ _ hab hba => hab (same_equivalence.symm hba)⟩
  by_contra hne
  exact hi.distinct.forall (List.mem_toFinset.mp ha) (List.mem_toFinset.mp hb) hne hsame

section

variable (hagree : ∀ a b, Same less a b → hash a = hash b) {h : Hash α} (hi : Inv hash less h)

include hagree hi

theorem hashInsert_spec (alloc : Bool) (new : α) :
    Inv hash less (hashInsert hash less alloc new h).2 ∧
    Represents (Same less) (stored h) new (hashInsert hash less alloc new h).1 ∧
    stored (hashInsert hash less alloc new h).2 =
      if (hashInsert hash less alloc new h).1 = none then insert new (stored h) else stored h := by
  have hold := findElem_represents hagree hi.placed new
  cases hf : findElem less (h.buckets (h.findBucket hash new)) new with
  | none =>
    rw [hf] at hold
    simp only [hashInsert, hf, if_true]
    obtain ⟨hinv, hstored⟩ := hi.insertElem hold
    obtain ⟨hinv', hstored'⟩ := hinv.rehash alloc
    exact ⟨hinv', hold, hstored'.trans hstored⟩
  | some old =>
    rw [hf] at hold
    simp only [hashInsert, hf, reduceCtorEq, if_false]
    obtain ⟨hinv, hstored⟩ := hi.rehash alloc
    exact ⟨hinv, hold, hstored⟩

theorem hashReplace_spec (alloc : Bool) (new : α) :
    Inv hash less (hashReplace hash less alloc new h).2 ∧
    Represents (Same less) (stored h) new (hashReplace hash less alloc new h).1 ∧
    stored (hashReplace hash less alloc new h).2 =
      insert new (eraseOld (stored h) (hashReplace hash less alloc new h).1) := by
  have hold := findElem_represents hagree hi.placed new
  simp only [hashReplace]
  generalize findElem less (h.buckets (h.findBucket hash new)) new = old at hold ⊢
  cases old with
  | none =>
    obtain ⟨hinv, hstored⟩ := hi.insertElem hold
    obtain ⟨hinv', hstored'⟩ := hinv.rehash alloc
    exact ⟨hinv', hold, hstored'.trans hstored⟩
  | some old =>
    -- 外した後も bucket の番号は変わらない。
    obtain ⟨hinv, hstored⟩ := hi.removeElem hold.1
    have hnone := represents_none_erase hi.separated hold
    rw [← hstored] at hnone
    obtain ⟨hinv', hstored'⟩ := hinv.insertElem hnone
    obtain ⟨hinv'', hstored''⟩ := hinv'.rehash alloc
    rw [hstored] at hstored'
    exact ⟨hinv'', hold, hstored''.trans hstored'⟩

theorem hashDelete_spec (alloc : Bool) (e : α) :
    Inv hash less (hashDelete hash less alloc e h).2 ∧
    Represents (Same less) (stored h) e (hashDelete hash less alloc e h).1 ∧
    stored (hashDelete hash less alloc e h).2 =
      eraseOld (stored h) (hashDelete hash less alloc e h).1 := by
  have hold := findElem_represents hagree hi.placed e
  unfold hashDelete
  generalize findElem less (h.buckets (h.findBucket hash e)) e = found at hold ⊢
  cases found with
  | none => exact ⟨hi, hold, rfl⟩
  | some x =>
    obtain ⟨hinv, hstored⟩ := hi.removeElem hold.1
    obtain ⟨hinv', hstored'⟩ := hinv.rehash alloc
    exact ⟨hinv', hold, hstored'.trans hstored⟩

omit hagree in
theorem hashClear_spec (destructor : Bool) :
    Inv hash less (hashClear destructor h).2 ∧ stored (hashClear destructor h).2 = ∅ ∧
    if destructor then (hashClear destructor h).1.Nodup ∧
      (hashClear destructor h).1.toFinset = stored h
    else (hashClear destructor h).1 = [] := by
  have hempty : elems (hashClear destructor h).2 = [] := by simp [hashClear, elems]
  refine ⟨⟨⟨hi.placed.power, fun i e he => by cases he⟩, ?_, ?_⟩, ?_, ?_⟩
  · rw [hempty]
    rfl
  · rw [hempty]
    exact .nil
  · rw [stored, hempty, List.toFinset_nil]
  · cases destructor with
    | true => exact ⟨nodup_of_pairwise hi.distinct, rfl⟩
    | false => rfl

theorem perform_spec (op : Op α) :
    Inv hash less (perform hash less h op).2 ∧
      Prescribes less (stored h) op (perform hash less h op).1
        (stored (perform hash less h op).2) := by
  cases op with
  | insert new alloc =>
    obtain ⟨hinv, hold, hstored⟩ := hashInsert_spec hagree hi alloc new
    exact ⟨hinv, _, rfl, hold, hstored⟩
  | replace new alloc =>
    obtain ⟨hinv, hold, hstored⟩ := hashReplace_spec hagree hi alloc new
    exact ⟨hinv, _, rfl, hold, hstored⟩
  | delete e alloc =>
    obtain ⟨hinv, hfound, hstored⟩ := hashDelete_spec hagree hi alloc e
    exact ⟨hinv, _, rfl, hfound, hstored⟩
  | find e => exact ⟨hi, _, rfl, findElem_represents hagree hi.placed e, rfl⟩
  | clear destructor =>
    obtain ⟨hinv, hstored, hdestroyed⟩ := hashClear_spec hi destructor
    exact ⟨hinv, ⟨_, rfl, hdestroyed⟩, hstored⟩

end

end

/-! ## 反復 -/

section

def later (h : Hash α) (bucket : Nat) : List α :=
  (List.range' (bucket + 1) (h.bucketCnt - (bucket + 1))).flatMap h.buckets

def remaining (h : Hash α) (it : Iterator α) : List α :=
  after (h.buckets it.bucket) it.elem ++ later h it.bucket

omit [DecidableEq α] in
theorem later_of_ge {bucket : Nat} (hge : bucket + 1 ≥ h.bucketCnt) : later h bucket = [] := by
  rw [later, Nat.sub_eq_zero_of_le hge]
  rfl

omit [DecidableEq α] in
theorem later_of_lt {bucket : Nat} (hlt : ¬bucket + 1 ≥ h.bucketCnt) :
    later h bucket = h.buckets (bucket + 1) ++ later h (bucket + 1) := by
  rw [later, show h.bucketCnt - (bucket + 1) = h.bucketCnt - (bucket + 1 + 1) + 1 by omega,
    List.range'_succ, List.flatMap_cons, later]

theorem after_node_of_append {pre t : List α} (h : x ∉ pre) : after (pre ++ x :: t) (.node x) = t := by
  have hpre : ∀ a ∈ pre, decide (a ≠ x) = true := fun a ha => by
    simpa using fun hax : a = x => h (hax ▸ ha)
  rw [after, List.dropWhile_append_of_pos hpre, List.dropWhile_cons_of_neg (by simp),
    List.tail_cons]

theorem after_node {bucket t : List α} {c : Cursor α} (hnodup : bucket.Nodup)
    (h : after bucket c = x :: t) : after bucket (.node x) = t := by
  cases c with
  | null => cases h
  | head =>
    rw [show bucket = [] ++ x :: t from h]
    exact after_node_of_append List.not_mem_nil
  | node e =>
    have hsplit := List.takeWhile_append_dropWhile (p := (· ≠ e)) (l := bucket)
    cases hd : bucket.dropWhile (· ≠ e) with
    | nil => rw [after, hd] at h; cases h
    | cons d ds =>
      rw [after, hd, List.tail_cons] at h
      rw [hd, h] at hsplit
      rw [← hsplit] at hnodup ⊢
      rw [List.append_cons] at hnodup ⊢
      refine after_node_of_append fun hmem => ?_
      exact (List.nodup_append.mp hnodup).2.2 x hmem x List.mem_cons_self rfl

/-- 空の bucket を飛ばす while。`l` は今の bucket に残る要素である。 -/
theorem nextElem_spec {l : List α} (hl : ∀ x t, l = x :: t → after (h.buckets bucket) (.node x) = t)
    :
    (l ++ later h bucket = [] → (nextElem h bucket l.head?).elem = .null) ∧
    ∀ x t, l ++ later h bucket = x :: t → (nextElem h bucket l.head?).elem = .node x ∧
      remaining h (nextElem h bucket l.head?) = t := by
  cases l with
  | cons y l =>
    rw [List.head?_cons, nextElem]
    refine ⟨fun hnil => by simp at hnil, fun x t heq => ?_⟩
    obtain ⟨rfl, rfl⟩ := List.cons.inj heq
    exact ⟨rfl, congrArg (· ++ later h bucket) (hl y l rfl)⟩
  | nil =>
    rw [List.head?_nil, nextElem, List.nil_append]
    by_cases hge : bucket + 1 ≥ h.bucketCnt
    · rw [if_pos hge, later_of_ge hge]
      exact ⟨fun _ => rfl, fun x t heq => by cases heq⟩
    · rw [if_neg hge, later_of_lt hge]
      exact nextElem_spec fun x t ht => by
        rw [ht]
        exact after_node_of_append List.not_mem_nil
termination_by h.bucketCnt - bucket

theorem hashNext_spec (hnodup : ∀ i, (h.buckets i).Nodup) (it : Iterator α) :
    (remaining h it = [] → (hashNext h it).elem = .null) ∧
    ∀ x t, remaining h it = x :: t →
      (hashNext h it).elem = .node x ∧ remaining h (hashNext h it) = t :=
  nextElem_spec fun _ _ => after_node (hnodup it.bucket)

/-- **反復は、残りの要素を順に返し、その後に `NULL` を返す。** -/
theorem nexts_spec (hnodup : ∀ i, (h.buckets i).Nodup) (l : List α) {it : Iterator α}
    (hl : remaining h it = l) : nexts h (l.length + 1) it = l.map some ++ [none] := by
  induction l generalizing it with
  | nil =>
    have hnull := (hashNext_spec hnodup it).1 hl
    simp [nexts, hnull, Cursor.toOption]
  | cons x t ih =>
    obtain ⟨hnode, hrest⟩ := (hashNext_spec hnodup it).2 x t hl
    rw [List.length_cons, nexts, hnode, ih hrest]
    rfl

theorem remaining_hashFirst (hpos : 0 < h.bucketCnt) : remaining h hashFirst = elems h := by
  rw [remaining, elems, List.range_eq_range', hashFirst, after, later]
  rw [show h.bucketCnt = h.bucketCnt - (0 + 1) + 1 by omega, List.range'_succ, List.flatMap_cons]
  simp

end

/-! ## 操作の列 -/

def hashSystem (hash : α → Nat) (less : α → α → Bool) : System (Hash α) (Op α × Out α) where
  init h := h = hashInit
  step h e h' := perform hash less h e.1 = (e.2, h')

def setSystem (less : α → α → Bool) : System (Finset α) (Op α × Out α) where
  init s := s = ∅
  step s e s' := Prescribes less s e.1 e.2 s'

omit [DecidableEq α] in
theorem inv_hashInit : Inv hash less (hashInit : Hash α) where
  placed := ⟨⟨2, Nat.le_refl 2, rfl⟩, fun i e he => by cases he⟩
  count := rfl
  distinct := .nil

/--
**hash 表は、同値な要素を二つ持たない有限集合を実現する。**

どの操作の列も、結果まで含めて集合の操作の列である。要素は `hash & (bucket_cnt - 1)` の bucket に
あり、bucket の数は 4 以上の 2 の冪で、`elem_cnt` は要素の数である。反復はどの要素も
ちょうど一度返し、その後に `NULL` を返す。
-/
theorem hash_refines_set (hash : α → Nat) (less : α → α → Bool)
    [IsStrictWeakOrder α fun a b => less a b = true]
    (hagree : ∀ a b, Same less a b → hash a = hash b) {tr : List (Op α × Out α)} {h : Hash α}
    (hrun : Run (hashSystem hash less) (fun _ e => [e]) hashInit tr h) :
    Run (setSystem less) (fun _ e => [e]) ∅ tr (stored h) ∧
    (∀ i e, e ∈ h.buckets i ↔ e ∈ stored h ∧ i = hash e &&& (h.bucketCnt - 1)) ∧
    (∃ k, 2 ≤ k ∧ h.bucketCnt = 2 ^ k) ∧
    h.elemCnt = (stored h).card ∧
    Separated (Same less) (stored h) ∧
    ∃ es : List α, es.Nodup ∧ es.toFinset = stored h ∧
      nexts h (es.length + 1) hashFirst = es.map some ++ [none] := by
  obtain ⟨s, hset, hi, rfl⟩ := hrun.simulate (R := fun h s => Inv hash less h ∧ s = stored h)
    (T := setSystem less) rfl ⟨inv_hashInit, rfl⟩ (by
      rintro h ⟨op, out⟩ h' s ⟨hi, rfl⟩ hstep
      obtain ⟨hinv, hspec⟩ := perform_spec hagree hi op
      rw [show perform hash less h op = (out, h') from hstep] at hinv hspec
      exact ⟨stored h', hspec, hinv, rfl⟩)
  have hnodup := nodup_of_pairwise hi.distinct
  refine ⟨hset, fun i e => ?_, hi.placed.power, ?_, hi.separated, elems h, hnodup, rfl, ?_⟩
  · rw [stored, List.mem_toFinset, hi.placed.mem_elems]
    constructor
    · intro he
      have hbucket := hi.placed.bucket i e he
      exact ⟨hbucket ▸ he, hbucket.symm⟩
    · rintro ⟨he, rfl⟩
      exact he
  · rw [hi.count, stored, List.toFinset_card_of_nodup hnodup]
  · obtain ⟨k, -, hk⟩ := hi.placed.power
    have hpos : 0 < h.bucketCnt := hk ▸ Nat.two_pow_pos k
    exact nexts_spec (hi.placed.nodup_bucket hnodup) _ (remaining_hashFirst hpos)

theorem exists_run_of_ops {h : Hash α} (ops : List (Op α)) {tr : List (Op α × Out α)}
    (hrun : Run (hashSystem hash less) (fun _ e => [e]) hashInit tr h) :
    ∃ tr', Run (hashSystem hash less) (fun _ e => [e]) hashInit tr'
      (ops.foldl (fun h op => (perform hash less h op).2) h) ∧
      tr'.map Prod.fst = tr.map Prod.fst ++ ops := by
  induction ops generalizing tr h with
  | nil => exact ⟨tr, hrun, (List.append_nil _).symm⟩
  | cons op ops ih =>
    obtain ⟨tr', h', hops⟩ := ih (hrun.step (e := (op, (perform hash less h op).1)) rfl)
    exact ⟨tr', h', by simpa using hops⟩

/-- 16 個の要素で表が広がり、同値な要素 1 が 0 を置き換える。 -/
theorem hash_refines_set_grown : ∃ (tr : List (Op Nat × Out Nat)) (h : Hash Nat),
    tr.map Prod.fst = (List.range 16).map (fun i => .insert (2 * i) true) ++ [.replace 1 true] ∧
    Run (setSystem fun a b => decide (a / 2 < b / 2)) (fun _ e => [e]) ∅ tr (stored h) ∧
    h.bucketCnt = 8 ∧ (stored h).card = 16 ∧ 1 ∈ stored h ∧ 0 ∉ stored h := by
  have hweak : IsStrictWeakOrder Nat fun a b => decide (a / 2 < b / 2) = true :=
    { irrefl := by simp
      trans := by simp; omega
      incomp_trans := by simp; omega }
  obtain ⟨tr, hrun, hops⟩ := exists_run_of_ops
    ((List.range 16).map (fun i => .insert (2 * i) true) ++ [.replace 1 true])
    (.init (rfl : (hashSystem (· / 2) fun a b => decide (a / 2 < b / 2)).init hashInit))
  have hagree : ∀ a b, Same (fun a b => decide (a / 2 < b / 2)) a b → a / 2 = b / 2 := by
    intro a b hsame
    simp [Same, Incomp] at hsame
    exact Nat.le_antisymm hsame.2 hsame.1
  obtain ⟨hset, -, -, hcard, -⟩ := hash_refines_set (· / 2) _ hagree hrun
  exact ⟨tr, _, hops, hset, by decide +kernel, hcard.symm.trans (by decide +kernel),
    by decide +kernel, by decide +kernel⟩

end Pintos.Hash
