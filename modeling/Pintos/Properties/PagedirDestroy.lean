import Mathlib.Data.List.Perm.Basic
import Mathlib.Data.List.Perm.Lattice
import Mathlib.Data.List.Range
import Pintos.Properties.PagedirRun

/-!
# page directory の破棄と、操作の列

`pagedir_destroy` は、返した page を `0xcc` で埋めながら表をたどる。
置かれている page は page directory でも page table でもないので、
まだたどっていない表は変わらない。
そこで破棄は、返す page の列（`DirState.freed`）に `palloc_free_page` を順に掛けたものに等しい。
使われていない page を返すと panic する。
-/

namespace Pintos.Pagedir

open Infra Function

variable {s s' : DirState} {pt k p : Word} {d d' : Destroying} {ps : List Word} {i : Nat}

/-! ## `palloc_free_page` の列 -/

theorem IsPage.freePage_eq_ok (h : IsPage k) : d.freePage k = .ok d' ↔ d.pool k = some true ∧
    d' = ⟨d.mem.fill k 0xcccccccc, update d.pool k (some false)⟩ := by
  rw [Destroying.freePage, if_neg (not_not.mpr h.1), if_neg h.ne_zero]
  rcases d.pool k with _ | _ | _ <;> simp [eq_comm]

theorem freePage_mem (h : d.freePage k = .ok d') (hp : p ≠ k) (j : Nat) :
    d'.mem p j = d.mem p j := by
  obtain ⟨-, h⟩ := guard_eq_ok.mp h
  split at h
  · cases h
    rfl
  · split at h
    · cases h
    · cases h
    · cases h
      exact if_neg hp

theorem freePages_mem (h : ps.foldlM Destroying.freePage d = .ok d') (hp : p ∉ ps) (j : Nat) :
    d'.mem p j = d.mem p j := by
  induction ps generalizing d with
  | nil =>
    cases h
    rfl
  | cons k ps ih =>
    rw [List.foldlM_cons] at h
    obtain ⟨d₁, h₁, h⟩ := bind_eq_ok.mp h
    obtain ⟨hpk, hp⟩ := not_or.mp (mt List.mem_cons.mpr hp)
    exact (ih h hp).trans (freePage_mem h₁ hpk j)

/-- **終わったなら、page は互いに異なり、どれも使われていた。** -/
theorem freePages_ok (hps : ∀ p ∈ ps, IsPage p) (h : ps.foldlM Destroying.freePage d = .ok d') :
    (ps.Nodup ∧ ∀ p ∈ ps, d.pool p = some true) ∧
    ∀ p, d'.pool p = if p ∈ ps then some false else d.pool p := by
  induction ps generalizing d with
  | nil =>
    cases h
    exact ⟨⟨List.nodup_nil, nofun⟩, fun p => (if_neg List.not_mem_nil).symm⟩
  | cons k ps ih =>
    rw [List.foldlM_cons] at h
    obtain ⟨d₁, h₁, h⟩ := bind_eq_ok.mp h
    obtain ⟨hk, rfl⟩ := (hps k List.mem_cons_self).freePage_eq_ok.mp h₁
    obtain ⟨⟨hnd, hall⟩, hpool⟩ := ih (fun p hp => hps p (List.mem_cons_of_mem _ hp)) h
    -- 返した `k` の bit は偽なので、残りの列に `k` は無い
    have hne : ∀ p ∈ ps, p ≠ k := by
      rintro p hp rfl
      exact nomatch (hall p hp).symm.trans (update_self ..)
    refine ⟨⟨List.nodup_cons.mpr ⟨fun hmem => hne k hmem rfl, hnd⟩, fun p hp => ?_⟩, fun p => ?_⟩
    · rcases List.mem_cons.mp hp with rfl | hp
      · exact hk
      · exact (update_of_ne (hne p hp) ..).symm.trans (hall p hp)
    · rw [hpool]
      dsimp only
      rw [update_apply]
      by_cases hpk : p = k <;> simp [hpk]

theorem exists_freePages (hps : ∀ p ∈ ps, IsPage p) (hnd : ps.Nodup)
    (hall : ∀ p ∈ ps, d.pool p = some true) : ∃ d', ps.foldlM Destroying.freePage d = .ok d' := by
  induction ps generalizing d with
  | nil => exact ⟨d, rfl⟩
  | cons k ps ih =>
    obtain ⟨hk, hnd⟩ := List.nodup_cons.mp hnd
    have h₁ := (hps k List.mem_cons_self).freePage_eq_ok.mpr ⟨hall k List.mem_cons_self, rfl⟩
    rw [List.foldlM_cons, h₁]
    refine ih (fun p hp => hps p (List.mem_cons_of_mem _ hp)) hnd fun p hp => ?_
    have hpk : p ≠ k := by
      rintro rfl
      exact hk hp
    exact (update_of_ne hpk ..).trans (hall p (List.mem_cons_of_mem _ hp))

/-! ## 返す page -/

def entryPages (mem : Mem) (pt : Word) (js : List Nat) : List Word :=
  js.filterMap fun j => (decode (mem pt j)).map Prod.fst

theorem DirInv.destroyTable (h : DirInv s) (hpt : pt ∈ s.tables) {js : List Nat}
    (hjs : ∀ j ∈ js, j < 1024) (hmem : ∀ j, d.mem pt j = s.mem pt j) :
    js.foldlM (destroyPte pt) d = (entryPages s.mem pt js).foldlM Destroying.freePage d := by
  induction js generalizing d with
  | nil => rfl
  | cons j js ih =>
    have hrest : ∀ j ∈ js, j < 1024 := fun j hj => hjs j (List.mem_cons_of_mem _ hj)
    rw [List.foldlM_cons]
    by_cases hpres : s.mem pt j &&& pteP = 0
    · have hstep : destroyPte pt d j = .ok d := by
        rw [destroyPte, hmem, if_neg (not_not.mpr hpres)]
      have hcons : entryPages s.mem pt (j :: js) = entryPages s.mem pt js := by
        simp only [entryPages, List.filterMap_cons, decode_eq_none.mpr hpres, Option.map_none]
      rw [hstep, hcons]
      exact ih hrest hmem
    · obtain ⟨k, hk, -, hout⟩ := h.entries pt hpt j (hjs j List.mem_cons_self) hpres
      have hstep : destroyPte pt d j = d.freePage k := by
        rw [destroyPte, hmem, if_pos hpres, hk]
        rfl
      have hcons : entryPages s.mem pt (j :: js) = k :: entryPages s.mem pt js := by
        simp only [entryPages, List.filterMap_cons, decode_of_getPage hpres hk, Option.map_some]
      rw [hstep, hcons, List.foldlM_cons]
      cases hfree : d.freePage k with
      | error e => rfl
      | ok d₁ =>
        -- 置かれている page は page table ではないので、たどっている表は変わらない
        have hne : pt ≠ k := by
          rintro rfl
          exact hout (by simp [DirState.structures, hpt])
        exact ih hrest fun j => (freePage_mem hfree hne j).trans (hmem j)

def DirState.tableAt (s : DirState) (i : Nat) : Option Word :=
  if 768 ≤ i ∨ s.mem s.pd i = 0 then none else some ((s.mem s.pd i &&& pteAddr) + physBase)

def DirState.freedAt (s : DirState) (i : Nat) : List Word :=
  ((List.range 1024).filterMap fun j => (s.mapping (1024 * i + j)).map Prod.fst) ++
    (s.tableAt i).toList

theorem tableAt_eq_some (hi : i < 768) (h : DirInv s) :
    s.tableAt i = some pt ↔ s.Points i pt := by
  constructor
  · intro ht
    rw [DirState.tableAt] at ht
    split at ht
    · cases ht
    · next hne =>
      obtain ⟨pt', -, hp⟩ := (h.user i hi).resolve_left (fun hz => hne (.inr hz))
      obtain ⟨hget, -, hpres⟩ := pdeGetPt_of_create hp
      rw [pdeGetPt, if_neg hpres, ptov] at hget
      split at hget
      · rw [← Option.some.inj ht, Except.ok.inj hget]
        exact hp
      · cases hget
  · intro hp
    obtain ⟨hget, hne, hpres⟩ := pdeGetPt_of_create hp
    rw [pdeGetPt, if_neg hpres, ptov] at hget
    split at hget
    · have hin : ¬ (768 ≤ i ∨ s.mem s.pd i = 0) := not_or.mpr ⟨by omega, hne⟩
      rw [DirState.tableAt, if_neg hin, Except.ok.inj hget]
    · cases hget

theorem DirInv.mapping_usable (h : DirInv s) {n : Nat} {r : Word × Bool} (hn : n < 768 * 1024)
    (hr : s.mapping n = some r) : s.Usable r.1 := by
  by_cases hz : s.mem s.pd (n / 1024) = 0
  · exact nomatch (DirInv.mapping_of_zero hz).symm.trans hr
  · obtain ⟨pt, -, hp, ht, -⟩ := h.points (by omega : n / 1024 < 1024) hz
    rw [DirInv.mapping_of_points hp] at hr
    by_cases hpres : s.mem pt (n % 1024) &&& pteP = 0
    · exact nomatch (decode_eq_none.mpr hpres).symm.trans hr
    · obtain ⟨k, hk, husable⟩ := h.entries pt (ht (by omega)) _ (Nat.mod_lt _ (by decide)) hpres
      cases (decode_of_getPage hpres hk).symm.trans hr
      exact husable

/-- たどった entry の page table のほかは、page directory も page table も返さない。 -/
theorem DirInv.not_mem_freedAt (h : DirInv s) (hi : i < 768) (hp : p ∈ s.structures)
    (hnot : ¬ s.Points i p) : p ∉ s.freedAt i := by
  intro hmem
  rcases List.mem_append.mp hmem with hmem | ht
  · obtain ⟨j, hj, hp'⟩ := List.mem_filterMap.mp hmem
    obtain ⟨r, hr, rfl⟩ := Option.map_eq_some_iff.mp hp'
    have hj := List.mem_range.mp hj
    exact (h.mapping_usable (by omega) hr).2 hp
  · exact hnot ((tableAt_eq_some hi h).mp (Option.mem_toList.mp ht))

theorem DirInv.destroyPde_eq (h : DirInv s) (hi : i < 768) (hpd : ∀ j, d.mem s.pd j = s.mem s.pd j)
    (htab : ∀ pt, s.Points i pt → ∀ j, d.mem pt j = s.mem pt j) :
    destroyPde s.pd d i = (s.freedAt i).foldlM Destroying.freePage d := by
  have hdiv : ∀ j < 1024, (1024 * i + j) / 1024 = i := by omega
  rcases h.user i hi with hz | ⟨pt, hpt, hp⟩
  · have hnone : ∀ j ∈ List.range 1024, (s.mapping (1024 * i + j)).map Prod.fst = none := by
      intro j hj
      rw [DirInv.mapping_of_zero (by rw [hdiv j (List.mem_range.mp hj)]; exact hz)]
      rfl
    rw [destroyPde, hpd, hz, if_neg (by decide), DirState.freedAt,
      List.filterMap_eq_nil_iff.mpr hnone, DirState.tableAt, if_pos (.inr hz)]
    rfl
  · have hmap : ((List.range 1024).filterMap fun j => (s.mapping (1024 * i + j)).map Prod.fst) =
        entryPages s.mem pt (List.range 1024) := by
      refine List.filterMap_congr fun j hj => ?_
      have hj := List.mem_range.mp hj
      rw [DirInv.mapping_of_points (by rw [hdiv j hj]; exact hp),
        show (1024 * i + j) % 1024 = j by omega]
    obtain ⟨hget, -, hpres⟩ := pdeGetPt_of_create hp
    have hok : ∀ f : Word → Except PagedirPanic Destroying, (Except.ok pt).bind f = f pt :=
      fun _ => rfl
    rw [destroyPde, hpd, if_pos hpres, hget, hok,
      h.destroyTable hpt (fun j hj => List.mem_range.mp hj) (htab pt hp), DirState.freedAt,
      hmap, (tableAt_eq_some hi h).mpr hp, List.foldlM_append]
    simp only [Option.toList_some, List.foldlM_cons, List.foldlM_nil, bind_pure]
    rfl

theorem DirInv.destroyLoop (h : DirInv s) {is : List Nat} (hnd : is.Nodup) (his : ∀ i ∈ is, i < 768)
    (hpd : ∀ j, d.mem s.pd j = s.mem s.pd j)
    (htab : ∀ i ∈ is, ∀ pt, s.Points i pt → ∀ j, d.mem pt j = s.mem pt j) :
    is.foldlM (destroyPde s.pd) d = (is.flatMap s.freedAt).foldlM Destroying.freePage d := by
  induction is generalizing d with
  | nil => rfl
  | cons i is ih =>
    have hi := his i List.mem_cons_self
    obtain ⟨hout, hnd⟩ := List.nodup_cons.mp hnd
    have his' : ∀ i ∈ is, i < 768 := fun i' hi' => his i' (List.mem_cons_of_mem _ hi')
    rw [List.foldlM_cons, h.destroyPde_eq hi hpd (htab i List.mem_cons_self), List.flatMap_cons,
      List.foldlM_append]
    cases hfree : (s.freedAt i).foldlM Destroying.freePage d with
    | error e => rfl
    | ok d₁ =>
      have hkeep : ∀ p ∈ s.structures, ¬ s.Points i p → ∀ j, d₁.mem p j = d.mem p j :=
        fun p hp hnot => freePages_mem hfree (h.not_mem_freedAt hi hp hnot)
      refine ih hnd his' (fun j => ?_) fun i' hi' pt hp j => ?_
      · refine (hkeep s.pd (by simp [DirState.structures]) (fun hp => ?_) j).trans (hpd j)
        exact (h.table_ne (List.mem_append_right _ (h.mem_tables_of_points hi hp))).1 rfl
      · -- 別の entry の page table は、まだ返していない
        have hpt := h.mem_tables_of_points (his' i' hi') hp
        refine (hkeep pt (by simp [DirState.structures, hpt]) (fun hp' => hout ?_) j).trans
          (htab i' (List.mem_cons_of_mem _ hi') pt hp j)
        exact h.inj pt i hi i' (his' i' hi') hp' hp ▸ hi'

def DirState.mappedPages (s : DirState) : List Word :=
  (List.range (768 * 1024)).filterMap fun n => (s.mapping n).map Prod.fst

theorem range_mul (k : Nat) : ∀ m, (List.range m).flatMap (fun i =>
    (List.range k).map fun j => k * i + j) = List.range (k * m)
  | 0 => by simp
  | m + 1 => by
    rw [List.range_succ, List.flatMap_append, range_mul k m, Nat.mul_succ, List.range_add]
    simp

theorem DirInv.freed_perm (h : DirInv s) :
    ((List.range 768).flatMap s.freedAt).Perm (s.mappedPages ++ s.tables) := by
  refine (List.flatMap_append_perm _ _ _).symm.trans (List.Perm.append ?_ ?_)
  · rw [DirState.mappedPages, show 768 * 1024 = 1024 * 768 by rfl, ← range_mul 1024 768,
      List.filterMap_flatMap]
    simp only [List.filterMap_map]
    rfl
  · rw [← List.filterMap_eq_flatMap_toList]
    refine (List.perm_ext_iff_of_nodup (List.nodup_range.filterMap ?_) ?_).mpr fun pt => ?_
    · intro i i' pt hi hi'
      have hlt : ∀ {i}, s.tableAt i = some pt → i < 768 := by
        intro i hi
        rw [DirState.tableAt] at hi
        split at hi
        · cases hi
        · next hn => exact Nat.not_le.mp (not_or.mp hn).1
      exact h.inj pt i (hlt hi) i' (hlt hi') ((tableAt_eq_some (hlt hi) h).mp hi)
        ((tableAt_eq_some (hlt hi') h).mp hi')
    · exact (List.nodup_cons.mp (List.nodup_cons.mp h.nodup).2).2
    · rw [List.mem_filterMap]
      constructor
      · rintro ⟨i, hi, ht⟩
        have hi := List.mem_range.mp hi
        exact h.mem_tables_of_points hi ((tableAt_eq_some hi h).mp ht)
      · intro hpt
        obtain ⟨i, hi, hp⟩ := h.used pt hpt
        exact ⟨i, List.mem_range.mpr hi, (tableAt_eq_some hi h).mpr hp⟩

/-- `pagedir_destroy` が `palloc_free_page` に渡す page の列。 -/
def DirState.freed (s : DirState) : List Word := (List.range 768).flatMap s.freedAt ++ [s.pd]

theorem DirInv.mem_freed (h : DirInv s) :
    p ∈ s.freed ↔ p ∈ s.mappedPages ∨ p ∈ s.tables ∨ p = s.pd := by
  rw [DirState.freed, List.mem_append, h.freed_perm.mem_iff, List.mem_append, List.mem_singleton,
    or_assoc]

theorem DirInv.mappedPages_usable (h : DirInv s) (hk : k ∈ s.mappedPages) : s.Usable k := by
  obtain ⟨n, hn, hk⟩ := List.mem_filterMap.mp hk
  obtain ⟨r, hr, rfl⟩ := Option.map_eq_some_iff.mp hk
  exact h.mapping_usable (List.mem_range.mp hn) hr

theorem DirInv.isPage_freed (h : DirInv s) (hp : p ∈ s.freed) : IsPage p := by
  rcases h.mem_freed.mp hp with hk | ht | rfl
  · exact (h.mappedPages_usable hk).1
  · exact h.pages p (by simp [DirState.structures, ht])
  · exact h.pages _ (by simp [DirState.structures])

/-- 同じ page を二度渡すのは、同じ page を二箇所に置いたときだけである。 -/
theorem DirInv.nodup_freed (h : DirInv s) : s.freed.Nodup ↔ s.mappedPages.Nodup := by
  have htab := List.nodup_cons.mp (List.nodup_cons.mp h.nodup).2
  have hnd : (s.tables ++ [s.pd]).Nodup := by
    refine List.nodup_append.mpr ⟨htab.2, List.pairwise_singleton .., fun a ha b hb hab => ?_⟩
    exact htab.1 (List.mem_singleton.mp hb ▸ hab ▸ ha)
  rw [DirState.freed, (h.freed_perm.append_right _).nodup_iff, List.append_assoc, List.nodup_append]
  refine ⟨And.left, fun hdist => ⟨hdist, hnd, fun a ha b hb hab => ?_⟩⟩
  refine (h.mappedPages_usable ha).2 (List.mem_cons_of_mem _ ?_)
  rcases List.mem_append.mp (hab ▸ hb) with ht | hpd
  · exact List.mem_cons_of_mem _ (List.mem_append_right _ ht)
  · exact List.mem_cons.mpr (.inl (List.mem_singleton.mp hpd))

/-- **`pagedir_destroy` は、置かれている page と page table と page directory を順に返す。** -/
theorem DirInv.destroy_eq (h : DirInv s) (pool : Word → Option Bool) :
    destroy s.initPd s.pd ⟨s.mem, pool⟩ = s.freed.foldlM Destroying.freePage ⟨s.mem, pool⟩ := by
  rw [destroy, if_neg h.pd_ne_zero, if_neg h.initPd_ne_pd.symm, show pdNo physBase = 768 by rfl,
    h.destroyLoop List.nodup_range (fun i hi => List.mem_range.mp hi) (fun _ => rfl)
      fun _ _ _ _ _ => rfl, DirState.freed, List.foldlM_append]
  simp only [List.foldlM_cons, List.foldlM_nil, bind_pure]
  rfl

/-! ## 操作の列 -/

/-- 一つの操作が部分写像に及ぼす変化。page の番号と、その後の値である。 -/
def DirState.updates (ramPages : Nat) (s : DirState) : DirEvent → List (Nat × Option (Word × Bool))
  | .setPage upage kpage writable alloc =>
    match setPage s.initPd ramPages s.pd upage kpage writable alloc s.mem with
    | .ok (true, _) => [(pageNo upage, some (kpage, writable))]
    | _ => []
  | .clearPage upage => [(pageNo upage, none)]
  | .setDirty _ _ | .setAccessed _ _ => []

/-- **page directory が表すはずの部分写像。** -/
def specMap (tr : List (Nat × Option (Word × Bool))) : Nat → Option (Word × Bool) :=
  tr.foldl (fun m o => update m o.1 o.2) fun _ => none

theorem created_inv {mem : Mem} {initPd pd : Word} {kernelTables : List Word}
    (hinit : InitPageDir mem initPd kernelTables) (hpages : ∀ p ∈ initPd :: kernelTables, IsPage p)
    (hkt : initPd ∉ kernelTables) (hpd : IsPage pd) (hnew : pd ∉ initPd :: kernelTables) :
    DirInv (created mem initPd kernelTables pd) := by
  obtain ⟨hne, hnk⟩ := not_or.mp (mt List.mem_cons.mpr hnew)
  have hdir : ∀ i, mem.copyPage pd initPd pd i = mem initPd i := fun i => if_pos rfl
  have hini : ∀ i, mem.copyPage pd initPd initPd i = mem initPd i := fun i => if_neg (Ne.symm hne)
  constructor
  · intro p hp
    simp only [DirState.structures, created, List.append_nil, List.mem_cons] at hp
    rcases hp with rfl | rfl | hp
    · exact hpages _ (List.mem_cons_self ..)
    · exact hpd
    · exact hpages p (List.mem_cons_of_mem _ hp)
  · simp [created, Ne.symm hne]
  · intro pt hpt
    simp only [created, List.mem_cons, List.not_mem_nil, or_false, not_or]
    constructor <;> rintro rfl
    · exact hkt hpt
    · exact hnk hpt
  · intro i _ _
    exact (hdir i).trans (hini i).symm
  · intro i hlo hhi
    simp only [DirState.Points, created, hdir]
    exact hinit.kernel i hlo hhi
  · intro i hi
    exact .inl ((hdir i).trans (hinit.user i hi))
  · intro pt i hi j _ hp _
    exact absurd ((hdir i).trans (hinit.user i hi)) (pdeGetPt_of_create hp).2.1
  · intro pt hpt
    cases hpt
  · intro pt hpt
    cases hpt

theorem created_mapping {mem : Mem} {initPd pd : Word} {kernelTables : List Word}
    (hinit : InitPageDir mem initPd kernelTables) {n : Nat} (hn : n < 768 * 1024) :
    (created mem initPd kernelTables pd).mapping n = none :=
  DirInv.mapping_of_zero (by
    have huser : n / 1024 < pdNo physBase := by
      show n / 1024 < 768
      omega
    exact (if_pos rfl).trans (hinit.user _ huser))

/-- **許された操作は `ASSERT` に掛からず、部分写像をその通りに変える。** -/
theorem DirInv.exists_step (h : DirInv s) {ramPages : Nat} {e : DirEvent}
    (ha : s.allowed ramPages e) :
    ∃ s', s.step ramPages e = some s' ∧ DirInv s' ∧ ∀ n < 768 * 1024, s'.mapping n =
      (s.updates ramPages e).foldl (fun m o => update m o.1 o.2) s.mapping n := by
  cases e with
  | setPage upage kpage writable alloc =>
    rcases h.setPage_outcome ha with ⟨mem, heq, hinv, hmap⟩ | ⟨heq, hsame⟩
    · refine ⟨_, by rw [DirState.step, heq]; rfl, hinv, fun n hn => ?_⟩
      rw [hmap n hn, DirState.updates, heq]
      exact (update_apply ..).symm
    · refine ⟨s, by rw [DirState.step, heq]; exact congrArg some hsame, h, fun n _ => ?_⟩
      rw [DirState.updates, heq]
      rfl
  | clearPage upage =>
    obtain ⟨mem, heq, hinv, hmap⟩ := h.clearPage_outcome ha.1 ha.2
    refine ⟨_, by rw [DirState.step, heq]; rfl, hinv, fun n hn => ?_⟩
    rw [hmap n hn]
    exact (update_apply ..).symm
  | setDirty vpage dirty =>
    have hP : pteD &&& pteP = 0 := by decide
    obtain ⟨mem, heq, hinv, hmap⟩ := h.setFlag_outcome hP (by decide) (by decide) vpage dirty
    exact ⟨_, by rw [DirState.step, setDirty, heq]; rfl, hinv, hmap⟩
  | setAccessed vpage accessed =>
    have hP : pteA &&& pteP = 0 := by decide
    obtain ⟨mem, heq, hinv, hmap⟩ := h.setFlag_outcome hP (by decide) (by decide) vpage accessed
    exact ⟨_, by rw [DirState.step, setAccessed, heq]; rfl, hinv, hmap⟩

theorem foldl_update_congr {f g : Nat → Option (Word × Bool)} {n : Nat} :
    ∀ (us : List (Nat × Option (Word × Bool))), f n = g n →
      us.foldl (fun m o => update m o.1 o.2) f n =
        us.foldl (fun m o => update m o.1 o.2) g n
  | [], hfg => hfg
  | o :: us, hfg => by
    refine foldl_update_congr us ?_
    simp only [update_apply, hfg]

theorem foldl_update_of_not_mem {n : Nat} {us : List (Nat × Option (Word × Bool))}
    (hout : ∀ r, (n, r) ∉ us) (f : Nat → Option (Word × Bool)) :
    us.foldl (fun m o => update m o.1 o.2) f n = f n := by
  induction us generalizing f with
  | nil => rfl
  | cons o us ih =>
    have hne : n ≠ o.1 := by
      rintro rfl
      exact hout o.2 List.mem_cons_self
    rw [List.foldl_cons, ih fun r hr => hout r (List.mem_cons_of_mem _ hr), update_of_ne hne]

theorem run_dirInv {ramPages : Nat} {s₀ : DirState} {tr : List (Nat × Option (Word × Bool))}
    (h : Run (dirSystem ramPages) (DirState.updates ramPages) s₀ tr s) :
    DirInv s ∧ ∀ n < 768 * 1024, s.mapping n = specMap tr n := by
  induction h with
  | init hi =>
    obtain ⟨mem, initPd, kernelTables, pd, hinit, hpages, hkt, hpd, hnew, rfl⟩ := hi
    exact ⟨created_inv hinit hpages hkt hpd hnew, fun n hn => created_mapping hinit hn⟩
  | step _ hs ih =>
    obtain ⟨hinv, hmap⟩ := ih
    obtain ⟨s₁, hs₁, hinv₁, hmap₁⟩ := hinv.exists_step hs.1
    cases hs.2.symm.trans hs₁
    refine ⟨hinv₁, fun n hn => ?_⟩
    rw [hmap₁ n hn, specMap, List.foldl_append]
    exact foldl_update_congr _ (hmap n hn)

/--
**page directory は、user の page から kernel の page と書き込みの許可への部分写像を表す。**

`pagedir_create` が返した page directory への、許された操作のどの列の後でも次が成り立つ。

* `pagedir_get_page` は、部分写像の page に offset を足した番地を返し、無ければ `NULL` を返す
* kernel の側の entry は `init_page_dir` と同じである
* 次の操作は `ASSERT` に掛からず、その page のほかの写像を変えない
* `pagedir_set_page` が false を返せば、何も変わらない
* `pagedir_destroy` は、置かれた page、作った page table、page directory を順に返し、ほかは返さない
* それが終わるのは、二箇所に置かれた page が無く、返す page がどれも palloc で使われているときに限る。
  終わったとき、返した page は互いに異なり、どれも空きになり、ほかの page は変わらない
-/
theorem pagedir_refines_map {ramPages : Nat} {s₀ : DirState}
    {tr : List (Nat × Option (Word × Bool))}
    (h : Run (dirSystem ramPages) (DirState.updates ramPages) s₀ tr s) :
    (∀ n < 768 * 1024, s.mapping n = specMap tr n) ∧
    (∀ ua, isUserVaddr ua = true →
      getPage s.pd ua s.mem = .ok ((specMap tr (pageNo ua)).map fun r => r.1 + pgOfs ua)) ∧
    (∀ i, 768 ≤ i → i < 1024 → s.mem s.pd i = s.mem s.initPd i) ∧
    (∀ e, s.allowed ramPages e → ∃ s', (dirSystem ramPages).step s e s' ∧
      ∀ n < 768 * 1024, (∀ r, (n, r) ∉ s.updates ramPages e) → s'.mapping n = s.mapping n) ∧
    (∀ upage kpage writable alloc mem, s.allowed ramPages (.setPage upage kpage writable alloc) →
      setPage s.initPd ramPages s.pd upage kpage writable alloc s.mem = .ok (false, mem) →
      mem = s.mem ∧ s.step ramPages (.setPage upage kpage writable alloc) = some s) ∧
    s.freed.Perm (s.mappedPages ++ s.tables ++ [s.pd]) ∧
    ∀ pool,
      destroy s.initPd s.pd ⟨s.mem, pool⟩ = s.freed.foldlM Destroying.freePage ⟨s.mem, pool⟩ ∧
      ((∃ d, destroy s.initPd s.pd ⟨s.mem, pool⟩ = .ok d) ↔
        s.mappedPages.Nodup ∧ ∀ p ∈ s.freed, pool p = some true) ∧
      ∀ d, destroy s.initPd s.pd ⟨s.mem, pool⟩ = .ok d →
        s.freed.Nodup ∧ ∀ p, d.pool p = if p ∈ s.freed then some false else pool p := by
  obtain ⟨hinv, hmap⟩ := run_dirInv h
  refine ⟨hmap, fun ua hu => ?_, hinv.shared, fun e ha => ?_,
    fun upage kpage writable alloc mem ha heq => ?_, hinv.freed_perm.append_right _, fun pool => ?_⟩
  · rw [hinv.getPage_eq hu, hmap _ (pageNo_user hu)]
  · obtain ⟨s', hs', -, hmap'⟩ := hinv.exists_step ha
    exact ⟨s', ⟨ha, hs'⟩, fun n hn hout => (hmap' n hn).trans (foldl_update_of_not_mem hout _)⟩
  · rcases hinv.setPage_outcome ha with ⟨mem', heq', -⟩ | ⟨heq', hsame⟩
    · cases heq.symm.trans heq'
    · cases heq.symm.trans heq'
      exact ⟨rfl, by rw [DirState.step, heq]; exact congrArg some hsame⟩
  · have hps : ∀ p ∈ s.freed, IsPage p := fun p => hinv.isPage_freed
    rw [hinv.destroy_eq pool, ← hinv.nodup_freed]
    refine ⟨rfl, ⟨fun ⟨d, hd⟩ => (freePages_ok hps hd).1, fun ⟨hnd, hall⟩ => ?_⟩, fun d hd => ?_⟩
    · exact exists_freePages hps hnd hall
    · obtain ⟨⟨hnd, -⟩, hpool⟩ := freePages_ok hps hd
      exact ⟨hnd, hpool⟩

/-! ### 二つの page を置く実行 -/

def blank : DirState := created (fun _ _ => 0) 0xc0100000 [] 0xc0101000

/-- `0x08048000` に `0xc0103000` を置いた page directory。`0xc0102000` がその page table である。 -/
def placed : DirState :=
  (blank.grow 0x08048000 (some 0xc0102000)).setMem
    (((blank.mem.fill 0xc0102000 0).write 0xc0101000 0x20 0x102007).write 0xc0102000 0x48 0x103007)

/-- page directory と page table と、二つの page が使われている。 -/
def fourUsed (p : Word) : Option Bool :=
  if p ∈ [0xc0101000, 0xc0102000, 0xc0103000, 0xc0104000] then some true else none

theorem run_placed : Run (dirSystem 300) (DirState.updates 300) blank
    [(0x8048, some (0xc0103000, true))] placed := by
  have hinit : InitPageDir (fun _ _ => 0) 0xc0100000 [] := ⟨fun _ _ => rfl, fun _ _ _ => .inl rfl⟩
  have hstart : Run (dirSystem 300) (DirState.updates 300) blank [] blank :=
    .init ⟨_, _, _, _, hinit, by simp [IsPage]; decide, by decide, ⟨by decide, by decide⟩,
      by decide, rfl⟩
  have ha : blank.allowed 300 (.setPage 0x08048000 0xc0103000 true (some 0xc0102000)) := by
    refine ⟨by decide, by decide, rfl, ⟨⟨by decide, by decide⟩, by decide⟩, by decide, ?_⟩
    rintro pt ⟨⟩
    refine ⟨⟨⟨⟨by decide, by decide⟩, by decide⟩, ?_⟩, by decide⟩
    rintro ⟨pt, hpt, -⟩
    cases hpt
  exact hstart.step ⟨ha, rfl⟩

/-- 異なる page を置いたときの破棄は、終わる。 -/
theorem pagedir_refines_map_two : ∃ tr s, Run (dirSystem 300) (DirState.updates 300) blank tr s ∧
    getPage s.pd 0x08048123 s.mem = .ok (some 0xc0103123) ∧
    getPage s.pd 0x08049123 s.mem = .ok (some 0xc0104123) ∧
    (∃ d, destroy s.initPd s.pd ⟨s.mem, fourUsed⟩ = .ok d) ∧ s.freed.Nodup := by
  have ha : placed.allowed 300 (.setPage 0x08049000 0xc0104000 false none) :=
    ⟨by decide, by decide, rfl, ⟨⟨by decide, by decide⟩, by decide⟩, by decide, nofun⟩
  have hrun : Run (dirSystem 300) (DirState.updates 300) blank _
    (placed.setMem (placed.mem.write 0xc0102000 0x49 0x104005)) := run_placed.step ⟨ha, rfl⟩
  obtain ⟨-, hget, -, -, -, -, hdestroy⟩ := pagedir_refines_map hrun
  have hok : (destroy 0xc0100000 0xc0101000
      ⟨placed.mem.write 0xc0102000 0x49 0x104005, fourUsed⟩).toOption.isSome = true := by
    decide +kernel
  obtain ⟨d, hd⟩ := Option.isSome_iff_exists.mp hok
  have hd := toOption_eq_some.mp hd
  refine ⟨_, _, hrun, ?_, ?_, ⟨d, hd⟩, ((hdestroy fourUsed).2.2 d hd).1⟩
  · rw [hget 0x08048123 (by decide)]
    rfl
  · rw [hget 0x08049123 (by decide)]
    rfl

/-- **一つの page を二箇所に置くと、破棄は二度目に返すところで panic する。** -/
theorem exists_destroy_panic : ∃ tr s, Run (dirSystem 300) (DirState.updates 300) blank tr s ∧
    destroy s.initPd s.pd ⟨s.mem, fourUsed⟩ = .error .bitmapAll := by
  have ha : placed.allowed 300 (.setPage 0x08049000 0xc0103000 false none) :=
    ⟨by decide, by decide, rfl, ⟨⟨by decide, by decide⟩, by decide⟩, by decide, nofun⟩
  have hrun : Run (dirSystem 300) (DirState.updates 300) blank _
    (placed.setMem (placed.mem.write 0xc0102000 0x49 0x103005)) := run_placed.step ⟨ha, rfl⟩
  have hpanic : (match destroy 0xc0100000 0xc0101000
      ⟨placed.mem.write 0xc0102000 0x49 0x103005, fourUsed⟩ with
      | .error .bitmapAll => true
      | _ => false) = true := by decide +kernel
  refine ⟨_, _, hrun, ?_⟩
  split at hpanic
  · next hd => exact hd
  · cases hpanic

end Pintos.Pagedir
