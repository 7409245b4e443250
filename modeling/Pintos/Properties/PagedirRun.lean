import Pintos.Properties.Pagedir

/-!
# page directory への操作
-/

namespace Pintos.Pagedir

open Infra

variable {s s' : DirState} {va pt pde upage kpage : Word} {alloc : Option Word} {writable : Bool}

/-! ## `lookup_page` -/

theorem DirInv.lookup_zero (h : DirInv s) (hz : s.mem s.pd (pdNo va) = 0) :
    lookupPage s.pd va false alloc s.mem = .ok (none, s.mem) := by
  unfold lookupPage
  rw [if_neg h.pd_ne_zero, if_neg (by simp), if_pos hz, if_neg (by simp)]

theorem DirInv.lookup_points (h : DirInv s) (hp : s.Points (pdNo va) pt) (create : Bool)
    (hc : create = true → isUserVaddr va = true) :
    lookupPage s.pd va create alloc s.mem = .ok (some (pt, ptNo va), s.mem) := by
  obtain ⟨hget, hne, -⟩ := pdeGetPt_of_create hp
  have hk : ¬ (create = true ∧ isUserVaddr va = false) := fun hk => by simp [hc hk.1] at hk
  unfold lookupPage
  rw [if_neg h.pd_ne_zero, if_neg hk, if_neg hne, hget]
  rfl

theorem DirInv.lookup_create (h : DirInv s) (hu : isUserVaddr va = true)
    (hz : s.mem s.pd (pdNo va) = 0) (hpde : pdeCreate pt = .ok pde) :
    lookupPage s.pd va true (some pt) s.mem =
      .ok (some (pt, ptNo va), (s.addTable (pdNo va) pt pde).mem) := by
  unfold lookupPage
  rw [if_neg h.pd_ne_zero, if_neg (by simp [hu]), if_pos hz, if_pos rfl]
  dsimp only
  rw [hpde]
  dsimp only [Except.bind]
  rw [(pdeGetPt_of_create hpde).1]
  rfl

/-! ## entry の読み方 -/

theorem decode_of_getPage {pte k : Word} (hp : pte &&& pteP ≠ 0) (hk : pteGetPage pte = .ok k) :
    decode pte = some (k, decide (pte &&& pteW ≠ 0)) := by
  rw [pteGetPage, ptov] at hk
  split at hk
  · rw [decode, if_pos hp, Except.ok.inj hk]
  · cases hk

theorem decode_flag {flag pte : Word} (hP : flag &&& pteP = 0) (hW : flag &&& pteW = 0)
    (hA : flag &&& pteAddr = 0) (value : Bool) :
    decode (if value then pte ||| flag else pte &&& ~~~flag) = decode pte := by
  unfold decode
  cases value with
  | true =>
    simp only [if_true, or_and_of_and_eq_zero hP, or_and_of_and_eq_zero hW,
      or_and_of_and_eq_zero hA]
  | false =>
    simp only [Bool.false_eq_true, if_false, and_not_and hP, and_not_and hW, and_not_and hA]

theorem decode_clear (pte : Word) : decode (pte &&& ~~~pteP) = none := by
  have : pte &&& ~~~pteP &&& pteP = 0 := by
    rw [BitVec.and_assoc, show ~~~pteP &&& pteP = 0 by decide]
    exact BitVec.and_zero
  rw [decode, if_neg (not_not.mpr this)]

theorem decode_eq_none {pte : Word} : decode pte = none ↔ pte &&& pteP = 0 := by
  unfold decode
  split <;> simp_all

/-! ## `pagedir_get_page` -/

theorem pageNo_user (hu : isUserVaddr va = true) : pageNo va < 768 * 1024 := by
  have := isUserVaddr_iff.mp hu
  rw [pdNo_eq] at this
  omega

theorem DirInv.getPage_eq (h : DirInv s) (hu : isUserVaddr va = true) :
    getPage s.pd va s.mem = .ok ((s.mapping (pageNo va)).map fun r => r.1 + pgOfs va) := by
  have hi := isUserVaddr_iff.mp hu
  unfold getPage
  rw [if_neg (by simp [hu])]
  by_cases hz : s.mem s.pd (pdNo va) = 0
  · rw [h.lookup_zero hz, DirInv.mapping_of_zero (by rw [← pdNo_eq]; exact hz)]
    rfl
  · obtain ⟨pt, hpt, hp, ht, -⟩ := h.points (by omega) hz
    rw [h.lookup_points hp false nofun, DirInv.mapping_of_points (by rw [← pdNo_eq]; exact hp),
      ← ptNo_eq]
    dsimp only [Except.bind]
    by_cases hpres : s.mem pt (ptNo va) &&& pteP = 0
    · rw [if_neg (not_not.mpr hpres), decode_eq_none.mpr hpres]
      rfl
    · obtain ⟨k, hk, -⟩ := h.entries pt (ht hi) (ptNo va)
        (by rw [ptNo_eq]; exact Nat.mod_lt _ (by decide)) hpres
      rw [if_pos hpres, hk, decode_of_getPage hpres hk]
      rfl

/-! ## 書き換える操作 -/

theorem ptNo_lt (va : Word) : ptNo va < 1024 := by
  rw [ptNo_eq]
  exact Nat.mod_lt _ (by decide)

theorem pageNo_split (va : Word) : pageNo va = 1024 * pdNo va + ptNo va := by
  rw [pdNo_eq, ptNo_eq]
  omega

theorem DirInv.write_entry (h : DirInv s) (hu : isUserVaddr va = true) (hpt : pt ∈ s.tables)
    (hp : s.Points (pdNo va) pt) {w : Word}
    (hw : w &&& pteP ≠ 0 → ∃ k, pteGetPage w = .ok k ∧ s.Usable k) :
    DirInv (s.setMem (s.mem.write pt (ptNo va) w)) ∧
    ∀ n < 768 * 1024, (s.setMem (s.mem.write pt (ptNo va) w)).mapping n =
      if n = pageNo va then decode w else s.mapping n := by
  refine ⟨h.write (List.mem_append_right _ hpt) fun _ => hw, fun n hn => ?_⟩
  rw [h.mapping_write (isUserVaddr_iff.mp hu) (ptNo_lt va) hpt hp hn, pageNo_split]

theorem setPage_eq {ramPages : Nat} (hup : pgOfs upage = 0) (hu : isUserVaddr upage = true)
    (hk : IsPage kpage) (hram : ((kpage - physBase) >>> 12).toNat < ramPages)
    (hpd : s.pd ≠ s.initPd) :
    setPage s.initPd ramPages s.pd upage kpage writable alloc s.mem =
      (lookupPage s.pd upage true alloc s.mem).bind fun
        | (some (pt, idx), mem) =>
          if mem pt idx &&& pteP ≠ 0 then .error .alreadyMapped
          else (pteCreateUser kpage writable).map fun pte => (true, mem.write pt idx pte)
        | (none, mem) => .ok (false, mem) := by
  unfold setPage
  rw [if_neg (not_not.mpr hup), if_neg (not_not.mpr hk.1), if_neg (by simp [hu]), vtop, if_pos hk.2]
  dsimp only [Except.bind]
  refine (if_neg (Nat.not_le.mpr hram)).trans ((if_neg hpd).trans ?_)
  rfl

/--
**`pagedir_set_page` は、成功すればその page だけを置き、失敗すれば何も変えない。**
-/
theorem DirInv.setPage_outcome (h : DirInv s) {ramPages : Nat}
    (ha : s.allowed ramPages (.setPage upage kpage writable alloc)) :
    (∃ mem, setPage s.initPd ramPages s.pd upage kpage writable alloc s.mem = .ok (true, mem) ∧
      DirInv ((s.grow upage alloc).setMem mem) ∧
      ∀ n < 768 * 1024, ((s.grow upage alloc).setMem mem).mapping n =
        if n = pageNo upage then some (kpage, writable) else s.mapping n) ∨
    setPage s.initPd ramPages s.pd upage kpage writable alloc s.mem = .ok (false, s.mem) ∧
      (s.grow upage alloc).setMem s.mem = s := by
  obtain ⟨hup, hu, hfree, husable, hram, halloc⟩ := ha
  have hi := isUserVaddr_iff.mp hu
  have hnone : s.mapping (pageNo upage) = none := by
    rw [h.getPage_eq hu] at hfree
    simpa using hfree
  obtain ⟨pte, hpte, hget, hpres, hwr⟩ := pteCreateUser_spec husable.1 writable
  have hdec : decode pte = some (kpage, writable) := by
    rw [decode_of_getPage hpres hget]
    cases writable <;> simp_all
  rw [setPage_eq hup hu husable.1 hram h.initPd_ne_pd.symm]
  by_cases hz : s.mem s.pd (pdNo upage) = 0
  · cases halloc' : alloc with
    | none =>
      refine .inr ⟨?_, by simp [DirState.grow, DirState.setMem]⟩
      rw [lookupPage, if_neg h.pd_ne_zero, if_neg (by simp [hu]), if_pos hz, if_pos rfl]
      rfl
    | some pt =>
      obtain ⟨hf, hne⟩ := halloc pt (by rw [halloc']; rfl)
      obtain ⟨pde, hpde⟩ := hf.1.1.pdeCreate
      have hadd := h.addTable hf hi hz hpde
      have hp : (s.addTable (pdNo upage) pt pde).Points (pdNo upage) pt := by
        rw [DirInv.addTable_points (DirInv.not_mem_of_fresh hf).2.1, if_pos rfl]
        exact hpde
      have hempty : (s.addTable (pdNo upage) pt pde).mem pt (ptNo upage) &&& pteP = 0 := by
        rw [DirInv.addTable_mem, if_neg (fun he => (DirInv.not_mem_of_fresh hf).2.1 he.1),
          if_pos rfl]
        decide
      have hgrow : (s.grow upage (some pt)).setMem ((s.addTable (pdNo upage) pt pde).mem.write pt
          (ptNo upage) pte) = (s.addTable (pdNo upage) pt pde).setMem
          ((s.addTable (pdNo upage) pt pde).mem.write pt (ptNo upage) pte) := by
        simp [DirState.grow, DirState.setMem, DirState.addTable, hz]
      obtain ⟨hinv, hmap⟩ := hadd.write_entry hu (by simp) hp (w := pte) fun _ =>
        ⟨kpage, hget, husable.1, fun hmem => by
          rcases DirInv.mem_structures_addTable.mp hmem with hmem | rfl
          · exact husable.2 hmem
          · exact hne rfl⟩
      refine .inl ⟨_, by
        rw [h.lookup_create hu hz hpde]
        dsimp only [Except.bind]
        rw [if_neg (not_not.mpr hempty), hpte]
        rfl, ?_⟩
      rw [hgrow]
      refine ⟨hinv, fun n hn => ?_⟩
      rw [hmap n hn, hdec, h.mapping_addTable hf hz hpde hn]
  · obtain ⟨pt, -, hp, ht, -⟩ := h.points (by omega) hz
    have hempty : s.mem pt (ptNo upage) &&& pteP = 0 := by
      rw [DirInv.mapping_of_points (by rw [← pdNo_eq]; exact hp),
      ← ptNo_eq] at hnone
      exact decode_eq_none.mp hnone
    have hgrow : s.grow upage alloc = s := by
      rw [DirState.grow, if_neg hz]
    obtain ⟨hinv, hmap⟩ := h.write_entry hu (ht hi) hp (w := pte) fun _ => ⟨kpage, hget, husable⟩
    refine .inl ⟨_, by
      rw [h.lookup_points hp true fun _ => hu]
      dsimp only [Except.bind]
      rw [if_neg (not_not.mpr hempty), hpte]
      rfl, ?_⟩
    rw [hgrow]
    refine ⟨hinv, fun n hn => ?_⟩
    rw [hmap n hn, hdec]

theorem DirInv.clearPage_outcome (h : DirInv s) (hup : pgOfs upage = 0)
    (hu : isUserVaddr upage = true) :
    ∃ mem, clearPage s.pd upage s.mem = .ok mem ∧ DirInv (s.setMem mem) ∧
      ∀ n < 768 * 1024, (s.setMem mem).mapping n =
        if n = pageNo upage then none else s.mapping n := by
  have hi := isUserVaddr_iff.mp hu
  have hsame : s.mapping (pageNo upage) = none → ∀ n < 768 * 1024, (s.setMem s.mem).mapping n =
      if n = pageNo upage then none else s.mapping n := by
    intro hnone n _
    split
    · next hn =>
      rw [hn]
      exact hnone
    · rfl
  unfold clearPage
  rw [if_neg (not_not.mpr hup), if_neg (by simp [hu])]
  by_cases hz : s.mem s.pd (pdNo upage) = 0
  · refine ⟨s.mem, by rw [h.lookup_zero hz]; rfl, h, hsame ?_⟩
    exact DirInv.mapping_of_zero (by rw [← pdNo_eq]; exact hz)
  · obtain ⟨pt, -, hp, ht, -⟩ := h.points (by omega) hz
    rw [h.lookup_points hp false nofun]
    dsimp only [Except.map]
    by_cases hpres : s.mem pt (ptNo upage) &&& pteP = 0
    · refine ⟨s.mem, by rw [if_neg (not_not.mpr hpres)], h, hsame ?_⟩
      rw [DirInv.mapping_of_points (by rw [← pdNo_eq]; exact hp),
      ← ptNo_eq]
      exact decode_eq_none.mpr hpres
    · rw [if_pos hpres]
      obtain ⟨hinv, hmap⟩ := h.write_entry hu (ht hi) hp
        (w := s.mem pt (ptNo upage) &&& ~~~pteP) fun hne =>
          absurd (decode_eq_none.mp (decode_clear _)) hne
      refine ⟨_, rfl, hinv, fun n hn => ?_⟩
      rw [hmap n hn, decode_clear]

/-- **`pagedir_set_dirty` と `pagedir_set_accessed` は写像を変えない。** -/
theorem DirInv.setFlag_outcome (h : DirInv s) {flag : Word} (hP : flag &&& pteP = 0)
    (hW : flag &&& pteW = 0) (hA : flag &&& pteAddr = 0) (va : Word) (value : Bool) :
    ∃ mem, setFlag flag s.pd va value s.mem = .ok mem ∧ DirInv (s.setMem mem) ∧
      ∀ n < 768 * 1024, (s.setMem mem).mapping n = s.mapping n := by
  unfold setFlag
  by_cases hz : s.mem s.pd (pdNo va) = 0
  · exact ⟨s.mem, by rw [h.lookup_zero hz]; rfl, h, fun _ _ => rfl⟩
  · have hlt : pdNo va < 1024 := by
      have := pageNo_lt va
      rw [pdNo_eq]
      omega
    obtain ⟨pt, hpt, hp, ht, hk⟩ := h.points hlt hz
    rw [h.lookup_points hp false nofun]
    refine ⟨_, rfl, ?_⟩
    dsimp only
    generalize hw : (if value then s.mem pt (ptNo va) ||| flag else s.mem pt (ptNo va) &&& ~~~flag) = w
    have hdec : decode w = decode (s.mem pt (ptNo va)) := by
      rw [← hw]
      exact decode_flag hP hW hA value
    by_cases hu : pdNo va < 768
    · have hold : s.mapping (pageNo va) = decode (s.mem pt (ptNo va)) := by
        rw [DirInv.mapping_of_points (by rw [← pdNo_eq]; exact hp),
      ← ptNo_eq]
      obtain ⟨hinv, hmap⟩ := h.write_entry (isUserVaddr_iff.mpr hu) (ht hu) hp (w := w) fun hpres => by
        have hpres' : s.mem pt (ptNo va) &&& pteP ≠ 0 := by
          rw [ne_eq, ← decode_eq_none, hdec, decode_eq_none] at hpres
          exact hpres
        obtain ⟨k, hk, husable⟩ := h.entries pt (ht hu) _ (ptNo_lt va) hpres'
        refine ⟨k, ?_, husable⟩
        have haddr : w &&& pteAddr = s.mem pt (ptNo va) &&& pteAddr := by
          rw [← hw]
          cases value
          · exact and_not_and hA
          · exact or_and_of_and_eq_zero hA
        rw [pteGetPage, haddr]
        exact hk
      refine ⟨hinv, fun n hn => ?_⟩
      rw [hmap n hn]
      split
      · next he => rw [he, hold, hdec]
      · rfl
    · have hk' := hk (by omega)
      exact ⟨h.write hpt fun htab => absurd (List.mem_cons_of_mem _ (List.mem_cons_of_mem _ htab))
        (h.apart pt hk'), fun n hn => h.mapping_write_kernel hk' hn⟩

end Pintos.Pagedir
