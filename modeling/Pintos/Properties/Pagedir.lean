import Mathlib.Tactic.Tauto
import Pintos.Infra.Except
import Pintos.Userprog.Pagedir

/-!
# page directory は部分写像である
-/

namespace Pintos.Pagedir

open Infra

/-! ## 番地の分解 -/

def pageNo (va : Word) : Nat := va.toNat / 4096

theorem pdNo_eq (va : Word) : pdNo va = pageNo va / 1024 := by
  rw [pdNo, pageNo, BitVec.toNat_ushiftRight, Nat.shiftRight_eq_div_pow, Nat.div_div_eq_div_mul]

theorem ptNo_eq (va : Word) : ptNo va = pageNo va % 1024 := by
  rw [ptNo, pageNo, BitVec.toNat_ushiftRight, BitVec.toNat_and, Nat.shiftRight_and_distrib,
    Nat.shiftRight_eq_div_pow]
  exact Nat.and_two_pow_sub_one_eq_mod _ 10

theorem pageNo_lt (va : Word) : pageNo va < 1024 * 1024 := by
  have := va.isLt
  unfold pageNo
  omega

theorem isUserVaddr_iff {va : Word} : isUserVaddr va = true ↔ pdNo va < 768 := by
  rw [pdNo_eq, pageNo, isUserVaddr, decide_eq_true_eq, BitVec.lt_def]
  show va.toNat < 0xc0000000 ↔ _
  omega

theorem pgOfs_toNat (va : Word) : (pgOfs va).toNat = va.toNat % 4096 := by
  rw [pgOfs, BitVec.toNat_and]
  exact Nat.and_two_pow_sub_one_eq_mod _ 12

/-! ## 語の中の bit -/

section

variable {w m f pt k pa pde pte : Word} {writable : Bool}

theorem or_and_of_and_eq_zero (h : f &&& m = 0) : (w ||| f) &&& m = w &&& m := by
  rw [BitVec.and_or_distrib_right, h]
  exact BitVec.or_zero

theorem and_not_and (h : f &&& m = 0) : w &&& ~~~f &&& m = w &&& m := by
  have hsplit : (f ||| ~~~f) &&& m = ~~~f &&& m := by
    rw [BitVec.and_or_distrib_right, h]
    exact BitVec.zero_or
  rw [BitVec.and_assoc, ← hsplit, BitVec.or_not_self, BitVec.allOnes_and]

theorem and_pteAddr_of_pgOfs (h : pgOfs w = 0) : w &&& pteAddr = w := by
  have hall : pteAddr ||| 0xfff = BitVec.allOnes 32 := by decide
  have hw : w &&& (0xfff : Word) = 0 := h
  have hsplit : w &&& (pteAddr ||| 0xfff) = w &&& pteAddr := by
    rw [BitVec.and_or_distrib_left, hw]
    exact BitVec.or_zero
  rw [← hsplit, hall, BitVec.and_allOnes]

theorem and_eq_zero_of_pgOfs (h : pgOfs w = 0) (hm : 0xfff &&& m = m) : w &&& m = 0 := by
  have hw : w &&& (0xfff : Word) = 0 := h
  rw [← hm, ← BitVec.and_assoc, hw]
  exact BitVec.zero_and

theorem IsPage.ne_zero (h : IsPage k) : k ≠ 0 := by
  rintro rfl
  exact absurd h.2 (by decide)

theorem IsPage.vtop (h : IsPage k) : ∃ pa, vtop k = .ok pa ∧ pgOfs pa = 0 ∧ ptov pa = .ok k := by
  obtain ⟨hofs, hge⟩ := h
  have hge' : 0xc0000000 ≤ k.toNat := hge
  have hlt := k.isLt
  have hpa : (k - physBase).toNat = k.toNat - 0xc0000000 := BitVec.toNat_sub_of_le hge
  refine ⟨k - physBase, if_pos hge, ?_, ?_⟩
  · have hk : k.toNat % 4096 = 0 := by
      rw [← pgOfs_toNat, hofs]
      rfl
    apply BitVec.eq_of_toNat_eq
    rw [pgOfs_toNat, hpa]
    show _ = 0
    omega
  · have hlow : k - physBase < physBase := by
      rw [BitVec.lt_def, hpa]
      show _ < 0xc0000000
      omega
    rw [ptov, if_pos hlow, BitVec.sub_add_cancel]

theorem IsPage.pdeCreate (h : IsPage pt) : ∃ pde, pdeCreate pt = .ok pde := by
  obtain ⟨pa, hpa, -⟩ := h.vtop
  exact ⟨_, by rw [Pagedir.pdeCreate, if_neg (not_not.mpr h.1), hpa]; rfl⟩

theorem isPage_of_pdeCreate (h : pdeCreate pt = .ok pde) : IsPage pt := by
  obtain ⟨hofs, h⟩ := guard_eq_ok.mp h
  obtain ⟨pa, hpa, -⟩ := map_eq_ok.mp h
  refine ⟨not_not.mp hofs, ?_⟩
  unfold Pagedir.vtop at hpa
  split at hpa
  · next hge => exact hge
  · cases hpa

/-- **page directory の entry は、page table の番地を保つ。** -/
theorem pdeGetPt_of_create (hpde : pdeCreate pt = .ok pde) :
    pdeGetPt pde = .ok pt ∧ pde ≠ 0 ∧ pde &&& pteP ≠ 0 := by
  have h := isPage_of_pdeCreate hpde
  obtain ⟨pa, hpa, hofs, hptov⟩ := h.vtop
  rw [pdeCreate, if_neg (not_not.mpr h.1), hpa] at hpde
  cases hpde
  have hp : (pa ||| pteU ||| pteP ||| pteW) &&& pteP = pteP := by
    rw [or_and_of_and_eq_zero (by decide), BitVec.and_or_distrib_right,
      or_and_of_and_eq_zero (by decide), and_eq_zero_of_pgOfs hofs (by decide)]
    rfl
  have haddr : (pa ||| pteU ||| pteP ||| pteW) &&& pteAddr = pa := by
    rw [or_and_of_and_eq_zero (by decide), or_and_of_and_eq_zero (by decide),
      or_and_of_and_eq_zero (by decide), and_pteAddr_of_pgOfs hofs]
  refine ⟨?_, fun hzero => ?_, ?_⟩
  · rw [pdeGetPt, hp, if_neg (by decide), haddr, hptov]
  · rw [show pa ||| pteU ||| pteP ||| pteW = 0 from hzero] at hp
    exact absurd hp (by decide)
  · rw [hp]
    decide

theorem pdeCreate_inj {pt' : Word} (h : pdeCreate pt = .ok pde) (h' : pdeCreate pt' = .ok pde) :
    pt = pt' :=
  Except.ok.inj ((pdeGetPt_of_create h).1.symm.trans (pdeGetPt_of_create h').1)

/-- **page table の entry は、page の番地と書き込みの許可を保つ。** -/
theorem pteCreateUser_spec (h : IsPage k) (writable : Bool) :
    ∃ pte, pteCreateUser k writable = .ok pte ∧ pteGetPage pte = .ok k ∧ pte &&& pteP ≠ 0 ∧
      (pte &&& pteW ≠ 0 ↔ writable = true) := by
  obtain ⟨pa, hpa, hofs, hptov⟩ := h.vtop
  refine ⟨pa ||| pteP ||| (if writable then pteW else 0) ||| pteU, ?_, ?_, ?_, ?_⟩
  · rw [pteCreateUser, pteCreateKernel, if_neg (not_not.mpr h.1), hpa]
    rfl
  · rw [pteGetPage, or_and_of_and_eq_zero (by decide),
      or_and_of_and_eq_zero (by cases writable <;> decide), or_and_of_and_eq_zero (by decide),
      and_pteAddr_of_pgOfs hofs, hptov]
  · rw [or_and_of_and_eq_zero (by decide), or_and_of_and_eq_zero (by cases writable <;> decide),
      BitVec.and_or_distrib_right, and_eq_zero_of_pgOfs hofs (by decide)]
    decide
  · rw [or_and_of_and_eq_zero (by decide), BitVec.and_or_distrib_right,
      or_and_of_and_eq_zero (by decide), and_eq_zero_of_pgOfs hofs (by decide)]
    cases writable <;> decide

end

/-! ## 写像 -/

/-- page table の entry が表す page と、書き込みの許可。 -/
def decode (pte : Word) : Option (Word × Bool) :=
  if pte &&& pteP ≠ 0 then some ((pte &&& pteAddr) + physBase, decide (pte &&& pteW ≠ 0)) else none

/-- 番号 `n` の page が表す page と、書き込みの許可。 -/
def DirState.mapping (s : DirState) (n : Nat) : Option (Word × Bool) :=
  if s.mem s.pd (n / 1024) = 0 then none
  else decode (s.mem ((s.mem s.pd (n / 1024) &&& pteAddr) + physBase) (n % 1024))

/-- `pd` の `i` 番目の entry は page table `pt` を指す。 -/
def DirState.Points (s : DirState) (i : Nat) (pt : Word) : Prop := pdeCreate pt = .ok (s.mem s.pd i)

/-- **page directory の不変量。** -/
structure DirInv (s : DirState) : Prop where
  pages : ∀ p ∈ s.structures, IsPage p
  nodup : (s.initPd :: s.pd :: s.tables).Nodup
  apart : ∀ pt ∈ s.kernelTables, pt ∉ s.initPd :: s.pd :: s.tables
  shared : ∀ i, 768 ≤ i → i < 1024 → s.mem s.pd i = s.mem s.initPd i
  kernel : ∀ i, 768 ≤ i → i < 1024 → s.mem s.pd i = 0 ∨ ∃ pt ∈ s.kernelTables, s.Points i pt
  user : ∀ i < 768, s.mem s.pd i = 0 ∨ ∃ pt ∈ s.tables, s.Points i pt
  inj : ∀ pt, ∀ i < 768, ∀ j < 768, s.Points i pt → s.Points j pt → i = j
  used : ∀ pt ∈ s.tables, ∃ i < 768, s.Points i pt
  /-- 置かれている page は、page directory でも page table でもない。 -/
  entries : ∀ pt ∈ s.tables, ∀ j < 1024, s.mem pt j &&& pteP ≠ 0 →
    ∃ k, pteGetPage (s.mem pt j) = .ok k ∧ s.Usable k

namespace DirInv

variable {s : DirState} {i j n : Nat} {pt w va : Word}

theorem pd_ne_zero (h : DirInv s) : s.pd ≠ 0 :=
  (h.pages s.pd (by simp [DirState.structures])).ne_zero

theorem mem_tables_of_points (h : DirInv s) (hi : i < 768) (hp : s.Points i pt) : pt ∈ s.tables := by
  obtain ⟨pt', hpt', hp'⟩ := (h.user i hi).resolve_left (pdeGetPt_of_create hp).2.1
  exact pdeCreate_inj hp hp' ▸ hpt'

theorem initPd_ne_pd (h : DirInv s) : s.initPd ≠ s.pd :=
  fun he => (List.nodup_cons.mp h.nodup).1 (he ▸ List.mem_cons_self ..)

theorem table_ne (h : DirInv s) (hpt : pt ∈ s.kernelTables ++ s.tables) :
    pt ≠ s.pd ∧ pt ≠ s.initPd := by
  have hnd := h.nodup
  have hap := h.apart pt
  rcases List.mem_append.mp hpt with hk | ht
  · have := hap hk
    simp_all
  · constructor <;> rintro rfl <;> simp_all

theorem points (h : DirInv s) (hi : i < 1024) (hne : s.mem s.pd i ≠ 0) :
    ∃ pt ∈ s.kernelTables ++ s.tables, s.Points i pt ∧ (i < 768 → pt ∈ s.tables) ∧
      (768 ≤ i → pt ∈ s.kernelTables) := by
  by_cases hu : i < 768
  · obtain ⟨pt, hpt, hp⟩ := (h.user i hu).resolve_left hne
    exact ⟨pt, List.mem_append_right _ hpt, hp, fun _ => hpt, fun hge => absurd hu (by omega)⟩
  · obtain ⟨pt, hpt, hp⟩ := (h.kernel i (by omega) hi).resolve_left hne
    exact ⟨pt, List.mem_append_left _ hpt, hp, fun hlt => absurd hlt hu, fun _ => hpt⟩

theorem mapping_of_zero (hz : s.mem s.pd (n / 1024) = 0) : s.mapping n = none := if_pos hz

theorem mapping_of_points (hp : s.Points (n / 1024) pt) :
    s.mapping n = decode (s.mem pt (n % 1024)) := by
  obtain ⟨hget, hne, hpres⟩ := pdeGetPt_of_create hp
  rw [pdeGetPt, if_neg hpres, ptov] at hget
  split at hget
  · rw [DirState.mapping, if_neg hne, Except.ok.inj hget]
  · cases hget

theorem points_write (h : DirInv s) (hpt : pt ∈ s.kernelTables ++ s.tables) :
    (∀ i, s.mem.write pt j w s.pd i = s.mem s.pd i) ∧
      ∀ i pt', (s.setMem (s.mem.write pt j w)).Points i pt' ↔ s.Points i pt' := by
  have hpd : ∀ i, s.mem.write pt j w s.pd i = s.mem s.pd i := fun i =>
    if_neg fun he => (h.table_ne hpt).1 he.1.symm
  refine ⟨hpd, fun i pt' => ?_⟩
  rw [DirState.Points, DirState.setMem_mem, DirState.setMem_pd, hpd, DirState.Points]

theorem mapping_write (h : DirInv s) (hi : i < 768) (hj : j < 1024) (hpt : pt ∈ s.tables)
    (hp : s.Points i pt) (hn : n < 768 * 1024) :
    (s.setMem (s.mem.write pt j w)).mapping n =
      if n = 1024 * i + j then decode w else s.mapping n := by
  obtain ⟨hpd, hpoints⟩ := h.points_write (j := j) (w := w) (List.mem_append_right _ hpt)
  by_cases hz : s.mem s.pd (n / 1024) = 0
  · have hne : n ≠ 1024 * i + j := by
      rintro rfl
      rw [show (1024 * i + j) / 1024 = i by omega] at hz
      exact (pdeGetPt_of_create hp).2.1 hz
    rw [if_neg hne, mapping_of_zero ((hpd _).trans hz), mapping_of_zero hz]
  · obtain ⟨pt', hpt', hp', ht, -⟩ := h.points (by omega : n / 1024 < 1024) hz
    rw [mapping_of_points ((hpoints _ _).mpr hp'), mapping_of_points hp', DirState.setMem_mem,
      Mem.write_apply]
    by_cases heq : pt' = pt ∧ n % 1024 = j
    · obtain ⟨rfl, hnj⟩ := heq
      have hin := h.inj pt' i hi (n / 1024) (by omega) hp hp'
      rw [if_pos ⟨rfl, hnj⟩, if_pos (by omega)]
    · have hne : n ≠ 1024 * i + j := by
        rintro rfl
        refine heq ⟨?_, by omega⟩
        rw [show (1024 * i + j) / 1024 = i by omega] at hp'
        exact pdeCreate_inj hp' hp
      rw [if_neg heq, if_neg hne]

theorem write (h : DirInv s) (hpt : pt ∈ s.kernelTables ++ s.tables)
    (hw : pt ∈ s.tables → w &&& pteP ≠ 0 → ∃ k, pteGetPage w = .ok k ∧ s.Usable k) :
    DirInv (s.setMem (s.mem.write pt j w)) := by
  obtain ⟨hdir, hpoints⟩ := h.points_write (j := j) (w := w) hpt
  have hini : ∀ i, s.mem.write pt j w s.initPd i = s.mem s.initPd i := fun i =>
    if_neg fun he => (h.table_ne hpt).2 he.1.symm
  constructor
  · exact h.pages
  · exact h.nodup
  · exact h.apart
  · intro i hlo hhi
    exact (hdir i).trans ((h.shared i hlo hhi).trans (hini i).symm)
  · intro i hlo hhi
    simp only [hpoints, DirState.setMem_mem, DirState.setMem_pd, hdir]
    exact h.kernel i hlo hhi
  · intro i hi
    simp only [hpoints, DirState.setMem_mem, DirState.setMem_pd, hdir]
    exact h.user i hi
  · intro pt' i hi j hj
    rw [hpoints, hpoints]
    exact h.inj pt' i hi j hj
  · simp only [hpoints]
    exact h.used
  · intro pt' hpt' j' hj' hpres
    rw [DirState.setMem_mem, Mem.write_apply] at hpres ⊢
    by_cases heq : pt' = pt ∧ j' = j
    · rw [if_pos heq] at hpres ⊢
      exact hw (heq.1 ▸ hpt') hpres
    · rw [if_neg heq] at hpres ⊢
      exact h.entries pt' hpt' j' hj' hpres

theorem mapping_write_kernel (h : DirInv s) (hpt : pt ∈ s.kernelTables) (hn : n < 768 * 1024) :
    (s.setMem (s.mem.write pt j w)).mapping n = s.mapping n := by
  have hap := h.apart pt hpt
  obtain ⟨hpd, hpoints⟩ := h.points_write (j := j) (w := w) (List.mem_append_left _ hpt)
  by_cases hz : s.mem s.pd (n / 1024) = 0
  · rw [mapping_of_zero ((hpd _).trans hz), mapping_of_zero hz]
  · obtain ⟨pt', hpt', hp', ht, -⟩ := h.points (by omega : n / 1024 < 1024) hz
    rw [mapping_of_points ((hpoints _ _).mpr hp'), mapping_of_points hp', DirState.setMem_mem,
      Mem.write_apply, if_neg]
    rintro ⟨rfl, -⟩
    exact hap (List.mem_cons_of_mem _ (List.mem_cons_of_mem _ (ht (by omega))))

end DirInv

/-- 空の page table を一つ足す。 -/
@[simps] def DirState.addTable (i : Nat) (pt pde : Word) (s : DirState) : DirState :=
  { s with mem := (s.mem.fill pt 0).write s.pd i pde, tables := s.tables ++ [pt] }

namespace DirInv

variable {s : DirState} {i j n : Nat} {pt w va pde : Word}

theorem addTable_mem (i : Nat) (pt pde p : Word) (j : Nat) (s : DirState) :
    (s.addTable i pt pde).mem p j =
      if p = s.pd ∧ j = i then pde else if p = pt then 0 else s.mem p j := by
  rw [DirState.addTable_mem, Mem.write_apply, Mem.fill_apply]

theorem addTable_points (hpd : pt ≠ s.pd) (i : Nat) (pde : Word) (j : Nat) (pt' : Word) :
    (s.addTable i pt pde).Points j pt' ↔
      if j = i then pdeCreate pt' = .ok pde else s.Points j pt' := by
  rw [DirState.Points, DirState.addTable_pd, addTable_mem]
  by_cases hj : j = i
  · rw [if_pos ⟨rfl, hj⟩, if_pos hj]
  · rw [if_neg (fun he => hj he.2), if_neg (Ne.symm hpd), if_neg hj, DirState.Points]

theorem not_mem_of_fresh (hf : s.Fresh pt) :
    pt ≠ s.initPd ∧ pt ≠ s.pd ∧ pt ∉ s.kernelTables ∧ pt ∉ s.tables := by
  simpa [DirState.structures] using hf.1.2

theorem mem_structures_addTable {p : Word} :
    p ∈ (s.addTable i pt pde).structures ↔ p ∈ s.structures ∨ p = pt := by
  simp [DirState.structures, or_assoc]

theorem addTable (h : DirInv s) (hf : s.Fresh pt) (hi : i < 768) (hz : s.mem s.pd i = 0)
    (hpde : pdeCreate pt = .ok pde) : DirInv (s.addTable i pt pde) := by
  obtain ⟨hinit, hpd, hkt, htab⟩ := not_mem_of_fresh hf
  have hpoints := addTable_points hpd i pde
  have hold : ∀ j, j ≠ i → (s.addTable i pt pde).mem s.pd j = s.mem s.pd j := by
    intro j hj
    rw [addTable_mem, if_neg (fun he => hj he.2), if_neg (Ne.symm hpd)]
  have hnew : ∀ j < 768, ¬ s.Points j pt := fun j hj hp => htab (h.mem_tables_of_points hj hp)
  constructor
  · intro p hp
    rcases mem_structures_addTable.mp hp with hp | rfl
    · exact h.pages p hp
    · exact hf.1.1
  · show ((s.initPd :: s.pd :: s.tables) ++ [pt]).Nodup
    refine List.nodup_append.mpr ⟨h.nodup, List.pairwise_singleton .., ?_⟩
    intro a ha b hb hab
    rw [List.mem_singleton.mp hb] at hab
    subst hab
    simp_all
  · intro pt' hpt'
    have hap := h.apart pt' hpt'
    simp only [DirState.addTable_initPd, DirState.addTable_pd, DirState.addTable_tables,
      List.mem_cons, List.mem_append, List.not_mem_nil, or_false, not_or] at hap ⊢
    refine ⟨hap.1, hap.2.1, hap.2.2, ?_⟩
    rintro rfl
    exact hkt hpt'
  · intro j hlo hhi
    rw [DirState.addTable_pd, hold j (by omega), DirState.addTable_initPd, addTable_mem,
      if_neg (fun he => h.initPd_ne_pd he.1), if_neg (Ne.symm hinit), h.shared j hlo hhi]
  · intro j hlo hhi
    rw [DirState.addTable_pd, hold j (by omega)]
    simp only [hpoints, if_neg (show j ≠ i by omega), DirState.addTable_kernelTables]
    exact h.kernel j hlo hhi
  · intro j hj
    by_cases hji : j = i
    · refine .inr ⟨pt, by simp, ?_⟩
      rw [hpoints, if_pos hji]
      exact hpde
    · rw [DirState.addTable_pd, hold j hji]
      refine (h.user j hj).imp_right fun ⟨pt', hpt', hp⟩ => ⟨pt', by simp [hpt'], ?_⟩
      rw [hpoints, if_neg hji]
      exact hp
  · intro pt' a ha b hb hpa hpb
    rw [hpoints] at hpa hpb
    -- `pt` を指す entry は、足したものだけである
    by_cases hai : a = i <;> by_cases hbi : b = i
    · rw [hai, hbi]
    · rw [if_pos hai] at hpa
      rw [if_neg hbi, pdeCreate_inj hpa hpde] at hpb
      exact absurd hpb (hnew b hb)
    · rw [if_pos hbi] at hpb
      rw [if_neg hai, pdeCreate_inj hpb hpde] at hpa
      exact absurd hpa (hnew a ha)
    · rw [if_neg hai] at hpa
      rw [if_neg hbi] at hpb
      exact h.inj pt' a ha b hb hpa hpb
  · intro pt' hpt'
    rcases List.mem_append.mp hpt' with hold' | hnew'
    · obtain ⟨j, hj, hp⟩ := h.used pt' hold'
      have hji : j ≠ i := by
        rintro rfl
        exact (pdeGetPt_of_create hp).2.1 hz
      refine ⟨j, hj, ?_⟩
      rw [hpoints, if_neg hji]
      exact hp
    · refine ⟨i, hi, ?_⟩
      rw [hpoints, if_pos rfl, List.mem_singleton.mp hnew']
      exact hpde
  · intro pt' hpt' j hj hpres
    have hne : pt' ≠ s.pd := by
      rintro rfl
      have := h.nodup
      rcases List.mem_append.mp hpt' with hpt' | hpt' <;> simp_all
    rw [addTable_mem, if_neg (fun he => hne he.1)] at hpres ⊢
    by_cases hptt : pt' = pt
    · rw [if_pos hptt] at hpres
      exact absurd (by decide) hpres
    · rw [if_neg hptt] at hpres ⊢
      have hold' : pt' ∈ s.tables := by
        simpa [hptt] using hpt'
      obtain ⟨k, hk, hpage, hout⟩ := h.entries pt' hold' j hj hpres
      refine ⟨k, hk, hpage, fun hmem => ?_⟩
      rcases mem_structures_addTable.mp hmem with hmem | rfl
      · exact hout hmem
      · exact hf.2 ⟨pt', hold', j, hj, hpres, hk⟩

theorem mapping_addTable (h : DirInv s) (hf : s.Fresh pt) (hz : s.mem s.pd i = 0)
    (hpde : pdeCreate pt = .ok pde) (hn : n < 768 * 1024) :
    (s.addTable i pt pde).mapping n = s.mapping n := by
  obtain ⟨-, hpd, -, htab⟩ := not_mem_of_fresh hf
  have hpoints := addTable_points hpd i pde
  by_cases hni : n / 1024 = i
  · have hp : (s.addTable i pt pde).Points (n / 1024) pt := by
      rw [hpoints, if_pos hni]
      exact hpde
    rw [← hni] at hz
    rw [mapping_of_points hp, addTable_mem, if_neg (fun he => hpd he.1), if_pos rfl,
      mapping_of_zero hz]
    decide
  · by_cases hz' : s.mem s.pd (n / 1024) = 0
    · have hz'' : (s.addTable i pt pde).mem (s.addTable i pt pde).pd (n / 1024) = 0 := by
        rw [DirState.addTable_pd, addTable_mem, if_neg (fun he => hni he.2), if_neg (Ne.symm hpd)]
        exact hz'
      rw [mapping_of_zero hz'', mapping_of_zero hz']
    · obtain ⟨pt', hpt', hp', ht, -⟩ := h.points (by omega : n / 1024 < 1024) hz'
      have hp'' : (s.addTable i pt pde).Points (n / 1024) pt' := by
        rw [hpoints, if_neg hni]
        exact hp'
      have hne : pt' ≠ pt := by
        rintro rfl
        exact htab (ht (by omega))
      rw [mapping_of_points hp'', mapping_of_points hp', addTable_mem,
        if_neg (fun he => (h.table_ne hpt').1 he.1), if_neg hne]

end DirInv

end Pintos.Pagedir
