import Pintos.Infra.Except
import Pintos.Threads.Palloc

/-!
# page allocator の不変量

* 二つの pool と二つの `used_map` は、1 MB から RAM の終わりまでの中に、重ならずに並ぶ
* `used_map` の bit は、page が使われていることを表す

kernel pool の終わりと user pool の始まりの間には user pool の `used_map` があるので、
続いた page がどれも使われていれば、それらは同じ pool にある。
`palloc_free_multiple` が先頭の番地だけから pool を決めてよいのはこのためである。
-/

namespace Pintos

open Infra

variable {ram limit : Nat} {p p' : Palloc} {u u' : PallocUse}
  {user : Bool} {n start : Nat} {mem : Nat → UInt8}

/-! ## 配置 -/

def Pool.pages (pool : Pool) : Finset Nat :=
  Finset.Ico (pgNo pool.base) (pgNo pool.base + pool.usedMap.bitCnt)

def Pool.mapPages (pool : Pool) : Finset Nat := Finset.Ico (pgNo pool.mapAddr) (pgNo pool.base)

/-- 1 MB から RAM の終わりまでの page。 -/
def freeMemory (ram : Nat) : Finset Nat := Finset.Ico (pgNo physBase + 256) (pgNo physBase + ram)

/-- pool と `used_map` の並び方。 -/
structure Layout (ram : Nat) (p : Palloc) : Prop where
  aligned : ∀ user, pgOfs (p.pool user).base = 0
  mapAligned : ∀ user, pgOfs (p.pool user).mapAddr = 0
  fits : ∀ user, (p.pool user).mapAddr + Bitmap.bufSize (p.pool user).usedMap.bitCnt ≤
    (p.pool user).base
  first : pgNo physBase + 256 ≤ pgNo p.kernelPool.mapAddr
  between : pgNo p.kernelPool.base + p.kernelPool.usedMap.bitCnt ≤ pgNo p.userPool.mapAddr
  last : pgNo p.userPool.base + p.userPool.usedMap.bitCnt ≤ pgNo physBase + ram
  direct : ram < 2 ^ 18

theorem initPool_eq_ok {garbage : Nat → Bool} {pool : Pool}
    (h : initPool user (pgSize * start) n garbage = .ok pool) (hn : start + n < 2 ^ 20) :
    pool.mapAddr = pgSize * start ∧ pool.mapAddr + Bitmap.bufSize pool.usedMap.bitCnt ≤ pool.base ∧
    ∃ m, pool.base = pgSize * (start + m) ∧ m + pool.usedMap.bitCnt = n := by
  unfold initPool at h
  obtain ⟨hle, h⟩ := guard_eq_ok.mp h
  generalize hm : divRoundUp (Bitmap.bufSize n) pgSize = m at h hle
  split at h
  · cases h
  · next map hmap =>
    obtain ⟨hbuf, hmap⟩ := Option.ite_none_right_eq_some.mp hmap
    cases hmap
    cases h
    have hbase : (pgSize * start + m * pgSize) % 2 ^ 32 = pgSize * start + m * pgSize := by
      simp only [pgSize]
      omega
    refine ⟨rfl, ?_, m, ?_, ?_⟩
    · rw [hbase]
      exact Nat.add_le_add_left hbuf _
    · rw [hbase, Nat.mul_add, Nat.mul_comm m]
    · exact Nat.add_sub_cancel' (Nat.not_lt.mp hle)

theorem pagesBetween_eq {a b : Nat} (hab : a ≤ b) (hb : b < a + 2 ^ 18) :
    pagesBetween (pgSize * a) (pgSize * b) = b - a := by
  have hdiff : ((pgSize * b : Nat) : Int) - (pgSize * a : Nat) = pgSize * (b - a : Nat) := by
    simp only [pgSize]
    omega
  rw [pagesBetween, hdiff, int32, Int.bmod_eq_of_le (by simp only [pgSize]; omega)
    (by simp only [pgSize]; omega), Int.mul_tdiv_cancel_left _ (by decide)]
  omega

variable {garbage : Bool → Nat → Bool}

/-- **pool と `used_map` は、1 MB から RAM の終わりまでに並ぶ。** -/
theorem pallocInit_layout (hlo : 256 ≤ ram) (hhi : ram < 2 ^ 18)
    (h : pallocInit ram limit garbage mem = .ok p) : Layout ram p := by
  have hstart : ptov (1024 * 1024) = some (pgSize * (pgNo physBase + 256)) := by decide
  have hend : ptov (ram * pgSize % 2 ^ 32) = some (pgSize * (pgNo physBase + ram)) := by
    have hlt : ram * pgSize % 2 ^ 32 < physBase := by
      simp only [pgSize, physBase]
      omega
    rw [ptov, if_pos hlt]
    simp only [pgSize, physBase, pgNo, Option.some.injEq]
    omega
  have hfree : pagesBetween (pgSize * (pgNo physBase + 256)) (pgSize * (pgNo physBase + ram)) =
      ram - 256 := by
    rw [pagesBetween_eq (Nat.add_le_add_left hlo _) (by omega), Nat.add_sub_add_left]
  unfold pallocInit at h
  rw [hstart, hend] at h
  simp only [hfree] at h
  generalize hup : (if (ram - 256) / 2 > limit then limit else (ram - 256) / 2) = userPages at h
  have hup : userPages ≤ ram - 256 := by
    split at hup <;> omega
  obtain ⟨kernelPool, hk, h⟩ := bind_eq_ok.mp h
  obtain ⟨userPool, hu, rfl⟩ := map_eq_ok.mp h
  have hbase : (pgSize * (pgNo physBase + 256) + (ram - 256 - userPages) * pgSize) % 2 ^ 32 =
      pgSize * (pgNo physBase + 256 + (ram - 256 - userPages)) := by
    simp only [pgSize, physBase, pgNo]
    omega
  rw [hbase] at hu
  have hphys : pgNo physBase = 0xc0000 := by decide
  obtain ⟨hkmap, hkfits, mk, hkbase, hkcnt⟩ := initPool_eq_ok hk (by omega)
  obtain ⟨humap, hufits, mu, hubase, hucnt⟩ := initPool_eq_ok hu (by omega)
  constructor
  · intro user
    cases user <;> simp [hkbase, hubase]
  · intro user
    cases user <;> simp [hkmap, humap]
  · exact Bool.forall_bool.mpr ⟨hkfits, hufits⟩
  · simp [hkmap]
  · simp only [hkbase, humap, pgNo_pgSize_mul]
    omega
  · simp only [hubase, pgNo_pgSize_mul]
    omega
  · exact hhi

theorem pallocInit_bits (h : pallocInit ram limit garbage mem = .ok p) (user : Bool) :
    ∀ i < (p.pool user).usedMap.bitCnt, (p.pool user).usedMap.bits i = false := by
  have hpool : ∀ {user base n garbage pool}, initPool user base n garbage = .ok pool →
      ∀ i < pool.usedMap.bitCnt, pool.usedMap.bits i = false := by
    intro user base n garbage pool h i hi
    obtain ⟨-, h⟩ := guard_eq_ok.mp h
    split at h
    · cases h
    · next map hmap =>
      obtain ⟨-, hmap⟩ := Option.ite_none_right_eq_some.mp hmap
      cases hmap
      cases h
      exact if_pos hi
  unfold pallocInit at h
  split at h
  · obtain ⟨kernelPool, hk, h⟩ := bind_eq_ok.mp h
    obtain ⟨userPool, hu, rfl⟩ := map_eq_ok.mp h
    cases user
    · exact hpool hk
    · exact hpool hu
  · cases h

namespace Layout

variable (h : Layout ram p)
include h

theorem map_lt (user : Bool) : pgNo (p.pool user).mapAddr < pgNo (p.pool user).base := by
  have hfits := h.fits user
  have hbase := pgSize_mul_pgNo (h.aligned user)
  have hmap := pgSize_mul_pgNo (h.mapAligned user)
  rw [← hbase, ← hmap] at hfits
  refine Nat.lt_of_mul_lt_mul_left (Nat.lt_of_lt_of_le (Nat.lt_add_of_pos_right ?_) hfits)
  exact Nat.add_pos_left (by decide) _

theorem bounds (user : Bool) : pgNo physBase + 256 < pgNo (p.pool user).base ∧
    pgNo (p.pool user).base + (p.pool user).usedMap.bitCnt ≤ pgNo physBase + ram := by
  have hk := h.map_lt false
  have hu := h.map_lt true
  have h₁ := h.first
  have h₂ := h.between
  have h₃ := h.last
  cases user <;> simp only [Palloc.pool_false, Palloc.pool_true] at * <;> omega

theorem addr {idx : Nat} (hi : idx < (p.pool user).usedMap.bitCnt) :
    ((p.pool user).base + pgSize * idx) % 2 ^ 32 = pgSize * (pgNo (p.pool user).base + idx) ∧
    pgSize * (pgNo (p.pool user).base + idx) ≠ 0 := by
  obtain ⟨hlo, hhi⟩ := h.bounds user
  have hram := h.direct
  have hphys : pgNo physBase = 0xc0000 := by decide
  have hbase := pgSize_mul_pgNo (h.aligned user)
  simp only [pgSize] at *
  omega

theorem congr (hs : ∀ user, (p'.pool user).base = (p.pool user).base ∧
      (p'.pool user).mapAddr = (p.pool user).mapAddr ∧
      (p'.pool user).usedMap.bitCnt = (p.pool user).usedMap.bitCnt) : Layout ram p' := by
  obtain ⟨hkb, hkm, hkc⟩ := hs false
  obtain ⟨hub, hum, huc⟩ := hs true
  constructor
  · intro user
    rw [(hs user).1]
    exact h.aligned user
  · intro user
    rw [(hs user).2.1]
    exact h.mapAligned user
  · intro user
    obtain ⟨hb, hm, hc⟩ := hs user
    rw [hb, hm, hc]
    exact h.fits user
  · exact h.first.trans_eq (congrArg pgNo hkm).symm
  · have := h.between
    simp only [Palloc.pool_false, Palloc.pool_true] at hkb hkc hum
    rwa [hkb, hkc, hum]
  · have := h.last
    simp only [Palloc.pool_true] at hub huc
    rwa [hub, huc]
  · exact h.direct

theorem setMap {m : Bitmap} (hm : m.bitCnt = (p.pool user).usedMap.bitCnt) (mem : Nat → UInt8) :
    Layout ram { p.setMap user m with mem := mem } := by
  refine h.congr fun user' => ?_
  rw [Palloc.pool_mem]
  by_cases hne : user' = user
  · rw [hne, Palloc.pool_setMap_self]
    exact ⟨rfl, rfl, hm⟩
  · rw [Bool.eq_not.mpr hne, Palloc.pool_setMap_not]
    exact ⟨rfl, rfl, rfl⟩

theorem disjoint :
    [p.kernelPool.mapPages, p.kernelPool.pages, p.userPool.mapPages, p.userPool.pages].Pairwise
      Disjoint := by
  have hk := h.map_lt false
  have hu := h.map_lt true
  have h₂ := h.between
  simp only [Palloc.pool_false, Palloc.pool_true] at hk hu
  simp only [List.pairwise_cons, List.mem_cons, List.not_mem_nil, or_false, forall_eq_or_imp,
    forall_eq, Pool.mapPages, Pool.pages, Finset.disjoint_left, Finset.mem_Ico, List.Pairwise.nil]
  refine ⟨⟨?_, ?_, ?_⟩, ⟨?_, ?_⟩, ?_, by simp⟩ <;> intros <;> omega

theorem subset : ∀ r ∈ [p.kernelPool.mapPages, p.kernelPool.pages,
    p.userPool.mapPages, p.userPool.pages], r ⊆ freeMemory ram := by
  have hk := h.map_lt false
  have hu := h.map_lt true
  have h₁ := h.first
  have h₂ := h.between
  have h₃ := h.last
  simp only [Palloc.pool_false, Palloc.pool_true] at hk hu
  simp only [List.mem_cons, List.not_mem_nil, or_false, forall_eq_or_imp, forall_eq,
    Pool.mapPages, Pool.pages, freeMemory, Finset.subset_iff, Finset.mem_Ico]
  refine ⟨?_, ?_, ?_, ?_⟩ <;> intros <;> omega

theorem pages_unique {user' : Bool} (hn : n ∈ (p.pool user).pages) (hn' : n ∈
    (p.pool user').pages) : user = user' := by
  have hu := h.map_lt true
  have h₂ := h.between
  simp only [Pool.pages, Finset.mem_Ico] at hn hn'
  cases user <;> cases user' <;>
    simp only [Palloc.pool_false, Palloc.pool_true, reduceCtorEq] at * <;> omega

/-- **続いた page がどれも pool にあれば、同じ pool にある。** -/
theorem same_pool {cnt : Nat}
    (hall : ∀ n ∈ Finset.Ico start (start + cnt), ∃ user, n ∈ (p.pool user).pages)
    (hs : start ∈ (p.pool user).pages) : Finset.Ico start (start + cnt) ⊆ (p.pool user).pages := by
  have hu := h.map_lt true
  have h₂ := h.between
  intro n hn
  have hgap : pgNo p.userPool.mapAddr ∉ Finset.Ico start (start + cnt) := by
    intro hmem
    obtain ⟨user', hin⟩ := hall _ hmem
    simp only [Pool.pages, Finset.mem_Ico] at hin
    cases user' <;> simp only [Palloc.pool_false, Palloc.pool_true] at * <;> omega
  obtain ⟨user', hin⟩ := hall n hn
  simp only [Pool.pages, Finset.mem_Ico] at *
  cases user <;> cases user' <;>
    simp only [Palloc.pool_false, Palloc.pool_true] at * <;> omega

end Layout

/-! ## 一つの呼び出し -/

variable {flags : PallocFlags} {cnt idx pages : Nat}

theorem getMultiple_none (hcnt : cnt ≠ 0)
    (hscan : (p.pool flags.user).usedMap.scan 0 cnt false = none) :
    p.getMultiple flags cnt = if flags.assert then .error .outOfPages else .ok (0, p) := by
  simp [Palloc.getMultiple, hcnt, Bitmap.scanAndFlip_eq, hscan]

theorem getMultiple_some (h : Layout ram p) (hcnt : cnt ≠ 0)
    (hscan : (p.pool flags.user).usedMap.scan 0 cnt false = some idx) :
    ∃ mem, p.getMultiple flags cnt = .ok (pgSize * (pgNo (p.pool flags.user).base + idx),
      { p.setMap flags.user ((p.pool flags.user).usedMap.fill idx cnt true) with mem := mem }) := by
  obtain ⟨-, hle, -⟩ := Bitmap.scan_eq_some hscan
  obtain ⟨haddr, hne⟩ := h.addr (by omega : idx < (p.pool flags.user).usedMap.bitCnt)
  simp only [Palloc.getMultiple, hcnt, if_false, Bitmap.scanAndFlip_eq, hscan, Option.map_some,
    haddr, ne_eq, hne, not_false_eq_true, if_true, Bool.not_false]
  split
  · exact ⟨_, rfl⟩
  · exact ⟨_, rfl⟩

theorem freeMultiple_eq (h : Layout ram p) (hcnt : cnt ≠ 0)
    (hofs : pgOfs pages = 0) (hin : pageRange pages cnt ⊆ (p.pool user).pages)
    (hall : ∀ i, pgNo pages ≤ i → i < pgNo pages + cnt →
      (p.pool user).usedMap.bits (i - pgNo (p.pool user).base) = true) :
    ∃ mem, p.freeMultiple pages cnt = .ok { p.setMap user ((p.pool user).usedMap.fill
      (pgNo pages - pgNo (p.pool user).base) cnt false) with mem := mem } := by
  have hbounds := h.bounds user
  have hstart : pgNo pages ∈ (p.pool user).pages :=
    hin (Finset.mem_Ico.mpr ⟨Nat.le_refl _, by omega⟩)
  have hlast : pgNo pages + cnt - 1 ∈ (p.pool user).pages :=
    hin (Finset.mem_Ico.mpr ⟨by omega, by omega⟩)
  simp only [Pool.pages, Finset.mem_Ico] at hlast
  have hne : pages ≠ 0 := by
    rintro rfl
    have hzero : pgNo 0 = 0 := rfl
    simp only [Pool.pages, Finset.mem_Ico, hzero] at hstart
    omega
  have howner : p.owningPool pages = some user := by
    have hfrom : ∀ user', Palloc.pageFromPool (p.pool user') pages = true ↔ user' = user := by
      intro user'
      constructor
      · intro hf
        refine h.pages_unique (Finset.mem_Ico.mpr ?_) hstart
        simpa [Palloc.pageFromPool] using hf
      · rintro rfl
        simpa [Palloc.pageFromPool, Pool.pages] using hstart
    have hk := hfrom false
    have hu := hfrom true
    unfold Palloc.owningPool
    cases user <;> simp_all
  have hbits : (p.pool user).usedMap.all (pgNo pages - pgNo (p.pool user).base) cnt = some true := by
    simp only [Pool.pages, Finset.mem_Ico] at hstart
    refine Bitmap.all_eq_some_true.mpr ⟨by omega, fun i hi hlt => ?_⟩
    have := hall (i + pgNo (p.pool user).base) (by omega) (by omega)
    rwa [Nat.add_sub_cancel] at this
  have hle := (Bitmap.all_eq_some_true.mp hbits).1
  simp only [Palloc.freeMultiple, hofs, ne_eq, not_true_eq_false, if_false, hne, hcnt, or_self,
    howner, hbits, if_true, Bitmap.setMultiple_of_le hle]
  cases user <;> exact ⟨_, rfl⟩

/-! ## 不変量 -/

/-- **`used_map` の bit は、page が使われていることを表す。** -/
structure PallocInv (ram : Nat) (u : PallocUse) : Prop where
  layout : Layout ram u.palloc
  agree : ∀ user, ∀ i < (u.palloc.pool user).usedMap.bitCnt,
    (u.palloc.pool user).usedMap.bits i = true ↔ u.Owned (pgNo (u.palloc.pool user).base + i)
  inside : ∀ a ∈ u.live, a.pages ⊆ (u.palloc.pool a.user).pages
  disjoint : u.live.Pairwise fun a b => Disjoint a.pages b.pages

namespace PallocInv

theorem exists_pool (h : PallocInv ram u) (hn : u.Owned n) :
    ∃ user, n ∈ (u.palloc.pool user).pages := by
  obtain ⟨a, ha, hn⟩ := hn
  exact ⟨a.user, h.inside a ha hn⟩

theorem bit (h : PallocInv ram u) (hn : n ∈ (u.palloc.pool user).pages) :
    (u.palloc.pool user).usedMap.bits (n - pgNo (u.palloc.pool user).base) = true ↔ u.Owned n := by
  obtain ⟨hlo, hhi⟩ := Finset.mem_Ico.mp hn
  rw [h.agree user _ (by omega), Nat.add_sub_cancel' hlo]

end PallocInv

/-- 選ばれた pool の、使われていない続いた page。 -/
def PallocUse.FreeRun (user : Bool) (cnt start : Nat) (u : PallocUse) : Prop :=
  Finset.Ico start (start + cnt) ⊆ (u.palloc.pool user).pages ∧
  ∀ n ∈ Finset.Ico start (start + cnt), ¬ u.Owned n

namespace PallocInv

theorem freeRun_iff (h : PallocInv ram u) (hcnt : cnt ≠ 0) :
    u.FreeRun user cnt start ↔ ∃ idx, start = pgNo (u.palloc.pool user).base + idx ∧
      idx + cnt ≤ (u.palloc.pool user).usedMap.bitCnt ∧
      ∀ i, idx ≤ i → i < idx + cnt → (u.palloc.pool user).usedMap.bits i = false := by
  unfold PallocUse.FreeRun
  constructor
  · rintro ⟨hin, hfree⟩
    have hfirst := Finset.mem_Ico.mp (hin (Finset.mem_Ico.mpr ⟨Nat.le_refl start, by omega⟩))
    have hlast := Finset.mem_Ico.mp
      (hin (Finset.mem_Ico.mpr ⟨(by omega : start ≤ start + cnt - 1), by omega⟩))
    refine ⟨start - pgNo (u.palloc.pool user).base, by omega, by omega, fun i hi hlt => ?_⟩
    rw [← Bool.not_eq_true, h.agree user i (by omega)]
    exact hfree _ (Finset.mem_Ico.mpr ⟨by omega, by omega⟩)
  · rintro ⟨idx, rfl, hle, hfree⟩
    have hin : Finset.Ico (pgNo (u.palloc.pool user).base + idx)
        (pgNo (u.palloc.pool user).base + idx + cnt) ⊆ (u.palloc.pool user).pages := by
      exact Finset.Ico_subset_Ico (by omega) (by omega)
    refine ⟨hin, fun n hn => ?_⟩
    rw [← h.bit (hin hn), Bool.not_eq_true]
    have := Finset.mem_Ico.mp hn
    exact hfree _ (by omega) (by omega)

theorem isLeast_of_scan (h : PallocInv ram u) (hcnt : cnt ≠ 0)
    (hscan : (u.palloc.pool user).usedMap.scan 0 cnt false = some idx) :
    IsLeast {start | u.FreeRun user cnt start} (pgNo (u.palloc.pool user).base + idx) := by
  obtain ⟨-, hle, hbits⟩ := Bitmap.scan_eq_some hscan
  refine ⟨(h.freeRun_iff hcnt).mpr ⟨idx, rfl, hle, hbits⟩, fun start hstart => ?_⟩
  obtain ⟨j, rfl, -, hj⟩ := (h.freeRun_iff hcnt).mp hstart
  by_contra hlt
  obtain ⟨i, hi, hlt, hne⟩ := Bitmap.scan_minimal hscan (Nat.zero_le j) (by omega)
  exact hne (hj i hi hlt)

theorem not_freeRun_of_scan (h : PallocInv ram u) (hcnt : cnt ≠ 0)
    (hscan : (u.palloc.pool user).usedMap.scan 0 cnt false = none) (start : Nat) :
    ¬ u.FreeRun user cnt start := by
  intro hstart
  obtain ⟨j, -, hle, hj⟩ := (h.freeRun_iff hcnt).mp hstart
  obtain ⟨i, hi, hlt, hne⟩ := Bitmap.scan_eq_none hscan (Nat.zero_le j) hle
  exact hne (hj i hi hlt)

end PallocInv

/-! ## 保存 -/

theorem pages_setMap {user' : Bool} {m : Bitmap} (hm : m.bitCnt = (p.pool user).usedMap.bitCnt) :
    ({ p.setMap user m with mem := mem }.pool user').pages = (p.pool user').pages := by
  by_cases hne : user' = user
  · rw [hne, Palloc.pool_mem, Palloc.pool_setMap_self, Pool.pages, Pool.pages, hm]
  · rw [Palloc.pool_mem, Bool.eq_not.mpr hne, Palloc.pool_setMap_not]

theorem owned_acquire (hne : pages ≠ 0) :
    (u.acquire flags pages cnt p).Owned n ↔ u.Owned n ∨ n ∈ pageRange pages cnt := by
  simp [PallocUse.Owned, PallocUse.acquire, hne, or_and_right, exists_or]

theorem owned_release : (u.release pages cnt p).Owned n ↔ u.Owned n ∧ n ∉ pageRange pages cnt := by
  simp only [PallocUse.Owned, PallocUse.release, List.mem_map]
  constructor
  · rintro ⟨_, ⟨a, ha, rfl⟩, hn⟩
    obtain ⟨hn, hout⟩ := Finset.mem_sdiff.mp hn
    exact ⟨⟨a, ha, hn⟩, hout⟩
  · rintro ⟨⟨a, ha, hn⟩, hout⟩
    exact ⟨_, ⟨a, ha, rfl⟩, Finset.mem_sdiff.mpr ⟨hn, hout⟩⟩

namespace PallocInv

theorem agree_fill (h : PallocInv ram u) (value : Bool)
    (hstart : pgNo (u.palloc.pool user).base ≤ start)
    (hin : Finset.Ico start (start + cnt) ⊆ (u.palloc.pool user).pages)
    (hp : u'.palloc = { u.palloc.setMap user ((u.palloc.pool user).usedMap.fill
      (start - pgNo (u.palloc.pool user).base) cnt value) with mem := mem })
    (howned : ∀ n, u'.Owned n ↔
      if n ∈ Finset.Ico start (start + cnt) then value = true else u.Owned n) :
    ∀ user', ∀ i < (u'.palloc.pool user').usedMap.bitCnt,
      (u'.palloc.pool user').usedMap.bits i = true ↔
        u'.Owned (pgNo (u'.palloc.pool user').base + i) := by
  intro user' i hi
  by_cases hne : user' = user
  · subst hne
    obtain ⟨hmap, hbase⟩ : (u'.palloc.pool user').usedMap = (u.palloc.pool user').usedMap.fill
          (start - pgNo (u.palloc.pool user').base) cnt value ∧
        (u'.palloc.pool user').base = (u.palloc.pool user').base := by
      rw [hp, Palloc.pool_mem, Palloc.pool_setMap_self]
      exact ⟨rfl, rfl⟩
    rw [hmap, Bitmap.fill_bitCnt] at hi
    rw [hmap, hbase, howned, Bitmap.fill]
    by_cases hrange : pgNo (u.palloc.pool user').base + i ∈ Finset.Ico start (start + cnt)
    · rw [if_pos hrange]
      rw [Finset.mem_Ico] at hrange
      exact Bool.eq_iff_iff.mp (if_pos (by omega))
    · rw [if_neg hrange]
      rw [Finset.mem_Ico] at hrange
      refine Iff.trans (Bool.eq_iff_iff.mp (if_neg (by omega))) ?_
      exact h.agree user' i hi
  · have hpool : u'.palloc.pool user' = u.palloc.pool user' := by
      rw [hp, Palloc.pool_mem, Bool.eq_not.mpr hne, Palloc.pool_setMap_not]
    rw [hpool] at hi ⊢
    rw [howned, if_neg, h.agree _ i hi]
    intro hmem
    have hother : pgNo (u.palloc.pool user').base + i ∈ (u.palloc.pool user').pages :=
      Finset.mem_Ico.mpr ⟨by omega, by omega⟩
    exact hne (h.layout.pages_unique hother (hin hmem))

theorem get (h : PallocInv ram u) (hget : u.palloc.getMultiple flags cnt = .ok (pages, p)) :
    PallocInv ram (u.acquire flags pages cnt p) := by
  by_cases hcnt : cnt = 0
  · subst hcnt
    cases hget
    exact ⟨h.layout, h.agree, h.inside, h.disjoint⟩
  cases hscan : (u.palloc.pool flags.user).usedMap.scan 0 cnt false with
  | none =>
    rw [getMultiple_none hcnt hscan] at hget
    split at hget
    · cases hget
    · cases hget
      exact ⟨h.layout, h.agree, h.inside, h.disjoint⟩
  | some idx =>
    obtain ⟨-, hle, -⟩ := Bitmap.scan_eq_some hscan
    obtain ⟨-, hne⟩ := h.layout.addr (by omega : idx < (u.palloc.pool flags.user).usedMap.bitCnt)
    obtain ⟨hin, hfree⟩ := (h.isLeast_of_scan hcnt hscan).1
    obtain ⟨mem, heq⟩ := getMultiple_some h.layout hcnt hscan
    rw [heq] at hget
    cases hget
    have hrange : pageRange (pgSize * (pgNo (u.palloc.pool flags.user).base + idx)) cnt =
        Finset.Ico (pgNo (u.palloc.pool flags.user).base + idx)
          (pgNo (u.palloc.pool flags.user).base + idx + cnt) := by
      rw [pageRange, pgNo_pgSize_mul]
    refine ⟨h.layout.setMap (by simp) mem, ?_, ?_, ?_⟩
    · refine h.agree_fill true (Nat.le_add_right _ idx) hin
        (by rw [Nat.add_sub_cancel_left]; rfl) fun n => ?_
      rw [owned_acquire hne, hrange]
      split <;> simp [*]
    · intro a ha
      refine Finset.Subset.trans ?_ (pages_setMap (Bitmap.fill_bitCnt ..)).ge
      rw [PallocUse.acquire, if_neg hne, List.mem_append, List.mem_singleton] at ha
      rcases ha with ha | rfl
      · exact h.inside a ha
      · rw [hrange]
        exact hin
    · rw [PallocUse.acquire, if_neg hne, hrange]
      refine List.pairwise_append.mpr ⟨h.disjoint, List.pairwise_singleton .., ?_⟩
      intro a ha b hb
      rw [List.mem_singleton.mp hb]
      exact Finset.disjoint_right.mpr fun n hn hmem => hfree n hn ⟨a, ha, hmem⟩

theorem free (h : PallocInv ram u) (hal : u.Allocated pages cnt) :
    ∃ p, u.palloc.freeMultiple pages cnt = .ok p ∧ PallocInv ram (u.release pages cnt p) := by
  obtain ⟨hofs, howned⟩ := hal
  by_cases hcnt : cnt = 0
  · subst hcnt
    refine ⟨u.palloc, by simp [Palloc.freeMultiple, hofs], ?_⟩
    have hsame : u.release pages 0 u.palloc = u := by
      simp [PallocUse.release, pageRange]
    rw [hsame]
    exact h
  obtain ⟨user, hstart⟩ := h.exists_pool (howned (pgNo pages) (Finset.mem_Ico.mpr ⟨by omega, by omega⟩))
  have hin : pageRange pages cnt ⊆ (u.palloc.pool user).pages :=
    h.layout.same_pool (fun n hn => h.exists_pool (howned n hn)) hstart
  obtain ⟨mem, heq⟩ := freeMultiple_eq h.layout hcnt hofs hin fun i hi hlt =>
    have hi := Finset.mem_Ico.mpr ⟨hi, hlt⟩
    (h.bit (hin hi)).mpr (howned i hi)
  refine ⟨_, heq, h.layout.setMap (by simp) mem, ?_, ?_, ?_⟩
  · refine h.agree_fill false (Finset.mem_Ico.mp hstart).1 hin rfl fun n => ?_
    rw [owned_release]
    show u.Owned n ∧ n ∉ pageRange pages cnt ↔ if n ∈ pageRange pages cnt then _ else _
    split <;> simp [*]
  · intro a ha
    obtain ⟨b, hb, rfl⟩ := List.mem_map.mp ha
    refine Finset.Subset.trans ?_ (pages_setMap (Bitmap.fill_bitCnt ..)).ge
    exact Finset.sdiff_subset.trans (h.inside b hb)
  · refine List.pairwise_map.mpr (h.disjoint.imp fun hab => ?_)
    exact hab.mono Finset.sdiff_subset Finset.sdiff_subset

end PallocInv

theorem initRamPages_bounds (ax : UInt16) : 256 ≤ initRamPages ax ∧ initRamPages ax < 2 ^ 18 := by
  unfold initRamPages
  omega

theorem reachable_pallocInv {ax : UInt16} (h : Reachable (pallocSystem (initRamPages ax) limit) u) :
    PallocInv (initRamPages ax) u := by
  refine Reachable.invariant (I := PallocInv (initRamPages ax)) ?_ ?_ h
  · rintro u ⟨garbage, mem, hinit, hlive⟩
    obtain ⟨hlo, hhi⟩ := initRamPages_bounds ax
    refine ⟨pallocInit_layout hlo hhi hinit, ?_, by simp [hlive], by simp [hlive]⟩
    intro user i hi
    rw [pallocInit_bits hinit user i hi]
    simp [PallocUse.Owned, hlive]
  · intro u e u' hi hs
    cases e with
    | get flags cnt =>
      replace hs : u.step (.get flags cnt) = some u' := hs
      unfold PallocUse.step at hs
      dsimp only at hs
      split at hs
      · next pages p hget =>
        cases hs
        exact hi.get hget
      · cases hs
    | free pages cnt =>
      obtain ⟨hal, hs⟩ := Option.ite_none_right_eq_some.mp hs
      obtain ⟨p, hp, hinv⟩ := hi.free hal
      rw [hp] at hs
      cases hs
      exact hinv

/--
**page allocator の正しさ。** どの RAM の大きさと `user_page_limit` でも、
`palloc_init` が成功した後のどの呼び出しの列の後でも次が成り立つ。

* 二つの pool と二つの `used_map` は、1 MB から RAM の終わりまでの中で重ならない
* 渡した page は、互いに重ならず、選ばれた pool の中にある
* `palloc_get_multiple` は、選ばれた pool に続いて空いた page があれば、最も前のものを返す。
  無ければ（`PAL_ASSERT` なら panic し、そうでなければ）`NULL` を返す
* `palloc_free_multiple` は、使われている page を渡されれば検査に掛からず、その page はまた空く
-/
theorem palloc_pools {ax : UInt16} (h : Reachable (pallocSystem (initRamPages ax) limit) u) :
    ([u.palloc.kernelPool.mapPages, u.palloc.kernelPool.pages, u.palloc.userPool.mapPages,
      u.palloc.userPool.pages].Pairwise Disjoint ∧
      ∀ r ∈ [u.palloc.kernelPool.mapPages, u.palloc.kernelPool.pages,
        u.palloc.userPool.mapPages, u.palloc.userPool.pages], r ⊆ freeMemory (initRamPages ax)) ∧
    (∀ user, (u.palloc.pool user).mapAddr +
      Bitmap.bufSize (u.palloc.pool user).usedMap.bitCnt ≤ (u.palloc.pool user).base) ∧
    (u.live.Pairwise fun a b => Disjoint a.pages b.pages) ∧
    (∀ a ∈ u.live, a.pages ⊆ (u.palloc.pool a.user).pages) ∧
    (∀ flags cnt, match u.palloc.getMultiple flags cnt with
      | .ok (pages, _) =>
        if pages = 0 then cnt = 0 ∨ flags.assert = false ∧ ∀ start, ¬ u.FreeRun flags.user cnt start
        else cnt ≠ 0 ∧ pgOfs pages = 0 ∧
          IsLeast {start | u.FreeRun flags.user cnt start} (pgNo pages)
      | .error e => e = .outOfPages ∧ flags.assert = true ∧ cnt ≠ 0 ∧
        ∀ start, ¬ u.FreeRun flags.user cnt start) ∧
    ∀ pages cnt, u.Allocated pages cnt →
      ∃ u', (pallocSystem (initRamPages ax) limit).step u (.free pages cnt) u' ∧
        ∀ n, u'.Owned n ↔ u.Owned n ∧ n ∉ pageRange pages cnt := by
  have hi := reachable_pallocInv h
  refine ⟨⟨hi.layout.disjoint, hi.layout.subset⟩, hi.layout.fits, hi.disjoint, hi.inside, ?_, ?_⟩
  · intro flags cnt
    by_cases hcnt : cnt = 0
    · subst hcnt
      simp [Palloc.getMultiple]
    · cases hscan : (u.palloc.pool flags.user).usedMap.scan 0 cnt false with
      | none =>
        have hno := hi.not_freeRun_of_scan hcnt hscan
        rw [getMultiple_none hcnt hscan]
        cases hass : flags.assert <;> simp [hno, hcnt]
      | some idx =>
        have hleast := hi.isLeast_of_scan hcnt hscan
        obtain ⟨-, hle, -⟩ := Bitmap.scan_eq_some hscan
        obtain ⟨-, hne⟩ :=
          hi.layout.addr (by omega : idx < (u.palloc.pool flags.user).usedMap.bitCnt)
        obtain ⟨mem, heq⟩ := getMultiple_some hi.layout hcnt hscan
        rw [heq]
        dsimp only
        rw [if_neg hne, pgNo_pgSize_mul]
        exact ⟨hcnt, pgOfs_pgSize_mul _, hleast⟩
  · intro pages cnt hal
    obtain ⟨p, hp, -⟩ := hi.free hal
    refine ⟨u.release pages cnt p, ?_, fun n => owned_release⟩
    show PallocUse.step _ _ = _
    rw [PallocUse.step, if_pos hal, hp]

/-- RAM が 264 page の machine で、二つの pool から page を取り、そのうち一つを返す。 -/
theorem palloc_pools_both : ∃ u u', Reachable (pallocSystem (initRamPages 32) 10) u ∧
    u.live = [⟨true, {0xc0106}⟩, ⟨false, {0xc0101}⟩, ⟨true, {0xc0107}⟩] ∧
    (u.live.Pairwise fun a b => Disjoint a.pages b.pages) ∧
    (pallocSystem (initRamPages 32) 10).step u (.free (pgSize * 0xc0101) 1) u' ∧
    ¬ u'.Owned 0xc0101 := by
  have hrun : (pallocInit (initRamPages 32) 10 (fun _ _ => false) fun _ => 0).toOption.any (fun p =>
      (runEvents PallocUse.step ⟨p, []⟩ [.get ⟨false, false, true⟩ 2, .get ⟨false, false, false⟩ 1,
        .get ⟨false, false, true⟩ 1, .free (pgSize * 0xc0105) 1]).any fun u =>
        u.live = [⟨true, {0xc0106}⟩, ⟨false, {0xc0101}⟩, ⟨true, {0xc0107}⟩] ∧
          u.Allocated (pgSize * 0xc0101) 1) = true := by decide +kernel
  obtain ⟨p, hp, hrun⟩ := (Option.any_eq_true _ _).mp hrun
  have hstart : Reachable (pallocSystem (initRamPages 32) 10) ⟨p, []⟩ :=
    .init ⟨_, _, toOption_eq_some.mp hp, rfl⟩
  obtain ⟨u, hu, hlive⟩ := exists_reachable_of_run _ hstart hrun
  obtain ⟨hlist, hal⟩ := of_decide_eq_true hlive
  obtain ⟨-, -, hdisjoint, -, -, hfree⟩ := palloc_pools hu
  obtain ⟨u', hstep, howned⟩ := hfree _ _ hal
  exact ⟨u, u', hu, hlist, hdisjoint, hstep, fun ho => ((howned _).mp ho).2 (by decide)⟩

end Pintos
