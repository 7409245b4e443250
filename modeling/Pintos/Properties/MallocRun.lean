import Mathlib.Tactic.IntervalCases
import Pintos.Properties.Malloc

/-!
# `malloc` と `free` の列

どの呼び出しも assertion に掛からずに戻り、`Sound` を保つ。

page が返されるのは、その page に使われている block が無くなったときである。
これは「受け取っている page には使われている block がある」という不変量で述べる。
-/

namespace Pintos.Malloc

open Infra

/-- 受け取っている page には、使われている block がある。 -/
def InUse (h : Heap) (live : List Nat) : Prop := ∀ r ∈ h.held, ∃ b ∈ live, pgNo b = r.1

/-- **呼び出しの間で成り立つ不変量。** -/
structure Sound (h : Heap) (live : List Nat) : Prop where
  core : Core h live
  inUse : InUse h live

/-! ## 初期化 -/

theorem mallocInit_ok (arena : Nat → Arena) (mem : Nat → UInt8) :
    ∃ h, mallocInit arena mem = .ok h ∧ Config h ∧ h.held = [] ∧
      ∀ d, (h.desc d).freeList = [] := by
  refine ⟨_, rfl, ⟨rfl, ?_, ?_⟩, rfl, ?_⟩
  · intro d hd
    interval_cases d <;> rfl
  · intro d hd
    interval_cases d <;> rfl
  · intro d
    by_cases hd : d < 7
    · interval_cases d <;> rfl
    · simp only [Function.update_apply]
      repeat rw [if_neg (by omega)]

theorem sound_init {h : Heap} (hconf : Config h) (hheld : h.held = [])
    (hfree : ∀ d, (h.desc d).freeList = []) : Sound h [] := by
  have hno : ∀ d page, ¬SmallArena h d page := by
    intro d page hs
    have hmem := hs.held
    rw [hheld] at hmem
    cases hmem
  refine ⟨⟨hconf, ?_, ?_, ?_, ?_, ?_, List.nodup_nil, ?_, ?_⟩, ?_⟩
  · rw [hheld]; exact fun r hr => absurd hr List.not_mem_nil
  · rw [hheld]; exact List.Pairwise.nil
  · rw [hheld]; exact fun r hr => absurd hr List.not_mem_nil
  · intro d b
    rw [hfree d]
    refine ⟨fun hb => absurd hb List.not_mem_nil, ?_⟩
    rintro ⟨⟨page, i, hs, -⟩, -⟩
    exact absurd hs (hno d page)
  · intro d
    rw [hfree d]
    exact List.nodup_nil
  · exact fun b hb => absurd hb List.not_mem_nil
  · exact fun d page hs => absurd hs (hno d page)
  · intro r hr
    rw [hheld] at hr
    cases hr

/-! ## 要求 -/

section

variable {h : Heap} {live : List Nat} {d page : Nat}

theorem takeBlock_ok (hc : Core h live) (hne : (h.desc d).freeList ≠ []) :
    ∃ b h', takeBlock d h = .ok (some b, h') ∧ b ∈ (h.desc d).freeList ∧
      Core h' (b :: live) ∧ IsBlock h' d b ∧ h'.held = h.held := by
  obtain ⟨b, bs, hlist⟩ := List.exists_cons_of_ne_nil hne
  have hmem : b ∈ (h.desc d).freeList := by rw [hlist]; exact List.mem_cons_self
  obtain ⟨⟨page, i, hs, hi, rfl⟩, hnot⟩ := (hc.free_iff d b).mp hmem
  have hpage := hc.page_ne_zero hs.held
  have hnodup := hc.free_nodup d
  rw [hlist, List.nodup_cons] at hnodup
  -- 取った番号が一つ抜けるので、`free_cnt` は 0 ではない
  have hidx : freeIdx (blockAt d page i :: live) d page = (freeIdx live d page).erase i := by
    ext j
    rw [Finset.mem_erase, mem_freeIdx, mem_freeIdx, List.mem_cons, not_or]
    constructor
    · rintro ⟨hj, hne, hlive⟩
      exact ⟨fun heq => hne (by rw [heq]), hj, hlive⟩
    · rintro ⟨hji, hj, hlive⟩
      exact ⟨hj, fun heq => hji (blockAt_inj heq), hlive⟩
  have hin : i ∈ freeIdx live d page := mem_freeIdx.mpr ⟨hi, hnot⟩
  have hcard := Finset.card_erase_add_one hin
  have hle := card_freeIdx_le live d page
  have hper := perArena_le d
  have hcnt : ((h.arena page).freeCnt + (2 ^ 32 - 1)) % 2 ^ 32 =
      (freeIdx (blockAt d page i :: live) d page).card := by
    rw [hc.freeCnt d page hs, hidx]
    have hpg : pgSize = 4096 := rfl
    omega
  have hl : SameLayout h ((h.setFreeList d bs).setFreeCnt page
      (((h.arena page).freeCnt + (2 ^ 32 - 1)) % 2 ^ 32)) :=
    ⟨rfl, rfl, by simp, by simp, by simp, by simp⟩
  have hl₁ := sameLayout_setFreeList h d bs
  refine ⟨_, _, ?_, hmem, hc.recolor hs hi hl ?_ ?_ ?_ ?_ ?_ ?_ ?_,
    hl.isBlock.mpr ⟨page, i, hs, hi, rfl⟩, rfl⟩
  · rw [takeBlock, hlist]
    simp only [(hl₁.small.mpr hs).blockToArena (hl₁.config hc.config) hpage hi, Except.map,
      Heap.setFreeList_arena]
  · intro e he
    exact Heap.setFreeList_freeList_of_ne he
  · exact fun q hq => Heap.setFreeCnt_arena_of_ne hq
  · intro x hx
    rw [List.mem_cons]
    exact or_iff_right hx
  · exact List.nodup_cons.mpr ⟨hnot, hc.live_nodup⟩
  · intro x
    rw [Heap.setFreeCnt_desc, Heap.setFreeList_freeList_self, List.mem_cons, not_or]
    have hiff := hc.free_iff d x
    rw [hlist, List.mem_cons] at hiff
    constructor
    · intro hx
      obtain ⟨hblock, hlive⟩ := hiff.mp (.inr hx)
      exact ⟨hblock, fun heq => hnodup.1 (heq ▸ hx), hlive⟩
    · rintro ⟨hblock, hxb, hlive⟩
      exact (hiff.mpr ⟨hblock, hlive⟩).resolve_left hxb
  · rw [Heap.setFreeCnt_desc, Heap.setFreeList_freeList_self]
    exact hnodup.2
  · rw [Heap.setFreeCnt_freeCnt_self]
    exact hcnt

theorem pallocGetMultiple_eq_some {cnt : Nat} {r : Option Nat} {h' : Heap}
    (hp : pallocGetMultiple cnt r h = some (page, h')) :
    0 < cnt ∧ h.Grantable page cnt ∧ h' = { h with held := (page, cnt) :: h.held } := by
  unfold pallocGetMultiple at hp
  obtain ⟨hcnt, hp⟩ := Option.ite_none_left_eq_some.mp hp
  obtain ⟨q, -, hp⟩ := Option.bind_eq_some_iff.mp hp
  obtain ⟨hg, hp⟩ := Option.ite_none_right_eq_some.mp hp
  cases hp
  exact ⟨Nat.pos_of_ne_zero hcnt, hg, rfl⟩

theorem initArena_ok (hc : Core h live) (hd : d < 7) (hempty : (h.desc d).freeList = [])
    (hg : h.Grantable page 1) :
    ∃ h', initArena d page { h with held := (page, 1) :: h.held } = .ok h' ∧ Core h' live ∧
      h'.held = (page, 1) :: h.held ∧
      (h'.desc d).freeList = (List.range' 0 (perArena d)).map (blockAt d page) := by
  have hpage : page ≠ 0 := Nat.pos_iff_ne_zero.mp hg.1
  have hper := hc.config.perArena d hd
  obtain ⟨h₁, hh₁⟩ : ∃ h₁, h₁ = Heap.setArena { h with held := (page, 1) :: h.held } page
      ⟨arenaMagic, some d, perArena d⟩ := ⟨_, rfl⟩
  have hdesc : h₁.desc = h.desc := by rw [hh₁]; rfl
  have harena : h₁.arena page = ⟨arenaMagic, some d, perArena d⟩ := by
    rw [hh₁]; exact Heap.setArena_arena_self
  have hconf : Config h₁ := by
    rw [hh₁]
    exact ⟨hc.config.descCnt, hc.config.blockSize, hc.config.perArena⟩
  have hs : SmallArena h₁ d page :=
    ⟨hd, by rw [hh₁]; exact List.mem_cons_self, by rw [harena], by rw [harena]⟩
  obtain ⟨l, hleq⟩ : ∃ l, l = (List.range' 0 (perArena d)).map (blockAt d page) := ⟨_, rfl⟩
  have hl := sameLayout_setFreeList h₁ d l
  have hgrown : Grown h (h₁.setFreeList d l) page 1 := by
    refine ⟨hg, Nat.one_pos, by rw [hh₁]; rfl, hl.config hconf, fun q hq => ?_⟩
    rw [Heap.setFreeList_arena, hh₁, Heap.setArena_arena_of_ne hq]
  have hmem : ∀ x, x ∈ l ↔ ∃ i < perArena d, x = blockAt d page i := by
    intro x
    rw [hleq, List.mem_map]
    constructor
    · rintro ⟨i, hi, rfl⟩
      exact ⟨i, by simpa using hi, rfl⟩
    · rintro ⟨i, hi, rfl⟩
      exact ⟨i, by simpa using hi, rfl⟩
  have hlist : ∀ e, e ≠ d → ((h₁.setFreeList d l).desc e).freeList = (h.desc e).freeList := by
    intro e he
    rw [Heap.setFreeList_freeList_of_ne he, hdesc]
  refine ⟨h₁.setFreeList d l, ?_, ?_, by rw [hh₁]; rfl, by
    rw [Heap.setFreeList_freeList_self, hleq]⟩
  · have hloop := carveLoop_eq hpage (perArena d) 0 hs hconf (Nat.le_of_eq (Nat.zero_add _))
    rw [hdesc, hempty, List.nil_append, ← hleq, hh₁] at hloop
    unfold initArena
    rw [hh₁]
    simp only [hper]
    exact hloop
  · refine hc.of_kept hgrown.kept hgrown.config (hgrown.pages hc) (hgrown.apart hc) ?_
      (fun _ _ => Iff.rfl) hc.live_nodup
      (fun x hx hxp => absurd hx (hgrown.not_live hc hxp)) ?_ ?_ ?_ ?_
    · intro r hr hrp
      rw [hgrown.eq_of_page hc hr hrp]
      exact .inl ⟨rfl, d, hl.small.mpr hs⟩
    · intro e x hx
      by_cases he : e = d
      · subst he
        rw [Heap.setFreeList_freeList_self, hempty, hmem]
        refine ⟨?_, fun hx' => absurd hx' List.not_mem_nil⟩
        rintro ⟨i, hi, rfl⟩
        exact absurd (pgNo_blockAt hi) hx
      · rw [hlist e he]
    · intro e x hx
      have hlive := hgrown.not_live hc hx
      by_cases he : e = d
      · subst he
        rw [Heap.setFreeList_freeList_self, hmem]
        constructor
        · rintro ⟨i, hi, rfl⟩
          exact ⟨⟨page, i, hl.small.mpr hs, hi, rfl⟩, hlive⟩
        · rintro ⟨⟨q, i, -, hi, rfl⟩, -⟩
          rw [pgNo_blockAt hi] at hx
          exact ⟨i, hi, by rw [hx]⟩
      · rw [hlist e he]
        constructor
        · intro hxe
          exact absurd hx (hgrown.fresh hc (hc.free_held hxe))
        · rintro ⟨hblock, -⟩
          exact absurd ((hl.small.mpr hs).unique (hx ▸ hblock.arena)) he
    · intro e
      by_cases he : e = d
      · subst he
        rw [Heap.setFreeList_freeList_self, hleq]
        exact List.Nodup.map (fun _ _ => blockAt_inj) List.nodup_range'
      · rw [hlist e he]
        exact hc.free_nodup e
    · intro e hs'
      obtain rfl := (hl.small.mpr hs).unique hs'
      have hall : freeIdx live e page = Finset.range (perArena e) := by
        refine Finset.filter_true_of_mem fun i hi => ?_
        exact hgrown.not_live hc (pgNo_blockAt (Finset.mem_range.mp hi))
      rw [Heap.setFreeList_arena, harena, hall, Finset.card_range]

theorem InUse.cons {h' : Heap} {b : Nat} (hu : InUse h live)
    (hheld : ∀ r ∈ h'.held, r ∈ h.held ∨ r.1 = pgNo b) : InUse h' (b :: live) := by
  intro r hr
  rcases hheld r hr with hr | hr
  · obtain ⟨c, hc, hpage⟩ := hu r hr
    exact ⟨c, List.mem_cons_of_mem b hc, hpage⟩
  · exact ⟨b, List.mem_cons_self, hr.symm⟩

theorem mallocSmall_ok (hs : Sound h live) (hd : d < 7) (r : Option Nat) :
    ∃ p h', mallocSmall d r h = .ok (p, h') ∧ Sound h' (p.toList ++ live) ∧
      (p = none → h' = h) ∧ ∀ b, p = some b → IsBlock h' d b := by
  unfold mallocSmall
  by_cases hempty : (h.desc d).freeList = []
  · rw [if_pos hempty]
    cases hp : pallocGetMultiple 1 r h with
    | none => exact ⟨none, h, rfl, hs, fun _ => rfl, fun _ hb => by cases hb⟩
    | some x =>
      obtain ⟨page, h₀⟩ := x
      obtain ⟨-, hg, rfl⟩ := pallocGetMultiple_eq_some hp
      obtain ⟨h₁, hinit, hc₁, hheld₁, hlist⟩ := initArena_ok hs.core hd hempty hg
      have hne : (h₁.desc d).freeList ≠ [] := by
        rw [hlist]
        intro hnil
        have hlen := congrArg List.length hnil
        have hpos := perArena_pos hd
        simp only [List.length_map, List.length_range', List.length_nil] at hlen
        omega
      obtain ⟨b, h', htake, hb, hc', hblock, hheld'⟩ := takeBlock_ok hc₁ hne
      have hpage : pgNo b = page := by
        rw [hlist, List.mem_map] at hb
        obtain ⟨i, hi, rfl⟩ := hb
        exact pgNo_blockAt (by simpa using hi)
      refine ⟨some b, h', ?_, ⟨hc', hs.inUse.cons ?_⟩, fun hn => (by cases hn), ?_⟩
      · simp only [hinit, Except.bind, htake]
      · rw [hheld', hheld₁]
        intro q hq
        rcases List.mem_cons.mp hq with rfl | hq
        · exact .inr hpage.symm
        · exact .inl hq
      · rintro c ⟨⟩
        exact hblock
  · rw [if_neg hempty]
    obtain ⟨b, h', htake, -, hc', hblock, hheld'⟩ := takeBlock_ok hs.core hempty
    refine ⟨some b, h', htake, ⟨hc', hs.inUse.cons ?_⟩, fun hn => (by cases hn), ?_⟩
    · rw [hheld']
      exact fun q hq => .inl hq
    · rintro c ⟨⟩
      exact hblock

theorem mallocBig_ok (hs : Sound h live) (size : Nat) (r : Option Nat) :
    Sound (mallocBig size r h).2 ((mallocBig size r h).1.toList ++ live) ∧
      ((mallocBig size r h).1 = none → (mallocBig size r h).2 = h) ∧
      ∀ b, (mallocBig size r h).1 = some b →
        ∃ page, BigArena (mallocBig size r h).2 page (bigPageCnt size) ∧
          b = pgSize * page + arenaSize := by
  unfold mallocBig
  cases hp : pallocGetMultiple (bigPageCnt size) r h with
  | none => exact ⟨hs, fun _ => rfl, fun _ hb => by cases hb⟩
  | some x =>
    obtain ⟨page, h₀⟩ := x
    obtain ⟨hpos, hg, rfl⟩ := pallocGetMultiple_eq_some hp
    obtain ⟨h', hh'⟩ : ∃ h', h' = Heap.setArena
        { h with held := (page, bigPageCnt size) :: h.held } page
        ⟨arenaMagic, none, bigPageCnt size⟩ := ⟨_, rfl⟩
    have hc := hs.core
    have harena : h'.arena page = ⟨arenaMagic, none, bigPageCnt size⟩ := by
      rw [hh']; exact Heap.setArena_arena_self
    have hheld : h'.held = (page, bigPageCnt size) :: h.held := by rw [hh']; rfl
    have hdesc : h'.desc = h.desc := by rw [hh']; rfl
    have hbig : BigArena h' page (bigPageCnt size) :=
      ⟨by rw [hheld]; exact List.mem_cons_self, by rw [harena], by rw [harena], by rw [harena]⟩
    have hno : ∀ d, ¬SmallArena h' d page := fun d hsm => hsm.not_big hbig
    have hgrown : Grown h h' page (bigPageCnt size) := by
      refine ⟨hg, hpos, hheld, ?_, fun q hq => ?_⟩
      · rw [hh']
        exact ⟨hc.config.descCnt, hc.config.blockSize, hc.config.perArena⟩
      · rw [hh', Heap.setArena_arena_of_ne hq]
    have hfresh := hgrown.not_live hc (pgNo_big page)
    have hcore : Core h' ((pgSize * page + arenaSize) :: live) := by
      refine hc.of_kept hgrown.kept hgrown.config (hgrown.pages hc) (hgrown.apart hc) ?_ ?_
        (List.nodup_cons.mpr ⟨hfresh, hc.live_nodup⟩) ?_ ?_ ?_ ?_
        (fun d hsm => absurd hsm (hno d))
      · intro r hr hrp
        rw [hgrown.eq_of_page hc hr hrp]
        exact .inr hbig
      · intro x hx
        rw [List.mem_cons]
        refine or_iff_right ?_
        rintro rfl
        exact hx (pgNo_big page)
      · intro x hx hxp
        rcases List.mem_cons.mp hx with rfl | hx
        · exact .inr ⟨page, _, hbig, rfl⟩
        · exact absurd hx (hgrown.not_live hc hxp)
      · intro d x _
        rw [hdesc]
      · intro d x hx
        rw [hdesc]
        constructor
        · intro hxd
          exact absurd hx (hgrown.fresh hc (hc.free_held hxd))
        · rintro ⟨hblock, -⟩
          exact absurd (hx ▸ hblock.arena) (hno d)
      · rw [hdesc]
        exact hc.free_nodup
    simp only [← hh']
    refine ⟨⟨hcore, hs.inUse.cons ?_⟩, fun hn => (by cases hn), ?_⟩
    · rw [hheld]
      intro q hq
      rcases List.mem_cons.mp hq with rfl | hq
      · exact .inr (pgNo_big page).symm
      · exact .inl hq
    · rintro b ⟨⟩
      exact ⟨page, hbig, rfl⟩

theorem findDesc_some {size : Nat} (hconf : Config h) (hf : findDesc size h = some d) :
    d < 7 ∧ size ≤ classSize d := by
  have hmem := List.mem_of_find?_eq_some hf
  have hle := List.find?_some hf
  rw [List.mem_range, hconf.descCnt] at hmem
  rw [hconf.blockSize d hmem] at hle
  exact ⟨hmem, by simpa using hle⟩

/-- **`malloc` は必ず戻る。** NULL なら何も変わらず、block なら大きさが分かる。 -/
theorem malloc_ok (hs : Sound h live) (size : Nat) (r : Option Nat) :
    ∃ p h', malloc size r h = .ok (p, h') ∧ Sound h' (p.toList ++ live) ∧
      (p = none → h' = h) ∧ ∀ b, p = some b →
        (∃ d, size ≤ classSize d ∧ IsBlock h' d b) ∨
          ∃ page, BigArena h' page (bigPageCnt size) ∧ b = pgSize * page + arenaSize := by
  unfold malloc
  by_cases hzero : size = 0
  · rw [if_pos hzero]
    exact ⟨none, h, rfl, hs, fun _ => rfl, fun _ hb => by cases hb⟩
  · rw [if_neg hzero]
    cases hf : findDesc size h with
    | none =>
      obtain ⟨hs', hnone, hsome⟩ := mallocBig_ok hs size r
      exact ⟨_, _, rfl, hs', hnone, fun b hb => .inr (hsome b hb)⟩
    | some d =>
      obtain ⟨hd, hle⟩ := findDesc_some hs.core.config hf
      obtain ⟨p, h', hm, hs', hnone, hsome⟩ := mallocSmall_ok hs hd r
      exact ⟨p, h', hm, hs', hnone, fun b hb => .inl ⟨d, hle, hsome b hb⟩⟩

end

/-! ## 返す -/

section

variable {h : Heap} {live : List Nat} {d page cnt i b : Nat}

theorem pallocFreeMultiple_ok (hconf : Config h) (hmem : (page, cnt) ∈ h.held) :
    ∃ h', pallocFreeMultiple page cnt h = .ok h' ∧ Dropped h h' page cnt ∧ h'.desc = h.desc := by
  unfold pallocFreeMultiple
  rw [if_pos hmem]
  refine ⟨_, rfl, ⟨hmem, rfl, ⟨hconf.descCnt, hconf.blockSize, hconf.perArena⟩, ?_⟩, rfl⟩
  intro q hq
  exact if_neg (by omega)

theorem Core.put {h' : Heap} (hc : Core h live) (hs : SmallArena h d page) (hi : i < perArena d)
    (hlive : blockAt d page i ∈ live)
    (hh' : h' = ((h.memset (blockAt d page i) 0xcc (h.desc d).blockSize).setFreeList d
      (blockAt d page i :: (h.desc d).freeList)).setFreeCnt page
      (((h.arena page).freeCnt + 1) % 2 ^ 32)) :
    Core h' (live.erase (blockAt d page i)) ∧ SameLayout h h' ∧
      (h'.arena page).freeCnt = (freeIdx (live.erase (blockAt d page i)) d page).card := by
  have hmem : ∀ x, x ∈ live.erase (blockAt d page i) ↔ x ≠ blockAt d page i ∧ x ∈ live :=
    fun x => hc.live_nodup.mem_erase_iff
  have hidx : freeIdx (live.erase (blockAt d page i)) d page =
      insert i (freeIdx live d page) := by
    ext j
    rw [Finset.mem_insert, mem_freeIdx, mem_freeIdx, hmem]
    constructor
    · rintro ⟨hj, hnot⟩
      by_cases hji : j = i
      · exact .inl hji
      · exact .inr ⟨hj, fun hm => hnot ⟨fun heq => hji (blockAt_inj heq), hm⟩⟩
    · rintro (rfl | ⟨hj, hnot⟩)
      · exact ⟨hi, fun hm => hm.1 rfl⟩
      · exact ⟨hj, fun hm => hnot hm.2⟩
  have hnotin : i ∉ freeIdx live d page := fun hin => (mem_freeIdx.mp hin).2 hlive
  have hle := card_freeIdx_le live d page
  have hper := perArena_le d
  have hcnt : (h'.arena page).freeCnt =
      (freeIdx (live.erase (blockAt d page i)) d page).card := by
    rw [hh', Heap.setFreeCnt_freeCnt_self, hc.freeCnt d page hs, hidx,
      Finset.card_insert_of_notMem hnotin]
    have hpg : pgSize = 4096 := rfl
    omega
  have hl : SameLayout h h' := by
    rw [hh']
    exact ⟨rfl, rfl, fun e => by simp; rfl, fun e => by simp; rfl, fun q => by simp; rfl,
      fun q => by simp; rfl⟩
  have hself : (h'.desc d).freeList = blockAt d page i :: (h.desc d).freeList := by
    rw [hh', Heap.setFreeCnt_desc, Heap.setFreeList_freeList_self]
  refine ⟨hc.recolor hs hi hl ?_ ?_ ?_ (hc.live_nodup.erase _) ?_ ?_ hcnt, hl, hcnt⟩
  · intro e he
    rw [hh', Heap.setFreeCnt_desc, Heap.setFreeList_freeList_of_ne he]
    rfl
  · intro q hq
    rw [hh']
    exact Heap.setFreeCnt_arena_of_ne hq
  · intro x hx
    rw [hmem]
    exact and_iff_right hx
  · intro x
    rw [hself, List.mem_cons, hc.free_iff, hmem]
    constructor
    · rintro (rfl | ⟨hblock, hx⟩)
      · exact ⟨⟨page, i, hs, hi, rfl⟩, fun hm => hm.1 rfl⟩
      · exact ⟨hblock, fun hm => hx hm.2⟩
    · rintro ⟨hblock, hx⟩
      by_cases hxb : x = blockAt d page i
      · exact .inl hxb
      · exact .inr ⟨hblock, fun hm => hx ⟨hxb, hm⟩⟩
  · rw [hself]
    exact List.nodup_cons.mpr ⟨fun hm => ((hc.free_iff d _).mp hm).2 hlive, hc.free_nodup d⟩

theorem releaseArena_ok (hc : Core h live) (hs : SmallArena h d page)
    (hcnt : (h.arena page).freeCnt = perArena d) :
    ∃ h', releaseArena d page h = .ok h' ∧ Core h' live ∧ h'.held = h.held.erase (page, 1) ∧
      ∀ x ∈ live, pgNo x ≠ page := by
  have hpage := hc.page_ne_zero hs.held
  have hper := hc.config.perArena d hs.lt
  have hfull : perArena d ≤ (freeIdx live d page).card := by
    rw [← hc.freeCnt d page hs, hcnt]
  have hnone : ∀ x ∈ live, pgNo x ≠ page := by
    intro x hx hxp
    obtain ⟨j, hj, rfl⟩ := hc.live_small hs hx hxp
    exact not_mem_of_card_freeIdx hfull hj hx
  obtain ⟨l, hloop, hlnodup, hliff⟩ := removeLoop_ok hpage (perArena d) 0 hs hc.config
    (Nat.le_of_eq (Nat.zero_add _)) (hc.free_nodup d) fun j _ hj =>
      (hc.free_iff d _).mpr ⟨⟨page, j, hs, by omega, rfl⟩,
        not_mem_of_card_freeIdx hfull (by omega)⟩
  have hl := sameLayout_setFreeList h d l
  obtain ⟨h', hfree, hdrop, hdesc⟩ :=
    pallocFreeMultiple_ok (h := h.setFreeList d l) (hl.config hc.config) hs.held
  have hdrop' : Dropped h h' page 1 := ⟨hs.held, hdrop.held, hdrop.config, hdrop.arena⟩
  refine ⟨h', ?_, hc.dropped hdrop' ?_ hc.live_nodup ?_ ?_, hdrop.held, hnone⟩
  · unfold releaseArena
    rw [if_pos (hcnt.trans hper.symm), hper, hloop]
    exact hfree
  · exact fun x => ⟨fun hx => ⟨hnone x hx, hx⟩, fun hx => hx.2⟩
  · intro e x
    rw [hdesc]
    by_cases he : e = d
    · subst he
      rw [Heap.setFreeList_freeList_self, hliff, and_comm]
      refine and_congr_left fun hx => ⟨fun hall hxp => ?_, ?_⟩
      · obtain ⟨q, j, -, hj, rfl⟩ := ((hc.free_iff e x).mp hx).1
        rw [pgNo_blockAt hj] at hxp
        exact hall j (Nat.zero_le j) (by omega) (by rw [hxp])
      · rintro hne j - hj rfl
        exact hne (pgNo_blockAt (by omega))
    · rw [Heap.setFreeList_freeList_of_ne he]
      refine ⟨fun hx => ⟨fun hxp => ?_, hx⟩, fun hx => hx.2⟩
      exact he (hs.unique (hxp ▸ ((hc.free_iff e x).mp hx).1.arena))
  · intro e
    rw [hdesc]
    by_cases he : e = d
    · subst he
      rwa [Heap.setFreeList_freeList_self]
    · rw [Heap.setFreeList_freeList_of_ne he]
      exact hc.free_nodup e

theorem InUse.erase (hu : InUse h live) {r : Nat × Nat} (hr : r ∈ h.held) (hne : r.1 ≠ pgNo b) :
    ∃ c ∈ live.erase b, pgNo c = r.1 := by
  obtain ⟨c, hc, hpage⟩ := hu r hr
  refine ⟨c, (List.mem_erase_of_ne ?_).mpr hc, hpage⟩
  rintro rfl
  exact hne hpage.symm

theorem freeSmall_ok (hs : Sound h live) (ha : SmallArena h d page) (hi : i < perArena d)
    (hlive : blockAt d page i ∈ live) :
    ∃ h', freeSmall d page (blockAt d page i) h = .ok h' ∧
      Sound h' (live.erase (blockAt d page i)) ∧
      h'.held = if ∃ c ∈ live.erase (blockAt d page i), pgNo c = page then h.held
        else h.held.erase (page, 1) := by
  have hpg : pgNo (blockAt d page i) = page := pgNo_blockAt hi
  obtain ⟨h₁, hh₁⟩ : ∃ h₁, h₁ = ((h.memset (blockAt d page i) 0xcc (h.desc d).blockSize).setFreeList
      d (blockAt d page i :: (h.desc d).freeList)).setFreeCnt page
      (((h.arena page).freeCnt + 1) % 2 ^ 32) := ⟨_, rfl⟩
  obtain ⟨hc₁, hl, hcnt⟩ := hs.core.put ha hi hlive hh₁
  have ha₁ : SmallArena h₁ d page := hl.small.mpr ha
  have hper := hc₁.config.perArena d ha.lt
  have hstep : freeSmall d page (blockAt d page i) h =
      if (h₁.desc d).blocksPerArena ≤ (h₁.arena page).freeCnt then releaseArena d page h₁
      else .ok h₁ := by
    rw [hh₁]
    rfl
  rw [hstep, hper, hcnt]
  by_cases hfull : perArena d ≤ (freeIdx (live.erase (blockAt d page i)) d page).card
  · rw [if_pos hfull]
    have heq : (h₁.arena page).freeCnt = perArena d := by
      have hle := card_freeIdx_le (live.erase (blockAt d page i)) d page
      omega
    obtain ⟨h', hrel, hc', hheld, hnone⟩ := releaseArena_ok hc₁ ha₁ heq
    rw [hl.held] at hheld
    refine ⟨h', hrel, ⟨hc', fun r hr => ?_⟩, ?_⟩
    · rw [hheld, hs.core.held_nodup.mem_erase_iff] at hr
      refine hs.inUse.erase hr.2 fun heq => hr.1 ?_
      exact hs.core.page_inj hr.2 ha.held (heq.trans hpg)
    · rw [if_neg]
      · exact hheld
      · rintro ⟨c, hc, hcp⟩
        exact hnone c hc hcp
  · rw [if_neg hfull]
    obtain ⟨j, hj, hjlive⟩ := exists_live_of_card_freeIdx (Nat.lt_of_not_le hfull)
    have hex : ∃ c ∈ live.erase (blockAt d page i), pgNo c = page :=
      ⟨_, hjlive, pgNo_blockAt hj⟩
    refine ⟨h₁, rfl, ⟨hc₁, fun r hr => ?_⟩, by rw [if_pos hex, hl.held]⟩
    rw [hl.held] at hr
    by_cases hrp : r.1 = page
    · rw [hrp]
      exact hex
    · exact hs.inUse.erase hr (by rwa [hpg])

/-- **`free` は必ず戻る。** page を返すのは、ほかに使われている block が無いときである。 -/
theorem free_ok (hs : Sound h live) (hb : b ∈ live) :
    ∃ h' cnt, free (some b) h = .ok h' ∧ Sound h' (live.erase b) ∧ (pgNo b, cnt) ∈ h.held ∧
      h'.held = if ∃ c ∈ live.erase b, pgNo c = pgNo b then h.held
        else h.held.erase (pgNo b, cnt) := by
  have hc := hs.core
  rcases hc.live_mem b hb with ⟨d, page, i, ha, hi, rfl⟩ | ⟨page, cnt, hbig, rfl⟩
  · obtain ⟨h', hfree, hs', hheld⟩ := freeSmall_ok hs ha hi hb
    rw [pgNo_blockAt hi]
    refine ⟨h', 1, ?_, hs', ha.held, hheld⟩
    simp only [free, ha.blockToArena hc.config (hc.page_ne_zero ha.held) hi, Except.bind, ha.desc,
      hfree]
  · rw [pgNo_big]
    obtain ⟨h', hfree, hdrop, hdesc⟩ := pallocFreeMultiple_ok hc.config hbig.held
    have hpageLive : ∀ x ∈ live, pgNo x = page → x = pgSize * page + arenaSize := by
      intro x hx hxp
      rcases hc.live_mem x hx with ⟨e, hblock⟩ | ⟨q, n, -, rfl⟩
      · exact absurd hbig (hxp ▸ hblock.arena).not_big
      · rw [pgNo_big] at hxp
        rw [hxp]
    have hmem : ∀ x, x ∈ live.erase (pgSize * page + arenaSize) ↔ pgNo x ≠ page ∧ x ∈ live := by
      intro x
      rw [hc.live_nodup.mem_erase_iff]
      refine and_congr_left fun hx => not_congr ⟨?_, hpageLive x hx⟩
      rintro rfl
      exact pgNo_big page
    have hcore : Core h' (live.erase (pgSize * page + arenaSize)) := by
      refine hc.dropped hdrop hmem (hc.live_nodup.erase _) ?_ (by rw [hdesc]; exact hc.free_nodup)
      intro e x
      rw [hdesc]
      refine ⟨fun hx => ⟨fun hxp => ?_, hx⟩, fun hx => hx.2⟩
      exact (hxp ▸ ((hc.free_iff e x).mp hx).1.arena).not_big hbig
    refine ⟨h', cnt, ?_, ⟨hcore, fun r hr => ?_⟩, hbig.held, ?_⟩
    · simp only [free, hbig.blockToArena (hc.page_ne_zero hbig.held), Except.bind, hbig.desc,
        hbig.freeCnt, hfree]
    · obtain ⟨hne, hr⟩ := (hdrop.mem_held hc).mp hr
      exact hs.inUse.erase hr (by rwa [pgNo_big])
    · rw [if_neg]
      · exact hdrop.held
      · rintro ⟨c, hcm, hcp⟩
        exact ((hmem c).mp hcm).1 hcp

end

/-! ## 呼び出しの列 -/

theorem sound_of_reachable {u : HeapUse} (hr : Reachable mallocSystem u) :
    Sound u.heap u.live := by
  refine hr.invariant (I := fun u => Sound u.heap u.live) ?_ ?_
  · rintro u ⟨arena, mem, hinit, hlive⟩
    obtain ⟨h, hok, hconf, hheld, hfree⟩ := mallocInit_ok arena mem
    rw [hok] at hinit
    cases hinit
    rw [hlive]
    exact sound_init hconf hheld hfree
  · rintro u (⟨size, r⟩ | ⟨_ | b⟩) u' hs hstep
    · obtain ⟨p, h', hm, hs', -⟩ := malloc_ok hs size.toNat r
      simp only [mallocSystem, System.ofFun, HeapUse.step, hm, Option.some.injEq] at hstep
      rw [← hstep]
      exact hs'
    · simp only [mallocSystem, System.ofFun, HeapUse.step, free, Option.toList_none,
        List.nil_subset, if_true, Option.some.injEq] at hstep
      rw [← hstep]
      exact hs
    · obtain ⟨hsub, hstep⟩ := Option.ite_none_right_eq_some.mp hstep
      have hb : b ∈ u.live := hsub (by simp)
      obtain ⟨h', cnt, hfree, hs', -⟩ := free_ok hs hb
      simp only [hfree, Option.some.injEq] at hstep
      rw [← hstep]
      exact hs'

/-- **`malloc` と `free` の列の正しさ。** 使われている block は arena の先頭の後にあって互いに
重ならず、`free_cnt` は `free_list` と合い、page は使われている block がある間だけ受け取っている。
どの呼び出しも assertion に掛からず、失敗した `malloc` は何も変えない。 -/
theorem malloc_free_sound {u : HeapUse} (hr : Reachable mallocSystem u) :
    (∀ b ∈ u.live, ∃ n cnt, blockSize b u.heap = .ok n ∧ (pgNo b, cnt) ∈ u.heap.held ∧
      pgSize * pgNo b + arenaSize ≤ b ∧ b + n ≤ pgSize * (pgNo b + cnt)) ∧
    u.live.Pairwise (fun b c => ∀ n m, blockSize b u.heap = .ok n → blockSize c u.heap = .ok m →
      b + n ≤ c ∨ c + m ≤ b) ∧
    (∀ page d, (page, 1) ∈ u.heap.held → (u.heap.arena page).desc = some d →
      (u.heap.arena page).freeCnt =
        (u.heap.desc d).freeList.countP fun b => pgNo b = page) ∧
    (∀ page, (∃ cnt, (page, cnt) ∈ u.heap.held) ↔ ∃ b ∈ u.live, pgNo b = page) ∧
    (∀ d, ∀ b ∈ (u.heap.desc d).freeList, (pgNo b, 1) ∈ u.heap.held) ∧
    (∀ (size : BitVec 32) r, ∃ p h', malloc size.toNat r u.heap = .ok (p, h') ∧
      (p = none → h' = u.heap)) ∧
    ∀ b ∈ u.live, ∃ h' cnt, free (some b) u.heap = .ok h' ∧ (pgNo b, cnt) ∈ u.heap.held ∧
      (h'.held = if ∃ c ∈ u.live.erase b, pgNo c = pgNo b then u.heap.held
        else u.heap.held.erase (pgNo b, cnt)) ∧
      ((∀ c ∈ u.live.erase b, pgNo c ≠ pgNo b) →
        ∀ d, ∀ x ∈ (h'.desc d).freeList, pgNo x ≠ pgNo b) := by
  have hs := sound_of_reachable hr
  have hc := hs.core
  refine ⟨fun b hb => hc.extent hb, ?_, ?_, fun page => ⟨?_, ?_⟩, fun d b hb => hc.free_held hb,
    ?_, ?_⟩
  · exact hc.live_nodup.imp_of_mem fun hb hb' hne n m hn hm => hc.disjoint hb hb' hne hn hm
  · intro page d hheld hdesc
    rcases hc.arena _ hheld with ⟨-, e, ha⟩ | hbig
    · obtain rfl : e = d := Option.some.inj (ha.desc.symm.trans hdesc)
      exact hc.freeCnt_eq_countP ha
    · have hnone := hbig.desc
      simp only [hdesc] at hnone
      cases hnone
  · rintro ⟨cnt, hheld⟩
    exact hs.inUse _ hheld
  · rintro ⟨b, hb, rfl⟩
    exact hc.live_held hb
  · intro size r
    obtain ⟨p, h', hm, -, hnone, -⟩ := malloc_ok hs size.toNat r
    exact ⟨p, h', hm, hnone⟩
  · intro b hb
    obtain ⟨h', cnt, hfree, hs', hheld, hheld'⟩ := free_ok hs hb
    refine ⟨h', cnt, hfree, hheld, hheld', fun hnone d x hx hxp => ?_⟩
    obtain ⟨c, hcl, hcp⟩ := hs'.inUse _ (hs'.core.free_held hx)
    exact hnone c hcl (hcp.trans hxp)

/-- 何も書かれていない memory での `malloc_init` の後。 -/
def bootHeap : Heap :=
  match mallocInit (fun _ => ⟨0, none, 0⟩) (fun _ => 0) with
  | .ok h => h
  | .error _ => ⟨fun _ => ⟨0, 0, []⟩, 0, fun _ => ⟨0, none, 0⟩, fun _ => 0, []⟩

theorem bootHeap_reachable : Reachable mallocSystem ⟨bootHeap, []⟩ :=
  ReachableIf.init ⟨fun _ => ⟨0, none, 0⟩, fun _ => 0, rfl, rfl⟩

/-- 二つの block を受け取って一つを返した後も、もう一つの block は arena に収まっている。 -/
theorem malloc_free_sound_two : ∃ u, Reachable mallocSystem u ∧ u.live = [5132] ∧
    ∃ n cnt, blockSize 5132 u.heap = .ok n ∧ (1, cnt) ∈ u.heap.held ∧ 4108 ≤ 5132 ∧
      5132 + n ≤ 4096 * (1 + cnt) := by
  have hrun : (runEvents HeapUse.step ⟨bootHeap, []⟩
      [.malloc 1000 (some 1), .malloc 1000 none, .free (some 4108)]).any
      (fun u => u.live = [5132]) = true := by decide +kernel
  obtain ⟨u, hr, hlive⟩ := exists_reachable_of_run _ bootHeap_reachable hrun
  have hlive : u.live = [5132] := of_decide_eq_true hlive
  exact ⟨u, hr, hlive, (malloc_free_sound hr).1 5132 (by rw [hlive]; exact List.mem_cons_self)⟩

end Pintos.Malloc
