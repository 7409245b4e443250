import Mathlib.Data.Finset.Card
import Mathlib.Data.List.Pairwise
import Pintos.Threads.Malloc

/-!
# block allocator の不変量

`malloc` と `free` をどう並べても成り立つことを示す。

`free_cnt` は、arena の block のうち使われていないものの個数として数える。
`free_list` との一致は、空きの block が `free_list` に一度ずつ並ぶことから従う。
-/

namespace Pintos.Malloc

open Infra

/-! ## block の番地 -/

def classSize (d : Nat) : Nat := 16 * 2 ^ d

def perArena (d : Nat) : Nat := (pgSize - arenaSize) / classSize d

def blockAt (d page i : Nat) : Nat := pgSize * page + arenaSize + i * classSize d

theorem classSize_pos (d : Nat) : 0 < classSize d :=
  Nat.mul_pos (by decide) (Nat.two_pow_pos d)

theorem perArena_pos {d : Nat} (hd : d < 7) : 0 < perArena d := by
  have h : ∀ d < 7, 0 < perArena d := by decide
  exact h d hd

theorem perArena_le (d : Nat) : perArena d ≤ pgSize := by
  have h : perArena d ≤ pgSize - arenaSize := Nat.div_le_self _ _
  omega

theorem block_fits {d i : Nat} (hi : i < perArena d) :
    arenaSize + (i * classSize d + classSize d) ≤ pgSize := by
  have hle : (i + 1) * classSize d ≤ perArena d * classSize d := Nat.mul_le_mul_right _ hi
  have hdiv : perArena d * classSize d ≤ pgSize - arenaSize := Nat.div_mul_le_self _ _
  rw [Nat.add_mul, Nat.one_mul] at hle
  have hsz : arenaSize ≤ pgSize := by decide
  omega

theorem pgNo_add {page k : Nat} (hk : k < pgSize) : pgNo (pgSize * page + k) = page := by
  rw [pgNo, Nat.mul_add_div (by decide), Nat.div_eq_of_lt hk, Nat.add_zero]

theorem pgOfs_add {page k : Nat} (hk : k < pgSize) : pgOfs (pgSize * page + k) = k := by
  rw [pgOfs, Nat.mul_add_mod, Nat.mod_eq_of_lt hk]

theorem ofs_lt {d i : Nat} (hi : i < perArena d) : arenaSize + i * classSize d < pgSize := by
  have hfit := block_fits hi
  have hpos := classSize_pos d
  omega

variable {d page i : Nat}

@[simp] theorem pgNo_blockAt (hi : i < perArena d) : pgNo (blockAt d page i) = page := by
  rw [blockAt, Nat.add_assoc, pgNo_add (ofs_lt hi)]

theorem pgOfs_blockAt (hi : i < perArena d) :
    pgOfs (blockAt d page i) = arenaSize + i * classSize d := by
  rw [blockAt, Nat.add_assoc, pgOfs_add (ofs_lt hi)]

theorem blockAt_inj {d page i j : Nat} (h : blockAt d page i = blockAt d page j) : i = j :=
  Nat.eq_of_mul_eq_mul_right (classSize_pos d) (Nat.add_left_cancel h)

@[simp] theorem pgNo_big (page : Nat) : pgNo (pgSize * page + arenaSize) = page :=
  pgNo_add (by decide)

@[simp] theorem pgOfs_big (page : Nat) : pgOfs (pgSize * page + arenaSize) = arenaSize :=
  pgOfs_add (by decide)

/-! ## 不変量 -/

/-- `malloc_init` の決めた値。 -/
structure Config (h : Heap) : Prop where
  descCnt : h.descCnt = 7
  blockSize : ∀ d < 7, (h.desc d).blockSize = classSize d
  perArena : ∀ d < 7, (h.desc d).blocksPerArena = perArena d

/-- page が descriptor `d` の arena である。 -/
structure SmallArena (h : Heap) (d page : Nat) : Prop where
  lt : d < 7
  held : (page, 1) ∈ h.held
  magic : (h.arena page).magic = arenaMagic
  desc : (h.arena page).desc = some d

/-- page から `cnt` 個が一つの大きい block である。 -/
structure BigArena (h : Heap) (page cnt : Nat) : Prop where
  held : (page, cnt) ∈ h.held
  magic : (h.arena page).magic = arenaMagic
  desc : (h.arena page).desc = none
  freeCnt : (h.arena page).freeCnt = cnt

/-- `b` が descriptor `d` の block である。 -/
def IsBlock (h : Heap) (d b : Nat) : Prop :=
  ∃ page i, SmallArena h d page ∧ i < perArena d ∧ b = blockAt d page i

def IsBig (h : Heap) (b : Nat) : Prop :=
  ∃ page cnt, BigArena h page cnt ∧ b = pgSize * page + arenaSize

/-- 使われていない block の番号。 -/
def freeIdx (live : List Nat) (d page : Nat) : Finset Nat :=
  (Finset.range (perArena d)).filter fun i => blockAt d page i ∉ live

def Apart (r s : Nat × Nat) : Prop := r.1 + r.2 ≤ s.1 ∨ s.1 + s.2 ≤ r.1

instance : Std.Symm Apart := ⟨fun _ _ => Or.symm⟩

/-- **allocator の不変量。** `live` は使われている block である。 -/
structure Core (h : Heap) (live : List Nat) : Prop where
  config : Config h
  pages : ∀ r ∈ h.held, 0 < r.1 ∧ 0 < r.2 ∧ r.1 + r.2 ≤ 2 ^ 20
  apart : h.held.Pairwise Apart
  arena : ∀ r ∈ h.held, (r.2 = 1 ∧ ∃ d, SmallArena h d r.1) ∨ BigArena h r.1 r.2
  free_iff : ∀ d b, b ∈ (h.desc d).freeList ↔ IsBlock h d b ∧ b ∉ live
  free_nodup : ∀ d, (h.desc d).freeList.Nodup
  live_nodup : live.Nodup
  live_mem : ∀ b ∈ live, (∃ d, IsBlock h d b) ∨ IsBig h b
  freeCnt : ∀ d page, SmallArena h d page → (h.arena page).freeCnt = (freeIdx live d page).card

variable {live : List Nat}

theorem mem_freeIdx : i ∈ freeIdx live d page ↔ i < perArena d ∧ blockAt d page i ∉ live := by
  rw [freeIdx, Finset.mem_filter, Finset.mem_range]

theorem card_freeIdx_le (live : List Nat) (d page : Nat) :
    (freeIdx live d page).card ≤ perArena d := by
  have h := Finset.card_filter_le (Finset.range (perArena d)) fun i => blockAt d page i ∉ live
  rwa [Finset.card_range] at h

variable {d page : Nat}

theorem not_mem_of_card_freeIdx (h : perArena d ≤ (freeIdx live d page).card) {i : Nat}
    (hi : i < perArena d) : blockAt d page i ∉ live := by
  have heq : freeIdx live d page = Finset.range (perArena d) :=
    Finset.eq_of_subset_of_card_le (Finset.filter_subset _ _) (by rwa [Finset.card_range])
  have hmem : i ∈ freeIdx live d page := by rw [heq]; exact Finset.mem_range.mpr hi
  exact (mem_freeIdx.mp hmem).2

theorem exists_live_of_card_freeIdx (h : (freeIdx live d page).card < perArena d) :
    ∃ i < perArena d, blockAt d page i ∈ live := by
  by_contra hno
  have heq : freeIdx live d page = Finset.range (perArena d) := by
    refine Finset.filter_true_of_mem fun i hi hlive => hno ⟨i, Finset.mem_range.mp hi, hlive⟩
  rw [heq, Finset.card_range] at h
  exact Nat.lt_irrefl _ h

theorem freeIdx_congr {live live' : List Nat} (h : ∀ b, pgNo b = page → (b ∈ live' ↔ b ∈ live)) :
    freeIdx live' d page = freeIdx live d page := by
  ext i
  rw [mem_freeIdx, mem_freeIdx]
  constructor
  · rintro ⟨hi, hb⟩
    exact ⟨hi, fun hm => hb ((h _ (pgNo_blockAt hi)).mpr hm)⟩
  · rintro ⟨hi, hb⟩
    exact ⟨hi, fun hm => hb ((h _ (pgNo_blockAt hi)).mp hm)⟩

/-! ## arena と block の変換 -/

namespace SmallArena

variable {h : Heap} {d e page i : Nat}

theorem unique (hs : SmallArena h d page) (hs' : SmallArena h e page) : e = d :=
  Option.some.inj (hs'.desc.symm.trans hs.desc)

theorem not_big {cnt : Nat} (hs : SmallArena h d page) : ¬BigArena h page cnt := by
  intro hb
  have hdesc := hs.desc
  rw [hb.desc] at hdesc
  cases hdesc

variable (hs : SmallArena h d page) (hc : Config h) (hpage : page ≠ 0) (hi : i < perArena d)
include hs hc hpage hi

theorem blockToArena : Malloc.blockToArena (blockAt d page i) h = .ok page := by
  have hofs := ofs_lt hi
  have hmod : (arenaSize + i * classSize d + (2 ^ 32 - arenaSize)) % 2 ^ 32 = i * classSize d := by
    have harena : arenaSize = 12 := rfl
    have hpg : pgSize = 4096 := rfl
    omega
  simp only [Malloc.blockToArena, pgNo_blockAt hi, pgOfs_blockAt hi, hpage, hs.magic, hs.desc,
    hc.blockSize d hs.lt, hmod, Nat.mul_mod_left, ne_eq, not_true_eq_false, if_false, if_true]

theorem arenaToBlock : Malloc.arenaToBlock page i h = .ok (blockAt d page i) := by
  simp only [Malloc.arenaToBlock, hpage, hs.magic, hs.desc, hc.blockSize d hs.lt,
    hc.perArena d hs.lt, hi, ne_eq, not_true_eq_false, if_false, if_true]
  rfl

theorem blockSize : Malloc.blockSize (blockAt d page i) h = .ok (classSize d) := by
  rw [Malloc.blockSize, hs.blockToArena hc hpage hi]
  simp only [Except.map, hs.desc, hc.blockSize d hs.lt]

end SmallArena

namespace BigArena

variable {h : Heap} {page cnt : Nat}

theorem blockToArena (hb : BigArena h page cnt) (hpage : page ≠ 0) :
    Malloc.blockToArena (pgSize * page + arenaSize) h = .ok page := by
  simp only [Malloc.blockToArena, pgNo_big, pgOfs_big, hpage, hb.magic, hb.desc, ne_eq,
    not_true_eq_false, if_false, if_true]

theorem blockSize (hb : BigArena h page cnt) (hpage : page ≠ 0) (hpos : 0 < cnt)
    (hcnt : cnt < 2 ^ 20) :
    Malloc.blockSize (pgSize * page + arenaSize) h = .ok (pgSize * cnt - arenaSize) := by
  have hmod : (pgSize * cnt + (2 ^ 32 - arenaSize)) % 2 ^ 32 = pgSize * cnt - arenaSize := by
    have harena : arenaSize = 12 := rfl
    have hpg : pgSize = 4096 := rfl
    rw [harena, hpg]
    omega
  rw [Malloc.blockSize, hb.blockToArena hpage]
  simp only [Except.map, hb.desc, hb.freeCnt, pgOfs_big, hmod]

end BigArena

/-! ## 受け取った page -/

theorem IsBlock.arena {h : Heap} {d b : Nat} (hb : IsBlock h d b) : SmallArena h d (pgNo b) := by
  obtain ⟨page, i, hs, hi, rfl⟩ := hb
  rwa [pgNo_blockAt hi]

namespace Core

variable {h h' : Heap} {live live' : List Nat} {d page cnt b : Nat}

theorem page_inj (hc : Core h live) {r s : Nat × Nat} (hr : r ∈ h.held) (hs : s ∈ h.held)
    (heq : r.1 = s.1) : r = s := by
  by_contra hne
  have hapart : Apart r s := List.Pairwise.forall hc.apart hr hs hne
  have hrpos := (hc.pages r hr).2.1
  have hspos := (hc.pages s hs).2.1
  unfold Apart at hapart
  omega

theorem held_nodup (hc : Core h live) : h.held.Nodup := by
  refine hc.apart.imp_of_mem fun {r s} hr _ hapart heq => ?_
  have hpos := (hc.pages r hr).2.1
  subst heq
  unfold Apart at hapart
  omega

theorem page_ne_zero (hc : Core h live) (hr : (page, cnt) ∈ h.held) : page ≠ 0 :=
  Nat.pos_iff_ne_zero.mp (hc.pages _ hr).1

theorem live_held (hc : Core h live) (hb : b ∈ live) : ∃ cnt, (pgNo b, cnt) ∈ h.held := by
  rcases hc.live_mem b hb with ⟨d, hblock⟩ | ⟨page, cnt, hbig, rfl⟩
  · exact ⟨1, hblock.arena.held⟩
  · exact ⟨cnt, by rw [pgNo_big]; exact hbig.held⟩

theorem free_held (hc : Core h live) (hb : b ∈ (h.desc d).freeList) : (pgNo b, 1) ∈ h.held :=
  ((hc.free_iff d b).mp hb).1.arena.held

theorem live_small (hc : Core h live) (hs : SmallArena h d page) (hb : b ∈ live)
    (hpage : pgNo b = page) : ∃ i < perArena d, b = blockAt d page i := by
  rcases hc.live_mem b hb with ⟨e, q, i, hs', hi, rfl⟩ | ⟨q, cnt, hbig, rfl⟩
  · rw [pgNo_blockAt hi] at hpage
    subst hpage
    obtain rfl := hs.unique hs'
    exact ⟨i, hi, rfl⟩
  · rw [pgNo_big] at hpage
    subst hpage
    exact absurd hbig hs.not_big

end Core

/-! ## block の移り変わり -/

/-- `free_list` と `free_cnt` のほかは同じである。 -/
structure SameLayout (h h' : Heap) : Prop where
  held : h'.held = h.held
  descCnt : h'.descCnt = h.descCnt
  blockSize : ∀ d, (h'.desc d).blockSize = (h.desc d).blockSize
  blocksPerArena : ∀ d, (h'.desc d).blocksPerArena = (h.desc d).blocksPerArena
  magic : ∀ q, (h'.arena q).magic = (h.arena q).magic
  desc : ∀ q, (h'.arena q).desc = (h.arena q).desc

namespace SameLayout

variable {h h' : Heap} {d page b : Nat}

theorem config (hl : SameLayout h h') (hc : Config h) : Config h' where
  descCnt := hl.descCnt.trans hc.descCnt
  blockSize d hd := (hl.blockSize d).trans (hc.blockSize d hd)
  perArena d hd := (hl.blocksPerArena d).trans (hc.perArena d hd)

theorem small (hl : SameLayout h h') : SmallArena h' d page ↔ SmallArena h d page := by
  constructor
  · rintro ⟨hlt, hheld, hmagic, hdesc⟩
    exact ⟨hlt, hl.held ▸ hheld, (hl.magic page).symm.trans hmagic,
      (hl.desc page).symm.trans hdesc⟩
  · rintro ⟨hlt, hheld, hmagic, hdesc⟩
    exact ⟨hlt, hl.held.symm ▸ hheld, (hl.magic page).trans hmagic, (hl.desc page).trans hdesc⟩

theorem isBlock (hl : SameLayout h h') : IsBlock h' d b ↔ IsBlock h d b := by
  unfold IsBlock
  simp only [hl.small]

end SameLayout

theorem sameLayout_setFreeList (h : Heap) (d : Nat) (l : List Nat) :
    SameLayout h (h.setFreeList d l) :=
  ⟨rfl, rfl, by simp, by simp, fun _ => rfl, fun _ => rfl⟩

/-! ## 一つの page の外 -/

/-- `page` から始まる範囲のほかは、受け取った page も arena も同じである。 -/
structure Kept (h h' : Heap) (page : Nat) : Prop where
  held : ∀ r, r.1 ≠ page → (r ∈ h'.held ↔ r ∈ h.held)
  arena : ∀ q n, q ≠ page → (q, n) ∈ h.held → h'.arena q = h.arena q

namespace Kept

variable {h h' : Heap} {d page n q x : Nat}

theorem small (hk : Kept h h' page) (hne : q ≠ page) : SmallArena h' d q ↔ SmallArena h d q := by
  constructor
  · rintro ⟨hlt, hheld, hmagic, hdesc⟩
    have hheld := (hk.held (q, 1) hne).mp hheld
    rw [hk.arena q 1 hne hheld] at hmagic hdesc
    exact ⟨hlt, hheld, hmagic, hdesc⟩
  · rintro ⟨hlt, hheld, hmagic, hdesc⟩
    rw [← hk.arena q 1 hne hheld] at hmagic hdesc
    exact ⟨hlt, (hk.held (q, 1) hne).mpr hheld, hmagic, hdesc⟩

theorem big (hk : Kept h h' page) (hne : q ≠ page) (hb : BigArena h q n) : BigArena h' q n := by
  have harena := hk.arena q n hne hb.held
  exact ⟨(hk.held (q, n) hne).mpr hb.held, by rw [harena]; exact hb.magic,
    by rw [harena]; exact hb.desc, by rw [harena]; exact hb.freeCnt⟩

theorem isBlock (hk : Kept h h' page) (hx : pgNo x ≠ page) : IsBlock h' d x ↔ IsBlock h d x := by
  constructor
  · rintro ⟨q, i, hs, hi, rfl⟩
    rw [pgNo_blockAt hi] at hx
    exact ⟨q, i, (hk.small hx).mp hs, hi, rfl⟩
  · rintro ⟨q, i, hs, hi, rfl⟩
    rw [pgNo_blockAt hi] at hx
    exact ⟨q, i, (hk.small hx).mpr hs, hi, rfl⟩

end Kept

section

variable {h h' : Heap} {live live' : List Nat} {d page cnt i : Nat}

/-- **一つの page だけが変わったなら、その page の中だけを確かめればよい。** -/
theorem Core.of_kept (hc : Core h live) (hk : Kept h h' page) (hconf : Config h')
    (hpages : ∀ r ∈ h'.held, 0 < r.1 ∧ 0 < r.2 ∧ r.1 + r.2 ≤ 2 ^ 20)
    (hapart : h'.held.Pairwise Apart)
    (hnew : ∀ r ∈ h'.held, r.1 = page →
      (r.2 = 1 ∧ ∃ d, SmallArena h' d r.1) ∨ BigArena h' r.1 r.2)
    (hlive : ∀ x, pgNo x ≠ page → (x ∈ live' ↔ x ∈ live)) (hnodup : live'.Nodup)
    (hlive' : ∀ x ∈ live', pgNo x = page → (∃ d, IsBlock h' d x) ∨ IsBig h' x)
    (hfree : ∀ d x, pgNo x ≠ page → (x ∈ (h'.desc d).freeList ↔ x ∈ (h.desc d).freeList))
    (hfree' : ∀ d x, pgNo x = page →
      (x ∈ (h'.desc d).freeList ↔ IsBlock h' d x ∧ x ∉ live'))
    (hfnodup : ∀ d, (h'.desc d).freeList.Nodup)
    (hcnt : ∀ d, SmallArena h' d page →
      (h'.arena page).freeCnt = (freeIdx live' d page).card) : Core h' live' where
  config := hconf
  pages := hpages
  apart := hapart
  arena := by
    intro r hr
    by_cases hpage : r.1 = page
    · exact hnew r hr hpage
    · rcases hc.arena r ((hk.held r hpage).mp hr) with ⟨hone, d, hs⟩ | hbig
      · exact .inl ⟨hone, d, (hk.small hpage).mpr hs⟩
      · exact .inr (hk.big hpage hbig)
  free_iff := by
    intro d x
    by_cases hx : pgNo x = page
    · exact hfree' d x hx
    · rw [hfree d x hx, hc.free_iff, hk.isBlock hx, hlive x hx]
  free_nodup := hfnodup
  live_nodup := hnodup
  live_mem := by
    intro x hx
    by_cases hpage : pgNo x = page
    · exact hlive' x hx hpage
    · rcases hc.live_mem x ((hlive x hpage).mp hx) with ⟨d, hblock⟩ | ⟨q, n, hbig, rfl⟩
      · exact .inl ⟨d, (hk.isBlock hpage).mpr hblock⟩
      · rw [pgNo_big] at hpage
        exact .inr ⟨q, n, hk.big hpage hbig, rfl⟩
  freeCnt := by
    intro d q hs
    by_cases hq : q = page
    · subst hq
      exact hcnt d hs
    · have hs := (hk.small hq).mp hs
      rw [hk.arena q 1 hq hs.held, hc.freeCnt d q hs]
      exact congrArg Finset.card (freeIdx_congr fun x hx => hlive x (hx ▸ hq)).symm

/-- **一つの block が空きと使用中の間を移る。** -/
theorem Core.recolor (hc : Core h live)
    (hs : SmallArena h d page) (hi : i < perArena d) (hl : SameLayout h h')
    (hlist : ∀ e, e ≠ d → (h'.desc e).freeList = (h.desc e).freeList)
    (harena : ∀ q, q ≠ page → h'.arena q = h.arena q)
    (hlive : ∀ x, x ≠ blockAt d page i → (x ∈ live' ↔ x ∈ live)) (hnodup : live'.Nodup)
    (hfree : ∀ x, x ∈ (h'.desc d).freeList ↔ IsBlock h d x ∧ x ∉ live')
    (hfnodup : (h'.desc d).freeList.Nodup)
    (hcnt : (h'.arena page).freeCnt = (freeIdx live' d page).card) : Core h' live' := by
  have hother : ∀ x, pgNo x ≠ page → (x ∈ live' ↔ x ∈ live) := fun x hx =>
    hlive x fun heq => hx (heq ▸ pgNo_blockAt hi)
  refine hc.of_kept ⟨fun r _ => by rw [hl.held], fun q _ hq _ => harena q hq⟩
    (hl.config hc.config) (by rw [hl.held]; exact hc.pages) (by rw [hl.held]; exact hc.apart)
    ?_ hother hnodup ?_ ?_ ?_ ?_ ?_
  · rintro ⟨q, n⟩ hr rfl
    rw [hl.held] at hr
    cases hc.page_inj hr hs.held rfl
    exact .inl ⟨rfl, d, hl.small.mpr hs⟩
  · intro x hx hxp
    by_cases hxb : x = blockAt d page i
    · exact .inl ⟨d, hl.isBlock.mpr ⟨page, i, hs, hi, hxb⟩⟩
    · obtain ⟨j, hj, hxj⟩ := hc.live_small hs ((hlive x hxb).mp hx) hxp
      exact .inl ⟨d, hl.isBlock.mpr ⟨page, j, hs, hj, hxj⟩⟩
  · intro e x hx
    by_cases he : e = d
    · subst he
      rw [hfree, hc.free_iff, hother x hx]
    · rw [hlist e he]
  · intro e x hx
    rw [hl.isBlock]
    by_cases he : e = d
    · subst he
      exact hfree x
    · -- 移った page の block は、別の descriptor の block ではない
      have hno : ¬IsBlock h e x := fun hblock => he (hs.unique (hx ▸ hblock.arena))
      rw [hlist e he, hc.free_iff]
      exact iff_of_false (fun hb => hno hb.1) fun hb => hno hb.1
  · intro e
    by_cases he : e = d
    · subst he
      exact hfnodup
    · rw [hlist e he]
      exact hc.free_nodup e
  · intro e hs'
    obtain rfl := hs.unique (hl.small.mp hs')
    exact hcnt

end

/-! ## page を受け取る -/

/-- page の範囲を一つ受け取り、その先頭だけを書き換えた。 -/
structure Grown (h h' : Heap) (page cnt : Nat) : Prop where
  grantable : h.Grantable page cnt
  pos : 0 < cnt
  held : h'.held = (page, cnt) :: h.held
  config : Config h'
  arena : ∀ q, q ≠ page → h'.arena q = h.arena q

namespace Grown

variable {h h' : Heap} {live : List Nat} {page cnt x : Nat} {r : Nat × Nat}

variable (hg : Grown h h' page cnt)
include hg

theorem fresh (hc : Core h live) (hr : r ∈ h.held) : r.1 ≠ page := by
  have hapart := hg.grantable.2.2 r hr
  have hpos := (hc.pages r hr).2.1
  have hcnt := hg.pos
  omega

theorem kept : Kept h h' page where
  held r hne := by
    rw [hg.held, List.mem_cons]
    exact or_iff_right fun heq => hne (congrArg Prod.fst heq)
  arena q _ hne _ := hg.arena q hne

theorem pages (hc : Core h live) : ∀ r ∈ h'.held, 0 < r.1 ∧ 0 < r.2 ∧ r.1 + r.2 ≤ 2 ^ 20 := by
  rw [hg.held]
  exact List.forall_mem_cons.mpr ⟨⟨hg.grantable.1, hg.pos, hg.grantable.2.1⟩, hc.pages⟩

theorem apart (hc : Core h live) : h'.held.Pairwise Apart := by
  rw [hg.held]
  exact List.pairwise_cons.mpr ⟨hg.grantable.2.2, hc.apart⟩

theorem eq_of_page (hc : Core h live) (hr : r ∈ h'.held) (hpage : r.1 = page) :
    r = (page, cnt) := by
  rw [hg.held] at hr
  exact (List.mem_cons.mp hr).resolve_right fun hr => hg.fresh hc hr hpage

theorem not_live (hc : Core h live) (hx : pgNo x = page) : x ∉ live := by
  intro hlive
  obtain ⟨n, hheld⟩ := hc.live_held hlive
  exact hg.fresh hc hheld hx

end Grown

/-! ## page を返す -/

/-- page の範囲を一つ返し、その外は変えていない。 -/
structure Dropped (h h' : Heap) (page cnt : Nat) : Prop where
  mem : (page, cnt) ∈ h.held
  held : h'.held = h.held.erase (page, cnt)
  config : Config h'
  arena : ∀ q, q < page ∨ page + cnt ≤ q → h'.arena q = h.arena q

namespace Dropped

variable {h h' : Heap} {live : List Nat} {page cnt : Nat}

theorem mem_held (hd : Dropped h h' page cnt) (hc : Core h live) {r : Nat × Nat} :
    r ∈ h'.held ↔ r.1 ≠ page ∧ r ∈ h.held := by
  rw [hd.held, hc.held_nodup.mem_erase_iff]
  refine and_congr_left fun hr => not_congr ⟨?_, fun heq => hc.page_inj hr hd.mem heq⟩
  rintro rfl
  rfl

theorem kept (hd : Dropped h h' page cnt) (hc : Core h live) : Kept h h' page where
  held r hne := (hd.mem_held hc).trans (and_iff_right hne)
  arena q n hne hr := by
    have hapart : Apart (q, n) (page, cnt) :=
      List.Pairwise.forall hc.apart hr hd.mem fun heq => hne (congrArg Prod.fst heq)
    have hpos := (hc.pages _ hr).2.1
    refine hd.arena q ?_
    simp only [Apart] at hapart hpos
    omega

end Dropped

/-- **page を一続き返す。** その page の block は、どこにも残らない。 -/
theorem Core.dropped {h h' : Heap} {live live' : List Nat} {page cnt : Nat} (hc : Core h live)
    (hd : Dropped h h' page cnt) (hlive : ∀ x, x ∈ live' ↔ pgNo x ≠ page ∧ x ∈ live)
    (hnodup : live'.Nodup)
    (hfree : ∀ d x, x ∈ (h'.desc d).freeList ↔ pgNo x ≠ page ∧ x ∈ (h.desc d).freeList)
    (hfnodup : ∀ d, (h'.desc d).freeList.Nodup) : Core h' live' := by
  have hno : ∀ d, ¬SmallArena h' d page := fun d hs => ((hd.mem_held hc).mp hs.held).1 rfl
  refine hc.of_kept (hd.kept hc) hd.config (fun r hr => hc.pages r ((hd.mem_held hc).mp hr).2) ?_
    (fun r hr hpage => absurd hpage ((hd.mem_held hc).mp hr).1)
    (fun x hx => (hlive x).trans (and_iff_right hx)) hnodup
    (fun x hx hpage => absurd hpage ((hlive x).mp hx).1)
    (fun d x hx => (hfree d x).trans (and_iff_right hx)) (fun d x hx => ?_) hfnodup
    fun d hs => absurd hs (hno d)
  · rw [hd.held]
    exact hc.apart.sublist List.erase_sublist
  · exact iff_of_false (fun hb => ((hfree d x).mp hb).1 hx) fun hb => hno d (hx ▸ hb.1.arena)

/-! ## 二つの for -/

theorem carveLoop_eq (hpage : page ≠ 0) : ∀ (n i : Nat) {h : Heap},
    SmallArena h d page → Config h → i + n ≤ perArena d →
    carveLoop d page n i h =
      .ok (h.setFreeList d ((h.desc d).freeList ++ (List.range' i n).map (blockAt d page)))
  | 0, i, h, _, _, _ => by simp [carveLoop]
  | n + 1, i, h, hs, hc, hle => by
    have hl := sameLayout_setFreeList h d ((h.desc d).freeList ++ [blockAt d page i])
    rw [carveLoop, hs.arenaToBlock hc hpage (by omega)]
    simp only [Except.bind]
    rw [carveLoop_eq hpage n (i + 1) (hl.small.mpr hs) (hl.config hc) (by omega)]
    simp [List.range'_succ]

theorem removeLoop_ok (hpage : page ≠ 0) : ∀ (n i : Nat) {h : Heap},
    SmallArena h d page → Config h → i + n ≤ perArena d → (h.desc d).freeList.Nodup →
    (∀ j, i ≤ j → j < i + n → blockAt d page j ∈ (h.desc d).freeList) →
    ∃ l, removeLoop d page n i h = .ok (h.setFreeList d l) ∧ l.Nodup ∧
      ∀ x, x ∈ l ↔ x ∈ (h.desc d).freeList ∧ ∀ j, i ≤ j → j < i + n → x ≠ blockAt d page j
  | 0, i, h, _, _, _, hnodup, _ => by
    refine ⟨(h.desc d).freeList, by simp [removeLoop], hnodup, fun x => ?_⟩
    refine ⟨fun hx => ⟨hx, fun j hij hj => ?_⟩, fun hx => hx.1⟩
    omega
  | n + 1, i, h, hs, hc, hle, hnodup, hmem => by
    have hl := sameLayout_setFreeList h d ((h.desc d).freeList.erase (blockAt d page i))
    have hmem' : ∀ j, i + 1 ≤ j → j < i + 1 + n →
        blockAt d page j ∈ (h.desc d).freeList.erase (blockAt d page i) := by
      intro j hij hj
      have hne : blockAt d page j ≠ blockAt d page i := fun heq => by
        have := blockAt_inj heq
        omega
      exact (List.mem_erase_of_ne hne).mpr (hmem j (by omega) (by omega))
    obtain ⟨l, heq, hlnodup, hiff⟩ := removeLoop_ok hpage n (i + 1) (hl.small.mpr hs)
      (hl.config hc) (by omega) (by simpa using hnodup.erase _) (by simpa using hmem')
    refine ⟨l, ?_, hlnodup, fun x => ?_⟩
    · rw [removeLoop, hs.arenaToBlock hc hpage (by omega)]
      simp only [Except.bind]
      rw [if_pos (hmem i (Nat.le_refl i) (by omega)), heq, Heap.setFreeList_setFreeList]
    · rw [hiff, Heap.setFreeList_freeList_self, hnodup.mem_erase_iff]
      constructor
      · rintro ⟨⟨hne, hx⟩, hall⟩
        refine ⟨hx, fun j hij hj => ?_⟩
        rcases Nat.eq_or_lt_of_le hij with rfl | hlt
        · exact hne
        · exact hall j hlt (by omega)
      · rintro ⟨hx, hall⟩
        exact ⟨⟨hall i (Nat.le_refl i) (by omega), hx⟩,
          fun j hij hj => hall j (by omega) (by omega)⟩

/-! ## 番地の範囲と数 -/

namespace Core

variable {h : Heap} {live : List Nat} {d page b c n m : Nat}

/-- 使われている block は、arena の先頭の後から受け取った page の終わりまでに収まる。 -/
theorem extent (hc : Core h live) (hb : b ∈ live) :
    ∃ n cnt, blockSize b h = .ok n ∧ (pgNo b, cnt) ∈ h.held ∧
      pgSize * pgNo b + arenaSize ≤ b ∧ b + n ≤ pgSize * (pgNo b + cnt) := by
  rcases hc.live_mem b hb with ⟨d, page, i, hs, hi, rfl⟩ | ⟨page, cnt, hbig, rfl⟩
  · have hfit := block_fits hi
    refine ⟨classSize d, 1, hs.blockSize hc.config (hc.page_ne_zero hs.held) hi, ?_⟩
    rw [pgNo_blockAt hi, Nat.mul_add, Nat.mul_one, blockAt]
    exact ⟨hs.held, by omega, by omega⟩
  · obtain ⟨hpos, hcnt, hle⟩ := hc.pages _ hbig.held
    refine ⟨pgSize * cnt - arenaSize, cnt,
      hbig.blockSize (hc.page_ne_zero hbig.held) hcnt (by simp only at hpos hle; omega), ?_⟩
    rw [pgNo_big, Nat.mul_add]
    have hsz : arenaSize ≤ pgSize * cnt :=
      Nat.le_trans (by decide) (Nat.le_mul_of_pos_right pgSize hcnt)
    exact ⟨hbig.held, Nat.le_refl _, by omega⟩

theorem blocks_disjoint {i j : Nat} (hne : i ≠ j) :
    blockAt d page i + classSize d ≤ blockAt d page j ∨
      blockAt d page j + classSize d ≤ blockAt d page i := by
  have hmul : ∀ {i j : Nat}, i < j → i * classSize d + classSize d ≤ j * classSize d := by
    intro i j hij
    have hle : (i + 1) * classSize d ≤ j * classSize d := Nat.mul_le_mul_right _ hij
    rwa [Nat.add_mul, Nat.one_mul] at hle
  unfold blockAt
  rcases Nat.lt_or_gt_of_ne hne with hlt | hgt
  · have := hmul hlt
    omega
  · have := hmul hgt
    omega

/-- **使われている block は互いに重ならない。** -/
theorem disjoint (hc : Core h live) (hb : b ∈ live) (hc' : c ∈ live) (hne : b ≠ c)
    (hn : blockSize b h = .ok n) (hm : blockSize c h = .ok m) : b + n ≤ c ∨ c + m ≤ b := by
  by_cases hpage : pgNo b = pgNo c
  · -- 同じ page なら小さい arena の別々の block で、大きい block なら同じ番地になる
    rcases hc.live_mem b hb with ⟨d, page, i, hs, hi, rfl⟩ | ⟨page, cnt, hbig, rfl⟩
    · rw [pgNo_blockAt hi] at hpage
      obtain ⟨j, hj, rfl⟩ := hc.live_small hs hc' hpage.symm
      have hz := hc.page_ne_zero hs.held
      rw [hs.blockSize hc.config hz hi] at hn
      rw [hs.blockSize hc.config hz hj] at hm
      cases hn
      cases hm
      exact blocks_disjoint fun heq => hne (by rw [heq])
    · rcases hc.live_mem c hc' with ⟨d, hblock⟩ | ⟨q, k, -, rfl⟩
      · have hs := hblock.arena
        rw [← hpage, pgNo_big] at hs
        exact absurd hbig hs.not_big
      · rw [pgNo_big, pgNo_big] at hpage
        exact absurd (by rw [hpage]) hne
  · obtain ⟨n', k, hn', hk, hlo, hhi⟩ := hc.extent hb
    obtain ⟨m', l, hm', hl, hlo', hhi'⟩ := hc.extent hc'
    rw [hn] at hn'
    rw [hm] at hm'
    cases hn'
    cases hm'
    have hapart : Apart (pgNo b, k) (pgNo c, l) :=
      List.Pairwise.forall hc.apart hk hl fun heq => hpage (congrArg Prod.fst heq)
    rcases hapart with hle | hle
    · have := Nat.mul_le_mul_left pgSize hle
      exact .inl (by simp only at this; omega)
    · have := Nat.mul_le_mul_left pgSize hle
      exact .inr (by simp only at this; omega)

theorem freeCnt_eq_countP (hc : Core h live) (hs : SmallArena h d page) :
    (h.arena page).freeCnt = (h.desc d).freeList.countP fun b => pgNo b = page := by
  have himage : (freeIdx live d page).image (blockAt d page) =
      ((h.desc d).freeList.filter fun b => pgNo b = page).toFinset := by
    ext x
    rw [Finset.mem_image, List.mem_toFinset, List.mem_filter, decide_eq_true_iff, hc.free_iff]
    constructor
    · rintro ⟨i, hi, rfl⟩
      obtain ⟨hi, hlive⟩ := mem_freeIdx.mp hi
      exact ⟨⟨⟨page, i, hs, hi, rfl⟩, hlive⟩, pgNo_blockAt hi⟩
    · rintro ⟨⟨⟨q, i, -, hi, rfl⟩, hlive⟩, hx⟩
      rw [pgNo_blockAt hi] at hx
      subst hx
      exact ⟨i, mem_freeIdx.mpr ⟨hi, hlive⟩, rfl⟩
  have hinj : Function.Injective (blockAt d page) := fun _ _ => blockAt_inj
  rw [hc.freeCnt d page hs, ← Finset.card_image_of_injective _ hinj, himage,
    List.toFinset_card_of_nodup ((hc.free_nodup d).filter _), List.countP_eq_length_filter]

end Core

end Pintos.Malloc
