import Pintos.Properties.Filesys.Create

/-!
# sector の持ち主

使われている sector には持ち主がいる。持ち主は次の四種類である。

* free map の file
* root directory
* root directory の entry が指す file
* 削除されたがまだ開いている file

どれも inode の sector 一つと、data の sector の連続した並びを持つ。
持ち主のいる inode の集合 `Live` の上で `Volume` が成り立つことを、file system の不変量とする。
-/

namespace Pintos

open Infra Function

/-! ## 持ち主 -/

inductive Owner
  | freeMap
  | rootDir
  -- root directory の `k` 番目の entry
  | named (k : Nat)
  -- 削除の印が付いた、開いている inode
  | removed (i : InodeId)
deriving DecidableEq

def rootSlots : Nat := 16

namespace Fs

variable (fs : Fs)

def rootEntry (k : Nat) : DirEntry :=
  DirEntry.ofBytes ((List.range dirEntrySize).map fun j =>
    (fs.diskInode rootDirSector).byteAt fs.device (dirEntrySize * k + j))

def HasOwner : Owner → Prop
  | .freeMap | .rootDir => True
  | .named k => k < rootSlots ∧ (fs.rootEntry k).inUse = true
  | .removed i => i ∈ fs.openInodes ∧ (fs.inode i).removed = true

def sectorOf : Owner → Nat
  | .freeMap => freeMapSector
  | .rootDir => rootDirSector
  | .named k => (fs.rootEntry k).inodeSector
  | .removed i => (fs.inode i).sector

/-- 持ち主のいる inode の sector。 -/
def Live (s : Nat) : Prop := ∃ o, fs.HasOwner o ∧ fs.sectorOf o = s

end Fs

variable {fs fs' : Fs} {refs refs' : InodeId → Nat} {dir i : InodeId} {s k : Nat} {e : DirEntry}

theorem rootEntry_eq (fs : Fs) (k : Nat) : fs.rootEntry k = fs.entryAt rootDirSector k := rfl

theorem live_freeMap (fs : Fs) : fs.Live freeMapSector := ⟨.freeMap, trivial, rfl⟩

theorem live_rootDir (fs : Fs) : fs.Live rootDirSector := ⟨.rootDir, trivial, rfl⟩

theorem Fs.HasOwner.live {o : Owner} (h : fs.HasOwner o) : fs.Live (fs.sectorOf o) := ⟨o, h, rfl⟩

theorem live_congr (h : ∀ o, (fs'.HasOwner o ↔ fs.HasOwner o) ∧
    (fs.HasOwner o → fs'.sectorOf o = fs.sectorOf o)) (s : Nat) : fs'.Live s ↔ fs.Live s := by
  constructor
  · rintro ⟨o, ho, hs⟩
    exact ⟨o, (h o).1.mp ho, ((h o).2 ((h o).1.mp ho)).symm.trans hs⟩
  · rintro ⟨o, ho, hs⟩
    exact ⟨o, (h o).1.mpr ho, ((h o).2 ho).trans hs⟩

/-! ## 不変量 -/

/-- `refs` は inode への参照の数である。 -/
structure Core (refs : InodeId → Nat) (fs : Fs) : Prop where
  volume : Volume fs.Live refs fs
  root_length : (fs.diskInode rootDirSector).length = rootSlots * dirEntrySize
  owner_inj : ∀ o o', fs.HasOwner o → fs.HasOwner o' → fs.sectorOf o = fs.sectorOf o' → o = o'
  root_deny : ∀ i ∈ fs.openInodes, (fs.inode i).sector = rootDirSector →
    (fs.inode i).denyWriteCnt = 0

namespace Core

section

variable (h : Core refs fs)
include h

theorem extents : Extents fs.Live fs := h.volume.extents

theorem table : Table fs.Live refs fs := h.volume.table

theorem root_length_lt : (fs.diskInode rootDirSector).length < 2 ^ 31 :=
  h.extents.length_lt _ (live_rootDir fs)

theorem root_not_self :
    rootDirSector ∉ (fs.diskInode rootDirSector).extent := h.extents.not_self _ (live_rootDir fs)

theorem slotsAt_root : fs.slotsAt rootDirSector = rootSlots := by
  unfold Fs.slotsAt
  rw [h.root_length]
  rfl

theorem rootEntry_congr
    (hroot : ∀ x ∈ fs.sectorsAt rootDirSector, fs'.device.data x = fs.device.data x)
    (hk : k < rootSlots) : fs'.rootEntry k = fs.rootEntry k := by
  refine entryAt_congr h.root_length_lt hroot ?_
  rw [h.slotsAt_root]
  exact hk

theorem owner_congr (hrem : ∀ i, fs'.HasOwner (.removed i) ↔ fs.HasOwner (.removed i))
    (hsec : ∀ i ∈ fs.openInodes, (fs'.inode i).sector = (fs.inode i).sector)
    (hroot : ∀ x ∈ fs.sectorsAt rootDirSector, fs'.device.data x = fs.device.data x) (o : Owner) :
    (fs'.HasOwner o ↔ fs.HasOwner o) ∧ (fs.HasOwner o → fs'.sectorOf o = fs.sectorOf o) := by
  cases o with
  | freeMap | rootDir => exact ⟨Iff.rfl, fun _ => rfl⟩
  | named k =>
    refine ⟨?_, fun ho => ?_⟩
    · simp only [Fs.HasOwner]
      refine and_congr_right fun hk => ?_
      rw [h.rootEntry_congr hroot hk]
    · simp only [Fs.sectorOf]
      rw [h.rootEntry_congr hroot ho.1]
  | removed i => exact ⟨hrem i, fun ho => hsec i ho.1⟩

variable (hroot : fs'.device.data rootDirSector = fs.device.data rootDirSector)
  (hdeny : ∀ i ∈ fs'.openInodes, (fs'.inode i).sector = rootDirSector →
    (fs'.inode i).denyWriteCnt = 0)
include hroot hdeny

/-- **持ち主が増えなければ、不変量は `Volume` だけで決まる。** `φ` は、後の持ち主がどれから来たかである。 -/
theorem of_volume (φ : Owner → Owner)
    (hφ : ∀ o, fs'.HasOwner o → fs.HasOwner (φ o) ∧ fs'.sectorOf o = fs.sectorOf (φ o))
    (hinj : ∀ o o', fs'.HasOwner o → fs'.HasOwner o' → φ o = φ o' → o = o')
    (hv : Volume fs'.Live refs' fs') : Core refs' fs' where
  volume := hv
  root_length := by
    rw [diskInode_congr hroot]
    exact h.root_length
  owner_inj o o' ho ho' he := by
    rw [(hφ o ho).2, (hφ o' ho').2] at he
    exact hinj o o' ho ho' (h.owner_inj _ _ (hφ o ho).1 (hφ o' ho').1 he)
  root_deny := hdeny

theorem of_same
    (hown : ∀ o, (fs'.HasOwner o ↔ fs.HasOwner o) ∧ (fs.HasOwner o → fs'.sectorOf o = fs.sectorOf o))
    (hv : Volume fs.Live refs' fs') : Core refs' fs' := by
  refine h.of_volume hroot hdeny id (fun o ho => ?_) (fun _ _ _ _ he => he)
    (hv.congr (live_congr hown))
  have ho' := (hown o).1.mp ho
  exact ⟨ho', (hown o).2 ho'⟩

omit hroot hdeny

theorem of_device {d : Block} {m : Bitmap}
    (hv : Volume fs.Live refs { fs with device := d, freeMap := m })
    (hroot : ∀ x ∈ fs.sectorsAt rootDirSector, d.data x = fs.device.data x) :
    Core refs { fs with device := d, freeMap := m } := by
  refine h.of_same (hroot _ (mem_sectorsAt_self fs _)) h.root_deny ?_ hv
  exact h.owner_congr (fun _ => Iff.rfl) (fun _ _ => rfl) hroot

theorem named_sector_ne (ho : fs.HasOwner (.named k)) :
    (fs.rootEntry k).inodeSector ≠ freeMapSector ∧ (fs.rootEntry k).inodeSector ≠ rootDirSector := by
  constructor
  · intro he
    cases h.owner_inj (.named k) .freeMap ho trivial he
  · intro he
    cases h.owner_inj (.named k) .rootDir ho trivial he

/-! ## 空き sector の出し入れ -/

theorem root_of_map {m : Bitmap} (hm : MapChanged m fs fs') {x : Nat}
    (hx : x ∈ fs.sectorsAt rootDirSector) : fs'.device.data x = fs.device.data x :=
  hm.data h.extents (live_rootDir fs) (by decide) hx

theorem of_map {m : Bitmap} (hm : MapChanged m fs fs') (hv : Volume fs.Live refs fs') :
    Core refs fs' := by
  have hopen : ∀ {j}, j ∈ fs'.openInodes ↔ j ∈ fs.openInodes := by
    intro j
    rw [hm.openInodes]
  have hroot : ∀ x ∈ fs.sectorsAt rootDirSector, fs'.device.data x = fs.device.data x :=
    fun _ hx => h.root_of_map hm hx
  have hrem : ∀ i, fs'.HasOwner (.removed i) ↔ fs.HasOwner (.removed i) := by
    intro i
    simp only [Fs.HasOwner, hm.inode, hopen]
  refine h.of_same (hroot _ (mem_sectorsAt_self fs _)) (fun i hi => ?_)
    (h.owner_congr hrem (fun i _ => by rw [hm.inode]) hroot) hv
  rw [hm.inode]
  exact h.root_deny i (hopen.mp hi)

theorem claim (hscan : fs.freeMap.scan 0 1 false = some s) :
    Core refs (fs.saveMap (fs.freeMap.fill s 1 true)) ∧
      Claimed (fs.saveMap (fs.freeMap.fill s 1 true)).Live
        (fs.saveMap (fs.freeMap.fill s 1 true)) s := by
  obtain ⟨hv, hc⟩ := h.volume.claim hscan
  have hm := h.volume.mapChanged (Bitmap.fill_bitCnt fs.freeMap s 1 true)
  have hown : ∀ o, ((fs.saveMap (fs.freeMap.fill s 1 true)).HasOwner o ↔ fs.HasOwner o) ∧
      (fs.HasOwner o → (fs.saveMap (fs.freeMap.fill s 1 true)).sectorOf o = fs.sectorOf o) :=
    h.owner_congr (fun _ => Iff.rfl) (fun _ _ => rfl) fun _ hx => h.root_of_map hm hx
  exact ⟨h.of_map hm hv, hc.lt, hc.used, fun t ht => hc.free t ((live_congr hown t).mp ht)⟩

theorem releaseClaimed (hc : Claimed fs.Live fs s) :
    ∃ fs', freeMapRelease s 1 fs = .ok fs' ∧ Core refs fs' ∧
      MapChanged (fs.freeMap.fill s 1 false) fs fs' := by
  obtain ⟨fs', he, hv, hm⟩ := h.volume.releaseClaimed hc
  exact ⟨fs', he, h.of_map hm hv, hm⟩

/-! ## 開閉 -/

theorem of_opened (hv : Volume fs.Live refs' fs') (ho : Opened s fs i fs') : Core refs' fs' := by
  have hroot : ∀ x, fs'.device.data x = fs.device.data x := fun x => by rw [ho.device]
  have hlt := h.table.lt
  have hsec := fun j hj => ho.frame.sector j (hlt j hj)
  refine h.of_same (hroot _) (fun j hj hs => ?_)
    (h.owner_congr (fun j => ho.removed_iff hlt) hsec fun x _ => hroot x) hv
  rcases ho.frame.opened j hj with hj | ⟨-, -, hd⟩
  · rw [hsec j hj] at hs
    rw [ho.frame.deny j (hlt j hj)]
    exact h.root_deny j hj hs
  · exact hd

theorem openInode (hs : fs.Live s) : ∃ i fs', inodeOpen s fs = .ok (i, fs') ∧
      Core (update refs i (refs i + 1)) fs' ∧ Opened s fs i fs' := by
  obtain ⟨i, fs', he, hv, ho⟩ := h.volume.openInode hs
  exact ⟨i, fs', he, h.of_opened hv ho, ho⟩

theorem reopen (hi : i ∈ fs.openInodes) :
    Core (update refs i (refs i + 1)) (inodeReopen i fs) :=
  h.of_opened (h.volume.reopen hi) (.shared hi rfl rfl)

end

variable {n : Nat}

theorem closed_inode (hc : Closed i n fs fs') (j : InodeId) :
    (fs'.inode j).sector = (fs.inode j).sector ∧ (fs'.inode j).removed = (fs.inode j).removed ∧
      (fs'.inode j).denyWriteCnt = (fs.inode j).denyWriteCnt := by
  rw [hc.inode]
  exact ⟨modifyInode_field fs Inode.sector rfl j, modifyInode_field fs Inode.removed rfl j,
    modifyInode_field fs Inode.denyWriteCnt rfl j⟩

theorem closed_mem (h : Core refs fs) (hc : Closed i n fs fs') (j : InodeId) :
    j ∈ fs'.openInodes ↔ j ∈ fs.openInodes ∧ ¬ (n = 1 ∧ j = i) := by
  rw [hc.openInodes]
  split
  · next hn =>
    rw [h.table.nodup.mem_erase_iff, and_comm]
    simp [hn]
  · next hn => simp [hn]

theorem closed_deny (h : Core refs fs) (hc : Closed i n fs fs') (j : InodeId)
    (hj : j ∈ fs'.openInodes) (hsec : (fs'.inode j).sector = rootDirSector) :
    (fs'.inode j).denyWriteCnt = 0 := by
  obtain ⟨hs, -, hd⟩ := closed_inode hc j
  rw [hd]
  exact h.root_deny j ((h.closed_mem hc j).mp hj).1 (hs ▸ hsec)

theorem closed_owner (h : Core refs fs) (hc : Closed i n fs fs')
    (hroot : ∀ x ∈ fs.sectorsAt rootDirSector, fs'.device.data x = fs.device.data x) (o : Owner) :
    (fs'.HasOwner o ↔ fs.HasOwner o ∧ ¬ (n = 1 ∧ o = .removed i)) ∧
      (fs.HasOwner o → fs'.sectorOf o = fs.sectorOf o) := by
  cases o with
  | freeMap | rootDir => simp [Fs.HasOwner, Fs.sectorOf]
  | named k =>
    refine ⟨?_, fun ho => ?_⟩
    · simp only [Fs.HasOwner, reduceCtorEq, and_false, not_false_eq_true, and_true]
      refine and_congr_right fun hk => ?_
      rw [h.rootEntry_congr hroot hk]
    · simp only [Fs.sectorOf]
      rw [h.rootEntry_congr hroot ho.1]
  | removed j =>
    obtain ⟨hs, hr, -⟩ := closed_inode hc j
    refine ⟨?_, fun _ => hs⟩
    simp only [Fs.HasOwner, h.closed_mem hc, hr, Owner.removed.injEq]
    exact and_right_comm

/-- **参照を一つ閉じても不変量は保たれる。** 最後の参照なら、削除された inode の sector を返す。 -/
theorem closeInode (h : Core refs fs) (hi : i ∈ fs.openInodes)
    (hmap : (fs.inode i).sector ≠ freeMapSector) :
    ∃ fs', inodeClose i fs = .ok fs' ∧ Core (update refs i (refs i - 1)) fs' ∧
      Closed i (refs i) fs fs' ∧ (∀ W, Untouched W fs fs') ∧
      ((fs.inode i).removed = false → fs'.device = fs.device ∧ fs'.freeMap = fs.freeMap) := by
  by_cases hfree : refs i = 1 ∧ (fs.inode i).removed = true
  · obtain ⟨fs', he, hv, hc, hunt, -⟩ := h.volume.closeInode_free hi hmap hfree.1 hfree.2
    have hroot : ∀ x ∈ fs.sectorsAt rootDirSector, fs'.device.data x = fs.device.data x := by
      intro x hx
      refine (hunt fun _ => False).data x not_false fun hm => ?_
      exact h.extents.disjoint _ _ (live_rootDir fs) (live_freeMap fs) (by decide) x hx
        (mem_sectorsAt_of_extent hm)
    have hown := h.closed_owner hc hroot
    have hrem : fs.HasOwner (.removed i) := ⟨hi, hfree.2⟩
    have hlive : ∀ s, fs'.Live s ↔ fs.Live s ∧ s ≠ (fs.inode i).sector := by
      intro s
      constructor
      · rintro ⟨o, ho, rfl⟩
        obtain ⟨ho, hne⟩ := (hown o).1.mp ho
        rw [(hown o).2 ho]
        exact ⟨ho.live, fun hs => hne ⟨hfree.1, h.owner_inj o _ ho hrem hs⟩⟩
      · rintro ⟨⟨o, ho, rfl⟩, hne⟩
        refine ⟨o, (hown o).1.mpr ⟨ho, ?_⟩, (hown o).2 ho⟩
        rintro ⟨-, rfl⟩
        exact hne rfl
    refine ⟨fs', he, h.of_volume (hroot _ (mem_sectorsAt_self fs _)) (h.closed_deny hc) id
      (fun o ho => ?_) (fun _ _ _ _ he => he) (hv.congr hlive), hc, hunt, fun hr => ?_⟩
    · have ho := ((hown o).1.mp ho).1
      exact ⟨ho, (hown o).2 ho⟩
    · rw [hfree.2] at hr
      cases hr
  · obtain ⟨fs', he, hv, hc, hdev, hmap'⟩ := h.volume.closeInode_keep hi (fun _ => hmap) hfree
    have hroot : ∀ x, fs'.device.data x = fs.device.data x := fun x => by rw [hdev]
    refine ⟨fs', he, h.of_same (hroot _) (h.closed_deny hc) (fun o => ?_) hv, hc,
      fun W => Untouched.of_eq hdev, fun _ => ⟨hdev, hmap'⟩⟩
    obtain ⟨hown, hsec⟩ := h.closed_owner hc (fun x _ => hroot x) o
    refine ⟨hown.trans ⟨And.left, fun ho => ⟨ho, ?_⟩⟩, hsec⟩
    rintro ⟨hn, rfl⟩
    exact hfree ⟨hn, ho.2⟩

end Core

end Pintos
