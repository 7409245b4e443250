import Pintos.Properties.Filesys.Format

/-!
# sector は持ち主ごとに分かれている

format した装置からどの順に操作しても、持ち主の sector は互いに交わらず、装置の中にあり、
free map で使用中である。したがって `free_map_release` の `ASSERT` は偽にならず、
file に書いてもほかの file の sector は変わらない。
-/

namespace Pintos

open Infra

variable {fs fs' : Fs}

/-- 持ち主の sector。削除された file の場所は、開いている inode が覚えている。 -/
def Fs.ownedSectors (fs : Fs) : Owner → List Nat
  | .removed i => (fs.inode i).sector :: (fs.inode i).data.extent
  | o => fs.sectorsAt (fs.sectorOf o)

/-- root directory に名前がある file か、削除されたが開いている file である。 -/
def Owner.isFile : Owner → Bool
  | .freeMap | .rootDir => false
  | .named _ | .removed _ => true

/-- 操作は、持ち主 `o` の file を開いた `struct file` への `file_write` である。 -/
def FsOp.writesTo (op : FsOp) (fs : Fs) (o : Owner) : Prop :=
  ∃ f buffer, op = .fileWrite f buffer ∧ (fs.inode (fs.file f).inode).sector = fs.sectorOf o

theorem Core.ownedSectors_eq {refs : InodeId → Nat} (h : Core refs fs) {o : Owner}
    (ho : fs.HasOwner o) : fs.ownedSectors o = fs.sectorsAt (fs.sectorOf o) := by
  cases o with
  | removed i =>
    simp only [Fs.ownedSectors, Fs.sectorOf, Fs.sectorsAt]
    rw [h.table.data i ho.1]
  | _ => rfl

theorem Core.file_not_mem {refs : InodeId → Nat} (h : Core refs fs) {o : Owner} (ho : fs.HasOwner o)
    (hfile : o.isFile = true) {x : Nat} (hx : x ∈ fs.sectorsAt (fs.sectorOf o)) :
    x ∉ (fs.diskInode freeMapSector).extent ∧ x ∉ (fs.diskInode rootDirSector).extent := by
  constructor
  · intro hm
    refine h.extents.disjoint _ _ ho.live (live_freeMap fs) (fun he => ?_) x hx
      (mem_sectorsAt_of_extent hm)
    rw [h.owner_inj o .freeMap ho trivial he] at hfile
    cases hfile
  · intro hm
    refine h.extents.disjoint _ _ ho.live (live_rootDir fs) (fun he => ?_) x hx
      (mem_sectorsAt_of_extent hm)
    rw [h.owner_inj o .rootDir ho trivial he] at hfile
    cases hfile

theorem Sound.not_writes (h : Sound fs) {op : FsOp} (hcall : op.callable fs = true) {o : Owner}
    (ho : fs.HasOwner o) (hfile : o.isFile = true) (hw : ¬ op.writesTo fs o) {x : Nat}
    (hx : x ∈ fs.sectorsAt (fs.sectorOf o)) : ¬ op.writes fs x := by
  have hl := h.core.extents
  cases op with
  | filesysCreate name initialSize =>
    rintro (hfree | hm)
    · exact hl.not_mem_of_free ho.live hfree hx
    · exact (h.core.file_not_mem ho hfile hx).2 hm
  | filesysRemove name => exact fun hm => (h.core.file_not_mem ho hfile hx).2 hm
  | fileWrite f buffer =>
    intro hm
    have hf : fs.handles f := by simpa [FsOp.callable, FsOp.file?] using hcall
    have hi := h.files.isOpen f hf.1
    simp only [FsOp.writes] at hm
    rw [h.core.table.data _ hi] at hm
    have hne : fs.sectorOf o ≠ (fs.inode (fs.file f).inode).sector :=
      fun he => hw ⟨f, buffer, rfl, he.symm⟩
    exact hl.disjoint _ _ ho.live (h.core.table.live _ hi) hne x hx (mem_sectorsAt_of_extent hm)
  | _ => exact fun hm => hm

/--
**持ち主の sector は互いに交わらず、装置の中にあり、使用中である。**

* 一つの持ち主の sector に重なりはなく、どれも装置の中にあって free map で使用中である
* 二つの持ち主の sector は交わらない
* どの操作も `free_map_release` の `ASSERT` では止まらない
* 操作の後で file の sector の中身が変わるのは、その file への `file_write` だけである
-/
theorem reachable_owners_disjoint (h : Reachable fileSystem fs) :
    (∀ o, fs.HasOwner o → (fs.ownedSectors o).Nodup ∧
      ∀ x ∈ fs.ownedSectors o, x < fs.device.size ∧ fs.freeMap.bits x = true) ∧
    (∀ o o', fs.HasOwner o → fs.HasOwner o' → o ≠ o' →
      ∀ x ∈ fs.ownedSectors o, x ∉ fs.ownedSectors o') ∧
    (∀ op : FsOp, op.callable fs = true → op.run fs ≠ .error .freeMapRelease) ∧
    (∀ (op : FsOp) fs', op.callable fs = true → op.run fs = .ok fs' →
      ∀ o, fs.HasOwner o → o.isFile = true → ¬ op.writesTo fs o →
        ∀ x ∈ fs.ownedSectors o, fs'.device.data x = fs.device.data x) := by
  have hs := reachable_sound h
  have hl := hs.core.extents
  refine ⟨?_, ?_, ?_, ?_⟩
  · intro o ho
    rw [hs.core.ownedSectors_eq ho]
    exact ⟨List.nodup_cons.mpr ⟨hl.not_self _ ho.live, List.nodup_range'⟩, hl.inside _ ho.live⟩
  · intro o o' ho ho' hne
    rw [hs.core.ownedSectors_eq ho, hs.core.ownedSectors_eq ho']
    exact hl.disjoint _ _ ho.live ho'.live fun he => hne (hs.core.owner_inj o o' ho ho' he)
  · intro op hcall he
    rcases hs.run hcall with ⟨p, he', hp⟩ | ⟨fs', he', -⟩
    · rw [he'] at he
      rw [Except.error.inj he] at hp
      simp at hp
    · rw [he'] at he
      cases he
  · intro op fs' hcall he o ho hfile hw x hx
    rw [hs.core.ownedSectors_eq ho] at hx
    rcases hs.run hcall with ⟨p, he', -⟩ | ⟨fs₁, he', -, hunt⟩
    · rw [he'] at he
      cases he
    · obtain rfl := Except.ok.inj (he'.symm.trans he)
      exact hunt.data x (hs.not_writes hcall ho hfile hw hx) (hs.core.file_not_mem ho hfile hx).1

/-- 開いたまま削除した file と、同じ名前で作り直した file とは、sector を分け合わない。 -/
theorem reachable_owners_disjoint_recreate :
    ∃ fs i, Reachable fileSystem fs ∧ fs.HasOwner (.removed i) ∧ fs.HasOwner (.named 0) ∧
      ∀ x ∈ fs.ownedSectors (.removed i), x ∉ fs.ownedSectors (.named 0) := by
  obtain ⟨fs, hr, hp⟩ := exists_reachable_of_format fsStep 16 (by decide)
    [.filesysCreate ⟨[97], by decide⟩ 600, .filesysOpen ⟨[97], by decide⟩,
      .filesysRemove ⟨[97], by decide⟩, .filesysCreate ⟨[97], by decide⟩ 10]
    (p := fun fs => fs.openInodes.any (fun i => (fs.inode i).removed) && (fs.rootEntry 0).inUse)
    (by decide +kernel)
  simp only [Bool.and_eq_true, List.any_eq_true] at hp
  obtain ⟨⟨i, hi, hrem⟩, hu⟩ := hp
  have ho : fs.HasOwner (.removed i) := ⟨hi, hrem⟩
  have ho' : fs.HasOwner (.named 0) := ⟨by decide, hu⟩
  exact ⟨fs, i, hr, ho, ho', (reachable_owners_disjoint hr).2.1 _ _ ho ho' (by simp)⟩

end Pintos
