import Pintos.Properties.Filesys.Format

/-!
# free map は disk に残る

操作が終わるたびに、free map の file の bit は memory の中の free map と同じである。
したがって format せずに起動し直すと、`free_map_open` は同じ free map を読み戻す。

起動し直すと開いていた file は失われるが、root directory の file は残るので、
そこからの操作についても同じことが言える。
-/

namespace Pintos

open Infra

variable {fs fs' : Fs}

/-- 起動し直した状態。開いているのは free map の file だけである。 -/
def Fs.rebooted (fs : Fs) (garbage : Nat → Bool) : Fs :=
  { (freeMapInit fs.device.size fs.device.data garbage).openedMap with
    freeMap := (freeMapInit fs.device.size fs.device.data garbage).loadedMap }

variable (garbage : Nat → Bool)

theorem mapOpen_rebooted : MapOpen (fs.rebooted garbage) 0 0 := by
  have ho : MapOpen (freeMapInit fs.device.size fs.device.data garbage).openedMap 0 0 :=
    mapOpen_openedMap rfl rfl
  exact ho.of_device rfl

/-- 起動し直すと、削除されたが開いていた file は持ち主でなくなる。 -/
theorem hasOwner_rebooted {o : Owner} (ho : (fs.rebooted garbage).HasOwner o) :
    fs.HasOwner o ∧ (fs.rebooted garbage).sectorOf o = fs.sectorOf o := by
  cases o with
  | removed j =>
    have hm : MapOpen (fs.rebooted garbage) 0 0 := mapOpen_rebooted garbage
    obtain rfl := hm.mem_openInodes.mp ho.1
    have hrem := ho.2
    rw [hm.inode] at hrem
    cases hrem
  | _ => exact ⟨ho, rfl⟩

namespace Sound

variable (h : Sound fs)
include h

theorem reboot_eq : reboot garbage fs = .ok (fs.rebooted garbage) := by
  have hl := h.core.extents
  refine freeMapOpen_eq rfl (hl.inside _ hl.map_live _ (mem_sectorsAt_self fs _)).1 ?_
    (hl.fits hl.map_live)
  show (fs.diskInode freeMapSector).length = Bitmap.byteCnt fs.device.size
  rw [← hl.map_cnt]
  exact hl.map_length

/-- **読み戻した free map は、起動し直す前のものである。** -/
theorem rebooted_bits {x : Nat} (hx : x < fs.device.size) :
    (fs.rebooted garbage).freeMap.bits x = fs.freeMap.bits x := by
  have hbit : (fs.rebooted garbage).freeMap.bits x = (decide (x < fs.device.size) && fs.savedBit x) :=
    rfl
  rw [hbit, decide_eq_true hx, Bool.true_and]
  exact h.core.volume.saved x (by rw [h.core.extents.map_cnt]; exact hx)

theorem rebooted : Sound (fs.rebooted garbage) := by
  have hm : MapOpen (fs.rebooted garbage) 0 0 := mapOpen_rebooted garbage
  have hlive : ∀ s, (fs.rebooted garbage).Live s → fs.Live s := by
    rintro s ⟨o, ho, rfl⟩
    obtain ⟨ho', hs⟩ := hasOwner_rebooted garbage ho
    exact ⟨o, ho', hs.symm⟩
  have hextents : Extents (fs.rebooted garbage).Live (fs.rebooted garbage) := by
    refine h.core.extents.mono hlive (live_freeMap _) rfl h.core.extents.map_cnt.symm
      (fun _ _ => rfl) fun s hs x hx => ?_
    obtain ⟨hlt, hused⟩ := h.core.extents.inside s (hlive s hs) x hx
    exact (h.rebooted_bits garbage hlt).trans hused
  have hsaved : Saved (fs.rebooted garbage) := by
    intro x hx
    have hx : x < fs.device.size := hx
    rw [h.rebooted_bits garbage hx, ← h.core.volume.saved x (by rw [h.core.extents.map_cnt]; exact hx)]
    rfl
  refine ⟨h.core.of_volume rfl (fun j hj _ => ?_) id (fun _ ho => hasOwner_rebooted garbage ho)
    (fun _ _ _ _ he => he) ⟨hextents, hm.table, hsaved⟩, hm.fileTable,
    fun g hg => absurd hg (hm.not_handles g)⟩
  rw [hm.mem_openInodes.mp hj, hm.inode]

end Sound

theorem booted_sound (h : Reachable bootedFileSystem fs) : Sound fs := by
  refine Reachable.invariant (I := Sound) (fun _ hi => IsFormatted.sound hi)
    (fun fs e fs' hs hstep => ?_) h
  have hstep : bootStep fs e = some fs' := hstep
  cases e with
  | run op => exact hs.fsStep hstep
  | reboot garbage =>
    rw [bootStep, hs.reboot_eq garbage] at hstep
    rw [← Option.some.inj hstep]
    exact hs.rebooted garbage

/--
**free map の file は、いつも memory の中の free map と同じである。**

どの大きさの装置でも、format した後の操作がどの順に終わっても、file の bit は free map の bit に等しい。
したがって、format せずに起動し直せば、`free_map_open` は同じ free map を読み戻す。
-/
theorem reachable_freeMap_restored (h : Reachable bootedFileSystem fs) (garbage : Nat → Bool) :
    fs.freeMap.bitCnt = fs.device.size ∧
    (∀ x < fs.device.size, fs.savedBit x = fs.freeMap.bits x) ∧
    ∃ fs', reboot garbage fs = .ok fs' ∧ fs'.device = fs.device ∧
      fs'.freeMap.bitCnt = fs.freeMap.bitCnt ∧
      ∀ x < fs.device.size, fs'.freeMap.bits x = fs.freeMap.bits x := by
  have hs := booted_sound h
  have hcnt := hs.core.extents.map_cnt
  refine ⟨hcnt, ?_, fs.rebooted garbage, hs.reboot_eq garbage, rfl, hcnt.symm, ?_⟩
  · rw [← hcnt]
    exact hs.core.volume.saved
  · exact fun x hx => hs.rebooted_bits garbage hx

/-- 大きさが語の倍数でない装置で file を作り、起動し直す。 -/
theorem reachable_freeMap_restored_created :
    ∃ fs fs', Reachable bootedFileSystem fs ∧ fs.device.size = 9 ∧ fs.freeMap.bits 5 = true ∧
      reboot (fun _ => true) fs = .ok fs' ∧ fs'.freeMap.bits 5 = true := by
  obtain ⟨fs, hr, hp⟩ := exists_reachable_of_format bootStep 9 (by decide)
    [.run (.filesysCreate ⟨[97], by decide⟩ 1), .reboot fun _ => false]
    (p := fun fs => fs.device.size == 9 && fs.freeMap.bits 5) (by decide +kernel)
  simp only [Bool.and_eq_true, beq_iff_eq] at hp
  obtain ⟨-, -, fs', he, -, -, hbits⟩ := reachable_freeMap_restored hr fun _ => true
  exact ⟨fs, fs', hr, hp.1, hp.2, he, (hbits 5 (by rw [hp.1]; decide)).trans hp.2⟩

end Pintos
