import Pintos.Properties.Filesys.Directory

/-!
# inode の作成と、中身の書き込み

作りかけの inode の sector は、使用中だが `L` に入っていない（`Fresh`）。
上の層が名前などを付けたときに `L` に加わる。

中身の書き込みは、その inode の data の sector だけを変える。
-/

namespace Pintos

open Infra

variable {fs fs' : Fs} {L : Nat → Prop} {refs : InodeId → Nat} {i : InodeId} {s : Nat}

/-! ## 作りかけの inode -/

/-- sector `s` の inode は書かれているが、まだ `L` に入っていない。 -/
structure Fresh (L : Nat → Prop) (fs : Fs) (s : Nat) : Prop where
  length_lt : (fs.diskInode s).length < 2 ^ 31
  extent_le : (fs.diskInode s).start + bytesToSectors (fs.diskInode s).length ≤ fs.device.size
  inside : ∀ x ∈ fs.sectorsAt s, x < fs.device.size ∧ fs.freeMap.bits x = true
  not_self : s ∉ (fs.diskInode s).extent
  disjoint : ∀ t, L t → ∀ x ∈ fs.sectorsAt t, x ∉ fs.sectorsAt s

theorem Fresh.not_live (h : Fresh L fs s) : ¬ L s := fun hs =>
  h.disjoint s hs s (mem_sectorsAt_self fs s) (mem_sectorsAt_self fs s)

theorem Extents.add (h : Extents L fs) (hf : Fresh L fs s) :
    Extents (fun t => t = s ∨ L t) fs where
  size_lt := h.size_lt
  map_cnt := h.map_cnt
  map_live := .inr h.map_live
  map_length := h.map_length
  length_lt := by
    rintro t (rfl | ht)
    · exact hf.length_lt
    · exact h.length_lt t ht
  extent_le := by
    rintro t (rfl | ht)
    · exact hf.extent_le
    · exact h.extent_le t ht
  inside := by
    rintro t (rfl | ht)
    · exact hf.inside
    · exact h.inside t ht
  not_self := by
    rintro t (rfl | ht)
    · exact hf.not_self
    · exact h.not_self t ht
  disjoint := by
    rintro t u (rfl | ht) (rfl | hu) hne x hx hx'
    · exact hne rfl
    · exact hf.disjoint u hu x hx' hx
    · exact hf.disjoint t ht x hx hx'
    · exact h.disjoint t u ht hu hne x hx hx'

theorem Volume.add (h : Volume L refs fs) (hf : Fresh L fs s) :
    Volume (fun t => t = s ∨ L t) refs fs :=
  ⟨h.extents.add hf, { h.table with live := fun i hi => .inr (h.table.live i hi) }, h.saved⟩

/-! ## inode を書く -/

theorem ofSector_congr {f g : Nat → UInt8} (h : ∀ o < 8, f o = g o) :
    InodeDisk.ofSector f = InodeDisk.ofSector g := by
  unfold InodeDisk.ofSector
  rw [h 0 (by decide), h 1 (by decide), h 2 (by decide), h 3 (by decide), h 4 (by decide),
    h 5 (by decide), h 6 (by decide), h 7 (by decide)]

theorem ofSector_toSector {d : InodeDisk} (hs : d.start < 2 ^ 32) (hl : d.length < 2 ^ 32) :
    InodeDisk.ofSector d.toSector = d := by
  obtain ⟨start, length⟩ := d
  simp only [InodeDisk.ofSector, InodeDisk.mk.injEq]
  exact ⟨ofLe32_le32 hs, ofLe32_le32 hl⟩

section withInode

variable {start : Nat} {length : Int}

theorem withInode_data {x : Nat} (hx : x ≠ s)
    (hr : ¬ (start ≤ x ∧ x < start + bytesToSectors length)) :
    (fs.withInode s start length).device.data x =
      (fs.saveMap (fs.freeMap.fill start (bytesToSectors length) true)).device.data x := by
  unfold Fs.withInode
  simp only []
  rw [zeroed_data_of_not_mem hr, Block.put_data_of_ne hx]

theorem withInode_diskInode (fs : Fs) (hlen : 0 ≤ length) (hlt : length < 2 ^ 31)
    (hstart : start < 2 ^ 32)
    (hr : ¬ (start ≤ s ∧ s < start + bytesToSectors length)) :
    (fs.withInode s start length).diskInode s = ⟨start, length.toNat⟩ := by
  have hd : InodeDisk.ofSector (InodeDisk.toSector ⟨start, length.toNat⟩) = ⟨start, length.toNat⟩ :=
    ofSector_toSector hstart (by show length.toNat < 2 ^ 32; omega)
  rw [← hd]
  refine ofSector_congr fun o ho => ?_
  unfold Fs.withInode
  simp only []
  rw [zeroed_data_of_not_mem hr, Block.put_data_self (by unfold blockSectorSize; omega)]

theorem frame_withInode (fs : Fs) (s start : Nat) (length : Int) :
    Frame fs (fs.withInode s start length) :=
  ⟨rfl, rfl, rfl, rfl, Nat.le_refl _, fun _ _ => rfl, fun _ _ => rfl, fun _ hj => .inl hj⟩

/-- sector `s` は取ってあるが、まだ誰のものでもない。 -/
structure Claimed (L : Nat → Prop) (fs : Fs) (s : Nat) : Prop where
  lt : s < fs.device.size
  used : fs.freeMap.bits s = true
  free : ∀ t, L t → s ∉ fs.sectorsAt t

theorem Fresh.claimed (h : Fresh L fs s) : Claimed L fs s where
  lt := (h.inside s (mem_sectorsAt_self fs s)).1
  used := (h.inside s (mem_sectorsAt_self fs s)).2
  free t ht hs := h.disjoint t ht s hs (mem_sectorsAt_self fs s)

theorem Volume.claim (h : Volume L refs fs) (hscan : fs.freeMap.scan 0 1 false = some s) :
    Volume L refs (fs.saveMap (fs.freeMap.fill s 1 true)) ∧
      Claimed L (fs.saveMap (fs.freeMap.fill s 1 true)) s := by
  obtain ⟨-, hle, hbits⟩ := Bitmap.scan_eq_some hscan
  have hfree : fs.freeMap.bits s = false := hbits s (Nat.le_refl _) (Nat.lt_succ_self _)
  have hcnt : (fs.freeMap.fill s 1 true).bitCnt = fs.freeMap.bitCnt := rfl
  refine ⟨h.allocate s 1, ?_, ?_, fun t ht => ?_⟩
  · rw [saveMap_size, ← h.extents.map_cnt]
    exact hle
  · simp [Fs.saveMap, Bitmap.fill]
  · rw [sectorsAt_congr (h.saveMap_node hcnt ht)]
    exact h.extents.not_mem_of_free ht hfree

theorem Volume.releaseClaimed (h : Volume L refs fs) (hc : Claimed L fs s) :
    ∃ fs', freeMapRelease s 1 fs = .ok fs' ∧ Volume L refs fs' ∧
      MapChanged (fs.freeMap.fill s 1 false) fs fs' := by
  refine h.freeMapRelease_ok s 1 hc.lt (fun x hle hlt => ?_) (fun t ht x hx hr => ?_)
  · obtain rfl : x = s := by omega
    exact hc.used
  · obtain rfl : x = s := by omega
    exact hc.free t ht hx

theorem Extents.not_mem_new (h : Extents L fs) (hc : Claimed L fs s)
    (hscan : fs.freeMap.scan 0 (bytesToSectors length) false = some start) {t x : Nat}
    (ht : L t) (hx : x ∈ fs.sectorsAt t) :
    x ≠ s ∧ ¬ (start ≤ x ∧ x < start + bytesToSectors length) := by
  obtain ⟨-, -, hbits⟩ := Bitmap.scan_eq_some hscan
  refine ⟨?_, fun hr => h.not_mem_of_free ht (hbits x hr.1 hr.2) hx⟩
  rintro rfl
  exact hc.free t ht hx

variable (h : Volume L refs fs) (hc : Claimed L fs s)
  (hscan : fs.freeMap.scan 0 (bytesToSectors length) false = some start)

include h hc hscan

theorem Volume.withInode_node {t : Nat} (ht : L t) :
    (fs.withInode s start length).device.data t = fs.device.data t := by
  obtain ⟨hne, hr⟩ := h.extents.not_mem_new hc hscan ht (mem_sectorsAt_self fs t)
  rw [withInode_data hne hr]
  exact h.saveMap_node (Bitmap.fill_bitCnt ..) ht

theorem Volume.withInode_sector {t x : Nat} (ht : L t) (hne : t ≠ freeMapSector)
    (hx : x ∈ fs.sectorsAt t) :
    (fs.withInode s start length).device.data x = fs.device.data x := by
  obtain ⟨hne', hr⟩ := h.extents.not_mem_new hc hscan ht hx
  rw [withInode_data hne' hr]
  exact h.saveMap_sector (Bitmap.fill_bitCnt ..) ht hne hx

theorem Volume.untouched_withInode {W : Nat → Prop} (hs : W s)
    (hW : ∀ x, fs.freeMap.bits x = false → W x) :
    Untouched W fs (fs.withInode s start length) := by
  obtain ⟨-, -, hbits⟩ := Bitmap.scan_eq_some hscan
  refine ⟨h.withInode_node hc hscan h.extents.map_live, fun x hx hm => ?_⟩
  have hne : x ≠ s := by
    rintro rfl
    exact hx hs
  rw [withInode_data hne fun hr => hx (hW x (hbits x hr.1 hr.2))]
  exact h.saveMap_data (Bitmap.fill_bitCnt ..) hm

theorem Volume.withInode_diskInode (hlen : 0 ≤ length) (hlt : length < 2 ^ 31) :
    (fs.withInode s start length).diskInode s = ⟨start, length.toNat⟩ := by
  obtain ⟨-, hle, hbits⟩ := Bitmap.scan_eq_some hscan
  rw [h.extents.map_cnt] at hle
  refine Pintos.withInode_diskInode fs hlen hlt (by have := h.extents.size_lt; omega) ?_
  rintro ⟨h₁, h₂⟩
  have hb := hbits s h₁ h₂
  rw [hc.used] at hb
  cases hb

/-- **inode を作っても不変量は保たれ、新しい inode の sector は誰のものでもない。** -/
theorem Volume.withInode (hlen : 0 ≤ length) (hlt : length < 2 ^ 31) :
    Volume L refs (fs.withInode s start length) ∧ Fresh L (fs.withInode s start length) s := by
  obtain ⟨-, hle, hbits⟩ := Bitmap.scan_eq_some hscan
  rw [h.extents.map_cnt] at hle
  have hsize : (fs.withInode s start length).device.size = fs.device.size := saveMap_size ..
  have hmap : ∀ x, (fs.withInode s start length).freeMap.bits x =
      if start ≤ x ∧ x < start + bytesToSectors length then true else fs.freeMap.bits x :=
    fun _ => rfl
  have hself : ¬ (start ≤ s ∧ s < start + bytesToSectors length) := by
    rintro ⟨h₁, h₂⟩
    have hb := hbits s h₁ h₂
    rw [hc.used] at hb
    cases hb
  have hnode := h.withInode_diskInode hc hscan hlen hlt
  have hcast : ((length.toNat : Nat) : Int) = length := Int.toNat_of_nonneg hlen
  have hsectors : (fs.withInode s start length).sectorsAt s =
      s :: List.range' start (bytesToSectors length) := by
    unfold Fs.sectorsAt InodeDisk.extent
    rw [hnode, hcast]
  have hused : ∀ x, fs.freeMap.bits x = true →
      (fs.withInode s start length).freeMap.bits x = true := by
    intro x hx
    rw [hmap, hx, ite_self]
  constructor
  · refine h.of_device hsize rfl (fun t ht => h.withInode_node hc hscan ht)
      (fun t ht x hx => hused x (h.extents.inside t ht x hx).2) ?_
    -- 新しい sector を書く前に free map は書かれていて、その sector には触れない
    have ha := h.allocate start (bytesToSectors length)
    refine ha.saved.congr ha.extents rfl fun x hx => ?_
    rw [sectorsAt_congr (h.saveMap_node (Bitmap.fill_bitCnt ..) h.extents.map_live)] at hx
    obtain ⟨hne, hr⟩ := h.extents.not_mem_new hc hscan h.extents.map_live hx
    exact withInode_data hne hr
  · refine ⟨?_, ?_, ?_, ?_, ?_⟩
    · rw [hnode]
      show length.toNat < 2 ^ 31
      omega
    · rw [hnode, hcast, hsize]
      exact hle
    · intro x hx
      rw [hsize]
      rw [hsectors] at hx
      rcases List.mem_cons.mp hx with rfl | hx
      · exact ⟨hc.lt, hused x hc.used⟩
      · have hx := List.mem_range'_1.mp hx
        rw [hmap, if_pos hx]
        exact ⟨by omega, rfl⟩
    · rw [hnode, mem_extent, hcast]
      exact hself
    · intro t ht x hx hxs
      rw [sectorsAt_congr (h.withInode_node hc hscan ht)] at hx
      obtain ⟨hne, hr⟩ := h.extents.not_mem_new hc hscan ht hx
      rw [hsectors] at hxs
      rcases List.mem_cons.mp hxs with hxs | hxs
      · exact hne hxs
      · exact hr (List.mem_range'_1.mp hxs)

end withInode

/-! ## 中身を書く -/

section store

variable {offset : Nat} {bytes : List UInt8} (h : Volume L refs fs) (hs : L s)
  (hle : bytes.length ≤ (fs.diskInode s).length - offset)

include h hs hle

/-- **inode の中身を書き換える。** free map の file は別の場所にある。 -/
theorem Volume.store (hne : s ≠ freeMapSector) :
    Volume L refs { fs with device := fs.device.store (fs.diskInode s).start offset bytes } := by
  have hl := h.extents
  have hout : ∀ x, x ∉ (fs.diskInode s).extent →
      (fs.device.store (fs.diskInode s).start offset bytes).data x = fs.device.data x :=
    fun x hx => store_data_eq (hl.length_lt s hs) hle hx
  refine h.of_device rfl rfl (fun t ht => hout t (hl.not_mem_extent ht hs))
    (fun t ht x hx => (hl.inside t ht x hx).2) ?_
  refine h.saved.congr hl rfl fun x hx => hout x fun hm => ?_
  exact hl.disjoint _ _ hl.map_live hs hne.symm x hx (mem_sectorsAt_of_extent hm)

theorem Volume.untouched_store :
    Untouched (· ∈ (fs.diskInode s).extent) fs
      { fs with device := fs.device.store (fs.diskInode s).start offset bytes } :=
  ⟨store_data_eq (h.extents.length_lt s hs) hle (h.extents.not_mem_extent h.extents.map_live hs),
    fun _ hx _ => store_data_eq (h.extents.length_lt s hs) hle hx⟩

end store

theorem Volume.putEntry (h : Volume L refs fs) (hs : L s) (hne : s ≠ freeMapSector) (k : Nat)
    (e : DirEntry) : Volume L refs (fs.putEntry s k e) :=
  h.store hs (length_take_entry e _ _) hne

theorem Volume.untouched_putEntry (h : Volume L refs fs) (hs : L s) (k : Nat) (e : DirEntry) :
    Untouched (· ∈ (fs.diskInode s).extent) fs (fs.putEntry s k e) :=
  h.untouched_store hs (length_take_entry e _ _)

end Pintos
