import Pintos.Properties.Filesys.Sound

/-!
# format した file system

`do_format` は free map の file と root directory を作り、free map の file を閉じる。
`free_map_open` がそれを開き直し、free map を読み戻す。
出来上がった状態（`Formatted`）では、この二つのほかに持ち主がいない。
-/

namespace Pintos

open Infra

variable {fs fs' : Fs}

/-- free map の file が disk の上にある。`s₀` はその data の先頭である。 -/
structure MapMade (fs : Fs) (s₀ : Nat) : Prop where
  size_lt : fs.device.size < 2 ^ 32
  map_cnt : fs.freeMap.bitCnt = fs.device.size
  mapNode : fs.diskInode freeMapSector = ⟨s₀, Bitmap.byteCnt fs.freeMap.bitCnt⟩
  extent_le : s₀ + bytesToSectors (Bitmap.byteCnt fs.freeMap.bitCnt) ≤ fs.device.size
  extent_ge : ∀ x ∈ (fs.diskInode freeMapSector).extent, 2 ≤ x
  used : ∀ x, x = 0 ∨ x = 1 ∨ x ∈ (fs.diskInode freeMapSector).extent → fs.freeMap.bits x = true

/-- 空の root directory も disk の上にある。`s₁` はその data の sector である。 -/
structure DiskMade (fs : Fs) (s₀ s₁ : Nat) : Prop extends MapMade fs s₀ where
  rootNode : fs.diskInode rootDirSector = ⟨s₁, rootSlots * dirEntrySize⟩
  zero : ∀ o < blockSectorSize, fs.device.data s₁ o = 0
  root_ge : 2 ≤ s₁
  root_lt : s₁ < fs.device.size
  root_used : fs.freeMap.bits s₁ = true
  root_not_mem : s₁ ∉ (fs.diskInode freeMapSector).extent

/-- 開いているのは free map の file だけである。 -/
structure MapOpen (fs : Fs) (i : InodeId) (f : FileId) : Prop where
  openInodes : fs.openInodes = [i]
  inode : fs.inode i = ⟨freeMapSector, 1, false, 0, fs.diskInode freeMapSector⟩
  nextInode : i < fs.nextInode
  files : fs.files = [f]
  file : fs.file f = ⟨i, 0, false⟩
  nextFile : f < fs.nextFile
  freeMapFile : fs.freeMapFile = some f

structure Formatted (fs : Fs) (s₀ s₁ : Nat) (i : InodeId) (f : FileId) : Prop extends
  DiskMade fs s₀ s₁, MapOpen fs i f where
  saved : Saved fs

theorem MapMade.extent_lt {s₀ : Nat} (h : MapMade fs s₀) (x : Nat)
    (hx : x ∈ (fs.diskInode freeMapSector).extent) : x < fs.device.size := by
  rw [mem_extent, h.mapNode] at hx
  have := h.extent_le
  simp only [] at hx
  omega

theorem MapMade.length_lt {s₀ : Nat} (h : MapMade fs s₀) :
    (fs.diskInode freeMapSector).length < 2 ^ 31 := by
  have hsize := h.size_lt
  have hcnt := h.map_cnt
  rw [h.mapNode]
  simp only [Bitmap.byteCnt, Bitmap.elemCnt]
  omega

/-! ## 開いているのは free map の file だけ -/

namespace MapOpen

variable {i : InodeId} {f : FileId} (h : MapOpen fs i f)

include h

theorem fileRefs_eq (j : InodeId) : fs.fileRefs j = if i = j then 1 else 0 := by
  unfold Fs.fileRefs
  rw [h.files]
  simp [List.countP_cons, h.file]

theorem denyRefs_eq (j : InodeId) : fs.denyRefs j = 0 := by
  unfold Fs.denyRefs
  rw [h.files]
  simp [h.file]

theorem mem_openInodes {j : InodeId} : j ∈ fs.openInodes ↔ j = i := by
  rw [h.openInodes, List.mem_singleton]

theorem table : Table fs.Live fs.fileRefs fs := by
  refine ⟨by rw [h.openInodes]; simp, ?_, ?_, ?_, ?_, ?_, ?_, ?_, ?_⟩
  · intro j hj
    rw [h.mem_openInodes.mp hj]
    exact h.nextInode
  · intro j hj k hk _
    rw [h.mem_openInodes.mp hj, h.mem_openInodes.mp hk]
  · intro j hj
    rw [h.mem_openInodes.mp hj, h.inode]
  · intro j hj
    rw [h.mem_openInodes.mp hj, h.inode]
    exact live_freeMap fs
  · intro j hj
    rw [h.mem_openInodes.mp hj, h.inode, h.fileRefs_eq, if_pos rfl]
    rfl
  · intro j
    rw [h.fileRefs_eq, h.mem_openInodes]
    split
    · next hj => simp [hj]
    · next hj => simp [Ne.symm hj]
  · refine ⟨f, h.freeMapFile, ?_⟩
    rw [h.file, h.inode]
    exact ⟨h.mem_openInodes.mpr rfl, rfl⟩
  · intro j hj _
    rw [h.mem_openInodes.mp hj, h.inode]

theorem not_handles (g : FileId) : ¬ fs.handles g := by
  rintro ⟨hg, hne⟩
  rw [h.files, List.mem_singleton] at hg
  rw [hg] at hne
  exact hne h.freeMapFile

theorem fileTable : FileTable fs := by
  refine ⟨⟨by rw [h.files]; simp, ?_, ?_, ?_⟩, ?_, fun g hg => absurd hg (h.not_handles g)⟩
  · intro g hg
    rw [h.files, List.mem_singleton] at hg
    rw [hg]
    exact h.nextFile
  · intro g hg
    rw [h.files, List.mem_singleton] at hg
    rw [hg, h.file]
    exact h.mem_openInodes.mpr rfl
  · intro j hj
    rw [h.mem_openInodes.mp hj, h.inode, h.denyRefs_eq]
    rfl
  · intro g hg
    rw [h.freeMapFile] at hg
    rw [h.files, List.mem_singleton]
    exact (Option.some.inj hg).symm

end MapOpen

/-! ## 持ち主は二つだけ -/

namespace Formatted

variable {s₀ s₁ : Nat} {i : InodeId} {f : FileId} (h : Formatted fs s₀ s₁ i f)

include h

theorem root_extent : (fs.diskInode rootDirSector).extent = [s₁] := by
  rw [h.rootNode]
  have hcnt : bytesToSectors ((rootSlots * dirEntrySize : Nat) : Int) = 1 := by decide
  unfold InodeDisk.extent
  rw [hcnt]
  rfl

theorem inUse_false {k : Nat} (hk : k < rootSlots) : (fs.rootEntry k).inUse = false := by
  have hpos : dirEntrySize * k + 19 < blockSectorSize := by
    unfold dirEntrySize rootSlots blockSectorSize at *
    omega
  have hbyte : (fs.diskInode rootDirSector).byteAt fs.device (dirEntrySize * k + 19) = 0 := by
    unfold InodeDisk.byteAt
    rw [h.rootNode, Nat.div_eq_of_lt hpos, Nat.mod_eq_of_lt hpos]
    exact h.zero _ hpos
  unfold Fs.rootEntry DirEntry.ofBytes
  rw [List.getD_eq_getElem?_getD]
  simp [dirEntrySize] at hbyte ⊢
  exact hbyte

theorem hasOwner_iff (o : Owner) : fs.HasOwner o ↔ o = .freeMap ∨ o = .rootDir := by
  cases o with
  | freeMap | rootDir => simp [Fs.HasOwner]
  | named k =>
    simp only [Fs.HasOwner, reduceCtorEq, or_self, iff_false, not_and]
    intro hk
    rw [h.inUse_false hk]
    decide
  | removed j =>
    simp only [Fs.HasOwner, reduceCtorEq, or_self, iff_false, not_and, h.openInodes,
      List.mem_singleton]
    rintro rfl
    rw [h.inode]
    exact Bool.false_ne_true

theorem live_iff (t : Nat) : fs.Live t ↔ t = freeMapSector ∨ t = rootDirSector := by
  unfold Fs.Live
  constructor
  · rintro ⟨o, ho, rfl⟩
    rcases (h.hasOwner_iff o).mp ho with rfl | rfl
    · exact .inl rfl
    · exact .inr rfl
  · rintro (rfl | rfl)
    · exact live_freeMap fs
    · exact live_rootDir fs

theorem extents : Extents fs.Live fs := by
  have hmem₁ : ∀ x, x ∈ fs.sectorsAt rootDirSector ↔ x = 1 ∨ x = s₁ := by
    intro x
    unfold Fs.sectorsAt
    rw [h.root_extent, List.mem_cons, List.mem_singleton]
    rfl
  have hmem₀ : ∀ x, x ∈ fs.sectorsAt freeMapSector ↔
      x = 0 ∨ x ∈ (fs.diskInode freeMapSector).extent := fun x => List.mem_cons
  have hge := h.extent_ge
  have hroot := h.root_ge
  have hrlt := h.root_lt
  have hdisj : ∀ x ∈ fs.sectorsAt freeMapSector, x ∉ fs.sectorsAt rootDirSector := by
    intro x hx hx'
    rcases (hmem₀ x).mp hx with rfl | hx <;> rcases (hmem₁ _).mp hx' with he | he
    · cases he
    · omega
    · have := hge x hx
      omega
    · exact h.root_not_mem (he ▸ hx)
  refine ⟨h.size_lt, h.map_cnt, live_freeMap fs, by rw [h.mapNode], ?_, ?_, ?_, ?_, ?_⟩
  · intro t ht
    rcases (h.live_iff t).mp ht with rfl | rfl
    · exact h.length_lt
    · rw [h.rootNode]
      show rootSlots * dirEntrySize < 2 ^ 31
      decide
  · intro t ht
    rcases (h.live_iff t).mp ht with rfl | rfl
    · rw [h.mapNode]
      exact h.extent_le
    · have hcnt : bytesToSectors ((rootSlots * dirEntrySize : Nat) : Int) = 1 := by decide
      rw [h.rootNode, hcnt]
      exact h.root_lt
  · intro t ht x hx
    rcases (h.live_iff t).mp ht with rfl | rfl
    · rcases (hmem₀ x).mp hx with hx | hx
      · exact ⟨by omega, h.used x (.inl hx)⟩
      · exact ⟨h.extent_lt x hx, h.used x (.inr (.inr hx))⟩
    · rcases (hmem₁ x).mp hx with hx | hx
      · exact ⟨by omega, h.used x (.inr (.inl hx))⟩
      · rw [hx]
        exact ⟨h.root_lt, h.root_used⟩
  · intro t ht hm
    rcases (h.live_iff t).mp ht with rfl | rfl
    · exact absurd (hge _ hm) (by decide)
    · rw [h.root_extent, List.mem_singleton] at hm
      rw [← hm] at hroot
      exact absurd hroot (by decide)
  · intro t u ht hu hne x hx hx'
    rcases (h.live_iff t).mp ht with rfl | rfl <;> rcases (h.live_iff u).mp hu with rfl | rfl
    · exact hne rfl
    · exact hdisj x hx hx'
    · exact hdisj x hx' hx
    · exact hne rfl

theorem owner_inj (o o' : Owner) (ho : fs.HasOwner o) (ho' : fs.HasOwner o')
    (he : fs.sectorOf o = fs.sectorOf o') : o = o' := by
  rcases (h.hasOwner_iff o).mp ho with rfl | rfl <;> rcases (h.hasOwner_iff o').mp ho' with rfl | rfl
  · rfl
  · cases he
  · cases he
  · rfl

theorem sound : Sound fs := by
  have ho := h.toMapOpen
  refine ⟨⟨⟨h.extents, ho.table, h.saved⟩, by rw [h.rootNode], h.owner_inj, ?_⟩, ho.fileTable,
    fun g hg => absurd hg (ho.not_handles g)⟩
  intro j hj _
  rw [ho.mem_openInodes.mp hj, h.inode]

end Formatted

/-! ## format の実行 -/

theorem inodeCreate_true (h : ∀ f, fs.freeMapFile = some f → MapOk fs f)
    (hcnt : fs.freeMap.bitCnt = fs.device.size) {sector : Nat} {length : Int}
    (he : inodeCreate sector length fs = .ok (true, fs')) :
    sector < fs.device.size ∧ ∃ start,
      fs.freeMap.scan 0 (bytesToSectors length) false = some start ∧
      fs' = fs.withInode sector start length := by
  have hlen : 0 ≤ length := by
    by_contra hneg
    rw [inodeCreate, if_pos (Int.not_le.mp hneg)] at he
    cases he
  by_cases hs : sector < fs.device.size
  · rw [inodeCreate_eq h hcnt hs hlen] at he
    refine ⟨hs, ?_⟩
    cases hscan : fs.freeMap.scan 0 (bytesToSectors length) false with
    | none =>
      rw [hscan] at he
      cases he
    | some start =>
      rw [hscan] at he
      exact ⟨start, rfl, (Prod.mk.inj (Except.ok.inj he)).2.symm⟩
  · rw [inodeCreate, if_neg (Int.not_lt.mpr hlen)] at he
    simp only [] at he
    rw [freeMapAllocate_eq h] at he
    cases hscan : fs.freeMap.scan 0 (bytesToSectors length) false with
    | none =>
      rw [hscan] at he
      cases he
    | some start =>
      rw [hscan] at he
      simp only [Except.bind, Block.write, saveMap_size, if_neg hs] at he
      cases he

def Fs.openedMap (fs : Fs) : Fs :=
  { (fileOpen fs.nextInode (fs.addInode freeMapSector)).2 with freeMapFile := some fs.nextFile }

theorem openFreeMapFile_eq (hopen : fs.openInodes = []) (hlt : freeMapSector < fs.device.size) :
    openFreeMapFile fs = .ok (fs.nextFile, fs.openedMap) := by
  unfold openFreeMapFile inodeOpen
  rw [hopen, Block.read_of_lt hlt]
  simp only [List.find?_nil, Except.map]
  unfold Fs.openedMap Fs.addInode
  rw [hopen]
  rfl

theorem openedMap_file (fs : Fs) : fs.openedMap.file fs.nextFile = ⟨fs.nextInode, 0, false⟩ :=
  Function.update_self ..

theorem openedMap_inode (fs : Fs) : fs.openedMap.inode fs.nextInode =
    ⟨freeMapSector, 1, false, 0, fs.diskInode freeMapSector⟩ := addInode_self fs freeMapSector

section

variable {s₀ s₁ : Nat} {i : InodeId} {f : FileId}

theorem mapOpen_openedMap (hopen : fs.openInodes = []) (hfiles : fs.files = []) :
    MapOpen fs.openedMap fs.nextInode fs.nextFile where
  openInodes := by
    show fs.nextInode :: fs.openInodes = _
    rw [hopen]
  inode := openedMap_inode fs
  nextInode := Nat.lt_succ_self _
  files := by
    show fs.nextFile :: fs.files = _
    rw [hfiles]
  file := openedMap_file fs
  nextFile := Nat.lt_succ_self _
  freeMapFile := rfl

theorem MapOpen.of_device (h : MapOpen fs i f) {d : Block} {m : Bitmap}
    (hd : d.data freeMapSector = fs.device.data freeMapSector) :
    MapOpen { fs with device := d, freeMap := m } i f where
  openInodes := h.openInodes
  inode := by
    have hnode : Fs.diskInode { fs with device := d, freeMap := m } freeMapSector =
        fs.diskInode freeMapSector := diskInode_congr hd
    rw [hnode]
    exact h.inode
  nextInode := h.nextInode
  files := h.files
  file := h.file
  nextFile := h.nextFile
  freeMapFile := h.freeMapFile

theorem MapOpen.data_eq (h : MapOpen fs i f) :
    (fs.inode (fs.file f).inode).data = fs.diskInode freeMapSector := by
  rw [h.file, h.inode]

theorem MapMade.fits (h : MapMade fs s₀) : (fs.diskInode freeMapSector).Fits fs.device :=
  fits_of_extent h.length_lt h.extent_lt

theorem MapOpen.mapOk (h : MapOpen fs i f) (hm : MapMade fs s₀) : MapOk fs f := by
  refine ⟨by rw [h.file, h.inode], ?_, ?_⟩
  · rw [h.data_eq, hm.mapNode]
  · rw [h.data_eq]
    exact hm.fits

theorem MapMade.of_device (h : MapMade fs s₀) {d : Block} {m : Bitmap}
    (hsize : d.size = fs.device.size) (hcnt : m.bitCnt = fs.freeMap.bitCnt)
    (hd : d.data freeMapSector = fs.device.data freeMapSector)
    (hbits : ∀ x, fs.freeMap.bits x = true → m.bits x = true) :
    MapMade { fs with device := d, freeMap := m } s₀ := by
  have hnode : Fs.diskInode { fs with device := d, freeMap := m } freeMapSector =
      fs.diskInode freeMapSector := diskInode_congr hd
  refine ⟨hsize ▸ h.size_lt, ?_, ?_, ?_, ?_, ?_⟩
  · show m.bitCnt = d.size
    rw [hcnt, hsize, h.map_cnt]
  · rw [hnode, h.mapNode, hcnt]
  · show s₀ + bytesToSectors (Bitmap.byteCnt m.bitCnt) ≤ d.size
    rw [hcnt, hsize]
    exact h.extent_le
  · rw [hnode]
    exact h.extent_ge
  · rw [hnode]
    exact fun x hx => hbits x (h.used x hx)

theorem MapMade.store_data (h : MapMade fs s₀) {m : Bitmap} (hcnt : m.bitCnt = fs.freeMap.bitCnt)
    {x : Nat} (hx : x ∉ (fs.diskInode freeMapSector).extent) :
    (fs.device.store (fs.diskInode freeMapSector).start 0 m.toBytes).data x = fs.device.data x := by
  refine store_data_of_not_mem_extent h.length_lt ?_ hx
  rw [h.mapNode, Bitmap.length_toBytes, hcnt, Nat.zero_add]

theorem MapMade.low_not_mem (h : MapMade fs s₀) {x : Nat} (hx : x < 2) :
    x ∉ (fs.diskInode freeMapSector).extent := fun hm =>
  Nat.not_lt.mpr (h.extent_ge x hm) hx

variable {data : Nat → Nat → UInt8}

theorem mapMade_withInode {size : Nat} {garbage : Nat → Bool} (hsize : size < 2 ^ 32)
    (hscan : (freeMapInit size data garbage).freeMap.scan 0
      (bytesToSectors (Bitmap.byteCnt size)) false = some s₀) :
    MapMade ((freeMapInit size data garbage).withInode freeMapSector s₀ (Bitmap.byteCnt size)) s₀ := by
  obtain ⟨-, hle, hbits⟩ := Bitmap.scan_eq_some hscan
  have hused : ∀ x, x = 0 ∨ x = 1 → (freeMapInit size data garbage).freeMap.bits x = true := by
    rintro x (rfl | rfl) <;>
      simp [freeMapInit, Bitmap.mark, freeMapSector, rootDirSector, Function.update]
  have hge : ∀ x, s₀ ≤ x → x < s₀ + bytesToSectors (Bitmap.byteCnt size) → 2 ≤ x := by
    intro x h₁ h₂
    by_contra hlt
    have hx := hbits x h₁ h₂
    rw [hused x (by omega)] at hx
    cases hx
  have hlen : Bitmap.byteCnt size < 2 ^ 31 := by
    simp only [Bitmap.byteCnt, Bitmap.elemCnt]
    omega
  have hstart : s₀ < 2 ^ 32 := by
    have : s₀ ≤ size := by
      have hle : s₀ + _ ≤ size := hle
      omega
    omega
  have hnode : Fs.diskInode
      ((freeMapInit size data garbage).withInode freeMapSector s₀ (Bitmap.byteCnt size))
      freeMapSector = ⟨s₀, Bitmap.byteCnt size⟩ :=
    withInode_diskInode _ (Int.natCast_nonneg _) (by omega) hstart
      fun h => absurd (hge _ h.1 h.2) (by decide)
  have hsz : ((freeMapInit size data garbage).withInode freeMapSector s₀
      (Bitmap.byteCnt size)).device.size = size := saveMap_size ..
  refine ⟨hsz ▸ hsize, hsz.symm, hnode, hsz ▸ hle, ?_, ?_⟩
  · intro x hx
    rw [hnode, mem_extent] at hx
    exact hge x hx.1 hx.2
  · intro x hx
    rw [hnode, mem_extent] at hx
    simp only [Fs.withInode, Fs.saveMap, Bitmap.fill]
    rcases hx with hx | hx | hx
    · rw [hused x (.inl hx), ite_self]
    · rw [hused x (.inr hx), ite_self]
    · rw [if_pos hx]

theorem MapMade.openWrite (hm : MapMade fs s₀) (hopen : fs.openInodes = []) (hfiles : fs.files = [])
    (hlt : freeMapSector < fs.device.size)
    (he : ((openFreeMapFile fs).bind fun o => (bitmapWrite o.1 o.2).bind fun w =>
      if !w.1 then .error .freeMapWrite else .ok w.2) = .ok fs') :
    MapMade fs' s₀ ∧ MapOpen fs' fs.nextInode fs.nextFile := by
  have ho : MapOpen fs.openedMap fs.nextInode fs.nextFile := mapOpen_openedMap hopen hfiles
  have hm' : MapMade fs.openedMap s₀ := { hm with }
  rw [openFreeMapFile_eq hopen hlt] at he
  simp only [Except.bind] at he
  rw [bitmapWrite_eq (ho.mapOk hm'), ho.data_eq] at he
  simp only [Bool.not_true, Bool.false_eq_true, if_false, Except.ok.injEq] at he
  subst he
  have hd := hm'.store_data rfl (hm'.low_not_mem (x := freeMapSector) (by decide))
  exact ⟨hm'.of_device rfl rfl hd fun _ hx => hx, ho.of_device hd⟩

theorem freeMapCreate_made {size : Nat} {garbage : Nat → Bool} (hsize : size < 2 ^ 32)
    (he : freeMapCreate (freeMapInit size data garbage) = .ok fs) :
    ∃ s₀ i f, MapMade fs s₀ ∧ MapOpen fs i f := by
  obtain ⟨⟨b, fs₁⟩, hr, he⟩ := bind_eq_ok.mp he
  obtain ⟨hb, he⟩ := guard_eq_ok.mp he
  obtain rfl : b = true := by simpa using hb
  obtain ⟨hlt, s₀, hscan, rfl⟩ := inodeCreate_true (by intro f hf; cases hf) rfl hr
  have hm : MapMade ((freeMapInit size data garbage).withInode freeMapSector s₀
      (freeMapInit size data garbage).freeMap.fileSize) s₀ := mapMade_withInode hsize hscan
  have hlt' : freeMapSector < ((freeMapInit size data garbage).withInode freeMapSector s₀
      (freeMapInit size data garbage).freeMap.fileSize).device.size := by
    rw [← hm.map_cnt]
    exact hlt
  obtain ⟨hm', ho⟩ := hm.openWrite rfl rfl hlt' he
  exact ⟨s₀, _, _, hm', ho⟩

/-! ### root directory を作る -/

theorem MapOpen.withInode_data (ho : MapOpen fs i f) {x : Nat} (hx : x ≠ rootDirSector)
    (hs : x ≠ s₁) {length : Int} (hlen : bytesToSectors length = 1) :
    (fs.withInode rootDirSector s₁ length).device.data x =
      (fs.device.store (fs.diskInode freeMapSector).start 0
        (fs.freeMap.fill s₁ 1 true).toBytes).data x := by
  rw [Pintos.withInode_data hx (by rw [hlen]; omega), hlen]
  unfold Fs.saveMap Fs.savedDevice
  simp only [ho.freeMapFile]
  rw [ho.data_eq]

theorem dirCreate_made (hm : MapMade fs s₀) (ho : MapOpen fs i f)
    (he : dirCreate rootDirSector 16 fs = .ok (true, fs')) :
    ∃ s₁, DiskMade fs' s₀ s₁ ∧ MapOpen fs' i f ∧ Saved fs' := by
  have hone : bytesToSectors ((16 * dirEntrySize : Nat) : Int) = 1 := by decide
  unfold dirCreate at he
  rw [show int32 ((16 * dirEntrySize : Nat) : Int) = (16 * dirEntrySize : Nat) by decide] at he
  obtain ⟨hlt, s₁, hscan, rfl⟩ := inodeCreate_true
    (fun g hg => by
      obtain rfl : g = f := Option.some.inj (hg.symm.trans ho.freeMapFile)
      exact ho.mapOk hm) hm.map_cnt he
  obtain ⟨-, hle, hbits⟩ := Bitmap.scan_eq_some hscan
  rw [hone, hm.map_cnt] at hle
  have hfree : fs.freeMap.bits s₁ = false := hbits s₁ (Nat.le_refl _) (by rw [hone]; omega)
  have hne : ∀ x, x = 0 ∨ x = 1 ∨ x ∈ (fs.diskInode freeMapSector).extent → x ≠ s₁ := by
    rintro x hx rfl
    rw [hm.used x hx] at hfree
    cases hfree
  have hne₀ : (0 : Nat) ≠ s₁ := hne 0 (.inl rfl)
  have hne₁ : (1 : Nat) ≠ s₁ := hne 1 (.inr (.inl rfl))
  have hcnt : (fs.freeMap.fill s₁ 1 true).bitCnt = fs.freeMap.bitCnt := rfl
  have hd : (fs.withInode rootDirSector s₁ (16 * dirEntrySize : Nat)).device.data freeMapSector =
      fs.device.data freeMapSector := by
    rw [ho.withInode_data (by decide) (show freeMapSector ≠ s₁ from hne₀) hone]
    exact hm.store_data hcnt (hm.low_not_mem (by decide))
  have hnode := diskInode_congr hd
  have hmap : ∀ x, (fs.withInode rootDirSector s₁ (16 * dirEntrySize : Nat)).freeMap.bits x =
      if s₁ ≤ x ∧ x < s₁ + 1 then true else fs.freeMap.bits x := by
    intro x
    rw [← hone]
    rfl
  have hmade : MapMade (fs.withInode rootDirSector s₁ (16 * dirEntrySize : Nat)) s₀ := by
    refine hm.of_device (saveMap_size ..) rfl hd fun x hx => ?_
    exact (hmap x).trans (by rw [hx, ite_self])
  refine ⟨s₁, ⟨hmade, ?_, ?_, ?_, ?_, ?_, ?_⟩, ho.of_device hd, ?_⟩
  · refine withInode_diskInode fs (Int.natCast_nonneg _) (by decide) ?_ ?_
    · have := hm.size_lt
      omega
    · rw [hone]
      show ¬ (s₁ ≤ 1 ∧ 1 < s₁ + 1)
      omega
  · intro o hlt
    refine if_pos ⟨?_, hlt⟩
    rw [hone]
    omega
  · omega
  · rw [show (fs.withInode rootDirSector s₁ _).device.size = fs.device.size from saveMap_size ..]
    omega
  · rw [hmap, if_pos (by omega)]
  · rw [hnode]
    exact fun hmem => hne s₁ (.inr (.inr hmem)) rfl
  · intro x hx
    have hx : x < fs.freeMap.bitCnt := hx
    have hpos := Bitmap.div_lt_byteCnt hx
    have hmem : (fs.diskInode freeMapSector).start + x / 8 / 512 ∈
        (fs.diskInode freeMapSector).extent :=
      byte_mem_extent hm.length_lt (by rw [hm.mapNode]; exact hpos)
    have hge := hm.extent_ge _ hmem
    have hbyte : (fs.diskInode freeMapSector).byteAt
        (fs.withInode rootDirSector s₁ (16 * dirEntrySize : Nat)).device (x / 8) =
        (fs.freeMap.fill s₁ 1 true).toBytes.getD (x / 8) 0 := by
      unfold InodeDisk.byteAt blockSectorSize
      rw [ho.withInode_data (by show _ ≠ 1; omega) (hne _ (.inr (.inr hmem))) hone]
      show (fs.diskInode freeMapSector).byteAt (fs.device.store _ 0 _) (x / 8) = _
      rw [byteAt_store, patch_of_mem (Nat.zero_le _)
        (by rw [Bitmap.length_toBytes, hcnt, Nat.zero_add]; exact hpos), Nat.sub_zero]
    unfold Fs.savedBit
    rw [hnode, hbyte, Bitmap.toBytes_testBit (fs.freeMap.fill s₁ 1 true) hx]
    simp only [Fs.withInode, Fs.saveMap, hone]

/-! ### 開き直す -/

theorem freeMapClose_eq (ho : MapOpen fs i f) :
    freeMapClose fs = .ok { fs.dropInode i with files := [] } := by
  have hallow : fileAllowWrite f fs = .ok fs := by
    unfold fileAllowWrite
    rw [ho.file, if_neg (by simp)]
  have hclose : inodeClose i fs = .ok (fs.dropInode i) := by
    rw [inodeClose_eq, ho.inode]
    rfl
  unfold freeMapClose fileClose
  rw [ho.freeMapFile]
  simp only [orPanic, Except.bind, hallow, ho.file, hclose, Except.map]
  congr 2
  show fs.files.erase f = []
  rw [ho.files]
  simp

/-- free map の file から読み戻した free map。余りの bit は消える。 -/
def Fs.loadedMap (fs : Fs) : Bitmap where
  bitCnt := fs.freeMap.bitCnt
  bits i := i < fs.freeMap.bitCnt && fs.savedBit i

theorem ofBytes_file (fs : Fs) :
    fs.freeMap.ofBytes ((List.range fs.freeMap.fileSize).map fun k =>
      (fs.diskInode freeMapSector).byteAt fs.device (0 + k)) = fs.loadedMap := by
  unfold Bitmap.ofBytes Fs.loadedMap
  congr 1
  funext i
  by_cases hi : i < fs.freeMap.bitCnt
  · have hlt : i / 8 < fs.freeMap.fileSize := Bitmap.div_lt_byteCnt hi
    simp [hi, Fs.savedBit, List.getD_eq_getElem?_getD, hlt]
  · simp [hi]

/-- **`free_map_open` は、file の bit をそのまま読む。** -/
theorem freeMapOpen_eq (hopen : fs.openInodes = []) (hlt : freeMapSector < fs.device.size)
    (hlen : (fs.diskInode freeMapSector).length = fs.freeMap.fileSize)
    (hfits : (fs.diskInode freeMapSector).Fits fs.device) :
    freeMapOpen fs = .ok { fs.openedMap with freeMap := fs.loadedMap } := by
  have hdata : (fs.openedMap.inode (fs.openedMap.file fs.nextFile).inode).data =
      fs.diskInode freeMapSector := by
    rw [openedMap_file, openedMap_inode]
  have hread : inodeReadAt (fs.openedMap.file fs.nextFile).inode fs.freeMap.fileSize 0 fs.openedMap =
      .ok ((List.range fs.freeMap.fileSize).map fun k =>
        (fs.diskInode freeMapSector).byteAt fs.device (0 + k)) := by
    rw [inodeReadAt_eq (by rw [hdata]; exact hfits), hdata]
    show Except.ok ((List.range (min _ ((fs.diskInode freeMapSector).length - 0))).map fun k =>
      (fs.diskInode freeMapSector).byteAt fs.device (0 + k)) = _
    rw [hlen, Nat.sub_zero, Nat.min_self]
  unfold freeMapOpen
  rw [openFreeMapFile_eq hopen hlt]
  simp only [Except.bind]
  rw [show fs.openedMap.freeMap.fileSize = fs.freeMap.fileSize from rfl, hread]
  simp only [List.length_map, List.length_range, if_true]
  rw [← ofBytes_file]
  rfl

theorem freeMapOpen_made (hd : DiskMade fs s₀ s₁) (hs : Saved fs) (hopen : fs.openInodes = [])
    (hfiles : fs.files = []) (he : freeMapOpen fs = .ok fs') :
    Formatted fs' s₀ s₁ fs.nextInode fs.nextFile := by
  have hge := hd.root_ge
  have hlt := hd.root_lt
  have ho : MapOpen fs.openedMap fs.nextInode fs.nextFile := mapOpen_openedMap hopen hfiles
  have hlen : (fs.diskInode freeMapSector).length = fs.freeMap.fileSize := by
    rw [hd.mapNode]
    rfl
  rw [freeMapOpen_eq hopen (show (0 : Nat) < fs.device.size by omega) hlen hd.fits] at he
  obtain rfl := Except.ok.inj he
  have hbits : ∀ x < fs.device.size, fs.loadedMap.bits x = fs.freeMap.bits x := by
    intro x hx
    rw [← hd.map_cnt] at hx
    simp only [Fs.loadedMap, hx, decide_true, Bool.true_and]
    exact hs x hx
  have hused : ∀ x, x = 0 ∨ x = 1 ∨ x ∈ (fs.diskInode freeMapSector).extent →
      fs.loadedMap.bits x = true := by
    intro x hx
    rw [hbits x, hd.used x hx]
    rcases hx with rfl | rfl | hx
    · omega
    · omega
    · exact hd.extent_lt x hx
  have hsaved : ∀ x < fs.loadedMap.bitCnt, fs.savedBit x = fs.loadedMap.bits x := by
    intro x hx
    have hx : x < fs.freeMap.bitCnt := hx
    simp [Fs.loadedMap, hx]
  exact ⟨⟨⟨hd.size_lt, hd.map_cnt, hd.mapNode, hd.extent_le, hd.extent_ge, hused⟩, hd.rootNode,
    hd.zero, hd.root_ge, hd.root_lt, (hbits s₁ hlt).trans hd.root_used, hd.root_not_mem⟩,
    ⟨ho.openInodes, ho.inode, ho.nextInode, ho.files, ho.file, ho.nextFile, ho.freeMapFile⟩, hsaved⟩

/-- **format に成功した file system は、free map の file と root directory だけを持つ。** -/
theorem IsFormatted.formatted (h : IsFormatted fs) : ∃ s₀ s₁ i f, Formatted fs s₀ s₁ i f := by
  obtain ⟨size, data, garbage, hsize, he⟩ := h
  unfold filesysInit at he
  rw [if_pos rfl] at he
  obtain ⟨fs₂, hformat, hopen⟩ := bind_eq_ok.mp he
  unfold doFormat at hformat
  obtain ⟨fs₁, hcreate, he⟩ := bind_eq_ok.mp hformat
  obtain ⟨s₀, i, f, hm, ho⟩ := freeMapCreate_made hsize hcreate
  obtain ⟨⟨b, fs₃⟩, hdir, he⟩ := bind_eq_ok.mp he
  obtain ⟨hb, he⟩ := guard_eq_ok.mp he
  obtain rfl : b = true := by simpa using hb
  obtain ⟨s₁, hd, ho', hs⟩ := dirCreate_made hm ho hdir
  rw [freeMapClose_eq ho'] at he
  obtain rfl := Except.ok.inj he
  have hclosed : (fs₃.dropInode i).openInodes = [] := by
    show fs₃.openInodes.erase i = []
    rw [ho'.openInodes]
    simp
  have hd' : DiskMade { fs₃.dropInode i with files := [] } s₀ s₁ :=
    ⟨{ hd.toMapMade with }, hd.rootNode, hd.zero, hd.root_ge, hd.root_lt, hd.root_used,
      hd.root_not_mem⟩
  exact ⟨s₀, s₁, _, _, freeMapOpen_made hd' hs hclosed rfl hopen⟩

end

theorem Sound.fsStep (h : Sound fs) {op : FsOp} (hstep : fsStep fs op = some fs') : Sound fs' := by
  unfold Pintos.fsStep at hstep
  split at hstep
  · next hcall =>
    rcases h.run hcall with ⟨p, he, -⟩ | ⟨fs₁, he, hs₁, -⟩
    · rw [he] at hstep
      cases hstep
    · rw [he] at hstep
      rw [← Option.some.inj hstep]
      exact hs₁
  · cases hstep

theorem IsFormatted.sound (h : IsFormatted fs) : Sound fs := by
  obtain ⟨s₀, s₁, i, f, hf⟩ := h.formatted
  exact hf.sound

theorem reachable_sound (h : Reachable fileSystem fs) : Sound fs :=
  Reachable.invariant (I := Sound) (fun _ hi => IsFormatted.sound hi)
    (fun _ _ _ hs hstep => hs.fsStep hstep) h

/-- 装置を format し、`step` の操作を並べて、性質 `p` を満たす状態を見つける。 -/
theorem exists_reachable_of_format {ε : Type} (step : Fs → ε → Option Fs) (size : Nat)
    (hsize : size < 2 ^ 32) (ops : List ε) {p : Fs → Bool}
    (h : (match filesysInit true (freeMapInit size (fun _ _ => 0) fun _ => false) with
      | .ok fs => (runEvents step fs ops).any p
      | .error _ => false) = true) :
    ∃ fs, Reachable (System.ofFun IsFormatted step) fs ∧ p fs = true := by
  split at h
  · next fs hf =>
    have hinit : (System.ofFun IsFormatted step).init fs := ⟨size, _, _, hsize, hf⟩
    exact exists_reachable_of_run ops (ReachableIf.init hinit) h
  · cases h

end Pintos
