import Pintos.Properties.Filesys.Alloc

/-!
# inode の配置と表

inode のある sector の集合 `L` を決めて、その上の不変量を述べる。
`L` は上の層（directory や file system）が決める。

* `Extents` — `L` の inode の sector は互いに交わらず、装置の中にあり、free map で使用中である
* `Table` — 開いている inode の表が disk と合い、参照の数を正しく数えている
* `Saved` — free map の file の bit は、memory の中のものと同じである

`L` が減る操作と、`L` の inode に触れない書き込みでは、`Extents.mono` が一度に片付ける。
-/

namespace Pintos

open Infra

namespace Fs

variable (fs : Fs)

def diskInode (s : Nat) : InodeDisk := InodeDisk.ofSector (fs.device.data s)

def sectorsAt (s : Nat) : List Nat := s :: (fs.diskInode s).extent

end Fs

variable {fs fs' : Fs} {L L' : Nat → Prop} {refs : InodeId → Nat}

theorem mem_sectorsAt_self (fs : Fs) (s : Nat) : s ∈ fs.sectorsAt s := List.mem_cons_self

theorem mem_sectorsAt_of_extent {s x : Nat} (h : x ∈ (fs.diskInode s).extent) :
    x ∈ fs.sectorsAt s := List.mem_cons_of_mem _ h

theorem diskInode_congr {s : Nat} (h : fs'.device.data s = fs.device.data s) :
    fs'.diskInode s = fs.diskInode s := congrArg InodeDisk.ofSector h

theorem sectorsAt_congr {s : Nat} (h : fs'.device.data s = fs.device.data s) :
    fs'.sectorsAt s = fs.sectorsAt s := by
  unfold Fs.sectorsAt
  rw [diskInode_congr h]

theorem diskInode_of_device (h : fs'.device = fs.device) (s : Nat) :
    fs'.diskInode s = fs.diskInode s := diskInode_congr (congrFun (congrArg Block.data h) s)

theorem sectorsAt_of_device (h : fs'.device = fs.device) (s : Nat) :
    fs'.sectorsAt s = fs.sectorsAt s := sectorsAt_congr (congrFun (congrArg Block.data h) s)

/-! ## 配置 -/

structure Extents (L : Nat → Prop) (fs : Fs) : Prop where
  size_lt : fs.device.size < 2 ^ 32
  map_cnt : fs.freeMap.bitCnt = fs.device.size
  map_live : L freeMapSector
  map_length : (fs.diskInode freeMapSector).length = Bitmap.byteCnt fs.freeMap.bitCnt
  length_lt : ∀ s, L s → (fs.diskInode s).length < 2 ^ 31
  extent_le : ∀ s, L s →
    (fs.diskInode s).start + bytesToSectors (fs.diskInode s).length ≤ fs.device.size
  inside : ∀ s, L s → ∀ x ∈ fs.sectorsAt s, x < fs.device.size ∧ fs.freeMap.bits x = true
  not_self : ∀ s, L s → s ∉ (fs.diskInode s).extent
  disjoint : ∀ s t, L s → L t → s ≠ t → ∀ x ∈ fs.sectorsAt s, x ∉ fs.sectorsAt t

namespace Extents

/-- **`L` が増えず、その inode が変わらず、sector が使用中のままなら、配置も変わらない。** -/
theorem mono (h : Extents L fs) (hL : ∀ s, L' s → L s) (hmap : L' freeMapSector)
    (hsize : fs'.device.size = fs.device.size) (hcnt : fs'.freeMap.bitCnt = fs.freeMap.bitCnt)
    (hdata : ∀ s, L' s → fs'.device.data s = fs.device.data s)
    (hbits : ∀ s, L' s → ∀ x ∈ fs.sectorsAt s, fs'.freeMap.bits x = true) : Extents L' fs' := by
  have hnode : ∀ s, L' s → fs'.diskInode s = fs.diskInode s := fun s hs => diskInode_congr (hdata s hs)
  have hsec : ∀ s, L' s → fs'.sectorsAt s = fs.sectorsAt s := fun s hs => sectorsAt_congr (hdata s hs)
  refine ⟨by rw [hsize]; exact h.size_lt, by rw [hcnt, hsize]; exact h.map_cnt, hmap, ?_, ?_, ?_, ?_,
    ?_, ?_⟩
  · rw [hnode _ hmap, hcnt]
    exact h.map_length
  · intro s hs
    rw [hnode s hs]
    exact h.length_lt s (hL s hs)
  · intro s hs
    rw [hnode s hs, hsize]
    exact h.extent_le s (hL s hs)
  · intro s hs x hx
    rw [hsec s hs] at hx
    rw [hsize]
    exact ⟨(h.inside s (hL s hs) x hx).1, hbits s hs x hx⟩
  · intro s hs
    rw [hnode s hs]
    exact h.not_self s (hL s hs)
  · intro s t hs ht hne x hx
    rw [hsec s hs] at hx
    rw [hsec t ht]
    exact h.disjoint s t (hL s hs) (hL t ht) hne x hx

variable (h : Extents L fs) {s t x : Nat}
include h

theorem fits (hs : L s) : (fs.diskInode s).Fits fs.device :=
  fits_of_extent (h.length_lt s hs) fun x hx =>
    (h.inside s hs x (mem_sectorsAt_of_extent hx)).1

theorem not_mem_extent (hs : L s) (ht : L t) : s ∉ (fs.diskInode t).extent := by
  intro hm
  by_cases hst : s = t
  · subst hst
    exact h.not_self s hs hm
  · exact h.disjoint s t hs ht hst s (mem_sectorsAt_self fs s) (mem_sectorsAt_of_extent hm)

theorem not_mem_of_free (hs : L s) (hx : fs.freeMap.bits x = false) : x ∉ fs.sectorsAt s := by
  intro hm
  rw [(h.inside s hs x hm).2] at hx
  cases hx

end Extents

/-! ## 開いている inode の表 -/

/-- `refs` は inode への参照の数である。 -/
structure Table (L : Nat → Prop) (refs : InodeId → Nat) (fs : Fs) : Prop where
  nodup : fs.openInodes.Nodup
  lt : ∀ i ∈ fs.openInodes, i < fs.nextInode
  inj : ∀ i ∈ fs.openInodes, ∀ j ∈ fs.openInodes,
    (fs.inode i).sector = (fs.inode j).sector → i = j
  data : ∀ i ∈ fs.openInodes, (fs.inode i).data = fs.diskInode (fs.inode i).sector
  live : ∀ i ∈ fs.openInodes, L (fs.inode i).sector
  refs_eq : ∀ i ∈ fs.openInodes, (fs.inode i).openCnt = refs i
  refs_pos : ∀ i, 0 < refs i ↔ i ∈ fs.openInodes
  mapFile : ∃ f, fs.freeMapFile = some f ∧ (fs.file f).inode ∈ fs.openInodes ∧
    (fs.inode (fs.file f).inode).sector = freeMapSector
  deny : ∀ i ∈ fs.openInodes, (fs.inode i).sector = freeMapSector → (fs.inode i).denyWriteCnt = 0

/-- free map の file の bit `i`。 -/
def Fs.savedBit (fs : Fs) (i : Nat) : Bool :=
  ((fs.diskInode freeMapSector).byteAt fs.device (i / 8)).toNat.testBit (i % 8)

/-- disk の上の free map は、memory の中のものと同じである。最後の語の余りの bit は問わない。 -/
def Saved (fs : Fs) : Prop := ∀ i < fs.freeMap.bitCnt, fs.savedBit i = fs.freeMap.bits i

structure Volume (L : Nat → Prop) (refs : InodeId → Nat) (fs : Fs) : Prop where
  extents : Extents L fs
  table : Table L refs fs
  saved : Saved fs

theorem Saved.congr (h : Saved fs) (he : Extents L fs)
    (hmap : fs'.freeMap = fs.freeMap)
    (hdata : ∀ x ∈ fs.sectorsAt freeMapSector, fs'.device.data x = fs.device.data x) : Saved fs' := by
  intro i hi
  rw [hmap] at hi ⊢
  rw [← h i hi]
  unfold Fs.savedBit InodeDisk.byteAt
  rw [diskInode_congr (hdata _ (mem_sectorsAt_self fs _)), hdata _ (mem_sectorsAt_of_extent ?_)]
  refine byte_mem_extent (he.length_lt _ he.map_live) ?_
  rw [he.map_length]
  exact Bitmap.div_lt_byteCnt hi

theorem Volume.congr (h : Volume L refs fs) (hL : ∀ s, L' s ↔ L s) : Volume L' refs fs := by
  obtain rfl : L' = L := funext fun s => propext (hL s)
  exact h

variable {m : Bitmap}

/-- **`L` の inode に触れない書き込みは、不変量を保つ。** -/
theorem Volume.of_device (h : Volume L refs fs) {d : Block} (hsize : d.size = fs.device.size)
    (hcnt : m.bitCnt = fs.freeMap.bitCnt) (hdata : ∀ s, L s → d.data s = fs.device.data s)
    (hbits : ∀ s, L s → ∀ x ∈ fs.sectorsAt s, m.bits x = true)
    (hsaved : Saved { fs with device := d, freeMap := m }) :
    Volume L refs { fs with device := d, freeMap := m } := by
  have ht := h.table
  refine ⟨h.extents.mono (fun _ hs => hs) h.extents.map_live hsize hcnt hdata hbits,
    { ht with data := fun i hi => ?_ }, hsaved⟩
  exact (ht.data i hi).trans (diskInode_congr (hdata _ (ht.live i hi))).symm

/-! ## 空き sector の出し入れ -/

namespace Volume

variable (h : Volume L refs fs)
include h

theorem mapOk {f : FileId} (hf : fs.freeMapFile = some f) : MapOk fs f := by
  obtain ⟨f', hf', hopen, hsec⟩ := h.table.mapFile
  obtain rfl : f' = f := Option.some.inj (hf'.symm.trans hf)
  have hdata : (fs.inode (fs.file f').inode).data = fs.diskInode freeMapSector := by
    rw [h.table.data _ hopen, hsec]
  refine ⟨h.table.deny _ hopen hsec, ?_, ?_⟩
  · rw [hdata]
    exact h.extents.map_length
  · rw [hdata]
    exact h.extents.fits h.extents.map_live

theorem saveMap_device (m : Bitmap) : (fs.saveMap m).device =
    fs.device.store (fs.diskInode freeMapSector).start 0 m.toBytes := by
  obtain ⟨f, hf, hopen, hsec⟩ := h.table.mapFile
  unfold Fs.saveMap Fs.savedDevice
  simp only [hf]
  rw [h.table.data _ hopen, hsec]

theorem saveMap_data (hcnt : m.bitCnt = fs.freeMap.bitCnt) {x : Nat}
    (hx : x ∉ (fs.diskInode freeMapSector).extent) :
    (fs.saveMap m).device.data x = fs.device.data x := by
  have hlen : 0 + m.toBytes.length ≤ (fs.diskInode freeMapSector).length := by
    rw [h.extents.map_length, Bitmap.length_toBytes, hcnt, Nat.zero_add]
  rw [h.saveMap_device]
  exact store_data_of_not_mem_extent (h.extents.length_lt _ h.extents.map_live) hlen hx

theorem saveMap_node (hcnt : m.bitCnt = fs.freeMap.bitCnt) {s : Nat} (hs : L s) :
    (fs.saveMap m).device.data s = fs.device.data s :=
  h.saveMap_data hcnt (h.extents.not_mem_extent hs h.extents.map_live)

theorem saveMap_sector (hcnt : m.bitCnt = fs.freeMap.bitCnt) {s x : Nat} (hs : L s)
    (hne : s ≠ freeMapSector) (hx : x ∈ fs.sectorsAt s) :
    (fs.saveMap m).device.data x = fs.device.data x := by
  refine h.saveMap_data hcnt fun hm => ?_
  exact h.extents.disjoint _ _ hs h.extents.map_live hne x hx (mem_sectorsAt_of_extent hm)

theorem saved_saveMap (hcnt : m.bitCnt = fs.freeMap.bitCnt) : Saved (fs.saveMap m) := by
  intro i hi
  have hlt : i / 8 < 0 + m.toBytes.length := by
    rw [Bitmap.length_toBytes, Nat.zero_add]
    exact Bitmap.div_lt_byteCnt hi
  unfold Fs.savedBit
  rw [diskInode_congr (h.saveMap_node hcnt h.extents.map_live), h.saveMap_device, byteAt_store,
    patch_of_mem (Nat.zero_le _) hlt, Nat.sub_zero]
  exact m.toBytes_testBit hi

theorem saveMap (hcnt : m.bitCnt = fs.freeMap.bitCnt)
    (hbits : ∀ s, L s → ∀ x ∈ fs.sectorsAt s, m.bits x = true) : Volume L refs (fs.saveMap m) :=
  h.of_device (saveMap_size fs m) hcnt (fun _ hs => h.saveMap_node hcnt hs) hbits
    (h.saved_saveMap hcnt)

theorem allocate (start cnt : Nat) :
    Volume L refs (fs.saveMap (fs.freeMap.fill start cnt true)) := by
  refine h.saveMap rfl fun s hs x hx => ?_
  simp only [Bitmap.fill]
  split
  · rfl
  · exact (h.extents.inside s hs x hx).2

theorem release {start cnt : Nat}
    (hfree : ∀ s, L s → ∀ x ∈ fs.sectorsAt s, ¬ (start ≤ x ∧ x < start + cnt)) :
    Volume L refs (fs.saveMap (fs.freeMap.fill start cnt false)) := by
  refine h.saveMap rfl fun s hs x hx => ?_
  simp only [Bitmap.fill]
  rw [if_neg (hfree s hs x hx)]
  exact (h.extents.inside s hs x hx).2

end Volume

end Pintos
