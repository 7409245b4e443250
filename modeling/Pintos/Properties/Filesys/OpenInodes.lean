import Pintos.Properties.Filesys.Volume

/-!
# inode の開閉と不変量

inode を開くと参照が一つ増え、閉じると一つ減る。
削除された inode の最後の参照が閉じられたとき、その sector はちょうど使用中なので、
`free_map_release` の `ASSERT` は成り立ち、返した後も残りの inode の sector は使用中のままである。
-/

namespace Pintos

open Infra Function

variable {fs fs' : Fs} {L L' : Nat → Prop} {refs : InodeId → Nat} {i : InodeId}
  {j : InodeId} {s : Nat} {m : Bitmap} {f : Inode → Inode} {W : Nat → Prop}

/-! ## 変わらない部分 -/

/--
開いた file の表と、既にある inode の sector と `deny_write_cnt` は変わらない。

新しく開いた inode の `deny_write_cnt` は 0 である。
-/
structure Frame (fs fs' : Fs) : Prop where
  file : fs'.file = fs.file
  files : fs'.files = fs.files
  nextFile : fs'.nextFile = fs.nextFile
  freeMapFile : fs'.freeMapFile = fs.freeMapFile
  nextInode : fs.nextInode ≤ fs'.nextInode
  sector : ∀ j < fs.nextInode, (fs'.inode j).sector = (fs.inode j).sector
  deny : ∀ j < fs.nextInode, (fs'.inode j).denyWriteCnt = (fs.inode j).denyWriteCnt
  opened : ∀ j ∈ fs'.openInodes, j ∈ fs.openInodes ∨
    fs.nextInode ≤ j ∧ j < fs'.nextInode ∧ (fs'.inode j).denyWriteCnt = 0

theorem Frame.refl (fs : Fs) : Frame fs fs :=
  ⟨rfl, rfl, rfl, rfl, Nat.le_refl _, fun _ _ => rfl, fun _ _ => rfl, fun _ hj => .inl hj⟩

variable {fs₁ fs₂ fs₃ : Fs}

theorem Frame.trans (h : Frame fs₁ fs₂) (h' : Frame fs₂ fs₃) : Frame fs₁ fs₃ where
  file := h'.file.trans h.file
  files := h'.files.trans h.files
  nextFile := h'.nextFile.trans h.nextFile
  freeMapFile := h'.freeMapFile.trans h.freeMapFile
  nextInode := h.nextInode.trans h'.nextInode
  sector j hj := (h'.sector j (hj.trans_le h.nextInode)).trans (h.sector j hj)
  deny j hj := (h'.deny j (hj.trans_le h.nextInode)).trans (h.deny j hj)
  opened j hj := by
    rcases h'.opened j hj with hj | ⟨hle, hlt, hd⟩
    · refine (h.opened j hj).imp_right fun ⟨hle, hlt, hd⟩ => ?_
      exact ⟨hle, hlt.trans_le h'.nextInode, (h'.deny j hlt).trans hd⟩
    · exact .inr ⟨h.nextInode.trans hle, hlt, hd⟩

/-- free map の file と `W` の外の sector は変わらない。 -/
structure Untouched (W : Nat → Prop) (fs fs' : Fs) : Prop where
  node : fs'.device.data freeMapSector = fs.device.data freeMapSector
  data : ∀ x, ¬ W x → x ∉ (fs.diskInode freeMapSector).extent → fs'.device.data x = fs.device.data x

theorem Untouched.of_eq (h : fs'.device = fs.device) : Untouched W fs fs' :=
  ⟨by rw [h], fun _ _ _ => by rw [h]⟩

theorem Untouched.trans (h : Untouched W fs₁ fs₂) (h' : Untouched W fs₂ fs₃)
    : Untouched W fs₁ fs₃ := by
  refine ⟨h'.node.trans h.node, fun x hW hm => ?_⟩
  rw [← h.data x hW hm]
  refine h'.data x hW ?_
  rw [diskInode_congr h.node]
  exact hm

theorem Untouched.mono {W' : Nat → Prop} (h : Untouched W fs fs') (hW : ∀ x, W x → W' x) :
    Untouched W' fs fs' :=
  ⟨h.node, fun x hx => h.data x fun hw => hx (hW x hw)⟩

/-! ## 一つの inode の書き換え -/

theorem modifyInode_self (fs : Fs) (i : InodeId) (f : Inode → Inode) :
    (fs.modifyInode i f).inode i = f (fs.inode i) := update_self ..

theorem modifyInode_of_ne (h : j ≠ i) (f : Inode → Inode) :
    (fs.modifyInode i f).inode j = fs.inode j := update_of_ne h ..

theorem modifyInode_field {β : Type} (fs : Fs) (g : Inode → β)
    (h : g (f (fs.inode i)) = g (fs.inode i)) (j : InodeId) :
    g ((fs.modifyInode i f).inode j) = g (fs.inode j) := by
  by_cases hj : j = i
  · subst hj; rw [modifyInode_self, h]
  · rw [modifyInode_of_ne hj]

/-- 開いている inode の表。`refs` は inode への参照の数である。 -/
structure RefTable (refs : InodeId → Nat) (fs : Fs) : Prop where
  nodup : fs.openInodes.Nodup
  lt : ∀ i ∈ fs.openInodes, i < fs.nextInode
  refs_eq : ∀ i ∈ fs.openInodes, (fs.inode i).openCnt = refs i
  refs_pos : ∀ i, 0 < refs i ↔ i ∈ fs.openInodes

theorem Table.refTable (h : Table L refs fs) : RefTable refs fs := { h with }

namespace RefTable

variable (h : RefTable refs fs)
include h

theorem ne_nextInode (hj : j ∈ fs.openInodes) : j ≠ fs.nextInode := Nat.ne_of_lt (h.lt j hj)

theorem refs_nextInode : refs fs.nextInode = 0 := by
  by_contra hne
  exact h.ne_nextInode ((h.refs_pos _).mp (Nat.pos_of_ne_zero hne)) rfl

theorem congr (hopen : fs'.openInodes = fs.openInodes)
    (hcnt : ∀ j, (fs'.inode j).openCnt = (fs.inode j).openCnt)
    (hnext : fs.nextInode ≤ fs'.nextInode) : RefTable refs fs' := by
  refine ⟨?_, fun j hj => ?_, fun j hj => ?_, fun j => ?_⟩ <;> rw [hopen] at *
  · exact h.nodup
  · exact (h.lt j hj).trans_le hnext
  · exact (hcnt j).trans (h.refs_eq j hj)
  · exact h.refs_pos j

theorem modify (hi : i ∈ fs.openInodes) {n : Nat} (hcnt : (f (fs.inode i)).openCnt = n)
    (hn : 0 < n) : RefTable (update refs i n) (fs.modifyInode i f) := by
  refine ⟨h.nodup, h.lt, fun j hj => ?_, fun j => ?_⟩
  · by_cases hji : j = i
    · subst hji
      rw [modifyInode_self, update_self, hcnt]
    · rw [modifyInode_of_ne hji, update_of_ne hji]
      exact h.refs_eq j hj
  · by_cases hji : j = i
    · subst hji
      rw [update_self]
      exact iff_of_true hn hi
    · rw [update_of_ne hji]
      exact h.refs_pos j

end RefTable

theorem Volume.modify (h : Volume L refs fs) (hi : i ∈ fs.openInodes) {n : Nat}
    (hsec : (f (fs.inode i)).sector = (fs.inode i).sector)
    (hdata : (f (fs.inode i)).data = (fs.inode i).data)
    (hcnt : (f (fs.inode i)).openCnt = n) (hn : 0 < n)
    (hdeny : (fs.inode i).sector = freeMapSector → (f (fs.inode i)).denyWriteCnt = 0) :
    Volume L (update refs i n) (fs.modifyInode i f) := by
  have hsec' := modifyInode_field fs Inode.sector hsec
  have hdata' := modifyInode_field fs Inode.data hdata
  have ht := h.table
  have hr := ht.refTable.modify hi hcnt hn
  refine ⟨{ h.extents with }, ⟨hr.nodup, hr.lt, ?_, ?_, ?_, hr.refs_eq, hr.refs_pos, ?_, ?_⟩, h.saved⟩
  · intro j hj k hk he
    rw [hsec', hsec'] at he
    exact ht.inj j hj k hk he
  · intro j hj
    rw [hsec', hdata']
    exact ht.data j hj
  · intro j hj
    rw [hsec']
    exact ht.live j hj
  · obtain ⟨g, hg, hopen, hs⟩ := ht.mapFile
    exact ⟨g, hg, hopen, (hsec' _).trans hs⟩
  · intro j hj hs
    rw [hsec'] at hs
    by_cases hji : j = i
    · subst hji
      rw [modifyInode_self]
      exact hdeny hs
    · rw [modifyInode_of_ne hji]
      exact ht.deny j hj hs

theorem frame_modifyInode (fs : Fs) (hsec : (f (fs.inode i)).sector = (fs.inode i).sector)
    (hdeny : (f (fs.inode i)).denyWriteCnt = (fs.inode i).denyWriteCnt) :
    Frame fs (fs.modifyInode i f) :=
  ⟨rfl, rfl, rfl, rfl, Nat.le_refl _, fun j _ => modifyInode_field fs Inode.sector hsec j,
    fun j _ => modifyInode_field fs Inode.denyWriteCnt hdeny j, fun _ hj => .inl hj⟩

theorem Volume.reopen (h : Volume L refs fs) (hi : i ∈ fs.openInodes) :
    Volume L (update refs i (refs i + 1)) (inodeReopen i fs) :=
  h.modify hi rfl rfl (congrArg (· + 1) (h.table.refs_eq i hi)) (Nat.succ_pos _) (h.table.deny i hi)

theorem Volume.remove (h : Volume L refs fs) (hi : i ∈ fs.openInodes) :
    Volume L refs (inodeRemove i fs) := by
  have hv : Volume L (update refs i (refs i)) (inodeRemove i fs) :=
    h.modify hi rfl rfl (h.table.refs_eq i hi) ((h.table.refs_pos i).mpr hi) (h.table.deny i hi)
  rwa [update_eq_self] at hv

/-! ## 開く -/

def Fs.addInode (fs : Fs) (s : Nat) : Fs :=
  { fs with
    inode := update fs.inode fs.nextInode
      { sector := s, openCnt := 1, removed := false, denyWriteCnt := 0, data := fs.diskInode s }
    openInodes := fs.nextInode :: fs.openInodes
    nextInode := fs.nextInode + 1 }

theorem addInode_self (fs : Fs) (s : Nat) : (fs.addInode s).inode fs.nextInode =
    { sector := s, openCnt := 1, removed := false, denyWriteCnt := 0, data := fs.diskInode s } :=
  update_self ..

theorem addInode_of_ne (h : j ≠ fs.nextInode) : (fs.addInode s).inode j = fs.inode j :=
  update_of_ne h ..

theorem RefTable.addInode (h : RefTable refs fs) (s : Nat) :
    RefTable (update refs fs.nextInode (refs fs.nextInode + 1)) (fs.addInode s) := by
  refine ⟨List.nodup_cons.mpr ⟨fun hm => h.ne_nextInode hm rfl, h.nodup⟩, fun j hj => ?_,
    fun j hj => ?_, fun j => ?_⟩
  · rcases List.mem_cons.mp hj with rfl | hj
    · exact Nat.lt_succ_self _
    · exact Nat.lt_succ_of_lt (h.lt j hj)
  · rcases List.mem_cons.mp hj with rfl | hj
    · rw [addInode_self, update_self, h.refs_nextInode]
      rfl
    · rw [addInode_of_ne (h.ne_nextInode hj), update_of_ne (h.ne_nextInode hj)]
      exact h.refs_eq j hj
  · refine Iff.trans ?_ List.mem_cons.symm
    by_cases hj : j = fs.nextInode
    · subst hj
      simp
    · rw [update_of_ne hj]
      exact (h.refs_pos j).trans ⟨.inr, fun h => h.resolve_left hj⟩

theorem Volume.addInode (h : Volume L refs fs) (hs : L s)
    (hnew : ∀ j ∈ fs.openInodes, (fs.inode j).sector ≠ s) :
    Volume L (update refs fs.nextInode (refs fs.nextInode + 1)) (fs.addInode s) := by
  have ht := h.table
  have hr := ht.refTable.addInode s
  have hself := addInode_self fs s
  have hold : ∀ j ∈ fs.openInodes, (fs.addInode s).inode j = fs.inode j :=
    fun j hj => addInode_of_ne (ht.refTable.ne_nextInode hj)
  have hmem : ∀ j, j ∈ (fs.addInode s).openInodes ↔ j = fs.nextInode ∨ j ∈ fs.openInodes :=
    fun _ => List.mem_cons
  refine ⟨{ h.extents with }, ⟨hr.nodup, hr.lt, ?_, ?_, ?_, hr.refs_eq, hr.refs_pos, ?_, ?_⟩, h.saved⟩
  · intro j hj k hk he
    rcases (hmem j).mp hj with rfl | hj <;> rcases (hmem k).mp hk with rfl | hk
    · rfl
    · rw [hself, hold k hk] at he
      exact absurd he.symm (hnew k hk)
    · rw [hself, hold j hj] at he
      exact absurd he (hnew j hj)
    · rw [hold j hj, hold k hk] at he
      exact ht.inj j hj k hk he
  · intro j hj
    rcases (hmem j).mp hj with rfl | hj
    · rw [hself]
      rfl
    · rw [hold j hj]
      exact ht.data j hj
  · intro j hj
    rcases (hmem j).mp hj with rfl | hj
    · rw [hself]
      exact hs
    · rw [hold j hj]
      exact ht.live j hj
  · obtain ⟨g, hg, hopen, hs⟩ := ht.mapFile
    refine ⟨g, hg, (hmem _).mpr (.inr hopen), ?_⟩
    show ((fs.addInode s).inode (fs.file g).inode).sector = freeMapSector
    rw [hold _ hopen]
    exact hs
  · intro j hj hsec
    rcases (hmem j).mp hj with rfl | hj
    · rw [hself]
    · rw [hold j hj] at hsec ⊢
      exact ht.deny j hj hsec

/-- `inode_open` の後。既に開いていれば同じ inode を、そうでなければ新しい inode を返す。 -/
inductive Opened (s : Nat) (fs : Fs) (i : InodeId) (fs' : Fs) : Prop
  | shared (hi : i ∈ fs.openInodes) (hs : (fs.inode i).sector = s) (he : fs' = inodeReopen i fs)
  | fresh (hnew : ∀ j ∈ fs.openInodes, (fs.inode j).sector ≠ s) (hi : i = fs.nextInode)
      (he : fs' = fs.addInode s)

namespace Opened

variable {s : Nat} (h : Opened s fs i fs')
include h

theorem sector : (fs'.inode i).sector = s := by
  cases h with
  | shared hi hs he =>
    subst he
    rw [inodeReopen, modifyInode_self]
    exact hs
  | fresh hnew hi he =>
    subst he hi
    rw [addInode_self]

theorem isOpen : i ∈ fs'.openInodes := by
  cases h with
  | shared hi hs he =>
    subst he
    exact hi
  | fresh hnew hi he =>
    subst he hi
    exact List.mem_cons_self

theorem frame : Frame fs fs' := by
  cases h with
  | shared hi hs he =>
    subst he
    exact frame_modifyInode fs rfl rfl
  | fresh hnew hi he =>
    subst he
    refine ⟨rfl, rfl, rfl, rfl, Nat.le_succ _, fun j hj => ?_, fun j hj => ?_, fun j hj => ?_⟩
    · rw [addInode_of_ne (Nat.ne_of_lt hj)]
    · rw [addInode_of_ne (Nat.ne_of_lt hj)]
    · refine (List.mem_cons.mp hj).symm.imp_right ?_
      rintro rfl
      exact ⟨Nat.le_refl _, Nat.lt_succ_self _, by rw [addInode_self]⟩

theorem device : fs'.device = fs.device := by
  cases h with
  | shared hi hs he | fresh hnew hi he => rw [he]; rfl

theorem freeMap : fs'.freeMap = fs.freeMap := by
  cases h with
  | shared hi hs he | fresh hnew hi he => rw [he]; rfl

theorem mem_openInodes : j ∈ fs'.openInodes ↔ j = i ∨ j ∈ fs.openInodes := by
  cases h with
  | shared hi hs he =>
    subst he
    show j ∈ fs.openInodes ↔ _
    exact ⟨.inr, fun hj => hj.elim (fun he => he ▸ hi) id⟩
  | fresh hnew hi he =>
    subst he hi
    exact List.mem_cons

theorem removed_iff (hlt : ∀ j ∈ fs.openInodes, j < fs.nextInode) :
    (j ∈ fs'.openInodes ∧ (fs'.inode j).removed = true) ↔
      (j ∈ fs.openInodes ∧ (fs.inode j).removed = true) := by
  cases h with
  | shared hi hs he =>
    subst he
    unfold inodeReopen
    rw [modifyInode_field fs Inode.removed rfl]
    rfl
  | fresh hnew hi he =>
    subst he
    constructor
    · rintro ⟨hj, hr⟩
      rcases List.mem_cons.mp hj with rfl | hj
      · rw [addInode_self] at hr
        cases hr
      · rw [addInode_of_ne (Nat.ne_of_lt (hlt j hj))] at hr
        exact ⟨hj, hr⟩
    · rintro ⟨hj, hr⟩
      rw [addInode_of_ne (Nat.ne_of_lt (hlt j hj))]
      exact ⟨List.mem_cons_of_mem _ hj, hr⟩

end Opened

theorem RefTable.opened (h : RefTable refs fs) (ho : Opened s fs i fs') :
    RefTable (update refs i (refs i + 1)) fs' := by
  cases ho with
  | shared hi _ he =>
    subst he
    exact h.modify hi (congrArg (· + 1) (h.refs_eq i hi)) (Nat.succ_pos _)
  | fresh _ hi he =>
    subst he hi
    exact h.addInode s

/-- **`L` の inode は開くことができ、参照が一つ増える。** -/
theorem Volume.openInode (h : Volume L refs fs) (hs : L s) :
    ∃ i fs', inodeOpen s fs = .ok (i, fs') ∧
      Volume L (update refs i (refs i + 1)) fs' ∧ Opened s fs i fs' := by
  unfold inodeOpen
  split
  · next i hf =>
    have hi := List.mem_of_find?_eq_some hf
    have hsec : (fs.inode i).sector = s := by simpa using List.find?_some hf
    exact ⟨i, _, rfl, h.reopen hi, .shared hi hsec rfl⟩
  · next hf =>
    have hnew : ∀ j ∈ fs.openInodes, (fs.inode j).sector ≠ s := by simpa using hf
    have hread := Block.read_of_lt (h.extents.inside s hs s (mem_sectorsAt_self fs s)).1
    exact ⟨fs.nextInode, fs.addInode s, by rw [hread]; rfl, h.addInode hs hnew,
      .fresh hnew rfl rfl⟩

/-! ## 閉じる -/

def Fs.dropInode (fs : Fs) (i : InodeId) : Fs :=
  { fs.modifyInode i fun node => { node with openCnt := node.openCnt - 1 } with
    openInodes := fs.openInodes.erase i }

theorem dropInode_inode (fs : Fs) (i : InodeId) : (fs.dropInode i).inode =
    (fs.modifyInode i fun node => { node with openCnt := node.openCnt - 1 }).inode := rfl

theorem dropInode_field {β : Type} (g : Inode → β)
    (h : ∀ node n, g { node with openCnt := n } = g node) (fs : Fs) (i j : InodeId) :
    g ((fs.dropInode i).inode j) = g (fs.inode j) := by
  rw [dropInode_inode]
  exact modifyInode_field fs g (h _ _) j

theorem dropInode_of_ne (h : j ≠ i) : (fs.dropInode i).inode j = fs.inode j := by
  rw [dropInode_inode]
  exact modifyInode_of_ne h _

theorem RefTable.mem_dropInode (h : RefTable refs fs) :
    j ∈ (fs.dropInode i).openInodes ↔ j ≠ i ∧ j ∈ fs.openInodes := h.nodup.mem_erase_iff

theorem RefTable.dropInode (h : RefTable refs fs) (i : InodeId) :
    RefTable (update refs i 0) (fs.dropInode i) := by
  refine ⟨h.nodup.erase i, fun j hj => h.lt j (h.mem_dropInode.mp hj).2, fun j hj => ?_, fun j => ?_⟩
  · obtain ⟨hji, hj⟩ := h.mem_dropInode.mp hj
    rw [dropInode_of_ne hji, update_of_ne hji]
    exact h.refs_eq j hj
  · rw [h.mem_dropInode]
    by_cases hji : j = i
    · subst hji
      simp
    · rw [update_of_ne hji, h.refs_pos]
      exact ⟨fun hj => ⟨hji, hj⟩, And.right⟩

theorem Volume.dropInode (h : Volume L refs fs) (hmap : (fs.inode i).sector ≠ freeMapSector)
    (hL : ∀ s, L' s → L s) (hL₀ : L' freeMapSector)
    (hlive : ∀ j ∈ fs.openInodes, j ≠ i → L' (fs.inode j).sector) :
    Volume L' (update refs i 0) (fs.dropInode i) := by
  have ht := h.table
  have hmem : ∀ {j}, j ∈ (fs.dropInode i).openInodes ↔ j ≠ i ∧ j ∈ fs.openInodes :=
    ht.refTable.mem_dropInode
  have hr := ht.refTable.dropInode i
  have hsec := dropInode_field Inode.sector (fun _ _ => rfl) fs i
  refine ⟨h.extents.mono hL hL₀ rfl rfl (fun _ _ => rfl)
    fun s hs x hx => (h.extents.inside s (hL s hs) x hx).2,
    ⟨hr.nodup, hr.lt, ?_, ?_, ?_, hr.refs_eq, hr.refs_pos, ?_, ?_⟩, h.saved⟩
  · intro j hj k hk he
    rw [hsec, hsec] at he
    exact ht.inj j (hmem.mp hj).2 k (hmem.mp hk).2 he
  · intro j hj
    rw [dropInode_of_ne (hmem.mp hj).1]
    exact ht.data j (hmem.mp hj).2
  · intro j hj
    rw [hsec]
    exact hlive j (hmem.mp hj).2 (hmem.mp hj).1
  · obtain ⟨g, hg, hopen, hs⟩ := ht.mapFile
    refine ⟨g, hg, hmem.mpr ⟨?_, hopen⟩, (hsec _).trans hs⟩
    intro he
    apply hmap
    rw [← he]
    exact hs
  · intro j hj hs
    rw [dropInode_of_ne (hmem.mp hj).1] at hs ⊢
    exact ht.deny j (hmem.mp hj).2 hs

theorem frame_dropInode (fs : Fs) (i : InodeId) : Frame fs (fs.dropInode i) :=
  ⟨rfl, rfl, rfl, rfl, Nat.le_refl _, fun j _ => dropInode_field Inode.sector (fun _ _ => rfl) fs i j,
    fun j _ => dropInode_field Inode.denyWriteCnt (fun _ _ => rfl) fs i j,
    fun _ hj => .inl (List.mem_of_mem_erase hj)⟩

/-! ## sector を返す -/

/-- free map だけを変えた後の状態。 -/
structure MapChanged (m : Bitmap) (fs fs' : Fs) : Prop where
  frame : Frame fs fs'
  inode : fs'.inode = fs.inode
  openInodes : fs'.openInodes = fs.openInodes
  untouched : ∀ W, Untouched W fs fs'
  size : fs'.device.size = fs.device.size
  freeMap : fs'.freeMap = m

theorem Volume.mapChanged (h : Volume L refs fs)
    (hcnt : m.bitCnt = fs.freeMap.bitCnt) : MapChanged m fs (fs.saveMap m) where
  frame :=
    ⟨rfl, rfl, rfl, rfl, Nat.le_refl _, fun _ _ => rfl, fun _ _ => rfl, fun _ hj => .inl hj⟩
  inode := rfl
  openInodes := rfl
  untouched _ :=
    ⟨h.saveMap_node hcnt h.extents.map_live, fun _ _ hm => h.saveMap_data hcnt hm⟩
  size := saveMap_size fs m
  freeMap := rfl

theorem MapChanged.sectorsAt (h : MapChanged m fs fs') (hv : Extents L fs)
    (hs : L s) : fs'.sectorsAt s = fs.sectorsAt s :=
  sectorsAt_congr ((h.untouched fun _ => False).data s not_false
    (hv.not_mem_extent hs hv.map_live))

theorem MapChanged.data (h : MapChanged m fs fs') (hv : Extents L fs) {x : Nat}
    (hs : L s) (hne : s ≠ freeMapSector) (hx : x ∈ fs.sectorsAt s) :
    fs'.device.data x = fs.device.data x := by
  refine (h.untouched fun _ => False).data x not_false fun hm => ?_
  exact hv.disjoint _ _ hs hv.map_live hne x hx (mem_sectorsAt_of_extent hm)

/-- 使用中でどの inode のものでもない sector を返すと、`ASSERT` は成り立つ。 -/
theorem Volume.freeMapRelease_ok (h : Volume L refs fs) (start cnt : Nat)
    (hle : start + cnt ≤ fs.device.size)
    (hused : ∀ x, start ≤ x → x < start + cnt → fs.freeMap.bits x = true)
    (hfree : ∀ s, L s → ∀ x ∈ fs.sectorsAt s, ¬ (start ≤ x ∧ x < start + cnt)) :
    ∃ fs', freeMapRelease start cnt fs = .ok fs' ∧ Volume L refs fs' ∧
      MapChanged (fs.freeMap.fill start cnt false) fs fs' := by
  obtain ⟨f, hf, -⟩ := h.table.mapFile
  rw [← h.extents.map_cnt] at hle
  exact ⟨_, freeMapRelease_eq hle hused hf (h.mapOk hf), h.release hfree, h.mapChanged rfl⟩

theorem MapChanged.trans {m' : Bitmap} (h : MapChanged m fs₁ fs₂) (h' : MapChanged m' fs₂ fs₃)
    : MapChanged m' fs₁ fs₃ where
  frame := h.frame.trans h'.frame
  inode := h'.inode.trans h.inode
  openInodes := h'.openInodes.trans h.openInodes
  untouched W := (h.untouched W).trans (h'.untouched W)
  size := h'.size.trans h.size
  freeMap := h'.freeMap

/-- 持ち主のいなくなった inode の sector と data の sector を返す。 -/
theorem Volume.releaseBoth (h : Volume L refs fs) {start cnt : Nat} (hs : s < fs.device.size)
    (hle : start + cnt ≤ fs.device.size) (hself : ¬ (start ≤ s ∧ s < start + cnt))
    (hused : ∀ x ∈ s :: List.range' start cnt, fs.freeMap.bits x = true)
    (hfree : ∀ t, L t → ∀ x ∈ fs.sectorsAt t, x ∉ s :: List.range' start cnt) :
    ∃ fs', (freeMapRelease s 1 fs).bind (freeMapRelease start cnt) = .ok fs' ∧ Volume L refs fs' ∧
      MapChanged ((fs.freeMap.fill s 1 false).fill start cnt false) fs fs' := by
  obtain ⟨fs₁, he₁, hv₁, hm₁⟩ := h.freeMapRelease_ok s 1 hs
    (fun x hle hlt => by
      obtain rfl : x = s := by omega
      exact hused x List.mem_cons_self)
    (fun t ht x hx hc => by
      obtain rfl : x = s := by omega
      exact hfree t ht x hx List.mem_cons_self)
  have hused₁ : ∀ x, start ≤ x → x < start + cnt → fs₁.freeMap.bits x = true := by
    intro x hle hlt
    have hx : x ∈ List.range' start cnt := List.mem_range'_1.mpr ⟨hle, hlt⟩
    rw [hm₁.freeMap]
    simp only [Bitmap.fill]
    rw [if_neg (by omega)]
    exact hused x (List.mem_cons_of_mem _ hx)
  obtain ⟨fs₂, he₂, hv₂, hm₂⟩ := hv₁.freeMapRelease_ok start cnt (by rw [hm₁.size]; exact hle)
    hused₁
    (fun t ht x hx hc => by
      rw [hm₁.sectorsAt h.extents ht] at hx
      exact hfree t ht x hx (List.mem_cons_of_mem _ (List.mem_range'_1.mpr hc)))
  rw [hm₁.freeMap] at hm₂
  refine ⟨fs₂, ?_, hv₂, hm₁.trans hm₂⟩
  rw [he₁]
  exact he₂

theorem inodeClose_eq (i : InodeId) (fs : Fs) : inodeClose i fs =
    if (fs.inode i).openCnt - 1 = 0 then
      if (fs.inode i).removed then
        (freeMapRelease (fs.inode i).sector 1 (fs.dropInode i)).bind
          (freeMapRelease (fs.inode i).data.start (bytesToSectors (fs.inode i).data.length))
      else .ok (fs.dropInode i)
    else .ok (fs.modifyInode i fun node => { node with openCnt := node.openCnt - 1 }) := by
  unfold inodeClose inodeFree
  simp only [modifyInode_self]
  rfl

/-- `n` 個の参照のうちの一つを閉じた後の表。 -/
structure Closed (i : InodeId) (n : Nat) (fs fs' : Fs) : Prop where
  frame : Frame fs fs'
  openInodes : fs'.openInodes = if n = 1 then fs.openInodes.erase i else fs.openInodes
  inode : fs'.inode =
    (fs.modifyInode i fun node => { node with openCnt := node.openCnt - 1 }).inode

theorem RefTable.closed (h : RefTable refs fs) (hi : i ∈ fs.openInodes)
    (hc : Closed i (refs i) fs fs') : RefTable (update refs i (refs i - 1)) fs' := by
  have hpos := (h.refs_pos i).mpr hi
  have hinode : ∀ j, (fs'.inode j).openCnt = _ := fun j => by rw [hc.inode]
  by_cases hone : refs i = 1
  · rw [hone]
    exact (h.dropInode i).congr (hc.openInodes.trans (if_pos hone)) hinode hc.frame.nextInode
  · refine (h.modify hi ?_ (by omega)).congr (hc.openInodes.trans (if_neg hone)) hinode
      hc.frame.nextInode
    show (fs.inode i).openCnt - 1 = ((refs i - 1 : Nat) : Int)
    rw [h.refs_eq i hi]
    omega

/-- sector を返さずに閉じる。free map の file の inode は `free_map_file` が参照し続ける。 -/
theorem Volume.closeInode_keep (h : Volume L refs fs) (hi : i ∈ fs.openInodes)
    (hmap : refs i = 1 → (fs.inode i).sector ≠ freeMapSector)
    (hkeep : ¬ (refs i = 1 ∧ (fs.inode i).removed = true)) :
    ∃ fs', inodeClose i fs = .ok fs' ∧ Volume L (update refs i (refs i - 1)) fs' ∧
      Closed i (refs i) fs fs' ∧ fs'.device = fs.device ∧ fs'.freeMap = fs.freeMap := by
  have hcnt := h.table.refs_eq i hi
  have hpos := (h.table.refs_pos i).mpr hi
  rw [inodeClose_eq]
  by_cases hlast : refs i = 1
  · have hrem : (fs.inode i).removed = false := by simpa [hlast] using hkeep
    rw [if_pos (by omega), hlast, hrem]
    refine ⟨_, if_neg (by simp), ?_, ⟨frame_dropInode fs i, by rw [if_pos rfl]; rfl, rfl⟩, rfl, rfl⟩
    exact h.dropInode (hmap hlast) (fun _ hs => hs) h.extents.map_live fun j hj _ =>
      h.table.live j hj
  · rw [if_neg (by omega)]
    refine ⟨_, rfl, h.modify hi rfl rfl ?_ (by omega) (h.table.deny i hi),
      ⟨frame_modifyInode fs rfl rfl, by rw [if_neg hlast]; rfl, rfl⟩, rfl, rfl⟩
    show (fs.inode i).openCnt - 1 = ((refs i - 1 : Nat) : Int)
    omega

/--
**削除された inode の最後の参照を閉じると、その sector を返す。** `ASSERT` は成り立つ。

返した inode は `L` から外れる。
-/
theorem Volume.closeInode_free (h : Volume L refs fs) (hi : i ∈ fs.openInodes)
    (hmap : (fs.inode i).sector ≠ freeMapSector) (hlast : refs i = 1)
    (hrem : (fs.inode i).removed = true) :
    ∃ fs', inodeClose i fs = .ok fs' ∧
      Volume (fun s => L s ∧ s ≠ (fs.inode i).sector) (update refs i (refs i - 1)) fs' ∧
      Closed i (refs i) fs fs' ∧ (∀ W, Untouched W fs fs') ∧
      fs'.freeMap = (fs.freeMap.fill (fs.inode i).sector 1 false).fill (fs.inode i).data.start
        (bytesToSectors (fs.inode i).data.length) false := by
  have hl := h.extents
  have hlive := h.table.live i hi
  have hdata := h.table.data i hi
  have hcnt := h.table.refs_eq i hi
  have hdrop : Volume (fun s => L s ∧ s ≠ (fs.inode i).sector) (update refs i 0)
      (fs.dropInode i) :=
    h.dropInode hmap (fun _ hs => hs.1) ⟨hl.map_live, hmap.symm⟩
      fun j hj hji => ⟨h.table.live j hj, fun he => hji (h.table.inj j hj i hi he)⟩
  rw [inodeClose_eq, if_pos (by omega), if_pos hrem, hdata, hlast]
  obtain ⟨fs', he, hv, hm⟩ := hdrop.releaseBoth
    (hl.inside _ hlive _ (mem_sectorsAt_self fs _)).1 (hl.extent_le _ hlive)
    (fun hc => hl.not_self _ hlive (mem_extent.mpr hc))
    (fun x hx => (hl.inside _ hlive x hx).2)
    (fun t ht x hx => hl.disjoint _ _ ht.1 hlive ht.2 x hx)
  refine ⟨fs', he, hv, ⟨(frame_dropInode fs i).trans hm.frame, ?_, hm.inode⟩, fun W => ?_, hm.freeMap⟩
  · rw [if_pos rfl]
    exact hm.openInodes
  · have h₁ : Untouched W fs (fs.dropInode i) := Untouched.of_eq rfl
    exact h₁.trans (hm.untouched W)

end Pintos
