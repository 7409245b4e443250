import Pintos.Filesys.Vnode
import Pintos.Properties.Filesys.DirMap
import Pintos.Properties.Filesys.Format

/-!
# inode を直に使う遷移系の不変量

inode への参照は、呼ぶ側が持つものと、開いた file が持つものとに分かれる。
不変量は `Volume` と `FileTable` に、directory が写像を表すことを足したものである。

それぞれの操作について、不変量が保たれることと、触れる sector（`VOp.writes`）を示す。
-/

namespace Pintos

open Infra Spec Function

variable {v v' : Vnodes} {fs fs' : Fs} {i dir : InodeId} {f : FileId} {s : Nat}

/-- inode `i` への参照の数。 -/
def Vnodes.refs (v : Vnodes) (i : InodeId) : Nat := v.fs.fileRefs i + v.held i

structure VInv (v : Vnodes) : Prop where
  volume : Volume (· ∈ v.live) v.refs v.fs
  files : FileTable v.fs
  dirs_live : ∀ d ∈ v.dirs, d ∈ v.live
  dirs_ne : freeMapSector ∉ v.dirs
  plain : ∀ f ∈ v.fs.files, (v.fs.inode (v.fs.file f).inode).sector ∉ v.dirs
  names : ∀ d ∈ v.dirs, ∃ m, Represents v.fs d m

/-! ## 操作が触れるもの -/

/-- 操作が中身を書き換える inode の sector。 -/
def VOp.sector? (op : VOp) (v : Vnodes) : Option Nat :=
  match op with
  | .inodeWriteAt i _ _ => some (v.fs.inode i).sector
  | .fileWrite f _ => some (v.fs.inode (v.fs.file f).inode).sector
  | .dirAdd dir _ _ | .dirRemove dir _ => some (v.fs.inode dir).sector
  | _ => none

/-- 操作が書いてよい sector。free map の file は別に数える。 -/
def VOp.writes (op : VOp) (v : Vnodes) (x : Nat) : Prop :=
  v.fs.freeMap.bits x = false ∨ ∃ s, op.sector? v = some s ∧ x ∈ (v.fs.diskInode s).extent

/-- 操作は inode `i` への参照を一つ閉じる。 -/
def VOp.closes (op : VOp) (v : Vnodes) (i : InodeId) : Prop :=
  op = .inodeClose i ∨ ∃ f, op = .fileClose f ∧ (v.fs.file f).inode = i

/-- 操作の前後で言えること。 -/
structure Effect (op : VOp) (v v' : Vnodes) : Prop where
  untouched : Untouched (op.writes v) v.fs v'.fs
  sector : ∀ i ∈ v.fs.openInodes, (v'.fs.inode i).sector = (v.fs.inode i).sector
  /-- 表から外れるのは、最後の参照を閉じた inode だけである。 -/
  kept : ∀ i ∈ v.fs.openInodes, i ∈ v'.fs.openInodes ∨
    op.closes v i ∧ v.refs i = 1 ∧ ∀ x ∈ v.fs.sectorsAt (v.fs.inode i).sector,
      v'.fs.freeMap.bits x = !(v.fs.inode i).removed

theorem refs_frame (hframe : Frame v.fs v'.fs) (hheld : v'.held = v.held) : v'.refs = v.refs := by
  unfold Vnodes.refs
  rw [fileRefs_frame hframe, hheld]

theorem refs_hold (v : Vnodes) (hframe : Frame v.fs fs') (i : InodeId) :
    Vnodes.refs { v with fs := fs', held := v.hold i } = update v.refs i (v.refs i + 1) := by
  funext j
  unfold Vnodes.refs Vnodes.hold
  simp only [fileRefs_frame hframe]
  by_cases hj : j = i
  · subst hj
    rw [update_self, update_self, Nat.add_assoc]
  · rw [update_of_ne hj, update_of_ne hj]

theorem refs_drop (hi : 0 < v.held i) (hframe : Frame v.fs v'.fs) (hheld : v'.held = v.drop i) :
    v'.refs = update v.refs i (v.refs i - 1) := by
  funext j
  unfold Vnodes.refs
  rw [fileRefs_frame hframe, hheld]
  unfold Vnodes.drop
  by_cases hj : j = i
  · subst hj
    rw [update_self, update_self]
    omega
  · rw [update_of_ne hj, update_of_ne hj]

theorem refs_modifyFile {g : File → File} (hg : (g (v.fs.file f)).inode = (v.fs.file f).inode) :
    Vnodes.refs { v with fs := v.fs.modifyFile f g } = v.refs := by
  have hfiles : (v.fs.modifyFile f g).fileRefs = v.fs.fileRefs :=
    fileRefs_congr rfl fun f' _ => modifyFile_field v.fs File.inode hg f'
  unfold Vnodes.refs
  simp only [hfiles]

namespace VInv

variable (h : VInv v)
include h

theorem refs_le (j : InodeId) (hj : j ∈ v.fs.openInodes) :
    (v.fs.fileRefs j : Int) ≤ (v.fs.inode j).openCnt := by
  rw [h.volume.table.refs_eq j hj]
  exact Int.ofNat_le.mpr (Nat.le_add_right ..)

theorem isOpen_of_held (hi : 0 < v.held i) : i ∈ v.fs.openInodes :=
  (h.volume.table.refs_pos i).mp (Nat.lt_of_lt_of_le hi (Nat.le_add_left ..))

theorem map_fileRefs (hi : i ∈ v.fs.openInodes) (hs : (v.fs.inode i).sector = freeMapSector) :
    0 < v.fs.fileRefs i := by
  obtain ⟨f, hf, hopen, hsec⟩ := h.volume.table.mapFile
  have heq := h.volume.table.inj _ hopen i hi (hsec.trans hs.symm)
  exact List.countP_pos_iff.mpr ⟨f, h.files.mapFile f hf, decide_eq_true heq⟩

theorem data_eq {W : Nat → Prop} (hunt : Untouched W v.fs fs') (hs : s ∈ v.live)
    (hne : s ≠ freeMapSector) (hW : ∀ x ∈ v.fs.sectorsAt s, ¬ W x) (x : Nat)
    (hx : x ∈ v.fs.sectorsAt s) : fs'.device.data x = v.fs.device.data x := by
  refine hunt.data x (hW x hx) fun hm => ?_
  exact h.volume.extents.disjoint _ _ hs h.volume.extents.map_live hne x hx
    (mem_sectorsAt_of_extent hm)

theorem not_writes {op : VOp} (hw : op.sector? v ≠ some s) (hs : s ∈ v.live)
    (hlive : ∀ t, op.sector? v = some t → t ∈ v.live) (x : Nat) (hx : x ∈ v.fs.sectorsAt s) :
    ¬ op.writes v x := by
  rintro (hfree | ⟨t, ht, hm⟩)
  · exact h.volume.extents.not_mem_of_free hs hfree hx
  · refine h.volume.extents.disjoint s t hs (hlive t ht) ?_ x hx (mem_sectorsAt_of_extent hm)
    rintro rfl
    exact hw ht

theorem represents_of_untouched {W : Nat → Prop} (hunt : Untouched W v.fs fs') {d : Nat}
    (hd : d ∈ v.dirs) (hW : ∀ x ∈ v.fs.sectorsAt d, ¬ W x) {m : NameMap (List UInt8) Nat}
    (hm : Represents v.fs d m) : Represents fs' d m := by
  have hlive := h.dirs_live d hd
  refine hm.congr (h.volume.extents.length_lt d hlive) (h.data_eq hunt hlive ?_ hW)
  rintro rfl
  exact h.dirs_ne hd

theorem of_frame (hframe : Frame v.fs v'.fs) (hv : Volume (· ∈ v'.live) v'.refs v'.fs)
    (hdirs : ∀ d ∈ v'.dirs, d ∈ v.dirs) (hlive : ∀ d ∈ v'.dirs, d ∈ v'.live)
    (hnames : ∀ d ∈ v'.dirs, ∃ m, Represents v'.fs d m) : VInv v' := by
  have hlt := h.volume.table.lt
  refine ⟨hv, h.files.of_frame hframe hlt fun f hf => ?_, hlive, fun hd => h.dirs_ne (hdirs _ hd),
    fun f hf hd => ?_, hnames⟩
  · refine (hv.table.refs_pos _).mp (Nat.lt_of_lt_of_le ?_ (Nat.le_add_right ..))
    rw [fileRefs_frame hframe]
    exact List.countP_pos_iff.mpr ⟨f, hf, decide_eq_true rfl⟩
  · rw [hframe.files] at hf
    rw [hframe.file, hframe.sector _ (hlt _ (h.files.isOpen f hf))] at hd
    exact h.plain f hf (hdirs _ hd)

/-! ## 開く -/

theorem opened (hv : Volume (· ∈ v.live) (update v.refs i (v.refs i + 1)) fs')
    (ho : Opened s v.fs i fs') : VInv { v with fs := fs', held := v.hold i } := by
  refine h.of_frame ho.frame ?_ (fun _ hd => hd) h.dirs_live fun d hd => ?_
  · rw [refs_hold v ho.frame]
    exact hv
  · obtain ⟨m, hm⟩ := h.names d hd
    exact ⟨m, hm.of_device ho.device⟩

theorem effect_opened (ho : Opened s v.fs i fs') (op : VOp) (held : InodeId → Nat) :
    Effect op v { v with fs := fs', held := held } :=
  ⟨Untouched.of_eq ho.device, fun j hj => ho.frame.sector j (h.volume.table.lt j hj),
    fun _ hj => .inl (ho.mem_openInodes.mpr (.inr hj))⟩

/-! ## 削除の印 -/

section

variable (hi : i ∈ v.fs.openInodes)
include hi

theorem remove : VInv { v with fs := inodeRemove i v.fs } := by
  have hframe : Frame v.fs (inodeRemove i v.fs) := frame_modifyInode v.fs rfl rfl
  refine h.of_frame hframe (h.volume.remove hi) (fun _ hd => hd) h.dirs_live fun d hd => ?_
  obtain ⟨m, hm⟩ := h.names d hd
  exact ⟨m, hm.of_device rfl⟩

/-! ## 閉じる -/

theorem closed_eq (fs' : Fs) : v.closed i fs' =
    if v.refs i = 1 ∧ (v.fs.inode i).removed = true then
      { v.forget (v.fs.inode i).sector with fs := fs' }
    else { v with fs := fs' } := by
  have hcnt : (v.fs.inode i).openCnt = 1 ↔ v.refs i = 1 := by
    rw [h.volume.table.refs_eq i hi]
    exact Int.ofNat_inj (n := 1)
  unfold Vnodes.closed
  simp only [hcnt]

theorem closeInode (hmap : v.refs i = 1 → (v.fs.inode i).sector ≠ freeMapSector) :
    ∃ fs', inodeClose i v.fs = .ok fs' ∧
      Volume (· ∈ (v.closed i fs').live) (update v.refs i (v.refs i - 1)) fs' ∧
      Closed i (v.refs i) v.fs fs' ∧ (∀ W, Untouched W v.fs fs') ∧
      (v.refs i = 1 → ∀ x ∈ v.fs.sectorsAt (v.fs.inode i).sector,
        fs'.freeMap.bits x = !(v.fs.inode i).removed) := by
  have hlive := h.volume.table.live i hi
  by_cases hfree : v.refs i = 1 ∧ (v.fs.inode i).removed = true
  · obtain ⟨fs', he, hv, hc, hunt, hmap'⟩ :=
      h.volume.closeInode_free hi (hmap hfree.1) hfree.1 hfree.2
    refine ⟨fs', he, ?_, hc, hunt, fun _ x hx => ?_⟩
    · rw [h.closed_eq hi, if_pos hfree]
      exact hv.congr fun s => by simp [Vnodes.forget, List.mem_filter]
    · rw [hmap', hfree.2, h.volume.table.data i hi]
      simp only [Bitmap.fill, Bool.not_true]
      rcases List.mem_cons.mp hx with rfl | hx
      · simp
      · rw [if_pos (mem_extent.mp hx)]
  · obtain ⟨fs', he, hv, hc, hdev, hmap'⟩ := h.volume.closeInode_keep hi hmap hfree
    refine ⟨fs', he, ?_, hc, fun W => Untouched.of_eq hdev, fun hone x hx => ?_⟩
    · rw [h.closed_eq hi, if_neg hfree]
      exact hv
    · have hrem : (v.fs.inode i).removed = false := by simpa [hone] using hfree
      rw [hmap', hrem]
      exact (h.volume.extents.inside _ hlive x hx).2

theorem closed_dirs (fs' : Fs) : (∀ d ∈ (v.closed i fs').dirs, d ∈ v.dirs) ∧
      ∀ d ∈ (v.closed i fs').dirs, d ∈ (v.closed i fs').live := by
  rw [h.closed_eq hi]
  split
  · simp only [Vnodes.forget, List.mem_filter]
    exact ⟨fun d hd => hd.1, fun d hd => ⟨h.dirs_live d hd.1, hd.2⟩⟩
  · exact ⟨fun _ hd => hd, h.dirs_live⟩

theorem closed_names (hunt : ∀ W, Untouched W v.fs fs') (d : Nat) (hd : d ∈ (v.closed i fs').dirs) :
    ∃ m, Represents fs' d m := by
  have hd := (h.closed_dirs hi fs').1 d hd
  obtain ⟨m, hm⟩ := h.names d hd
  exact ⟨m, h.represents_of_untouched (hunt fun _ => False) hd (fun _ _ hf => hf) hm⟩

end

theorem effect_closed {op : VOp} (hclose : op.closes v i) {n : Nat} (hn : n = v.refs i)
    (hc : Closed i n v.fs fs') (hunt : ∀ W, Untouched W v.fs fs')
    (hfree : v.refs i = 1 → ∀ x ∈ v.fs.sectorsAt (v.fs.inode i).sector,
      fs'.freeMap.bits x = !(v.fs.inode i).removed) {w : Vnodes}
    (hdev : w.fs.device = fs'.device) (hmap : w.fs.freeMap = fs'.freeMap)
    (hinode : w.fs.inode = fs'.inode) (hopen : w.fs.openInodes = fs'.openInodes) :
    Effect op v w := by
  have hu := hunt (op.writes v)
  refine ⟨⟨by rw [hdev]; exact hu.node, fun x => by rw [hdev]; exact hu.data x⟩, ?_, ?_⟩
  · intro j hj
    rw [hinode]
    exact hc.frame.sector j (h.volume.table.lt j hj)
  · intro j hj
    rw [hopen, hc.openInodes]
    by_cases hlast : n = 1
    · rw [if_pos hlast]
      by_cases hji : j = i
      · subst hji
        refine .inr ⟨hclose, hn ▸ hlast, ?_⟩
        rw [hmap]
        exact hfree (hn ▸ hlast)
      · exact .inl ((List.mem_erase_of_ne hji).mpr hj)
    · rw [if_neg hlast]
      exact .inl hj

end VInv

end Pintos
