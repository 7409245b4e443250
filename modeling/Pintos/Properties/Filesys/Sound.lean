import Pintos.Properties.Filesys.Files
import Pintos.Properties.Filesys.Operations

/-!
# 操作の間の不変量

操作と操作の間では、inode への参照は開いた `struct file` だけが持つ。
したがって `open_cnt` は、その inode を指す開いた file の数に等しい。

呼ぶ側が持つ file は、free map の file の inode も root directory の inode も指さない。
-/

namespace Pintos

open Infra Function

variable {fs fs' : Fs} {i : InodeId} {f : FileId}

structure Sound (fs : Fs) : Prop where
  core : Core fs.fileRefs fs
  files : FileTable fs
  root : ∀ f, fs.handles f → (fs.inode (fs.file f).inode).sector ≠ rootDirSector

theorem Sound.refs_le (h : Sound fs) (j : InodeId) (hj : j ∈ fs.openInodes) :
    (fs.fileRefs j : Int) ≤ (fs.inode j).openCnt :=
  Int.le_of_eq (h.core.table.refs_eq j hj).symm

/-! ## file の表に触れない操作 -/

theorem Sound.root_frame (h : Sound fs) (hframe : Frame fs fs') (hf : fs'.handles f) :
    (fs'.inode (fs'.file f).inode).sector ≠ rootDirSector := by
  have hf : fs.handles f := by
    unfold Fs.handles at *
    rw [hframe.files, hframe.freeMapFile] at hf
    exact hf
  rw [hframe.file, hframe.sector _ (h.core.table.lt _ (h.files.isOpen f hf.1))]
  exact h.root f hf

variable {refs : InodeId → Nat}

theorem Sound.files_frame (h : Sound fs) (hframe : Frame fs fs') (hcore : Core refs fs')
    (hle : ∀ j, fs.fileRefs j ≤ refs j) : FileTable fs' := by
  refine h.files.of_frame hframe h.core.table.lt fun f hf => ?_
  refine (hcore.table.refs_pos _).mp (Nat.lt_of_lt_of_le ?_ (hle _))
  exact (h.core.table.refs_pos _).mpr (h.files.isOpen f hf)

theorem Sound.of_frame (h : Sound fs) (hframe : Frame fs fs') (hcore : Core fs.fileRefs fs') :
    Sound fs' := by
  exact ⟨fileRefs_frame hframe ▸ hcore, h.files_frame hframe hcore fun _ => Nat.le_refl _,
    fun _ hf => h.root_frame hframe hf⟩

theorem Core.of_files (h : Core refs fs) {file : FileId → File} {files : List FileId}
    {nextFile : FileId} (hmap : ∀ f, fs.freeMapFile = some f → (file f).inode = (fs.file f).inode) :
    Core refs { fs with file := file, files := files, nextFile := nextFile } :=
  ⟨h.volume.of_files hmap, h.root_length, h.owner_inj, h.root_deny⟩

theorem Sound.modifyFile (h : Sound fs) {g : File → File}
    (hg : (g (fs.file f)).inode = (fs.file f).inode)
    (hd : (g (fs.file f)).denyWrite = (fs.file f).denyWrite) : Sound (fs.modifyFile f g) := by
  have hinode := modifyFile_field fs File.inode hg
  have hrefs : (fs.modifyFile f g).fileRefs = fs.fileRefs := fileRefs_congr rfl fun f' _ => hinode f'
  refine ⟨by rw [hrefs]; exact h.core.of_files fun f' _ => hinode f', h.files.modifyFile hg hd, ?_⟩
  intro f' hf'
  rw [hinode]
  exact h.root f' hf'

/-! ## file を開く -/

theorem Sound.fileOpen (h : Sound fs) (hframe : Frame fs fs')
    (hcore : Core (update fs.fileRefs i (fs.fileRefs i + 1)) fs')
    (hsec : (fs'.inode i).sector ≠ freeMapSector ∧ (fs'.inode i).sector ≠ rootDirSector) :
    Sound (fileOpen i fs').2 := by
  have hi : i ∈ fs'.openInodes := (hcore.table.refs_pos i).mp (by simp)
  have hfiles : FileTable fs' := by
    refine h.files_frame hframe hcore fun j => ?_
    by_cases hj : j = i
    · subst hj
      rw [update_self]
      exact Nat.le_succ _
    · rw [update_of_ne hj]
  have hrefs : (Pintos.fileOpen i fs').2.fileRefs =
      update fs.fileRefs i (fs.fileRefs i + 1) := by
    rw [hfiles.fileRefs_fileOpen, fileRefs_congr hframe.files fun f _ => by rw [hframe.file]]
  refine ⟨?_, hfiles.fileOpen hi hsec.1, ?_⟩
  · rw [hrefs]
    exact hcore.of_files fun f hf =>
      congrArg File.inode (hfiles.fileOpen_file i (hfiles.mapFile f hf))
  · rintro f ⟨hf, hne⟩
    rcases List.mem_cons.mp hf with rfl | hf
    · rw [fileOpen_new]
      exact hsec.2
    · rw [hfiles.fileOpen_file i hf]
      exact h.root_frame hframe ⟨hf, hne⟩

theorem Sound.fileReopen (h : Sound fs) (hf : fs.handles f) : Sound (fileReopen f fs).2 := by
  refine h.fileOpen (frame_modifyInode fs rfl rfl) (h.core.reopen (h.files.isOpen f hf.1)) ?_
  unfold inodeReopen
  rw [modifyInode_self]
  exact ⟨h.files.handle f hf, h.root f hf⟩

/-! ## 読み書き -/

theorem Sound.fits (h : Sound fs) (hf : f ∈ fs.files) :
    (fs.inode (fs.file f).inode).data.Fits fs.device := by
  have hi := h.files.isOpen f hf
  rw [h.core.table.data _ hi]
  exact h.core.extents.fits (h.core.table.live _ hi)

theorem Sound.fileRead_ok (h : Sound fs) (hf : f ∈ fs.files) (size : Nat) :
    ∃ bytes fs', fileRead f size fs = .ok (bytes, fs') ∧ Sound fs' ∧ fs'.device = fs.device := by
  unfold fileRead
  rw [inodeReadAt_eq (h.fits hf)]
  exact ⟨_, _, rfl, h.modifyFile rfl rfl, rfl⟩

theorem Sound.of_device (h : Sound fs) {d : Block} (hcore : Core fs.fileRefs { fs with device := d }) :
    Sound { fs with device := d } :=
  ⟨hcore, ⟨{ h.files with }, h.files.mapFile, h.files.handle⟩,
    h.root⟩

theorem Core.storeFile (h : Core refs fs) (hi : i ∈ fs.openInodes)
    (hmap : (fs.inode i).sector ≠ freeMapSector) (hroot : (fs.inode i).sector ≠ rootDirSector)
    {offset : Nat} {bytes : List UInt8} (hle : bytes.length ≤ (fs.inode i).data.length - offset) :
    Core refs { fs with device := fs.device.store (fs.inode i).data.start offset bytes } ∧
    Untouched (· ∈ (fs.inode i).data.extent) fs
      { fs with device := fs.device.store (fs.inode i).data.start offset bytes } := by
  have hlive := h.table.live i hi
  rw [h.table.data i hi] at hle ⊢
  have hunt := h.volume.untouched_store hlive hle
  refine ⟨h.of_device (h.volume.store hlive hle hmap)
      fun x hx => hunt.data x (fun hm => ?_) fun hm => ?_,
    hunt⟩
  · exact h.extents.disjoint _ _ (live_rootDir fs) hlive hroot.symm x hx (mem_sectorsAt_of_extent hm)
  · exact h.extents.disjoint _ _ (live_rootDir fs) (live_freeMap fs) (by decide) x hx
      (mem_sectorsAt_of_extent hm)

section

variable (h : Sound fs) (hf : fs.handles f)
include h hf

theorem Sound.fileWrite_ok (buffer : List UInt8) :
    ∃ n fs', fileWrite f buffer fs = .ok (n, fs') ∧ Sound fs' ∧
      Untouched (· ∈ (fs.inode (fs.file f).inode).data.extent) fs fs' := by
  unfold fileWrite
  by_cases hd : (fs.inode (fs.file f).inode).denyWriteCnt = 0
  · rw [inodeWriteAt_eq hd (h.fits hf.1)]
    have hle : (buffer.take (min buffer.length
        ((fs.inode (fs.file f).inode).data.length - (fs.file f).pos))).length ≤
        (fs.inode (fs.file f).inode).data.length - (fs.file f).pos := by
      rw [List.length_take]
      omega
    obtain ⟨hcore, hunt⟩ :=
      h.core.storeFile (h.files.isOpen f hf.1) (h.files.handle f hf) (h.root f hf) hle
    exact ⟨_, _, rfl, (h.of_device hcore).modifyFile rfl rfl, hunt.node, hunt.data⟩
  · rw [inodeWriteAt_denied hd]
    exact ⟨_, _, rfl, h.modifyFile rfl rfl, Untouched.of_eq rfl⟩

/-! ## 書き込みの禁止 -/

theorem Sound.setDeny (b : Bool) : Sound (fs.setDeny f b) := by
  have hi := h.files.isOpen f hf.1
  have hfield : ∀ j, ((fs.setDeny f b).inode j).sector = (fs.inode j).sector ∧
      ((fs.setDeny f b).inode j).removed = (fs.inode j).removed := by
    intro j
    obtain ⟨n, hn⟩ := setDeny_inode fs f b j
    rw [hn]
    exact ⟨rfl, rfl⟩
  have hown : ∀ o, ((fs.setDeny f b).HasOwner o ↔ fs.HasOwner o) ∧
      (fs.HasOwner o → (fs.setDeny f b).sectorOf o = fs.sectorOf o) := by
    refine h.core.owner_congr (fun j => ?_) (fun j _ => (hfield j).1) fun _ _ => by rw [setDeny_device]
    simp only [Fs.HasOwner, (hfield j).2, setDeny_openInodes]
  refine ⟨?_, h.files.setDeny hf.1 b, fun f' hf' => ?_⟩
  · rw [setDeny_fileRefs]
    refine h.core.of_same (by rw [setDeny_device]) (fun j hj hsec => ?_) hown
      (h.core.volume.setDeny hi (h.files.handle f hf) b)
    rw [(hfield j).1] at hsec
    rw [setDeny_openInodes] at hj
    rw [setDeny_inode_of_ne]
    · exact h.core.root_deny j hj hsec
    · rintro rfl
      exact h.root f hf hsec
  · rw [setDeny_fileInode, (hfield _).1]
    exact h.root f' ((setDeny_handles fs f b f').mp hf')

/-! ## file を閉じる -/

theorem Sound.closeFile (hd : (fs.file f).denyWrite = false) :
    ∃ fs', inodeClose (fs.file f).inode fs = .ok fs' ∧
      Sound { fs' with files := fs'.files.erase f } ∧ ∀ W, Untouched W fs fs' := by
  obtain ⟨fs', he, hcore, hc, hunt, -⟩ :=
    h.core.closeInode (h.files.isOpen f hf.1) (h.files.handle f hf)
  have hsub : ∀ j ∈ fs'.openInodes, j ∈ fs.openInodes :=
    fun j hj => ((h.core.closed_mem hc j).mp hj).1
  have hopen : ∀ f' ∈ fs.files.erase f, (fs.file f').inode ∈ fs'.openInodes := by
    intro f' hf'
    refine (hcore.table.refs_pos _).mp ?_
    rw [← fileRefs_erase hf.1]
    exact List.countP_pos_iff.mpr ⟨f', hf', decide_eq_true rfl⟩
  refine ⟨fs', he, ⟨?_, h.files.closed hd hc hopen hsub hf, ?_⟩, hunt⟩
  · rw [hc.fileRefs_erase hf.1]
    exact hcore.of_files fun _ _ => rfl
  · rintro f' ⟨hf', hne⟩
    have hsec := h.root_frame hc.frame (f := f') ⟨List.mem_of_mem_erase hf', hne⟩
    exact hsec

theorem Sound.fileClose_ok :
    ∃ fs', fileClose f fs = .ok fs' ∧ Sound fs' ∧ ∀ W, Untouched W fs fs' := by
  have hs := h.setDeny hf false
  have hf' := (setDeny_handles fs f false f).mpr hf
  obtain ⟨fs₂, he₂, hs₂, hunt⟩ := hs.closeFile hf' (by rw [setDeny_file, modifyFile_self])
  refine ⟨_, ?_, hs₂, fun W => ?_⟩
  · unfold fileClose
    rw [h.files.fileAllowWrite_eq h.refs_le hf.1]
    simp only [Except.bind, he₂, Except.map]
  · have h₁ : Untouched W fs (fs.setDeny f false) := Untouched.of_eq (setDeny_device fs f false)
    have h₂ := h₁.trans (hunt W)
    exact ⟨h₂.node, h₂.data⟩

end

/-! ## 一つの操作 -/

/-- 操作が書いてよい sector。free map の file は別に数える。 -/
def FsOp.writes (op : FsOp) (fs : Fs) (x : Nat) : Prop :=
  match op with
  | .filesysCreate _ _ => fs.freeMap.bits x = false ∨ fs.rootData x
  | .filesysRemove _ => fs.rootData x
  | .fileWrite f _ => x ∈ (fs.inode (fs.file f).inode).data.extent
  | _ => False

/-- **操作は不変量を保つ。** 止まるのは、大きさや位置が負の場合だけである。 -/
theorem Sound.run (h : Sound fs) {op : FsOp} (hcall : op.callable fs = true) :
    (∃ p, op.run fs = .error p ∧ (p = .inodeCreateLength ∨ p = .fileSeekPos)) ∨
    ∃ fs', op.run fs = .ok fs' ∧ Sound fs' ∧ Untouched (op.writes fs) fs fs' := by
  have hhandle : ∀ f, op.file? = some f → fs.handles f := by
    intro f hf
    simpa [FsOp.callable, hf] using hcall
  cases op with
  | filesysCreate name initialSize =>
    rcases h.core.filesysCreate_cases name (int32_lt initialSize) with
      ⟨-, he⟩ | ⟨b, fs', he, hcore, hframe, hunt, -⟩
    · exact .inl ⟨_, by rw [FsOp.run, he]; rfl, .inl rfl⟩
    · exact .inr ⟨fs', by rw [FsOp.run, he]; rfl, h.of_frame hframe hcore, hunt⟩
  | filesysOpen name =>
    right
    rcases h.core.filesysOpen_cases name with ⟨fs', he, hcore, hframe, hdev, -⟩ |
      ⟨i, fs', he, hcore, -, hs₀, hs₁, hframe, hdev, -⟩
    · exact ⟨fs', by rw [FsOp.run, he]; rfl, h.of_frame hframe hcore, Untouched.of_eq hdev⟩
    · exact ⟨_, by rw [FsOp.run, he]; rfl, h.fileOpen hframe hcore ⟨hs₀, hs₁⟩,
        Untouched.of_eq hdev⟩
  | filesysRemove name =>
    obtain ⟨b, fs', he, hcore, hframe, hunt⟩ := h.core.filesysRemove_ok name
    exact .inr ⟨fs', by rw [FsOp.run, he]; rfl, h.of_frame hframe hcore, hunt⟩
  | fileReopen f =>
    exact .inr ⟨_, rfl, h.fileReopen (hhandle f rfl), Untouched.of_eq rfl⟩
  | fileRead f size =>
    obtain ⟨bytes, fs', he, hs, hdev⟩ := h.fileRead_ok (hhandle f rfl).1 size
    exact .inr ⟨fs', by rw [FsOp.run, he]; rfl, hs, Untouched.of_eq hdev⟩
  | fileWrite f buffer =>
    obtain ⟨n, fs', he, hs, hunt⟩ := h.fileWrite_ok (hhandle f rfl) buffer
    exact .inr ⟨fs', by rw [FsOp.run, he]; rfl, hs, hunt⟩
  | fileSeek f newPos =>
    rw [FsOp.run, Pintos.fileSeek]
    split
    · exact .inl ⟨_, rfl, .inr rfl⟩
    · exact .inr ⟨_, rfl, h.modifyFile rfl rfl, Untouched.of_eq rfl⟩
  | fileDenyWrite f =>
    have hf := hhandle f rfl
    exact .inr ⟨_, h.files.fileDenyWrite_eq h.refs_le hf.1, h.setDeny hf true,
      Untouched.of_eq (setDeny_device fs f true)⟩
  | fileAllowWrite f =>
    have hf := hhandle f rfl
    exact .inr ⟨_, h.files.fileAllowWrite_eq h.refs_le hf.1, h.setDeny hf false,
      Untouched.of_eq (setDeny_device fs f false)⟩
  | fileClose f =>
    obtain ⟨fs', he, hs, hunt⟩ := h.fileClose_ok (hhandle f rfl)
    exact .inr ⟨fs', he, hs, hunt _⟩

end Pintos
