import Mathlib.Data.List.Count
import Pintos.Properties.Filesys.Create

/-!
# 開いた file の表

`struct file` は inode への参照を一つ持ち、`deny_write` の印を一つ持つ。
inode の `deny_write_cnt` は、その inode を指す開いた file のうち印の付いたものの数に等しい
（`OpenFiles.deny`）。印は閉じる前に外されるので、この数は inode への参照の数を超えない。

呼ぶ側が持つ file は、free map の file の inode を指さない。
-/

namespace Pintos

open Infra Function

variable {fs fs' : Fs} {L : Nat → Prop} {refs : InodeId → Nat} {i : InodeId} {f : FileId}

/-! ## 参照の数 -/

/-- inode `i` を指す、開いた file の数。 -/
def Fs.fileRefs (fs : Fs) (i : InodeId) : Nat := fs.files.countP fun f => (fs.file f).inode = i

/-- そのうち、書き込みを禁じているものの数。 -/
def Fs.denyRefs (fs : Fs) (i : InodeId) : Nat :=
  fs.files.countP fun f => (fs.file f).inode = i ∧ (fs.file f).denyWrite

theorem denyRefs_le (fs : Fs) (i : InodeId) : fs.denyRefs i ≤ fs.fileRefs i := by
  refine List.countP_mono_left fun f _ h => ?_
  simp only [decide_eq_true_eq] at h ⊢
  exact h.1

theorem fileRefs_congr (hfiles : fs'.files = fs.files)
    (hfile : ∀ f ∈ fs.files, (fs'.file f).inode = (fs.file f).inode) : fs'.fileRefs = fs.fileRefs := by
  funext i
  unfold Fs.fileRefs
  rw [hfiles]
  exact List.countP_congr fun f hf => by simp [hfile f hf]

theorem fileRefs_frame (hframe : Frame fs fs') : fs'.fileRefs = fs.fileRefs :=
  fileRefs_congr hframe.files fun f _ => by rw [hframe.file]

theorem denyRefs_congr (hfiles : fs'.files = fs.files)
    (hfile : ∀ f ∈ fs.files, (fs'.file f).inode = (fs.file f).inode ∧
      (fs'.file f).denyWrite = (fs.file f).denyWrite) : fs'.denyRefs = fs.denyRefs := by
  funext i
  unfold Fs.denyRefs
  rw [hfiles]
  exact List.countP_congr fun f hf => by simp [hfile f hf]

theorem countP_erase_add {l : List FileId} (hf : f ∈ l) (p : FileId → Bool) :
    l.countP p = (l.erase f).countP p + if p f then 1 else 0 := by
  rw [(List.perm_cons_erase hf).countP_eq p, List.countP_cons]

/-! ## 表 -/

/-- 開いた file は開いている inode を指し、印の数は inode の数と合っている。 -/
structure OpenFiles (fs : Fs) : Prop where
  nodup : fs.files.Nodup
  lt : ∀ f ∈ fs.files, f < fs.nextFile
  isOpen : ∀ f ∈ fs.files, (fs.file f).inode ∈ fs.openInodes
  deny : ∀ i ∈ fs.openInodes, (fs.inode i).denyWriteCnt = fs.denyRefs i

/-- そのうえ、free map の file は file system だけが使っている。 -/
structure FileTable (fs : Fs) : Prop extends OpenFiles fs where
  mapFile : ∀ f, fs.freeMapFile = some f → f ∈ fs.files
  handle : ∀ f, fs.handles f → (fs.inode (fs.file f).inode).sector ≠ freeMapSector

theorem Volume.of_files (h : Volume L refs fs) {file : FileId → File} {files : List FileId}
    {nextFile : FileId}
    (hmap : ∀ f, fs.freeMapFile = some f → (file f).inode = (fs.file f).inode) :
    Volume L refs { fs with file := file, files := files, nextFile := nextFile } := by
  refine ⟨{ h.extents with }, { h.table with mapFile := ?_ }, h.saved⟩
  obtain ⟨f, hf, hopen, hsec⟩ := h.table.mapFile
  refine ⟨f, hf, ?_⟩
  rw [hmap f hf]
  exact ⟨hopen, hsec⟩

theorem modifyFile_self (fs : Fs) (f : FileId) (g : File → File) :
    (fs.modifyFile f g).file f = g (fs.file f) := update_self ..

theorem modifyFile_field {β : Type} (fs : Fs) (p : File → β) {g : File → File}
    (h : p (g (fs.file f)) = p (fs.file f)) (f' : FileId) :
    p ((fs.modifyFile f g).file f') = p (fs.file f') := by
  by_cases hf : f' = f
  · subst hf
    rw [modifyFile_self, h]
  · exact congrArg p (update_of_ne hf ..)

theorem Volume.modifyFile (h : Volume L refs fs) {g : File → File}
    (hg : (g (fs.file f)).inode = (fs.file f).inode) : Volume L refs (fs.modifyFile f g) :=
  h.of_files fun f' _ => modifyFile_field fs File.inode hg f'

section frame

variable (hframe : Frame fs fs') (hlt : ∀ j ∈ fs.openInodes, j < fs.nextInode)
  (hopen : ∀ f ∈ fs.files, (fs.file f).inode ∈ fs'.openInodes)
include hframe hlt hopen

theorem OpenFiles.of_frame (h : OpenFiles fs) : OpenFiles fs' := by
  have hdeny : fs'.denyRefs = fs.denyRefs :=
    denyRefs_congr hframe.files fun f _ => by rw [hframe.file]; exact ⟨rfl, rfl⟩
  refine ⟨hframe.files ▸ h.nodup, ?_, ?_, ?_⟩
  · rw [hframe.files, hframe.nextFile]
    exact h.lt
  · rw [hframe.files, hframe.file]
    exact hopen
  · intro j hj
    rw [hdeny]
    rcases hframe.opened j hj with hj | ⟨hle, -, hd⟩
    · rw [hframe.deny j (hlt j hj)]
      exact h.deny j hj
    · -- 新しく開いた inode を指す file はまだ無い
      have hzero : fs.denyRefs j = 0 := by
        refine List.countP_eq_zero.mpr fun f hf => ?_
        have hne : (fs.file f).inode ≠ j :=
          Nat.ne_of_lt ((hlt _ (h.isOpen f hf)).trans_le hle)
        simp [hne]
      rw [hd, hzero]
      rfl

theorem FileTable.of_frame (h : FileTable fs) : FileTable fs' := by
  refine ⟨h.toOpenFiles.of_frame hframe hlt hopen, ?_, ?_⟩
  · rw [hframe.freeMapFile, hframe.files]
    exact h.mapFile
  · intro f hf
    unfold Fs.handles at hf
    rw [hframe.files, hframe.freeMapFile] at hf
    rw [hframe.file, hframe.sector _ (hlt _ (h.isOpen f hf.1))]
    exact h.handle f hf

end frame

section modifyFile

variable {g : File → File} (hg : (g (fs.file f)).inode = (fs.file f).inode)
  (hd : (g (fs.file f)).denyWrite = (fs.file f).denyWrite)
include hg hd

theorem OpenFiles.modifyFile (h : OpenFiles fs) : OpenFiles (fs.modifyFile f g) := by
  have hinode := modifyFile_field fs File.inode hg
  have hdeny : (fs.modifyFile f g).denyRefs = fs.denyRefs :=
    denyRefs_congr rfl fun f' _ => ⟨hinode f', modifyFile_field fs File.denyWrite hd f'⟩
  refine ⟨h.nodup, h.lt, ?_, ?_⟩
  · intro f' hf'
    rw [hinode]
    exact h.isOpen f' hf'
  · intro j hj
    rw [hdeny]
    exact h.deny j hj

theorem FileTable.modifyFile (h : FileTable fs) : FileTable (fs.modifyFile f g) := by
  refine ⟨h.toOpenFiles.modifyFile hg hd, h.mapFile, fun f' hf' => ?_⟩
  rw [modifyFile_field fs File.inode hg]
  exact h.handle f' hf'

end modifyFile

/-! ### 開く -/

theorem fileOpen_new (fs : Fs) (i : InodeId) :
    (fileOpen i fs).2.file fs.nextFile = { inode := i, pos := 0, denyWrite := false } :=
  update_self ..

namespace OpenFiles

theorem fileOpen_file (h : OpenFiles fs) (i : InodeId) (hf : f ∈ fs.files) :
    (fileOpen i fs).2.file f = fs.file f := update_of_ne (Nat.ne_of_lt (h.lt f hf)) ..

theorem fileRefs_fileOpen (h : OpenFiles fs) (i : InodeId) :
    (fileOpen i fs).2.fileRefs = update fs.fileRefs i (fs.fileRefs i + 1) := by
  funext j
  have hold : fs.files.countP (fun f => ((fileOpen i fs).2.file f).inode = j) = fs.fileRefs j :=
    List.countP_congr fun f hf => by simp [h.fileOpen_file i hf]
  show List.countP _ (fs.nextFile :: fs.files) = _
  rw [List.countP_cons, hold, fileOpen_new]
  by_cases hj : j = i
  · subst hj
    simp
  · rw [update_of_ne hj]
    simp [Ne.symm hj]

theorem denyRefs_fileOpen (h : OpenFiles fs) (i : InodeId) :
    (fileOpen i fs).2.denyRefs = fs.denyRefs := by
  funext j
  show List.countP _ (fs.nextFile :: fs.files) = _
  rw [List.countP_cons, fileOpen_new]
  simp only [Bool.false_eq_true, and_false, decide_false, if_false]
  exact List.countP_congr fun f hf => by simp [h.fileOpen_file i hf]

theorem fileOpen (h : OpenFiles fs) (hi : i ∈ fs.openInodes) : OpenFiles (fileOpen i fs).2 := by
  refine ⟨?_, ?_, ?_, ?_⟩
  · exact List.nodup_cons.mpr ⟨fun hm => Nat.lt_irrefl _ (h.lt _ hm), h.nodup⟩
  · intro f hf
    rcases List.mem_cons.mp hf with rfl | hf
    · exact Nat.lt_succ_self _
    · exact Nat.lt_succ_of_lt (h.lt f hf)
  · intro f hf
    rcases List.mem_cons.mp hf with rfl | hf
    · rw [fileOpen_new]
      exact hi
    · rw [h.fileOpen_file i hf]
      exact h.isOpen f hf
  · intro j hj
    rw [h.denyRefs_fileOpen]
    exact h.deny j hj

end OpenFiles

theorem FileTable.fileOpen (h : FileTable fs) (hi : i ∈ fs.openInodes)
    (hsec : (fs.inode i).sector ≠ freeMapSector) : FileTable (fileOpen i fs).2 := by
  refine ⟨h.toOpenFiles.fileOpen hi, fun f hf => List.mem_cons_of_mem _ (h.mapFile f hf), ?_⟩
  rintro f ⟨hf, hne⟩
  rcases List.mem_cons.mp hf with rfl | hf
  · rw [fileOpen_new]
    exact hsec
  · rw [h.fileOpen_file i hf]
    exact h.handle f ⟨hf, hne⟩

/-! ### 書き込みの禁止 -/

/-- file の `deny_write` を `b` にした状態。変わるときだけ inode の数も変わる。 -/
def Fs.setDeny (fs : Fs) (f : FileId) (b : Bool) : Fs :=
  if (fs.file f).denyWrite = b then fs
  else
    (fs.modifyFile f fun file => { file with denyWrite := b }).modifyInode (fs.file f).inode
      fun node =>
        { node with denyWriteCnt := if b then node.denyWriteCnt + 1 else node.denyWriteCnt - 1 }

section setDeny

variable (fs f)

theorem setDeny_inode (b : Bool) (j : InodeId) :
    ∃ n, (fs.setDeny f b).inode j = { fs.inode j with denyWriteCnt := n } := by
  unfold Fs.setDeny
  split
  · exact ⟨_, rfl⟩
  · by_cases hj : j = (fs.file f).inode
    · subst hj
      rw [modifyInode_self]
      exact ⟨_, rfl⟩
    · rw [modifyInode_of_ne hj]
      exact ⟨_, rfl⟩

theorem setDeny_inode_of_ne (b : Bool) {j : InodeId} (hj : j ≠ (fs.file f).inode) :
    (fs.setDeny f b).inode j = fs.inode j := by
  unfold Fs.setDeny
  split
  · rfl
  · exact modifyInode_of_ne hj _

theorem setDeny_file (b : Bool) :
    (fs.setDeny f b).file = (fs.modifyFile f fun file => { file with denyWrite := b }).file := by
  unfold Fs.setDeny
  split
  · next h =>
    show _ = update fs.file f _
    rw [← h]
    exact (update_eq_self f fs.file).symm
  · rfl

theorem setDeny_fileInode (b : Bool) (f' : FileId) :
    ((fs.setDeny f b).file f').inode = (fs.file f').inode := by
  rw [setDeny_file]
  exact modifyFile_field fs File.inode rfl f'

@[simp] theorem setDeny_device (b : Bool) : (fs.setDeny f b).device = fs.device := by
  unfold Fs.setDeny
  split <;> rfl

@[simp] theorem setDeny_freeMap (b : Bool) : (fs.setDeny f b).freeMap = fs.freeMap := by
  unfold Fs.setDeny
  split <;> rfl

@[simp] theorem setDeny_openInodes (b : Bool) : (fs.setDeny f b).openInodes = fs.openInodes := by
  unfold Fs.setDeny
  split <;> rfl

@[simp] theorem setDeny_files (b : Bool) : (fs.setDeny f b).files = fs.files := by
  unfold Fs.setDeny
  split <;> rfl

@[simp] theorem setDeny_freeMapFile (b : Bool) : (fs.setDeny f b).freeMapFile = fs.freeMapFile := by
  unfold Fs.setDeny
  split <;> rfl

theorem setDeny_handles (b : Bool) (f' : FileId) :
    (fs.setDeny f b).handles f' ↔ fs.handles f' := by
  unfold Fs.handles
  rw [setDeny_files, setDeny_freeMapFile]

theorem setDeny_fileRefs (b : Bool) : (fs.setDeny f b).fileRefs = fs.fileRefs :=
  fileRefs_congr (setDeny_files fs f b) fun f' _ => setDeny_fileInode fs f b f'

theorem setDeny_setDeny (b : Bool) : (fs.setDeny f b).setDeny f b = fs.setDeny f b := by
  refine if_pos ?_
  rw [setDeny_file, modifyFile_self]

end setDeny

theorem Volume.setDeny (h : Volume L refs fs) (hi : (fs.file f).inode ∈ fs.openInodes)
    (hsec : (fs.inode (fs.file f).inode).sector ≠ freeMapSector) (b : Bool) :
    Volume L refs (fs.setDeny f b) := by
  unfold Fs.setDeny
  split
  · exact h
  · have hm : Volume L refs (fs.modifyFile f fun file => { file with denyWrite := b }) :=
      h.modifyFile rfl
    rw [← update_eq_self (fs.file f).inode refs]
    refine hm.modify hi rfl rfl ?_ ((h.table.refs_pos _).mpr hi) fun hs => absurd hs hsec
    exact h.table.refs_eq _ hi

namespace OpenFiles

variable (h : OpenFiles fs)
include h

theorem denyRefs_setDeny (hf : f ∈ fs.files) {b : Bool} (hne : (fs.file f).denyWrite ≠ b)
    (j : InodeId) : ((fs.setDeny f b).denyRefs j : Int) =
      if j = (fs.file f).inode then
        if b then (fs.denyRefs j : Int) + 1 else (fs.denyRefs j : Int) - 1
      else fs.denyRefs j := by
  have hrest : (fs.files.erase f).countP
      (fun f' => ((fs.setDeny f b).file f').inode = j ∧ ((fs.setDeny f b).file f').denyWrite) =
      (fs.files.erase f).countP (fun f' => (fs.file f').inode = j ∧ (fs.file f').denyWrite) := by
    refine List.countP_congr fun f' hf' => ?_
    have hne' : f' ≠ f := (h.nodup.mem_erase_iff.mp hf').1
    rw [setDeny_file]
    simp [Fs.modifyFile, update_of_ne hne']
  unfold Fs.denyRefs
  rw [setDeny_files, countP_erase_add hf, hrest, countP_erase_add hf, setDeny_file, modifyFile_self]
  by_cases hj : j = (fs.file f).inode
  · subst hj
    cases b <;> cases hd : (fs.file f).denyWrite <;> simp_all
  · simp [hj, Ne.symm hj]

theorem setDeny (hf : f ∈ fs.files) (b : Bool) : OpenFiles (fs.setDeny f b) := by
  refine ⟨?_, ?_, ?_, ?_⟩
  · rw [setDeny_files]
    exact h.nodup
  · rw [setDeny_files, show (fs.setDeny f b).nextFile = fs.nextFile by unfold Fs.setDeny; split <;> rfl]
    exact h.lt
  · intro f' hf'
    rw [setDeny_fileInode, setDeny_openInodes]
    rw [setDeny_files] at hf'
    exact h.isOpen f' hf'
  · intro j hj
    rw [setDeny_openInodes] at hj
    have hdeny := h.deny j hj
    by_cases hd : (fs.file f).denyWrite = b
    · unfold Fs.setDeny
      rw [if_pos hd]
      exact hdeny
    · rw [h.denyRefs_setDeny hf hd, ← hdeny]
      by_cases hji : j = (fs.file f).inode
      · subst hji
        rw [if_pos rfl]
        unfold Fs.setDeny
        rw [if_neg hd, modifyInode_self]
        rfl
      · rw [if_neg hji, setDeny_inode_of_ne fs f b hji]

variable (hrefs : ∀ j ∈ fs.openInodes, (fs.fileRefs j : Int) ≤ (fs.inode j).openCnt)
include hrefs

/-- **`inode_deny_write` の `ASSERT` は成り立つ。** 印の付いていない file の分だけ余裕がある。 -/
theorem fileDenyWrite_eq (hf : f ∈ fs.files) : fileDenyWrite f fs = .ok (fs.setDeny f true) := by
  unfold fileDenyWrite Fs.setDeny
  cases hd : (fs.file f).denyWrite with
  | true => rfl
  | false =>
    have hi := h.isOpen f hf
    have hlt : fs.denyRefs (fs.file f).inode < fs.fileRefs (fs.file f).inode := by
      unfold Fs.denyRefs Fs.fileRefs
      rw [countP_erase_add hf, countP_erase_add hf]
      have hle := denyRefs_le { fs with files := fs.files.erase f } (fs.file f).inode
      unfold Fs.denyRefs Fs.fileRefs at hle
      simp only [hd] at hle ⊢
      simp only [Bool.false_eq_true, and_false, decide_false, if_false, decide_true, if_true]
      omega
    have hdeny := h.deny _ hi
    have hle := hrefs _ hi
    simp only [Bool.false_eq_true, if_false]
    unfold inodeDenyWrite
    simp only [modifyInode_self]
    refine if_pos ?_
    show (fs.inode (fs.file f).inode).denyWriteCnt + 1 ≤ (fs.inode (fs.file f).inode).openCnt
    omega

theorem fileAllowWrite_eq (hf : f ∈ fs.files) : fileAllowWrite f fs = .ok (fs.setDeny f false) := by
  unfold fileAllowWrite Fs.setDeny
  cases hd : (fs.file f).denyWrite with
  | false => rfl
  | true =>
    have hi := h.isOpen f hf
    have hpos : 0 < fs.denyRefs (fs.file f).inode :=
      List.countP_pos_iff.mpr ⟨f, hf, by simp [hd]⟩
    have hdeny := h.deny _ hi
    have hle := denyRefs_le fs (fs.file f).inode
    have hle' := hrefs _ hi
    simp only [if_true]
    unfold inodeAllowWrite
    refine if_pos ⟨?_, ?_⟩
    · show 0 < (fs.inode (fs.file f).inode).denyWriteCnt
      omega
    · show (fs.inode (fs.file f).inode).denyWriteCnt ≤ (fs.inode (fs.file f).inode).openCnt
      omega

end OpenFiles

theorem FileTable.setDeny (h : FileTable fs) (hf : f ∈ fs.files) (b : Bool) :
    FileTable (fs.setDeny f b) := by
  refine ⟨h.toOpenFiles.setDeny hf b, ?_, ?_⟩
  · rw [setDeny_files, setDeny_freeMapFile]
    exact h.mapFile
  · intro f' hf'
    obtain ⟨n, hn⟩ := setDeny_inode fs f b (fs.file f').inode
    rw [setDeny_fileInode, hn]
    exact h.handle f' ((setDeny_handles fs f b f').mp hf')

/-! ### 閉じる -/

theorem fileRefs_erase (hf : f ∈ fs.files) (j : InodeId) :
    Fs.fileRefs { fs with files := fs.files.erase f } j =
      update fs.fileRefs (fs.file f).inode (fs.fileRefs (fs.file f).inode - 1) j := by
  have hsplit : fs.fileRefs j = _ := countP_erase_add hf _
  by_cases hj : j = (fs.file f).inode
  · subst hj
    rw [update_self, hsplit]
    simp [Fs.fileRefs]
  · rw [update_of_ne hj, hsplit]
    simp [Fs.fileRefs, Ne.symm hj]

theorem Closed.fileRefs_erase {n : Nat} (hf : f ∈ fs.files) (hc : Closed (fs.file f).inode n fs fs') :
    Fs.fileRefs { fs' with files := fs'.files.erase f } =
      update fs.fileRefs (fs.file f).inode (fs.fileRefs (fs.file f).inode - 1) := by
  funext j
  rw [← Pintos.fileRefs_erase hf j]
  unfold Fs.fileRefs
  rw [hc.frame.files, hc.frame.file]

section closed

variable (hd : (fs.file f).denyWrite = false) {n : Nat} (hc : Closed (fs.file f).inode n fs fs')
  (hopen : ∀ f' ∈ fs.files.erase f, (fs.file f').inode ∈ fs'.openInodes)
  (hsub : ∀ j ∈ fs'.openInodes, j ∈ fs.openInodes)
include hd hc hopen hsub

/-- **閉じる file の印は先に外してある。** したがって残りの印の数は変わらない。 -/
theorem OpenFiles.closed (h : OpenFiles fs) (hf : f ∈ fs.files) :
    OpenFiles { fs' with files := fs'.files.erase f } := by
  have hframe := hc.frame
  have hdeny : ∀ j, (fs'.inode j).denyWriteCnt = (fs.inode j).denyWriteCnt := by
    intro j
    rw [hc.inode]
    exact modifyInode_field fs Inode.denyWriteCnt rfl j
  refine ⟨?_, ?_, ?_, ?_⟩
  · rw [hframe.files]
    exact h.nodup.erase f
  · intro f' hf'
    rw [hframe.files] at hf'
    show f' < fs'.nextFile
    rw [hframe.nextFile]
    exact h.lt f' (List.mem_of_mem_erase hf')
  · intro f' hf'
    rw [hframe.files] at hf'
    show (fs'.file f').inode ∈ fs'.openInodes
    rw [hframe.file]
    exact hopen f' hf'
  · intro j hj
    show (fs'.inode j).denyWriteCnt = _
    rw [hdeny, h.deny j (hsub j hj)]
    unfold Fs.denyRefs
    rw [hframe.files, hframe.file, countP_erase_add hf]
    simp [hd]

theorem FileTable.closed (h : FileTable fs) (hf : fs.handles f) :
    FileTable { fs' with files := fs'.files.erase f } := by
  have hframe := hc.frame
  have hsec : ∀ j, (fs'.inode j).sector = (fs.inode j).sector := by
    intro j
    rw [hc.inode]
    exact modifyInode_field fs Inode.sector rfl j
  refine ⟨h.toOpenFiles.closed hd hc hopen hsub hf.1, ?_, ?_⟩
  · intro f' hf'
    have hf'' : fs.freeMapFile = some f' := hframe.freeMapFile.symm.trans hf'
    have hne : f' ≠ f := by
      rintro rfl
      exact hf.2 hf''
    rw [hframe.files]
    exact (List.mem_erase_of_ne hne).mpr (h.mapFile f' hf'')
  · rintro f' ⟨hf', hne⟩
    rw [hframe.files] at hf'
    show (fs'.inode (fs'.file f').inode).sector ≠ freeMapSector
    rw [hframe.file, hsec]
    refine h.handle f' ⟨List.mem_of_mem_erase hf', ?_⟩
    rw [← hframe.freeMapFile]
    exact hne

end closed

end Pintos
