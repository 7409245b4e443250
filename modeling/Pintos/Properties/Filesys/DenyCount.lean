import Pintos.Properties.Filesys.VnodeRun

/-!
# 書き込みの禁止の数

どの inode を file として開いても、sector に何が書いてあっても、参照の約束さえ守れば
`deny_write_cnt` は印の付いた file の数に等しい。

数に関わるのは表だけなので、装置と free map を任意に変える操作（`SameTables`）を許して示す。
-/

namespace Pintos

open Infra

variable {v v' : Vnodes} {fs fs' : Fs} {i : InodeId} {f : FileId} {s : Nat} {op : VOp}
  {refs : InodeId → Nat}

/-! ## 表に触れない計算 -/

variable {b : Bool}

/-- 装置と free map のほかは変わらない。 -/
def SameTables (fs fs' : Fs) : Prop := ∃ d m, fs' = { fs with device := d, freeMap := m }

namespace SameTables

theorem refl (fs : Fs) : SameTables fs fs := ⟨_, _, rfl⟩

theorem trans {fs₁ fs₂ fs₃ : Fs} (h : SameTables fs₁ fs₂) (h' : SameTables fs₂ fs₃) :
    SameTables fs₁ fs₃ := by
  obtain ⟨d, m, rfl⟩ := h
  obtain ⟨d', m', rfl⟩ := h'
  exact ⟨d', m', rfl⟩

theorem inodeWriteAt {buffer : List UInt8} {offset n : Nat}
    (he : inodeWriteAt i buffer offset fs = .ok (n, fs')) : SameTables fs fs' := by
  unfold Pintos.inodeWriteAt at he
  split at he
  · cases he
    exact refl fs
  · obtain ⟨r, -, hr⟩ := map_eq_ok.mp he
    cases hr
    exact ⟨_, _, rfl⟩

theorem bitmapWrite (he : bitmapWrite f fs = .ok (b, fs')) : SameTables fs fs' := by
  obtain ⟨r, hr, hb⟩ := map_eq_ok.mp he
  cases hb
  exact inodeWriteAt hr

theorem freeMapAllocate {cnt : Nat} {o : Option Nat} (he : freeMapAllocate cnt fs = .ok (o, fs')) :
    SameTables fs fs' := by
  unfold Pintos.freeMapAllocate at he
  split at he
  · cases he
    exact refl fs
  · next sector map _ =>
    have hmap : SameTables fs { fs with freeMap := map } := ⟨_, _, rfl⟩
    split at he
    · cases he
      exact hmap
    · obtain ⟨⟨b, fs₁⟩, hw, he⟩ := bind_eq_ok.mp he
      have h₁ := hmap.trans (bitmapWrite hw)
      split at he
      · cases he
        exact h₁
      · obtain ⟨m, -, he⟩ := map_eq_ok.mp he
        cases he
        exact h₁.trans ⟨_, _, rfl⟩

theorem freeMapRelease {sector cnt : Nat} (he : freeMapRelease sector cnt fs = .ok fs') :
    SameTables fs fs' := by
  obtain ⟨used, -, he⟩ := bind_eq_ok.mp he
  obtain ⟨-, he⟩ := guard_eq_ok.mp he
  obtain ⟨map, -, he⟩ := bind_eq_ok.mp he
  obtain ⟨g, -, he⟩ := bind_eq_ok.mp he
  obtain ⟨⟨b, fs₁⟩, hw, rfl⟩ := map_eq_ok.mp he
  have hmap : SameTables fs { fs with freeMap := map } := ⟨_, _, rfl⟩
  exact hmap.trans (bitmapWrite hw)

theorem inodeCreate {sector : Nat} {length : Int} (he : inodeCreate sector length fs = .ok (b, fs'))
    : SameTables fs fs' := by
  obtain ⟨-, he⟩ := guard_eq_ok.mp he
  obtain ⟨⟨o, fs₁⟩, ha, he⟩ := bind_eq_ok.mp he
  have h₁ := freeMapAllocate ha
  split at he
  · cases he
    exact h₁
  · obtain ⟨d, -, he⟩ := bind_eq_ok.mp he
    obtain ⟨d', -, he⟩ := map_eq_ok.mp he
    cases he
    exact h₁.trans ⟨_, _, rfl⟩

theorem allocateInode {create : Nat → Fs → Except FsPanic (Bool × Fs)} {o : Option Nat}
    (hcreate : ∀ s fs b fs', create s fs = .ok (b, fs') → SameTables fs fs')
    (he : allocateInode create fs = .ok (o, fs')) : SameTables fs fs' := by
  obtain ⟨⟨a, fs₁⟩, ha, he⟩ := bind_eq_ok.mp he
  have h₁ := freeMapAllocate ha
  cases a with
  | none =>
    cases he
    exact h₁
  | some sector =>
    obtain ⟨⟨b, fs₂⟩, hc, he⟩ := bind_eq_ok.mp he
    have h₂ := h₁.trans (hcreate _ _ _ _ hc)
    split at he
    · cases he
      exact h₂
    · obtain ⟨fs₃, hr, he⟩ := map_eq_ok.mp he
      cases he
      exact h₂.trans (freeMapRelease hr)

theorem dirAdd {dir : InodeId} {name : CString} {sector : Nat}
    (he : dirAdd dir name sector fs = .ok (b, fs')) : SameTables fs fs' := by
  unfold Pintos.dirAdd at he
  split at he
  · cases he
    exact refl fs
  · obtain ⟨found, -, he⟩ := bind_eq_ok.mp he
    cases found with
    | some p =>
      cases he
      exact refl fs
    | none =>
      obtain ⟨slot, -, he⟩ := bind_eq_ok.mp he
      obtain ⟨⟨n, fs₁⟩, hw, he⟩ := map_eq_ok.mp he
      cases he
      exact inodeWriteAt hw

end SameTables

/-! ## 表 -/

structure Counted (v : Vnodes) : Prop where
  files : OpenFiles v.fs
  table : RefTable v.refs v.fs

namespace Counted

theorem refs_le (h : Counted v) (j : InodeId) (hj : j ∈ v.fs.openInodes) :
    (v.fs.fileRefs j : Int) ≤ (v.fs.inode j).openCnt := by
  rw [h.table.refs_eq j hj]
  exact Int.ofNat_le.mpr (Nat.le_add_right ..)

theorem of_same (h : Counted v) (hsame : SameTables v.fs v'.fs) (hheld : v'.held = v.held) :
    Counted v' := by
  obtain ⟨d, m, hfs⟩ := hsame
  have hrefs : v'.refs = v.refs := by
    unfold Vnodes.refs
    rw [hfs, hheld]
    rfl
  refine ⟨?_, ?_⟩
  · rw [hfs]
    exact { h.files with }
  · rw [hrefs, hfs]
    exact { h.table with }

/-! ### 開く -/

theorem inodeOpen_opened (he : Pintos.inodeOpen s fs = .ok (i, fs')) : Opened s fs i fs' := by
  unfold Pintos.inodeOpen at he
  split at he
  · next j hj =>
    cases he
    exact .shared (List.mem_of_find?_eq_some hj) (by simpa using List.find?_some hj) rfl
  · next hnone =>
    obtain ⟨buffer, hb, he⟩ := map_eq_ok.mp he
    have hbuffer : buffer = fs.device.data s := by
      unfold Block.read at hb
      split at hb
      · exact (Except.ok.inj hb).symm
      · cases hb
    cases he
    refine .fresh (fun j hj => by simpa using List.find?_eq_none.mp hnone j hj) rfl ?_
    rw [hbuffer]
    rfl

variable (h : Counted v)
include h

theorem opened (ho : Opened s v.fs i fs') : Counted { v with fs := fs', held := v.hold i } := by
  have ht := h.table
  refine ⟨h.files.of_frame ho.frame ht.lt fun f hf =>
    ho.mem_openInodes.mpr (.inr (h.files.isOpen f hf)), ?_⟩
  rw [refs_hold v ho.frame]
  exact ht.opened ho

/-! ### 閉じる -/

theorem isOpen_of_held (hi : 0 < v.held i) : i ∈ v.fs.openInodes :=
  (h.table.refs_pos i).mp (Nat.lt_of_lt_of_le hi (Nat.le_add_left ..))

theorem inodeClose_closed (hi : i ∈ v.fs.openInodes) (he : inodeClose i v.fs = .ok fs') :
    Closed i (v.refs i) v.fs fs' := by
  have hcnt := h.table.refs_eq i hi
  rw [inodeClose_eq] at he
  split at he
  · next hlast =>
    have hone : v.refs i = 1 := by omega
    have hdrop : Closed i (v.refs i) v.fs (v.fs.dropInode i) :=
      ⟨frame_dropInode v.fs i, by rw [if_pos hone]; rfl, rfl⟩
    split at he
    · obtain ⟨fs₁, h₁, h₂⟩ := bind_eq_ok.mp he
      obtain ⟨d, m, rfl⟩ := (SameTables.freeMapRelease h₁).trans (SameTables.freeMapRelease h₂)
      exact ⟨⟨hdrop.frame.file, hdrop.frame.files, hdrop.frame.nextFile, hdrop.frame.freeMapFile,
        hdrop.frame.nextInode, hdrop.frame.sector, hdrop.frame.deny, hdrop.frame.opened⟩,
        hdrop.openInodes, hdrop.inode⟩
    · cases he
      exact hdrop
  · next hmore =>
    cases he
    exact ⟨frame_modifyInode v.fs rfl rfl, by rw [if_neg (by omega)]; rfl, rfl⟩

theorem closeInode (hi : 0 < v.held i) (he : inodeClose i v.fs = .ok fs') (hfs : v'.fs = fs')
    (hheld : v'.held = v.drop i) : Counted v' := by
  have hopen := h.isOpen_of_held hi
  have hc := h.inodeClose_closed hopen he
  have ht := h.table.closed hopen hc
  have hrefs := refs_drop hi (hfs ▸ hc.frame) hheld
  refine ⟨?_, by rw [hrefs, hfs]; exact ht⟩
  rw [hfs]
  refine h.files.of_frame hc.frame h.table.lt fun f hf => (ht.refs_pos _).mp ?_
  have hfile : 0 < v.fs.fileRefs (v.fs.file f).inode :=
    List.countP_pos_iff.mpr ⟨f, hf, decide_eq_true rfl⟩
  rw [← hrefs]
  refine Nat.lt_of_lt_of_le ?_ (Nat.le_add_right ..)
  rw [hfs, fileRefs_frame hc.frame]
  exact hfile

/-! ### 開いた file -/

theorem setDeny (hf : f ∈ v.fs.files) (b : Bool) : Counted { v with fs := v.fs.setDeny f b } := by
  refine ⟨h.files.setDeny hf b, ?_⟩
  rw [refs_setDeny]
  have hinode : ∀ j, ((v.fs.setDeny f b).inode j).openCnt = (v.fs.inode j).openCnt := by
    intro j
    obtain ⟨n, hn⟩ := setDeny_inode v.fs f b j
    rw [hn]
  have hnext : (v.fs.setDeny f b).nextInode = v.fs.nextInode := by
    unfold Fs.setDeny
    split <;> rfl
  exact h.table.congr (setDeny_openInodes ..) hinode (Nat.le_of_eq hnext.symm)

theorem modifyFile {g : File → File} (hg : (g (v.fs.file f)).inode = (v.fs.file f).inode)
    (hd : (g (v.fs.file f)).denyWrite = (v.fs.file f).denyWrite) :
    Counted { v with fs := v.fs.modifyFile f g } := by
  refine ⟨h.files.modifyFile hg hd, ?_⟩
  rw [refs_modifyFile hg]
  exact { h.table with }

theorem fileOpen (hi : 0 < v.held i) :
    Counted { v with fs := (Pintos.fileOpen i v.fs).2, held := v.drop i } := by
  refine ⟨h.files.fileOpen (h.isOpen_of_held hi), ?_⟩
  rw [refs_fileOpen h.files hi]
  exact { h.table with }

theorem fileReopen (hf : f ∈ v.fs.files) :
    Counted { v with fs := (Pintos.fileReopen f v.fs).2 } := by
  have hr := h.opened (.shared (h.files.isOpen f hf) rfl rfl)
  have hopen := hr.fileOpen (hold_pos v _)
  rw [drop_hold] at hopen
  exact hopen

theorem closeFile (hf : f ∈ v.fs.files) (hd : (v.fs.file f).denyWrite = false)
    (he : inodeClose (v.fs.file f).inode v.fs = .ok fs')
    (hfs : v'.fs = { fs' with files := fs'.files.erase f }) (hheld : v'.held = v.held) :
    Counted v' := by
  have hopen := h.files.isOpen f hf
  have hc := h.inodeClose_closed hopen he
  have ht := h.table.closed hopen hc
  have hrefs : v'.refs =
      Function.update v.refs (v.fs.file f).inode (v.refs (v.fs.file f).inode - 1) := by
    unfold Vnodes.refs
    rw [hfs, hheld]
    exact refs_closeFile hf hc
  have hfiles : v'.fs.files = v.fs.files.erase f := by rw [hfs, ← hc.frame.files]
  refine ⟨?_, ?_⟩
  · rw [hfs]
    refine h.files.closed hd hc (fun f' hf' => (ht.refs_pos _).mp ?_) (fun j hj => ?_) hf
    · rw [← hrefs]
      refine Nat.lt_of_lt_of_le ?_ (Nat.le_add_right ..)
      refine List.countP_pos_iff.mpr ⟨f', hfiles ▸ hf', decide_eq_true ?_⟩
      rw [hfs, ← hc.frame.file]
    · rw [hc.openInodes] at hj
      split at hj
      · exact List.mem_of_mem_erase hj
      · exact hj
  · rw [hrefs, hfs]
    exact { ht with }

theorem remove (i : InodeId) : Counted { v with fs := inodeRemove i v.fs } := by
  have hframe : Frame v.fs (inodeRemove i v.fs) := frame_modifyInode v.fs rfl rfl
  refine ⟨h.files.of_frame hframe h.table.lt h.files.isOpen, h.table.congr rfl ?_ (Nat.le_refl _)⟩
  exact modifyInode_field v.fs Inode.openCnt (f := fun node => { node with removed := true }) rfl

theorem fileClose (hf : f ∈ v.fs.files) (he : fileClose f v.fs = .ok fs') (hfs : v'.fs = fs')
    (hheld : v'.held = v.held) : Counted v' := by
  unfold Pintos.fileClose at he
  rw [h.files.fileAllowWrite_eq h.refs_le hf] at he
  obtain ⟨fs₁, hclose, rfl⟩ := map_eq_ok.mp he
  refine (h.setDeny hf false).closeFile (by simp only [setDeny_files]; exact hf) ?_ hclose hfs hheld
  simp only [setDeny_file, modifyFile_self]

theorem dirRemove {dir : InodeId} {name : CString} (he : dirRemove dir name v.fs = .ok (b, fs'))
    (hfs : v'.fs = fs') (hheld : v'.held = v.held) : Counted v' := by
  obtain ⟨found, -, he⟩ := bind_eq_ok.mp he
  cases found with
  | none =>
    cases he
    exact h.of_same (hfs ▸ SameTables.refl _) hheld
  | some p =>
    obtain ⟨⟨r, fs₁⟩, ho, he⟩ := bind_eq_ok.mp he
    obtain ⟨⟨n, fs₂⟩, hw, he⟩ := bind_eq_ok.mp he
    have h₁ := h.opened (inodeOpen_opened ho)
    have h₂ : Counted { v with fs := fs₂, held := v.hold r } :=
      h₁.of_same (SameTables.inodeWriteAt hw) rfl
    have hdrop : ∀ fs, v'.held = Vnodes.drop { v with fs := fs, held := v.hold r } r := by
      intro fs
      rw [drop_hold, hheld]
    split at he
    · obtain ⟨fs₃, hclose, he⟩ := map_eq_ok.mp he
      cases he
      exact h₂.closeInode (hold_pos v r) hclose hfs (hdrop _)
    · obtain ⟨fs₃, hclose, he⟩ := map_eq_ok.mp he
      cases he
      exact (h₂.remove r).closeInode (hold_pos v r) hclose hfs (hdrop _)

/-! ### どの操作も -/

theorem run (hvalid : op.valid v) (he : op.run v = .ok v') : Counted v' := by
  cases op with
  | inodeCreate | dirCreate =>
    obtain ⟨⟨o, fs'⟩, ha, rfl⟩ := map_eq_ok.mp he
    exact h.of_same (SameTables.allocateInode (fun _ _ _ _ hc => SameTables.inodeCreate hc) ha) rfl
  | inodeOpen sector =>
    obtain ⟨⟨i, fs'⟩, ho, rfl⟩ := map_eq_ok.mp he
    exact h.opened (inodeOpen_opened ho)
  | inodeReopen i =>
    cases he
    exact h.opened (.shared hvalid rfl rfl)
  | inodeRemove i =>
    cases he
    exact h.remove i
  | inodeClose i =>
    obtain ⟨fs', hclose, rfl⟩ := map_eq_ok.mp he
    exact h.closeInode hvalid hclose (closed_fs v i fs') rfl
  | inodeWriteAt i buffer offset =>
    obtain ⟨⟨n, fs'⟩, hw, rfl⟩ := map_eq_ok.mp he
    exact h.of_same (SameTables.inodeWriteAt hw) rfl
  | fileOpen i =>
    cases he
    exact h.fileOpen hvalid
  | fileReopen f =>
    cases he
    exact h.fileReopen hvalid
  | fileRead f size =>
    obtain ⟨⟨bytes, fs'⟩, hr, rfl⟩ := map_eq_ok.mp he
    obtain ⟨b, -, hfs⟩ := map_eq_ok.mp hr
    cases hfs
    exact h.modifyFile (g := fun file => { file with pos := file.pos + bytes.length }) rfl rfl
  | fileWrite f buffer =>
    obtain ⟨⟨n, fs'⟩, hr, rfl⟩ := map_eq_ok.mp he
    obtain ⟨⟨n, fs₁⟩, hw, hfs⟩ := map_eq_ok.mp hr
    cases hfs
    have h₁ : Counted { v with fs := fs₁ } := h.of_same (SameTables.inodeWriteAt hw) rfl
    exact h₁.modifyFile (g := fun file => { file with pos := file.pos + n }) rfl rfl
  | fileSeek f newPos =>
    obtain ⟨fs', hs, rfl⟩ := map_eq_ok.mp he
    obtain ⟨-, hfs⟩ := guard_eq_ok.mp hs
    cases hfs
    exact h.modifyFile rfl rfl
  | fileDenyWrite f =>
    obtain ⟨fs', hd, rfl⟩ := map_eq_ok.mp he
    rw [h.files.fileDenyWrite_eq h.refs_le hvalid] at hd
    cases hd
    exact h.setDeny hvalid true
  | fileAllowWrite f =>
    obtain ⟨fs', hd, rfl⟩ := map_eq_ok.mp he
    rw [h.files.fileAllowWrite_eq h.refs_le hvalid] at hd
    cases hd
    exact h.setDeny hvalid false
  | fileClose f =>
    obtain ⟨fs', hc, rfl⟩ := map_eq_ok.mp he
    exact h.fileClose hvalid hc (closed_fs ..) (closed_held ..)
  | dirAdd dir name sector =>
    obtain ⟨⟨b, fs'⟩, ha, rfl⟩ := map_eq_ok.mp he
    exact h.of_same (SameTables.dirAdd ha) rfl
  | dirRemove dir name =>
    obtain ⟨⟨b, fs'⟩, hr, rfl⟩ := map_eq_ok.mp he
    exact h.dirRemove hr (unlinked_fs ..) (unlinked_held ..)
  | dirLookup dir name =>
    obtain ⟨⟨o, fs'⟩, hl, rfl⟩ := map_eq_ok.mp he
    obtain ⟨found, -, hl⟩ := bind_eq_ok.mp hl
    cases found with
    | none =>
      cases hl
      exact h
    | some p =>
      obtain ⟨⟨i, fs₁⟩, ho, hl⟩ := map_eq_ok.mp hl
      cases hl
      exact h.opened (inodeOpen_opened ho)

end Counted

theorem Vnodes.IsFormatted.counted (h : v.IsFormatted) : Counted v := by
  have hv := h.vinv
  exact ⟨hv.files.toOpenFiles, { hv.volume.table with }⟩

/-- **参照の約束だけを守る実行でも、数は合っている。** -/
theorem reachable_counted (h : Reachable fileLayer v) : Counted v := by
  refine Reachable.invariant (I := Counted) (fun _ hi => Vnodes.IsFormatted.counted hi)
    (fun v op v' hv hs => ?_) h
  have hs : fileStep v op = some v' := hs
  unfold fileStep at hs
  split at hs
  · next hvalid =>
    split at hs
    · next v₁ he =>
      cases hs
      exact hv.run hvalid he
    · cases hs
  · cases hs

/--
**`deny_write_cnt` は、開いた file のうち書き込みを禁じているものの数である。**

それは `open_cnt` を超えないので、`inode_deny_write` と `inode_allow_write` の `ASSERT` は成り立つ。
禁止も許可も二度目は何も変えず、inode の file がすべて閉じられれば禁止は残らない。
-/
theorem reachable_denyWriteCnt (h : Reachable fileLayer v) :
    (∀ i ∈ v.fs.openInodes,
      (v.fs.inode i).denyWriteCnt =
        (v.fs.files.countP fun f => (v.fs.file f).inode = i ∧ (v.fs.file f).denyWrite : Nat) ∧
      (v.fs.inode i).denyWriteCnt ≤ (v.fs.inode i).openCnt ∧
      ((∀ f ∈ v.fs.files, (v.fs.file f).inode ≠ i) → (v.fs.inode i).denyWriteCnt = 0)) ∧
    ∀ f ∈ v.fs.files,
      (∃ fs', fileDenyWrite f v.fs = .ok fs' ∧ fileDenyWrite f fs' = .ok fs') ∧
      ∃ fs', fileAllowWrite f v.fs = .ok fs' ∧ fileAllowWrite f fs' = .ok fs' := by
  have hc := reachable_counted h
  refine ⟨fun i hi => ⟨hc.files.deny i hi, ?_, fun hnone => ?_⟩, fun f hf => ⟨?_, ?_⟩⟩
  · rw [hc.files.deny i hi]
    exact Int.le_trans (Int.ofNat_le.mpr (denyRefs_le v.fs i)) (hc.refs_le i hi)
  · rw [hc.files.deny i hi]
    have hzero : v.fs.denyRefs i = 0 := by
      refine List.countP_eq_zero.mpr fun f hf hd => ?_
      simp only [decide_eq_true_eq] at hd
      exact hnone f hf hd.1
    rw [hzero]
    rfl
  · have hs := hc.setDeny hf true
    refine ⟨_, hc.files.fileDenyWrite_eq hc.refs_le hf, ?_⟩
    rw [hs.files.fileDenyWrite_eq hs.refs_le (by simp only [setDeny_files]; exact hf),
      setDeny_setDeny]
  · have hs := hc.setDeny hf false
    refine ⟨_, hc.files.fileAllowWrite_eq hc.refs_le hf, ?_⟩
    rw [hs.files.fileAllowWrite_eq hs.refs_le (by simp only [setDeny_files]; exact hf),
      setDeny_setDeny]

/-- 一つの inode を三つの file で開き、二つで禁じて、一つを閉じる。 -/
theorem reachable_denyWriteCnt_shared : ∃ v, Reachable fileLayer v ∧
    v.fs.files.countP (fun f => (v.fs.file f).inode = 2) = 2 ∧ (v.fs.inode 2).denyWriteCnt = 1 := by
  obtain ⟨v, hv, hp⟩ := exists_reachable_of_vnodes fileStep 8 (by decide)
    [.inodeCreate 1, .inodeOpen 4, .fileOpen 2, .fileReopen 2, .fileReopen 3, .fileDenyWrite 2,
      .fileDenyWrite 3, .fileDenyWrite 3, .fileWrite 4 [7], .fileClose 2]
    (p := fun v => 2 ∈ v.fs.openInodes ∧ v.fs.files.countP (fun f => (v.fs.file f).inode = 2) = 2 ∧
      v.fs.files.countP (fun f => (v.fs.file f).inode = 2 ∧ (v.fs.file f).denyWrite) = 1)
    (by decide +kernel)
  obtain ⟨hopen, hfiles, hdeny⟩ := of_decide_eq_true hp
  refine ⟨v, hv, hfiles, ?_⟩
  rw [((reachable_denyWriteCnt hv).1 2 hopen).1, hdeny]
  rfl

end Pintos
