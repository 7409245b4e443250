import Pintos.Properties.Filesys.DenyCount

/-!
# 呼ぶ側が持つ file

file system の操作が、呼ぶ側の持つ file をどう変えるか。

閉じるのは `file_close` に渡した file だけで、`deny_write` を変えるのは
`file_deny_write` と `file_allow_write` に渡した file だけである（`Keeps`）。
新しく開いた file は、それまで誰も持っていない。
-/

namespace Pintos

open Infra

variable {fs fs' fs₁ fs₂ : Fs} {f g : FileId}

/-- 持っていた file `g` は、そのまま持っている。 -/
def Keeps (fs fs' : Fs) (g : FileId) : Prop :=
  fs.handles g → fs'.handles g ∧ (fs'.file g).inode = (fs.file g).inode ∧
    (fs'.file g).denyWrite = (fs.file g).denyWrite

namespace Keeps

theorem refl (fs : Fs) (g : FileId) : Keeps fs fs g := fun h => ⟨h, rfl, rfl⟩

theorem trans (h : Keeps fs fs₁ g) (h' : Keeps fs₁ fs₂ g) : Keeps fs fs₂ g := by
  intro hg
  obtain ⟨hg₁, hi₁, hd₁⟩ := h hg
  obtain ⟨hg₂, hi₂, hd₂⟩ := h' hg₁
  exact ⟨hg₂, hi₂.trans hi₁, hd₂.trans hd₁⟩

theorem of_frame (h : Frame fs fs') (g : FileId) : Keeps fs fs' g := by
  intro hg
  unfold Fs.handles at hg ⊢
  rw [h.files, h.freeMapFile, h.file]
  exact ⟨hg, rfl, rfl⟩

theorem of_tables (h : SameTables fs fs') (f : FileId) {pos : File → Nat} (g : FileId) :
    Keeps fs (fs'.modifyFile f fun file => { file with pos := pos file }) g := by
  obtain ⟨d, m, rfl⟩ := h
  exact fun hg => ⟨hg, modifyFile_field _ File.inode rfl g, modifyFile_field _ File.denyWrite rfl g⟩

theorem setDeny (hne : g ≠ f) (b : Bool) : Keeps fs (fs.setDeny f b) g := by
  refine fun hg => ⟨(setDeny_handles fs f b g).mpr hg, setDeny_fileInode fs f b g, ?_⟩
  rw [setDeny_file]
  exact congrArg File.denyWrite (Function.update_of_ne hne ..)

end Keeps

/-! ## 操作ごとの性質 -/

namespace Sound

variable (h : Sound fs)
include h

theorem filesysCreate_spec (name : CString) (initialSize : Int) :
    filesysCreate name (int32 initialSize) fs = .error .inodeCreateLength ∨
    ∃ b fs', filesysCreate name (int32 initialSize) fs = .ok (b, fs') ∧ Sound fs' ∧
      ∀ g, Keeps fs fs' g := by
  rcases h.core.filesysCreate_cases name (int32_lt initialSize) with
    ⟨-, he⟩ | ⟨b, fs', he, hcore, hframe, -⟩
  · exact .inl he
  · exact .inr ⟨b, fs', he, h.of_frame hframe hcore, Keeps.of_frame hframe⟩

theorem filesysRemove_spec (name : CString) :
    ∃ b fs', filesysRemove name fs = .ok (b, fs') ∧ Sound fs' ∧ ∀ g, Keeps fs fs' g := by
  obtain ⟨b, fs', he, hcore, hframe, -⟩ := h.core.filesysRemove_ok name
  exact ⟨b, fs', he, h.of_frame hframe hcore, Keeps.of_frame hframe⟩

theorem filesysOpen_spec (name : CString) :
    (∃ fs', filesysOpen name fs = .ok (none, fs') ∧ Sound fs' ∧ ∀ g, Keeps fs fs' g) ∨
    ∃ f fs', filesysOpen name fs = .ok (some f, fs') ∧ Sound fs' ∧ (∀ g, Keeps fs fs' g) ∧
      f ∉ fs.files ∧ fs'.handles f ∧ (fs'.file f).denyWrite = false := by
  rcases h.core.filesysOpen_cases name with ⟨fs', he, hcore, hframe, -⟩ |
    ⟨i, fs', he, hcore, -, hs₀, hs₁, hframe, -⟩
  · exact .inl ⟨fs', he, h.of_frame hframe hcore, Keeps.of_frame hframe⟩
  · have hsound := h.fileOpen hframe hcore ⟨hs₀, hs₁⟩
    have hfresh : fs'.nextFile ∉ fs.files := fun hm => by
      rw [hframe.nextFile] at hm
      exact Nat.lt_irrefl _ (h.files.lt _ hm)
    refine .inr ⟨_, _, he, hsound, fun g hg => ?_, hfresh, ⟨List.mem_cons_self, fun hmap => ?_⟩, ?_⟩
    · have hne : g ≠ fs'.nextFile := fun hn => hfresh (hn ▸ hg.1)
      obtain ⟨hg', hi, hd⟩ := Keeps.of_frame hframe g hg
      have hfile : (Pintos.fileOpen i fs').2.file g = fs'.file g := Function.update_of_ne hne ..
      rw [hfile]
      exact ⟨⟨List.mem_cons_of_mem _ hg'.1, hg'.2⟩, hi, hd⟩
    · have hmap : fs'.freeMapFile = some fs'.nextFile := hmap
      rw [hframe.freeMapFile] at hmap
      exact hfresh (h.files.mapFile _ hmap)
    · exact congrArg File.denyWrite (fileOpen_new fs' i)

theorem fileRead_spec (hf : fs.handles f) (size : Nat) :
    ∃ bytes fs', fileRead f size fs = .ok (bytes, fs') ∧ Sound fs' ∧ ∀ g, Keeps fs fs' g := by
  obtain ⟨bytes, fs', he, hs, -⟩ := h.fileRead_ok hf.1 size
  refine ⟨bytes, fs', he, hs, fun g => ?_⟩
  obtain ⟨r, -, hr⟩ := map_eq_ok.mp he
  cases hr
  exact Keeps.of_tables (SameTables.refl fs) f g

theorem fileWrite_spec (hf : fs.handles f) (buffer : List UInt8) :
    ∃ n fs', fileWrite f buffer fs = .ok (n, fs') ∧ Sound fs' ∧ ∀ g, Keeps fs fs' g := by
  obtain ⟨n, fs', he, hs, -⟩ := h.fileWrite_ok hf buffer
  refine ⟨n, fs', he, hs, fun g => ?_⟩
  obtain ⟨r, hr, hn⟩ := map_eq_ok.mp he
  cases hn
  exact Keeps.of_tables (SameTables.inodeWriteAt hr) f g

theorem fileSeek_spec (newPos : Int) : fileSeek f newPos fs = .error .fileSeekPos ∨
    ∃ fs', fileSeek f newPos fs = .ok fs' ∧ Sound fs' ∧ ∀ g, Keeps fs fs' g := by
  unfold fileSeek
  split
  · exact .inl rfl
  · exact .inr ⟨_, rfl, h.modifyFile rfl rfl, Keeps.of_tables (SameTables.refl fs) f⟩

theorem fileDenyWrite_spec (hf : fs.handles f) :
    ∃ fs', fileDenyWrite f fs = .ok fs' ∧ Sound fs' ∧ fs'.handles f ∧
      ∀ g, g ≠ f → Keeps fs fs' g :=
  ⟨_, h.files.fileDenyWrite_eq h.refs_le hf.1, h.setDeny hf true,
    (setDeny_handles fs f true f).mpr hf, fun _ hne => Keeps.setDeny hne true⟩

theorem fileClose_spec (hf : fs.handles f) :
    ∃ fs', fileClose f fs = .ok fs' ∧ Sound fs' ∧ fs'.files = fs.files.erase f ∧
      ∀ g, g ≠ f → Keeps fs fs' g := by
  obtain ⟨fs', he, hs, -⟩ := h.fileClose_ok hf
  refine ⟨fs', he, hs, ?_⟩
  -- 禁止を外し、inode を閉じ、表から除く
  have h₁ := h.setDeny hf false
  have hf₁ := (setDeny_handles fs f false f).mpr hf
  obtain ⟨fs₂, he₂, -, hc, -⟩ :=
    h₁.core.closeInode (h₁.files.isOpen f hf₁.1) (h₁.files.handle f hf₁)
  unfold fileClose at he
  rw [h.files.fileAllowWrite_eq h.refs_le hf.1] at he
  simp only [Except.bind, he₂, Except.map] at he
  cases he
  refine ⟨congrArg (·.erase f) (hc.frame.files.trans (setDeny_files fs f false)), fun g hne => ?_⟩
  refine (Keeps.setDeny hne false).trans ((Keeps.of_frame hc.frame g).trans fun hg => ?_)
  exact ⟨⟨(List.mem_erase_of_ne hne).mpr hg.1, hg.2⟩, rfl, rfl⟩

end Sound

end Pintos
