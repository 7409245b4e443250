import Pintos.Properties.Userprog.Descriptor

/-!
# 大きさと位置の引数

`create` の `initial_size` と `seek` の `position` は `unsigned` で渡り、`off_t` に変わる。
`2 ^ 31` 以上の値は負になり、`inode_create` と `file_seek` の検査に落ちる。
-/

namespace Pintos

open Infra

theorem int32_neg_iff (w : BitVec 32) : int32 w.toNat < 0 ↔ 2 ^ 31 ≤ w.toNat := by
  have hlt := w.isLt
  rcases Nat.lt_or_ge w.toNat (2 ^ 31) with h | h
  · rw [int32_of_range ⟨by omega, by omega⟩]
    omega
  · rw [int32_of_ge ⟨by omega, by omega⟩]
    omega

variable {fs : Fs} {refs : InodeId → Nat} {f : FileId} {length : Int}

/-- 大きさが負の `filesys_create` は、inode の sector が取れなければ落ちずに失敗する。 -/
theorem Core.filesysCreate_neg (h : Core refs fs) (name : CString) (hneg : length < 0) :
    (∃ r, filesysCreate name length fs = .ok r) ↔ fs.freeMap.scan 0 1 false = none := by
  obtain ⟨r, fs₁, he₁, hcore₁, ho⟩ := h.openInode (live_rootDir fs)
  have hr : IsRoot fs₁ r := ⟨ho.isOpen, ho.sector⟩
  unfold filesysCreate
  rw [he₁]
  simp only [Except.bind]
  rw [freeMapAllocate_eq fun f hf => hcore₁.volume.mapOk hf, ← ho.freeMap]
  cases fs₁.freeMap.scan 0 1 false with
  | none =>
    obtain ⟨fs', he, -⟩ := hcore₁.closeRoot hr
    simp [createAt, he, Except.map]
  | some s => simp [createAt_neg hneg]

theorem Sound.filesysCreate_ok_iff (h : Sound fs) (name : CString) (size : BitVec 32) :
    (∃ r, filesysCreate name (int32 size.toNat) fs = .ok r) ↔
      size.toNat < 2 ^ 31 ∨ fs.freeMap.scan 0 1 false = none := by
  by_cases hneg : int32 size.toNat < 0
  · have hge := (int32_neg_iff size).mp hneg
    rw [h.core.filesysCreate_neg name hneg]
    exact ⟨.inr, fun hor => hor.resolve_left (Nat.not_lt.mpr hge)⟩
  · have hlt : size.toNat < 2 ^ 31 := Nat.not_le.mp fun hge => hneg ((int32_neg_iff size).mpr hge)
    rcases h.core.filesysCreate_cases name (int32_lt size.toNat) with ⟨hn, -⟩ | ⟨b, fs', he, -⟩
    · exact absurd hn hneg
    · exact ⟨fun _ => .inl hlt, fun _ => ⟨_, he⟩⟩

theorem Sound.fileRead_past (h : Sound fs) (hf : f ∈ fs.files)
    (hpos : fileLength f fs ≤ (fs.file f).pos) (size : Nat) :
    ∃ fs', fileRead f size fs = .ok ([], fs') := by
  have hzero : (fs.inode (fs.file f).inode).data.length - (fs.file f).pos = 0 :=
    Nat.sub_eq_zero_of_le hpos
  unfold fileRead
  rw [inodeReadAt_eq (h.fits hf), hzero, Nat.min_zero]
  exact ⟨_, rfl⟩

theorem Sound.fileWrite_past (h : Sound fs) (hf : f ∈ fs.files)
    (hpos : fileLength f fs ≤ (fs.file f).pos) (buffer : List UInt8) :
    ∃ fs', fileWrite f buffer fs = .ok (0, fs') := by
  have hzero : (fs.inode (fs.file f).inode).data.length - (fs.file f).pos = 0 :=
    Nat.sub_eq_zero_of_le hpos
  unfold fileWrite
  by_cases hd : (fs.inode (fs.file f).inode).denyWriteCnt = 0
  · rw [inodeWriteAt_eq hd (h.fits hf), hzero, Nat.min_zero]
    exact ⟨_, rfl⟩
  · rw [inodeWriteAt_denied hd]
    exact ⟨_, rfl⟩

namespace Userprog

variable {s : Tasks} {p : Pid} {fd : Int}

/-! ## system call -/

section

variable (h : TasksInv s) (hp : p ∈ s.live)
include h

theorem create_ok_iff (name : CString) (size : BitVec 32) :
    (∃ r, s.call p (.create name size.toNat) = .ok r) ↔
      size.toNat < 2 ^ 31 ∨ s.fs.freeMap.scan 0 1 false = none := by
  rw [← h.sound.filesysCreate_ok_iff name size, Tasks.call]
  cases filesysCreate name (int32 size.toNat) s.fs with
  | error | ok => simp [onFs, Except.map]

include hp

variable (hf : (s.task p).file? fd = some f)
include hf

theorem seek_eq (position : Int) : s.call p (.seek fd position) =
      (onFs (fileSeek f (int32 position) s.fs)).map fun fs => (0, { s with fs := fs }) := by
  rw [Tasks.call, Tasks.seek, (h.bounded p hp).validateFd_eq, hf]
  rfl

theorem seek_of_lt {position : BitVec 32} (hlt : position.toNat < 2 ^ 31) :
    s.call p (.seek fd position.toNat) =
      .ok (0, { s with fs := s.fs.modifyFile f fun file => { file with pos := position.toNat } }) := by
  have hseek : fileSeek f (int32 position.toNat) s.fs =
      .ok (s.fs.modifyFile f fun file => { file with pos := position.toNat }) := by
    rw [int32_of_range ⟨by omega, by omega⟩, fileSeek, if_neg (Int.not_lt.mpr (Int.natCast_nonneg _)),
      Int.toNat_natCast]
  rw [seek_eq h hp hf, hseek]
  rfl

theorem seek_of_ge {position : BitVec 32} (hge : 2 ^ 31 ≤ position.toNat) :
    s.call p (.seek fd position.toNat) = .error (.panic .fileSeekPos) := by
  have hseek : fileSeek f (int32 position.toNat) s.fs = .error .fileSeekPos :=
    if_pos ((int32_neg_iff position).mpr hge)
  rw [seek_eq h hp hf, hseek]
  rfl

theorem fd_ge : 2 ≤ fd ∧ s.fs.handles f := by
  obtain ⟨i, rfl, hi⟩ := Task.file?_eq_some hf
  have hge : ¬ i.val < 2 := by
    intro hlt
    rw [(h.bounded p hp).empty i (.inl hlt)] at hi
    cases hi
  exact ⟨by omega, h.handles p hp (.fd i) f hi⟩

theorem read_past (hpos : fileLength f s.fs ≤ (s.fs.file f).pos) (size : Nat) (typed : List UInt8) :
    ∃ s', s.call p (.read fd size typed) = .ok (0, s') := by
  obtain ⟨hge, hhand⟩ := fd_ge h hp hf
  obtain ⟨fs', he⟩ := h.sound.fileRead_past hhand.1 hpos size
  refine ⟨{ s with fs := fs' }, ?_⟩
  rw [Tasks.call, Tasks.read, if_neg (by omega), (h.bounded p hp).opened_eq, hf]
  simp [Except.bind, he, onFs, Except.map]

theorem write_past (hpos : fileLength f s.fs ≤ (s.fs.file f).pos) (buffer : List UInt8) :
    ∃ s', s.call p (.write fd buffer) = .ok (0, s') := by
  obtain ⟨hge, hhand⟩ := fd_ge h hp hf
  obtain ⟨fs', he⟩ := h.sound.fileWrite_past hhand.1 hpos buffer
  refine ⟨{ s with fs := fs' }, ?_⟩
  rw [Tasks.call, Tasks.write, if_neg (by omega), (h.bounded p hp).opened_eq, hf]
  simp [Except.bind, he, onFs, Except.map]

end

/--
**`create` と `seek` は、引数が `2 ^ 31` 未満なら検査に落ちない。**

* `create` が終わるのは、大きさが `2 ^ 31` 未満か、inode の sector が取れないときである
* 開いている fd の `seek` が終わるのは、位置が `2 ^ 31` 未満のときである。
  終われば、その file の位置は渡した値になる
* 位置が file の終わりから先なら、`read` も `write` も 0 を返して終わる
-/
theorem create_seek_ok_iff (h : Reachable tasks s) (hp : p ∈ s.live) :
    (∀ name (size : BitVec 32), (∃ r, s.call p (.create name size.toNat) = .ok r) ↔
      size.toNat < 2 ^ 31 ∨ s.fs.freeMap.scan 0 1 false = none) ∧
    (∀ fd f (position : BitVec 32), (s.task p).file? fd = some f →
      ((∃ r, s.call p (.seek fd position.toNat) = .ok r) ↔ position.toNat < 2 ^ 31) ∧
      ∀ v s', s.call p (.seek fd position.toNat) = .ok (v, s') →
        (s'.task p).file? fd = some f ∧ (s'.fs.file f).pos = position.toNat) ∧
    ∀ fd f, (s.task p).file? fd = some f → fileLength f s.fs ≤ (s.fs.file f).pos →
      (∀ size typed, ∃ s', s.call p (.read fd size typed) = .ok (0, s')) ∧
      ∀ buffer, ∃ s', s.call p (.write fd buffer) = .ok (0, s') := by
  have hinv := reachable_tasksInv h
  refine ⟨create_ok_iff hinv, fun fd f position hf => ?_, fun fd f hf hpos =>
    ⟨read_past hinv hp hf hpos, write_past hinv hp hf hpos⟩⟩
  by_cases hlt : position.toNat < 2 ^ 31
  · rw [seek_of_lt hinv hp hf hlt]
    refine ⟨⟨fun _ => hlt, fun _ => ⟨_, rfl⟩⟩, fun v s' he => ?_⟩
    obtain ⟨-, rfl⟩ := Prod.mk.inj (Except.ok.inj he)
    exact ⟨hf, by simp only [modifyFile_self]⟩
  · rw [seek_of_ge hinv hp hf (Nat.not_lt.mp hlt)]
    refine ⟨⟨fun hok => ?_, fun hl => absurd hl hlt⟩, fun _ _ he => nomatch he⟩
    obtain ⟨_, he⟩ := hok
    cases he

/-- file を作って開いた process が、終わりの先に位置を移す。 -/
theorem create_seek_ok_iff_past : ∃ s, Reachable tasks s ∧ 0 ∈ s.live ∧
    (s.task 0).file? 2 = some 2 ∧
    ((∃ r, s.call 0 (.seek 2 (7#32).toNat) = .ok r) ↔ (7#32).toNat < 2 ^ 31) ∧
    ∃ s', s.call 0 (.read 2 4 []) = .ok (0, s') := by
  obtain ⟨s, h, hs⟩ := exists_reachable_of_calls 8 (by decide)
    [(0, .create ⟨[97], by decide⟩ 1), (0, .sysOpen ⟨[97], by decide⟩), (0, .seek 2 5)]
    (p := fun s => 0 ∈ s.live ∧ (s.task 0).file? 2 = some 2 ∧
      fileLength 2 s.fs ≤ (s.fs.file 2).pos) (by decide +kernel)
  obtain ⟨hlive, hf, hpos⟩ := of_decide_eq_true hs
  have hall := create_seek_ok_iff h hlive
  exact ⟨s, h, hlive, hf, (hall.2.1 2 2 7 hf).1, (hall.2.2 2 2 hf hpos).1 4 []⟩

/-- **`2 ^ 31` を渡した `create` と `seek` は、検査に落ちる。** -/
theorem exists_create_seek_panic : ∃ s, Reachable tasks s ∧ 0 ∈ s.live ∧
    (s.task 0).file? 2 = some 2 ∧
    s.call 0 (.create ⟨[98], by decide⟩ (0x80000000#32).toNat) =
      .error (.panic .inodeCreateLength) ∧
    s.call 0 (.seek 2 (0x80000000#32).toNat) = .error (.panic .fileSeekPos) := by
  obtain ⟨s, h, hs⟩ := exists_reachable_of_calls 8 (by decide)
    [(0, .create ⟨[97], by decide⟩ 1), (0, .sysOpen ⟨[97], by decide⟩)]
    (p := fun s => 0 ∈ s.live ∧ (s.task 0).file? 2 = some 2 ∧
      failure? (s.call 0 (.create ⟨[98], by decide⟩ (0x80000000#32).toNat)) =
        some (.panic .inodeCreateLength) ∧
      failure? (s.call 0 (.seek 2 (0x80000000#32).toNat)) = some (.panic .fileSeekPos))
    (by decide +kernel)
  obtain ⟨hlive, hf, hcreate, hseek⟩ := of_decide_eq_true hs
  exact ⟨s, h, hlive, hf, failure?_eq_some.mp hcreate, failure?_eq_some.mp hseek⟩

end Userprog

end Pintos
