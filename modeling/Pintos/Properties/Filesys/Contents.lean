import Pintos.Properties.Filesys.ReadWrite

/-!
# file の中身

`inode_read_at` と `inode_write_at` を、file の byte の列への操作として述べる。

`size` は `off_t` なので負でもよく、そのとき while は一度も回らない。
`file_read` と `file_write` は、どこで区切って呼んでも一度に呼ぶのと同じである。
-/

namespace Pintos

open Infra

/-! ## 区切って呼ぶ -/

/-- `file_read` を順に呼び、読んだ byte を並べる。 -/
def fileReads (f : FileId) : List Nat → Fs → Except FsPanic (List UInt8 × Fs)
  | [], fs => .ok ([], fs)
  | size :: sizes, fs =>
    (fileRead f size fs).bind fun r =>
      (fileReads f sizes r.2).map fun rest => (r.1 ++ rest.1, rest.2)

/-- `file_write` を順に呼び、書いた byte 数を足す。 -/
def fileWrites (f : FileId) : List (List UInt8) → Fs → Except FsPanic (Nat × Fs)
  | [], fs => .ok (0, fs)
  | buffer :: buffers, fs =>
    (fileWrite f buffer fs).bind fun r =>
      (fileWrites f buffers r.2).map fun rest => (r.1 + rest.1, rest.2)

def Fs.advance (fs : Fs) (f : FileId) (n : Nat) : Fs :=
  fs.modifyFile f fun file => { file with pos := file.pos + n }

section Advance

variable (fs : Fs) (f : FileId)

@[simp] theorem advance_pos (n : Nat) : ((fs.advance f n).file f).pos = (fs.file f).pos + n := by
  simp [Fs.advance, Fs.modifyFile]

@[simp] theorem advance_inode (n : Nat) : ((fs.advance f n).file f).inode = (fs.file f).inode := by
  simp [Fs.advance, Fs.modifyFile]

@[simp] theorem advance_zero : fs.advance f 0 = fs := by
  simp [Fs.advance, Fs.modifyFile]

@[simp] theorem advance_add (m n : Nat) : (fs.advance f m).advance f n = fs.advance f (m + n) := by
  simp [Fs.advance, Fs.modifyFile, Nat.add_assoc]

end Advance

/-- 開いた file の inode と位置。file の sector は装置の中にある。 -/
structure FileAt (fs : Fs) (f : FileId) (data : InodeDisk) (pos : Nat) : Prop where
  inode : (fs.inode (fs.file f).inode).data = data
  pos : (fs.file f).pos = pos
  fits : data.Fits fs.device

variable {fs : Fs} {f : FileId} {data : InodeDisk} {pos : Nat}

theorem FileAt.advance (h : FileAt fs f data pos) (n : Nat) :
    FileAt (fs.advance f n) f data (pos + n) where
  inode := by rw [advance_inode]; exact h.inode
  pos := by rw [advance_pos, h.pos]
  fits := h.fits

theorem FileAt.read (h : FileAt fs f data pos) (size : Nat) {n : Nat}
    (hn : min size (data.length - pos) = n) :
    fileRead f size fs =
      .ok ((List.range n).map fun k => data.byteAt fs.device (pos + k), fs.advance f n) := by
  unfold fileRead
  rw [inodeReadAt_eq (by rw [h.inode]; exact h.fits), h.inode, h.pos, hn]
  simp [Except.map, Fs.advance]

/-- **区切って読んでも、一度に読んでも同じである。** -/
theorem FileAt.reads (h : FileAt fs f data pos) (sizes : List Nat) :
    fileReads f sizes fs = fileRead f sizes.sum fs := by
  induction sizes generalizing fs pos with
  | nil =>
    rw [h.read _ rfl]
    simp [fileReads]
  | cons size sizes ih =>
    rw [fileReads, h.read size rfl]
    dsimp only [Except.bind]
    generalize hn : min size (data.length - pos) = n
    generalize hm : min sizes.sum (data.length - (pos + n)) = m
    have hsplit : min (size :: sizes).sum (data.length - pos) = n + m := by
      rw [List.sum_cons]
      omega
    rw [ih (h.advance n), (h.advance n).read _ hm, h.read _ hsplit, advance_add, List.range_add,
      List.map_append, List.map_map]
    simp only [Function.comp_def, Nat.add_assoc]
    rfl

/-! ## 書く -/

def Fs.stored (fs : Fs) (data : InodeDisk) (pos : Nat) (bytes : List UInt8) : Fs :=
  { fs with device := fs.device.store data.start pos bytes }

theorem FileAt.stored (h : FileAt fs f data pos) (offset : Nat) (bytes : List UInt8) :
    FileAt (fs.stored data offset bytes) f data pos :=
  ⟨h.inode, h.pos, h.fits⟩

theorem stored_append (fs : Fs) (data : InodeDisk) (pos : Nat) (a b : List UInt8) :
    (fs.stored data pos a).stored data (pos + a.length) b = fs.stored data pos (a ++ b) := by
  unfold Fs.stored
  rw [← store_append]

def Writable (fs : Fs) (f : FileId) : Prop := (fs.inode (fs.file f).inode).denyWriteCnt = 0

theorem Writable.advance (h : Writable fs f) (n : Nat) : Writable (fs.advance f n) f := by
  unfold Writable
  rw [advance_inode]
  exact h

theorem Writable.stored (h : Writable fs f) (data : InodeDisk) (pos : Nat) (bytes : List UInt8) :
    Writable (fs.stored data pos bytes) f := h

theorem FileAt.write (h : FileAt fs f data pos) (hd : Writable fs f) (buffer : List UInt8) {n : Nat}
    (hn : min buffer.length (data.length - pos) = n) :
    fileWrite f buffer fs = .ok (n, (fs.stored data pos (buffer.take n)).advance f n) := by
  unfold fileWrite
  rw [inodeWriteAt_eq hd (by rw [h.inode]; exact h.fits), h.inode, h.pos, hn]
  rfl

/-- 途中までしか書けなければ、続きは一 byte も書けない。 -/
theorem take_append_min (a b : List UInt8) (room : Nat) :
    (a ++ b).take (min (a ++ b).length room) =
      a.take (min a.length room) ++ b.take (min b.length (room - min a.length room)) := by
  rw [List.take_append, List.length_append]
  congr 1
  · rw [List.take_eq_take_iff]
    omega
  · rw [List.take_eq_take_iff]
    omega

/-- **区切って書いても、一度に書いても同じである。** -/
theorem FileAt.writes (h : FileAt fs f data pos) (hd : Writable fs f)
    (buffers : List (List UInt8)) : fileWrites f buffers fs = fileWrite f buffers.flatten fs := by
  induction buffers generalizing fs pos with
  | nil =>
    rw [h.write hd _ rfl]
    simp [fileWrites, Fs.stored]
  | cons buffer buffers ih =>
    rw [fileWrites, h.write hd buffer rfl]
    dsimp only [Except.bind]
    generalize hn : min buffer.length (data.length - pos) = n
    generalize hm : min buffers.flatten.length (data.length - (pos + n)) = m
    have hlen : (buffer.take n).length = n := List.length_take_of_le (by omega)
    have hsplit : min (buffer :: buffers).flatten.length (data.length - pos) = n + m := by
      rw [List.flatten_cons, List.length_append]
      omega
    have htake : (buffer :: buffers).flatten.take (n + m) =
        buffer.take n ++ buffers.flatten.take m := by
      rw [← hsplit, List.flatten_cons, take_append_min, hn, Nat.sub_sub, hm]
    have hnext := (h.stored pos (buffer.take n)).advance n
    have hdnext := (hd.stored data pos (buffer.take n)).advance n
    rw [ih hnext hdnext, hnext.write hdnext _ hm, h.write hd _ hsplit, htake]
    refine congrArg (fun fs' => Except.ok (n + m, fs')) ?_
    rw [← stored_append, hlen, ← advance_add]
    rfl

/-! ## inode を通して -/

/--
**`inode_write_at` と `inode_read_at` は、file の終わりまでの byte をちょうど読み書きする。**

書けば、範囲の byte が `buffer` に変わり、file のほかの byte も、file の sector のほかも、
inode も変わらない。読んでも disk は変わらない。
`file_read` と `file_write` は、どう区切って呼んでも一度に呼ぶのと同じ結果になる。
-/
theorem inode_read_write_exact (fs : Fs) (i : InodeId) (hlen : (fs.inode i).data.length < 2 ^ 31)
    (hext : ∀ x ∈ (fs.inode i).data.extent, x < fs.device.size)
    (hd : (fs.inode i).denyWriteCnt = 0) :
    (∀ (size : Int) (offset : Nat) (buffer : List UInt8), buffer.length = size.toNat →
      ∃ (n : Nat) (device : Block), inodeWriteAt i buffer offset fs = .ok (n, { fs with device }) ∧
        (n : Int) = max 0 (min size ((fs.inode i).data.length - offset)) ∧
        (∀ k < n, (fs.inode i).data.byteAt device (offset + k) = buffer.getD k 0) ∧
        (∀ pos, ¬ (offset ≤ pos ∧ pos < offset + n) →
          (fs.inode i).data.byteAt device pos = (fs.inode i).data.byteAt fs.device pos) ∧
        (∀ x ∉ (fs.inode i).data.extent, device.data x = fs.device.data x) ∧
        device.size = fs.device.size) ∧
    (∀ (size : Int) (offset : Nat), ∃ bytes, inodeReadAt i size.toNat offset fs = .ok bytes ∧
      (bytes.length : Int) = max 0 (min size ((fs.inode i).data.length - offset)) ∧
      ∀ k < bytes.length, bytes.getD k 0 = (fs.inode i).data.byteAt fs.device (offset + k)) ∧
    ∀ f, (fs.file f).inode = i →
      (∀ sizes, fileReads f sizes fs = fileRead f sizes.sum fs) ∧
      ∀ buffers, fileWrites f buffers fs = fileWrite f buffers.flatten fs := by
  have hfits := fits_of_extent hlen hext
  refine ⟨fun size offset buffer hbuf => ?_, fun size offset => ?_, ?_⟩
  · generalize hn : min buffer.length ((fs.inode i).data.length - offset) = n
    have hlen' : (buffer.take n).length = n := List.length_take_of_le (by omega)
    have hwrite := inodeWriteAt_eq hd hfits buffer offset
    rw [hn] at hwrite
    refine ⟨n, _, hwrite, by omega, fun k hk => ?_, fun pos hpos => ?_, fun x hx => ?_, rfl⟩
    · rw [byteAt_store, patch_of_mem (Nat.le_add_right ..) (by omega), Nat.add_sub_cancel_left,
        getD_take hk]
    · rw [byteAt_store, patch_of_not_mem (by rwa [hlen'])]
    · by_cases hz : n = 0
      · rw [hz, List.take_zero, store_nil]
      · exact store_data_of_not_mem_extent hlen (by omega) hx
  · refine ⟨_, inodeReadAt_eq hfits size.toNat offset, ?_, fun k hk => ?_⟩
    · rw [List.length_map, List.length_range]
      omega
    · rw [List.length_map, List.length_range] at hk
      simp [List.getD_eq_getElem?_getD, List.getElem?_range hk]
  · rintro f rfl
    have hat : FileAt fs f _ _ := ⟨rfl, rfl, hfits⟩
    exact ⟨hat.reads, hat.writes hd⟩

/-- 長さ 700 の file を一つ開いた file system。 -/
def oneFile : Fs where
  device := ⟨4, fun _ _ => 0⟩
  freeMap := ⟨4, fun _ => true⟩
  inode _ := ⟨0, 1, false, 0, ⟨1, 700⟩⟩
  openInodes := [0]
  nextInode := 1
  file _ := ⟨0, 0, false⟩
  files := [0]
  nextFile := 1
  freeMapFile := none

/-- file の終わりをまたいで書くと、終わりまでの 200 byte を書く。 -/
theorem inode_read_write_exact_end : ∃ device : Block,
    inodeWriteAt 0 (List.replicate 300 7) 500 oneFile = .ok (200, { oneFile with device }) ∧
    (oneFile.inode 0).data.byteAt device 699 = 7 ∧ device.data 3 = oneFile.device.data 3 := by
  obtain ⟨n, device, hwrite, hn, hin, -, hout, -⟩ :=
    (inode_read_write_exact oneFile 0 (by decide) (by decide) rfl).1 300 500
      (List.replicate 300 7) List.length_replicate
  obtain rfl : n = 200 := by
    have hcount : (n : Int) = 200 := hn
    omega
  refine ⟨device, hwrite, (hin 199 (by decide)).trans ?_, hout 3 (by decide)⟩
  rw [List.getD_eq_getElem?_getD, List.getElem?_replicate_of_lt (by decide), Option.getD_some]

end Pintos
