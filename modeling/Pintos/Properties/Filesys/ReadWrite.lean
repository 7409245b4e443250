import Pintos.Filesys.Filesys

/-!
# inode を通した読み書き

while の一周ごとの読み書きを、file の中身（`byteAt`）の言葉にまとめる。

どちらも、file の sector が装置の中にあること（`Fits`）だけを仮定する。
-/

namespace Pintos

open Infra

def InodeDisk.byteAt (data : InodeDisk) (device : Block) (pos : Nat) : UInt8 :=
  device.data (data.start + pos / blockSectorSize) (pos % blockSectorSize)

/-- file の sector が装置の中にある。 -/
def InodeDisk.Fits (data : InodeDisk) (device : Block) : Prop :=
  ∀ pos < data.length, data.start + pos / blockSectorSize < device.size

variable {data : InodeDisk} {device : Block}

/-! ## 一周で写す byte 数 -/

theorem chunkSize_le_size (data : InodeDisk) (size offset : Nat) : chunkSize data size offset ≤ size :=
  Nat.min_le_left ..

theorem chunkSize_le (data : InodeDisk) (size offset : Nat) :
    chunkSize data size offset ≤ data.length - offset ∧
    offset % 512 + chunkSize data size offset ≤ 512 := by
  have hlt : offset % 512 < 512 := Nat.mod_lt _ (by decide)
  unfold chunkSize blockSectorSize
  omega

/-- 写すものが無くなるのは、読み終えたか、file の終わりに届いたときである。 -/
theorem chunkSize_eq_zero {size offset : Nat} (h : chunkSize data size offset = 0) :
    min size (data.length - offset) = 0 := by
  have hlt : offset % 512 < 512 := Nat.mod_lt _ (by decide)
  unfold chunkSize blockSectorSize at h
  omega

/-! ## 読む -/

theorem byteAt_add {offset i : Nat} (h : offset % 512 + i < 512) :
    data.byteAt device (offset + i) =
      device.data (data.start + offset / blockSectorSize) (offset % blockSectorSize + i) := by
  unfold InodeDisk.byteAt blockSectorSize
  rw [show (offset + i) / 512 = offset / 512 by omega,
    show (offset + i) % 512 = offset % 512 + i by omega]

theorem readLoop_eq (hf : data.Fits device) : ∀ fuel size offset, size ≤ fuel →
    readLoop device data fuel size offset =
      .ok ((List.range (min size (data.length - offset))).map fun i =>
        data.byteAt device (offset + i))
  | 0, size, offset, hle => by
    rw [Nat.le_zero.mp hle, Nat.zero_min]
    rfl
  | fuel + 1, size, offset, hle => by
    obtain ⟨hfile, hsector⟩ := chunkSize_le data size offset
    have hsize := chunkSize_le_size data size offset
    rw [readLoop]
    split
    · next hz =>
      rw [chunkSize_eq_zero hz]
      rfl
    · next hnz =>
      generalize hchunk : chunkSize data size offset = chunk at *
      have hread := Block.read_of_lt (hf offset (by omega))
      rw [hread, readLoop_eq hf fuel (size - chunk) (offset + chunk) (by omega)]
      have hsplit : min size (data.length - offset) =
          chunk + min (size - chunk) (data.length - (offset + chunk)) := by omega
      rw [hsplit, List.range_add, List.map_append, List.map_map]
      simp only [Except.bind, Except.map, Except.ok.injEq]
      congr 1
      · refine List.map_congr_left fun i hi => ?_
        have hi : i < chunk := List.mem_range.mp hi
        exact (byteAt_add (by omega)).symm
      · refine List.map_congr_left fun i _ => ?_
        simp only [Function.comp, Nat.add_assoc]

/-! ## 書く -/

/-- `offset` から `bytes` を置いたときの、`pos` 番目の byte。 -/
def patch (old : UInt8) (offset : Nat) (bytes : List UInt8) (pos : Nat) : UInt8 :=
  if offset ≤ pos then (bytes[pos - offset]?).getD old else old

theorem patch_of_mem {old : UInt8} {offset pos : Nat} {bytes : List UInt8} (hle : offset ≤ pos)
    (hlt : pos < offset + bytes.length) :
    patch old offset bytes pos = bytes.getD (pos - offset) 0 := by
  have hi : pos - offset < bytes.length := by omega
  unfold patch
  rw [if_pos hle, List.getD_eq_getElem?_getD, List.getElem?_eq_getElem hi]
  rfl

theorem patch_of_not_mem {old : UInt8} {offset pos : Nat} {bytes : List UInt8}
    (h : ¬ (offset ≤ pos ∧ pos < offset + bytes.length)) : patch old offset bytes pos = old := by
  unfold patch
  split
  · next hle => rw [List.getElem?_eq_none (by omega), Option.getD_none]
  · rfl

theorem patch_shift (old : UInt8) (a offset : Nat) (bytes : List UInt8) (pos : Nat) :
    patch old (a + offset) bytes (a + pos) = patch old offset bytes pos := by
  unfold patch
  rw [show a + pos - (a + offset) = pos - offset by omega]
  simp

theorem patch_append (old : UInt8) (offset : Nat) (a b : List UInt8) (pos : Nat) :
    patch (patch old offset a pos) (offset + a.length) b pos = patch old offset (a ++ b) pos := by
  unfold patch
  by_cases hle : offset ≤ pos
  · by_cases hb : offset + a.length ≤ pos
    · rw [if_pos hb, if_pos hle, if_pos hle, List.getElem?_append_right (by omega),
        List.getElem?_eq_none (l := a) (by omega), Option.getD_none,
        show pos - (offset + a.length) = pos - offset - a.length by omega]
    · rw [if_neg hb, if_pos hle, if_pos hle, List.getElem?_append_left (by omega)]
  · rw [if_neg (by omega), if_neg hle, if_neg hle]

/-- `start` から始まる file の `offset` から、`bytes` を置いた装置。 -/
def Block.store (device : Block) (start offset : Nat) (bytes : List UInt8) : Block where
  size := device.size
  data s o :=
    if start ≤ s ∧ o < blockSectorSize then
      patch (device.data s o) offset bytes ((s - start) * blockSectorSize + o)
    else device.data s o

variable {start offset : Nat} {bytes : List UInt8} {n pos : Nat}

@[simp] theorem store_nil : device.store start offset [] = device := by
  unfold Block.store
  congr 1
  funext s o
  simp [patch]

theorem store_append (device : Block) (start offset : Nat) (a b : List UInt8) :
    (device.store start offset a).store start (offset + a.length) b =
      device.store start offset (a ++ b) := by
  unfold Block.store
  congr 1
  funext s o
  dsimp only
  split
  · exact patch_append ..
  · rfl

theorem byteAt_store (pos : Nat) :
    data.byteAt (device.store data.start offset bytes) pos =
      patch (data.byteAt device pos) offset bytes pos := by
  have hlt : pos % blockSectorSize < blockSectorSize := Nat.mod_lt _ (by decide)
  unfold InodeDisk.byteAt Block.store
  dsimp only
  rw [if_pos ⟨Nat.le_add_right .., hlt⟩, Nat.add_sub_cancel_left, Nat.mul_comm,
    Nat.div_add_mod]

theorem store_data_of_not_mem (hn : offset + bytes.length ≤ n * blockSectorSize)
    {s : Nat} (hs : ¬ (start ≤ s ∧ s < start + n)) :
    (device.store start offset bytes).data s = device.data s := by
  funext o
  unfold Block.store
  dsimp only
  split
  · next h =>
    refine patch_of_not_mem fun hpos => ?_
    have hge : n ≤ s - start := by omega
    have hmul : n * blockSectorSize ≤ (s - start) * blockSectorSize :=
      Nat.mul_le_mul_right _ hge
    omega
  · rfl

theorem getD_take {buffer : List UInt8} {i : Nat} (h : i < n) :
    (buffer.take n).getD i 0 = buffer.getD i 0 := by
  rw [List.getD_eq_getElem?_getD, List.getD_eq_getElem?_getD, List.getElem?_take_of_lt h]

theorem write_eq_store {bounce : Nat → UInt8} (hlt : start + offset / 512 < device.size)
    (hsector : offset % 512 + bytes.length ≤ 512)
    (hb : ∀ o < 512, bounce o =
      patch (device.data (start + offset / 512) o) (offset % 512) bytes o) :
    device.write (start + offset / 512) bounce = .ok (device.store start offset bytes) := by
  rw [Block.write_of_lt hlt]
  congr 1
  unfold Block.put Block.store blockSectorSize
  congr 1
  funext s o
  by_cases ho : o < 512
  · by_cases hs : s = start + offset / 512
    · subst hs
      rw [if_pos ⟨rfl, ho⟩, if_pos ⟨Nat.le_add_right .., ho⟩, hb o ho, Nat.add_sub_cancel_left,
        ← patch_shift _ (offset / 512 * 512), Nat.div_add_mod']
    · rw [if_neg fun h => hs h.1]
      split
      · exact (patch_of_not_mem (by omega)).symm
      · rfl
  · rw [if_neg fun h => ho h.2, if_neg fun h => ho h.2]

theorem writeChunk_eq {chunk : Nat} {buffer : List UInt8}
    (hlt : start + offset / 512 < device.size) (hsector : offset % 512 + chunk ≤ 512)
    (hlen : chunk ≤ buffer.length) :
    writeChunk device (start + offset / 512) (offset % 512) chunk buffer =
      .ok (device.store start offset (buffer.take chunk)) := by
  have hlen' : (buffer.take chunk).length = chunk := List.length_take_of_le hlen
  have hrange : offset % 512 + (buffer.take chunk).length ≤ 512 := by rw [hlen']; exact hsector
  unfold writeChunk
  split
  · next hfull =>
    refine write_eq_store hlt hrange fun o ho => ?_
    rw [hfull.1, patch_of_mem (Nat.zero_le o) (by rw [hlen', hfull.2, Nat.zero_add]; exact ho),
      Nat.sub_zero, getD_take (by rw [hfull.2]; exact ho)]
  · next hpart =>
    split
    · rw [Block.read_of_lt hlt]
      refine write_eq_store hlt hrange fun o ho => ?_
      unfold overlay
      split
      · next hin =>
        rw [patch_of_mem hin.1 (by rw [hlen']; exact hin.2), getD_take (by omega)]
      · next hout => rw [patch_of_not_mem (by rw [hlen']; exact hout)]
    · -- sector 全体を書くなら最初の分岐に入っている
      next hno =>
      unfold blockSectorSize at hpart hno
      omega

theorem writeLoop_eq : ∀ (fuel : Nat) {device : Block} (buffer : List UInt8) (offset : Nat),
    data.Fits device → buffer.length ≤ fuel →
    writeLoop data fuel device buffer offset =
      .ok (min buffer.length (data.length - offset),
        device.store data.start offset (buffer.take (min buffer.length (data.length - offset))))
  | 0, device, buffer, offset, hf, hle => by
    rw [writeLoop, Nat.le_zero.mp hle, Nat.zero_min, List.take_zero, store_nil]
  | fuel + 1, device, buffer, offset, hf, hle => by
    obtain ⟨hfile, hsector⟩ := chunkSize_le data buffer.length offset
    have hsize := chunkSize_le_size data buffer.length offset
    rw [writeLoop]
    split
    · next hz => rw [chunkSize_eq_zero hz, List.take_zero, store_nil]
    · next hnz =>
      generalize hchunk : chunkSize data buffer.length offset = chunk at *
      have hlt : data.start + offset / 512 < device.size := hf offset (by omega)
      have hdrop : (buffer.drop chunk).length = buffer.length - chunk := List.length_drop
      have hlen' : (buffer.take chunk).length = chunk := List.length_take_of_le hsize
      rw [show blockSectorSize = 512 from rfl, writeChunk_eq hlt hsector hsize]
      simp only [Except.bind]
      have hf' : data.Fits (device.store data.start offset (buffer.take chunk)) := hf
      rw [writeLoop_eq fuel (buffer.drop chunk) (offset + chunk) hf' (by omega), hdrop]
      generalize hrest : min (buffer.length - chunk) (data.length - (offset + chunk)) = rest
      have hsplit : min buffer.length (data.length - offset) = chunk + rest := by omega
      have hstore : (device.store data.start offset (buffer.take chunk)).store data.start
          (offset + chunk) ((buffer.drop chunk).take rest) =
          device.store data.start offset (buffer.take (chunk + rest)) := by
        have happ := store_append device data.start offset (buffer.take chunk)
          ((buffer.drop chunk).take rest)
        rw [hlen'] at happ
        rw [happ, List.take_add]
      rw [hsplit, ← hstore]
      rfl

/-! ## 開いている inode を通して -/

section Inode

variable {fs : Fs} {i : InodeId}

theorem inodeReadAt_eq (hf : (fs.inode i).data.Fits fs.device) (size offset : Nat) :
    inodeReadAt i size offset fs =
      .ok ((List.range (min size ((fs.inode i).data.length - offset))).map fun k =>
        (fs.inode i).data.byteAt fs.device (offset + k)) :=
  readLoop_eq hf size size offset (Nat.le_refl _)

theorem inodeWriteAt_eq (hd : (fs.inode i).denyWriteCnt = 0)
    (hf : (fs.inode i).data.Fits fs.device) (buffer : List UInt8) (offset : Nat) :
    inodeWriteAt i buffer offset fs =
      .ok (min buffer.length ((fs.inode i).data.length - offset),
        { fs with
          device := fs.device.store (fs.inode i).data.start offset
            (buffer.take (min buffer.length ((fs.inode i).data.length - offset))) }) := by
  unfold inodeWriteAt
  rw [if_neg (not_not.mpr hd), writeLoop_eq buffer.length buffer offset hf (Nat.le_refl _)]
  rfl

theorem inodeWriteAt_denied (hd : (fs.inode i).denyWriteCnt ≠ 0) (buffer : List UInt8)
    (offset : Nat) : inodeWriteAt i buffer offset fs = .ok (0, fs) := if_pos hd

end Inode

/-! ## file の sector -/

theorem bytesToSectors_of_lt (h : n + 511 < 2 ^ 31) : bytesToSectors n = (n + 511) / 512 := by
  unfold bytesToSectors
  rw [int32_of_range ⟨by omega, by omega⟩, Int.tdiv_eq_ediv_of_nonneg (by omega)]
  omega

/-- 足し算が折り返すと、どの装置にも入らないほど大きな数になる。 -/
theorem bytesToSectors_of_ge (hge : 2 ^ 31 ≤ n + 511) (hlt : n < 2 ^ 31) :
    2 ^ 32 - 2 ^ 22 ≤ bytesToSectors n := by
  unfold bytesToSectors
  rw [int32_of_ge ⟨by omega, by omega⟩, ← Int.neg_neg ((n : Int) + 511 - 2 ^ 32), Int.neg_tdiv,
    Int.tdiv_eq_ediv_of_nonneg (by omega)]
  omega

theorem le_bytesToSectors (h : n < 2 ^ 31) : n ≤ bytesToSectors n * 512 := by
  by_cases hlt : n + 511 < 2 ^ 31
  · rw [bytesToSectors_of_lt hlt]
    omega
  · have hge := bytesToSectors_of_ge (by omega) h
    omega

def InodeDisk.extent (data : InodeDisk) : List Nat :=
  List.range' data.start (bytesToSectors data.length)

theorem mem_extent {x : Nat} : x ∈ data.extent ↔
    data.start ≤ x ∧ x < data.start + bytesToSectors data.length := List.mem_range'_1

theorem byte_mem_extent (hlen : data.length < 2 ^ 31) (hpos : pos < data.length) :
    data.start + pos / 512 ∈ data.extent := by
  have hle := le_bytesToSectors hlen
  rw [mem_extent]
  omega

theorem fits_of_extent (hlen : data.length < 2 ^ 31) (h : ∀ x ∈ data.extent, x < device.size) :
    data.Fits device :=
  fun _ hpos => h _ (byte_mem_extent hlen hpos)

theorem store_data_of_not_mem_extent (hlen : data.length < 2 ^ 31)
    (hle : offset + bytes.length ≤ data.length) {x : Nat} (hx : x ∉ data.extent) :
    (device.store data.start offset bytes).data x = device.data x := by
  rw [mem_extent] at hx
  refine store_data_of_not_mem ?_ hx
  have hsec := le_bytesToSectors hlen
  unfold blockSectorSize
  omega

end Pintos
