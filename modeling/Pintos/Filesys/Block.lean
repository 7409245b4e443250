import Mathlib.Logic.Function.Basic

/-!
# block device（`devices/block.c`）

512 byte の sector が並んだ装置。範囲の外を読み書きすると `check_sector` が `PANIC` する。

sector の番号（`block_sector_t`）は `Nat` で、装置の大きさを超えないので折り返さない。
sector の中身は offset から byte への関数で、512 以上の offset は読み書きされない。
-/

namespace Pintos

def blockSectorSize : Nat := 512

/-- file system が止まる理由。`ASSERT` と `PANIC` を、あったところの名で呼ぶ。 -/
inductive FsPanic
  -- `check_sector`
  | pastEnd
  -- `bitmap_contains` と `bitmap_set_multiple` の範囲
  | bitmapRange
  -- `free_map_release` の `ASSERT (bitmap_all (free_map, sector, cnt))`
  | freeMapRelease
  -- 開いていない `free_map_file` に書く
  | freeMapNull
  -- `free_map_create` と `free_map_open` の `PANIC`
  | freeMapCreate
  | freeMapWrite
  | freeMapRead
  -- `do_format` の `PANIC ("root directory creation failed")`
  | rootDirCreate
  -- `inode_create` の `ASSERT (length >= 0)`
  | inodeCreateLength
  -- `inode_deny_write` と `inode_allow_write` の `ASSERT`
  | inodeDenyWrite
  | inodeAllowWrite
  -- `file_seek` の `ASSERT (new_pos >= 0)`
  | fileSeekPos
deriving DecidableEq

@[ext] structure Block where
  size : Nat
  data : Nat → Nat → UInt8

namespace Block

/-- `block_read`。 -/
def read (d : Block) (sector : Nat) : Except FsPanic (Nat → UInt8) :=
  if sector < d.size then .ok (d.data sector) else .error .pastEnd

/-- sector の 512 byte を書き換えた装置。 -/
def put (d : Block) (sector : Nat) (buffer : Nat → UInt8) : Block where
  size := d.size
  data s o := if s = sector ∧ o < blockSectorSize then buffer o else d.data s o

/-- `block_write`。 -/
def write (d : Block) (sector : Nat) (buffer : Nat → UInt8) : Except FsPanic Block :=
  if sector < d.size then .ok (d.put sector buffer) else .error .pastEnd

variable {d : Block} {sector : Nat} {buffer : Nat → UInt8}

theorem read_of_lt (h : sector < d.size) : d.read sector = .ok (d.data sector) := if_pos h

theorem write_of_lt (h : sector < d.size) : d.write sector buffer = .ok (d.put sector buffer) :=
  if_pos h

@[simp] theorem put_size : (d.put sector buffer).size = d.size := rfl

theorem put_data_of_ne {s : Nat} (h : s ≠ sector) :
    (d.put sector buffer).data s = d.data s := by
  funext o
  simp [put, h]

theorem put_data_self {o : Nat} (h : o < blockSectorSize) :
    (d.put sector buffer).data sector o = buffer o := by
  simp [put, h]

end Block

end Pintos
