import Pintos.Filesys.Block
import Pintos.Infra.Bytes
import Pintos.Infra.Except
import Pintos.Infra.Int32
import Pintos.Lib.Bitmap

/-!
# inode の中身の読み書き（`filesys/inode.c`）

file system の状態 `Fs` と、開いている inode を通した byte の読み書き。

* disk の上の inode（`InodeDisk`）は、file の最初の sector と長さを持つ
* memory の中の inode（`Inode`）は、開くときに disk から読んだ写しを持つ
* `struct inode` と `struct file` は番号で呼び、解放した番号は使い回さない

memory の確保（`malloc`、`calloc`）はいつも成功するとする。

## 停止性

読み書きの while は一周で 1 byte 以上進むので、残りの byte 数だけの fuel で回す。
-/

namespace Pintos

open Infra

/-! ## disk の上の inode -/

/-- `struct inode_disk`。`magic` は書かれるだけで読まれない。 -/
structure InodeDisk where
  start : Nat
  length : Nat
deriving DecidableEq

def inodeMagic : Nat := 0x494e4f44

/-- 一 sector に収まる byte の並び。残りは `unused` の 0 である。 -/
def InodeDisk.toSector (d : InodeDisk) (o : Nat) : UInt8 :=
  (le32 d.start ++ le32 d.length ++ le32 inodeMagic).getD o 0

def InodeDisk.ofSector (buffer : Nat → UInt8) : InodeDisk where
  start := ofLe32 (buffer 0) (buffer 1) (buffer 2) (buffer 3)
  length := ofLe32 (buffer 4) (buffer 5) (buffer 6) (buffer 7)

/--
`bytes_to_sectors`。

`off_t` の足し算は 32 bit で折り返し、商は `size_t` に変わる。
-/
def bytesToSectors (size : Int) : Nat :=
  ((int32 (size + 511)).tdiv 512 % 2 ^ 32).toNat

/-! ## 状態 -/

abbrev InodeId := Nat
abbrev FileId := Nat

structure Inode where
  sector : Nat
  openCnt : Int
  removed : Bool
  denyWriteCnt : Int
  data : InodeDisk

structure File where
  inode : InodeId
  pos : Nat
  denyWrite : Bool

/-- file system の状態。`files` は開いている `struct file` である。 -/
structure Fs where
  device : Block
  freeMap : Bitmap
  inode : InodeId → Inode
  openInodes : List InodeId
  nextInode : InodeId
  file : FileId → File
  files : List FileId
  nextFile : FileId
  freeMapFile : Option FileId

/-! ## 読み書き -/

/-- この周で写す byte 数。file の残りと sector の残りと `size` の最小である。 -/
def chunkSize (data : InodeDisk) (size offset : Nat) : Nat :=
  min size (min (data.length - offset) (blockSectorSize - offset % blockSectorSize))

/-- `inode_read_at` の while。 -/
def readLoop (device : Block) (data : InodeDisk) :
    (fuel size offset : Nat) → Except FsPanic (List UInt8)
  | 0, _, _ => .ok []
  | fuel + 1, size, offset =>
    let sectorOfs := offset % blockSectorSize
    let chunk := chunkSize data size offset
    if chunk = 0 then .ok []
    else
      (device.read (data.start + offset / blockSectorSize)).bind fun bounce =>
        (readLoop device data fuel (size - chunk) (offset + chunk)).map fun rest =>
          (List.range chunk).map (fun i => bounce (sectorOfs + i)) ++ rest

/-- `inode_read_at`。読めた byte を返す。 -/
def inodeReadAt (i : InodeId) (size offset : Nat) (fs : Fs) : Except FsPanic (List UInt8) :=
  readLoop fs.device (fs.inode i).data size size offset

/-- `bounce` の `sectorOfs` から `chunk` byte を `buffer` の先頭で書き換える。 -/
def overlay (bounce : Nat → UInt8) (sectorOfs chunk : Nat) (buffer : List UInt8) (o : Nat) : UInt8 :=
  if sectorOfs ≤ o ∧ o < sectorOfs + chunk then buffer.getD (o - sectorOfs) 0 else bounce o

/-- 一 sector に `chunk` byte を書く。sector 全体を書くのでなければ、先に読んで継ぎ合わせる。 -/
def writeChunk (device : Block) (sector : Nat) (sectorOfs chunk : Nat) (buffer : List UInt8) :
    Except FsPanic Block :=
  if sectorOfs = 0 ∧ chunk = blockSectorSize then device.write sector fun o => buffer.getD o 0
  else if sectorOfs > 0 ∨ chunk < blockSectorSize - sectorOfs then
    (device.read sector).bind fun bounce =>
      device.write sector (overlay bounce sectorOfs chunk buffer)
  else device.write sector (overlay (fun _ => 0) sectorOfs chunk buffer)

/-- `inode_write_at` の while。書けた byte 数と、書いた後の装置を返す。 -/
def writeLoop (data : InodeDisk) :
    (fuel : Nat) → Block → List UInt8 → (offset : Nat) → Except FsPanic (Nat × Block)
  | 0, device, _, _ => .ok (0, device)
  | fuel + 1, device, buffer, offset =>
    let sectorOfs := offset % blockSectorSize
    let chunk := chunkSize data buffer.length offset
    if chunk = 0 then .ok (0, device)
    else
      (writeChunk device (data.start + offset / blockSectorSize) sectorOfs chunk buffer).bind
        fun device₁ =>
          (writeLoop data fuel device₁ (buffer.drop chunk) (offset + chunk)).map fun r =>
            (chunk + r.1, r.2)

def inodeWriteAt (i : InodeId) (buffer : List UInt8) (offset : Nat) (fs : Fs) :
    Except FsPanic (Nat × Fs) :=
  if (fs.inode i).denyWriteCnt ≠ 0 then .ok (0, fs)
  else
    (writeLoop (fs.inode i).data buffer.length fs.device buffer offset).map fun r =>
      (r.1, { fs with device := r.2 })

end Pintos
