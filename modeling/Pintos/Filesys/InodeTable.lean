import Pintos.Filesys.FreeMap

/-!
# inode の作成と開閉（`filesys/inode.c`）

開いている inode は `open_inodes` に一つずつあり、同じ sector を二度開けば同じ `struct inode` を返す。
削除の印（`removed`）が付いた inode は、最後の参照が閉じられたときに sector を返す。
-/

namespace Pintos

open Infra

def Fs.modifyInode (fs : Fs) (i : InodeId) (f : Inode → Inode) : Fs :=
  { fs with inode := Function.update fs.inode i (f (fs.inode i)) }

/-- `start` から `n` 個の sector を 0 で埋める。 -/
def zeroSectors (start : Nat) : (n : Nat) → Block → Except FsPanic Block
  | 0, device => .ok device
  | n + 1, device => (device.write start fun _ => 0).bind (zeroSectors (start + 1) n)

/-- `inode_create`。`length` byte の file の inode を `sector` に作る。 -/
def inodeCreate (sector : Nat) (length : Int) (fs : Fs) : Except FsPanic (Bool × Fs) :=
  if length < 0 then .error .inodeCreateLength
  else
    let sectors := bytesToSectors length
    (freeMapAllocate sectors fs).bind fun r =>
      match r.1 with
      | none => .ok (false, r.2)
      | some start =>
        (r.2.device.write sector (InodeDisk.toSector ⟨start, length.toNat⟩)).bind fun device₁ =>
          (zeroSectors start sectors device₁).map fun device₂ => (true, { r.2 with device := device₂ })

def inodeReopen (i : InodeId) (fs : Fs) : Fs :=
  fs.modifyInode i fun node => { node with openCnt := node.openCnt + 1 }

def inodeOpen (sector : Nat) (fs : Fs) : Except FsPanic (InodeId × Fs) :=
  match fs.openInodes.find? fun i => (fs.inode i).sector = sector with
  | some i => .ok (i, inodeReopen i fs)
  | none =>
    (fs.device.read sector).map fun buffer =>
      (fs.nextInode,
        { fs with
          inode := Function.update fs.inode fs.nextInode
            { sector := sector, openCnt := 1, removed := false, denyWriteCnt := 0,
              data := InodeDisk.ofSector buffer }
          openInodes := fs.nextInode :: fs.openInodes
          nextInode := fs.nextInode + 1 })

/-- 最後の参照が閉じられた inode の片付け。 -/
def inodeFree (i : InodeId) (fs : Fs) : Except FsPanic Fs :=
  let node := fs.inode i
  let fs := { fs with openInodes := fs.openInodes.erase i }
  if node.removed then
    (freeMapRelease node.sector 1 fs).bind
      (freeMapRelease node.data.start (bytesToSectors node.data.length))
  else .ok fs

def inodeClose (i : InodeId) (fs : Fs) : Except FsPanic Fs :=
  let fs := fs.modifyInode i fun node => { node with openCnt := node.openCnt - 1 }
  if (fs.inode i).openCnt = 0 then inodeFree i fs else .ok fs

def inodeRemove (i : InodeId) (fs : Fs) : Fs :=
  fs.modifyInode i fun node => { node with removed := true }

def inodeDenyWrite (i : InodeId) (fs : Fs) : Except FsPanic Fs :=
  let fs := fs.modifyInode i fun node => { node with denyWriteCnt := node.denyWriteCnt + 1 }
  if (fs.inode i).denyWriteCnt ≤ (fs.inode i).openCnt then .ok fs else .error .inodeDenyWrite

def inodeAllowWrite (i : InodeId) (fs : Fs) : Except FsPanic Fs :=
  if 0 < (fs.inode i).denyWriteCnt ∧ (fs.inode i).denyWriteCnt ≤ (fs.inode i).openCnt then
    .ok (fs.modifyInode i fun node => { node with denyWriteCnt := node.denyWriteCnt - 1 })
  else .error .inodeAllowWrite

end Pintos
