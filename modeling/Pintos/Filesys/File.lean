import Pintos.Filesys.InodeTable

/-!
# 開いた file（`filesys/file.c`）

`struct file` は inode への参照を一つと、読み書きの位置を持つ。
-/

namespace Pintos

open Infra

def Fs.modifyFile (fs : Fs) (f : FileId) (g : File → File) : Fs :=
  { fs with file := Function.update fs.file f (g (fs.file f)) }

/-- `file_open`。inode への参照を受け取る。 -/
def fileOpen (i : InodeId) (fs : Fs) : FileId × Fs :=
  (fs.nextFile,
    { fs with
      file := Function.update fs.file fs.nextFile { inode := i, pos := 0, denyWrite := false }
      files := fs.nextFile :: fs.files
      nextFile := fs.nextFile + 1 })

def fileReopen (f : FileId) (fs : Fs) : FileId × Fs :=
  fileOpen (fs.file f).inode (inodeReopen (fs.file f).inode fs)

def fileDenyWrite (f : FileId) (fs : Fs) : Except FsPanic Fs :=
  if (fs.file f).denyWrite then .ok fs
  else inodeDenyWrite (fs.file f).inode (fs.modifyFile f fun file => { file with denyWrite := true })

def fileAllowWrite (f : FileId) (fs : Fs) : Except FsPanic Fs :=
  if (fs.file f).denyWrite then
    inodeAllowWrite (fs.file f).inode
      (fs.modifyFile f fun file => { file with denyWrite := false })
  else .ok fs

def fileClose (f : FileId) (fs : Fs) : Except FsPanic Fs :=
  (fileAllowWrite f fs).bind fun fs₁ =>
    (inodeClose (fs₁.file f).inode fs₁).map fun fs₂ => { fs₂ with files := fs₂.files.erase f }

/-- `file_read`。読めた分だけ位置を進める。 -/
def fileRead (f : FileId) (size : Nat) (fs : Fs) : Except FsPanic (List UInt8 × Fs) :=
  (inodeReadAt (fs.file f).inode size (fs.file f).pos fs).map fun bytes =>
    (bytes, fs.modifyFile f fun file => { file with pos := file.pos + bytes.length })

/-- `file_write`。書けた分だけ位置を進める。 -/
def fileWrite (f : FileId) (buffer : List UInt8) (fs : Fs) : Except FsPanic (Nat × Fs) :=
  (inodeWriteAt (fs.file f).inode buffer (fs.file f).pos fs).map fun r =>
    (r.1, r.2.modifyFile f fun file => { file with pos := file.pos + r.1 })

def fileLength (f : FileId) (fs : Fs) : Nat := (fs.inode (fs.file f).inode).data.length

def fileSeek (f : FileId) (newPos : Int) (fs : Fs) : Except FsPanic Fs :=
  if newPos < 0 then .error .fileSeekPos
  else .ok (fs.modifyFile f fun file => { file with pos := newPos.toNat })

end Pintos
