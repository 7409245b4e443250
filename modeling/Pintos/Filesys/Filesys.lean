import Pintos.Filesys.Directory
import Pintos.Infra.Run

/-!
# file system（`filesys/filesys.c`）

名前での作成・削除・開き方と、format。
最後に、format した装置から始めて操作をどの順にでも並べた遷移系を置く。
-/

namespace Pintos

open Infra

def freeMapSector : Nat := 0

def rootDirSector : Nat := 1

/-! ## 名前での操作 -/

/-- `inode_sector` を取ろうとした後の `filesys_create`。失敗すれば、取った `inode_sector` を返す。 -/
def createAt (dir : InodeId) (name : CString) (initialSize : Int) :
    Option Nat → Fs → Except FsPanic (Bool × Fs)
  | none, fs => .ok (false, fs)
  | some inodeSector, fs =>
    (inodeCreate inodeSector initialSize fs).bind fun r =>
      (if r.1 then dirAdd dir name inodeSector r.2 else .ok (false, r.2)).bind fun s =>
        if !s.1 ∧ inodeSector ≠ 0 then
          (freeMapRelease inodeSector 1 s.2).map fun fs' => (false, fs')
        else .ok s

def filesysCreate (name : CString) (initialSize : Int) (fs : Fs) : Except FsPanic (Bool × Fs) :=
  (inodeOpen rootDirSector fs).bind fun d =>
    (freeMapAllocate 1 d.2).bind fun a =>
      (createAt d.1 name initialSize a.1 a.2).bind fun s =>
        (inodeClose d.1 s.2).map fun fs' => (s.1, fs')

def filesysOpen (name : CString) (fs : Fs) : Except FsPanic (Option FileId × Fs) :=
  (inodeOpen rootDirSector fs).bind fun d =>
    (dirLookup d.1 name d.2).bind fun r =>
      (inodeClose d.1 r.2).map fun fs' =>
        match r.1 with
        | none => (none, fs')
        | some i => (some (fileOpen i fs').1, (fileOpen i fs').2)

def filesysRemove (name : CString) (fs : Fs) : Except FsPanic (Bool × Fs) :=
  (inodeOpen rootDirSector fs).bind fun d =>
    (dirRemove d.1 name d.2).bind fun r =>
      (inodeClose d.1 r.2).map fun fs' => (r.1, fs')

/-! ## format -/

/-- free map の file を開いて `free_map_file` に置く。 -/
def openFreeMapFile (fs : Fs) : Except FsPanic (FileId × Fs) :=
  (inodeOpen freeMapSector fs).map fun r =>
    ((fileOpen r.1 r.2).1,
      { (fileOpen r.1 r.2).2 with freeMapFile := some (fileOpen r.1 r.2).1 })

def freeMapCreate (fs : Fs) : Except FsPanic Fs :=
  (inodeCreate freeMapSector fs.freeMap.fileSize fs).bind fun r =>
    if !r.1 then .error .freeMapCreate
    else
      (openFreeMapFile r.2).bind fun o =>
        (bitmapWrite o.1 o.2).bind fun w => if !w.1 then .error .freeMapWrite else .ok w.2

/-- `free_map_close`。閉じた file への pointer は残る。 -/
def freeMapClose (fs : Fs) : Except FsPanic Fs :=
  (orPanic .freeMapNull fs.freeMapFile).bind fun f => fileClose f fs

def freeMapOpen (fs : Fs) : Except FsPanic Fs :=
  (openFreeMapFile fs).bind fun o =>
    (inodeReadAt (o.2.file o.1).inode o.2.freeMap.fileSize 0 o.2).bind fun bytes =>
      if bytes.length = o.2.freeMap.fileSize then
        .ok { o.2 with freeMap := o.2.freeMap.ofBytes bytes }
      else .error .freeMapRead

/-- `dir_create`。大きさは `size_t` で計算され、`off_t` に変わる。 -/
def dirCreate (sector : Nat) (entryCnt : Nat) (fs : Fs) : Except FsPanic (Bool × Fs) :=
  inodeCreate sector (int32 (entryCnt * dirEntrySize : Nat)) fs

def doFormat (fs : Fs) : Except FsPanic Fs :=
  (freeMapCreate fs).bind fun fs₁ =>
    (dirCreate rootDirSector 16 fs₁).bind fun r =>
      if !r.1 then .error .rootDirCreate else freeMapClose r.2

/--
`inode_init` と `free_map_init` の後の状態。

装置の中身 `data` と、`malloc` した memory の中身 `garbage` は任意である。
-/
def freeMapInit (size : Nat) (data : Nat → Nat → UInt8) (garbage : Nat → Bool) : Fs where
  device := { size := size, data := data }
  freeMap := ((Bitmap.create size garbage).mark freeMapSector).mark rootDirSector
  inode := fun _ => ⟨0, 0, false, 0, ⟨0, 0⟩⟩
  openInodes := []
  nextInode := 0
  file := fun _ => ⟨0, 0, false⟩
  files := []
  nextFile := 0
  freeMapFile := none

def filesysInit (format : Bool) (fs : Fs) : Except FsPanic Fs :=
  (if format then doFormat fs else .ok fs).bind freeMapOpen

/-! ## 遷移系 -/

inductive FsOp
  | filesysCreate (name : CString) (initialSize : Int)
  | filesysOpen (name : CString)
  | filesysRemove (name : CString)
  | fileReopen (f : FileId)
  | fileRead (f : FileId) (size : Nat)
  | fileWrite (f : FileId) (buffer : List UInt8)
  | fileSeek (f : FileId) (newPos : Int)
  | fileDenyWrite (f : FileId)
  | fileAllowWrite (f : FileId)
  | fileClose (f : FileId)

/-- 操作が使う、開いた file。 -/
def FsOp.file? : FsOp → Option FileId
  | .filesysCreate _ _ | .filesysOpen _ | .filesysRemove _ => none
  | .fileReopen f | .fileRead f _ | .fileWrite f _ | .fileSeek f _ | .fileDenyWrite f
  | .fileAllowWrite f | .fileClose f => some f

/-- 操作を呼ぶ。大きさと位置の引数は `off_t` に変わる。 -/
def FsOp.run (op : FsOp) (fs : Fs) : Except FsPanic Fs :=
  match op with
  | .filesysCreate name initialSize =>
    (Pintos.filesysCreate name (int32 initialSize) fs).map Prod.snd
  | .filesysOpen name => (Pintos.filesysOpen name fs).map Prod.snd
  | .filesysRemove name => (Pintos.filesysRemove name fs).map Prod.snd
  | .fileReopen f => .ok (Pintos.fileReopen f fs).2
  | .fileRead f size => (Pintos.fileRead f size fs).map Prod.snd
  | .fileWrite f buffer => (Pintos.fileWrite f buffer fs).map Prod.snd
  | .fileSeek f newPos => Pintos.fileSeek f (int32 newPos) fs
  | .fileDenyWrite f => Pintos.fileDenyWrite f fs
  | .fileAllowWrite f => Pintos.fileAllowWrite f fs
  | .fileClose f => Pintos.fileClose f fs

/-- 呼ぶ側が持っている file。free map の file は file system だけが使う。 -/
def Fs.handles (fs : Fs) (f : FileId) : Prop := f ∈ fs.files ∧ fs.freeMapFile ≠ some f

instance (fs : Fs) (f : FileId) : Decidable (fs.handles f) := inferInstanceAs (Decidable (_ ∧ _))

/-- 操作は、開いた file を渡されたときだけ呼べる。 -/
def FsOp.callable (op : FsOp) (fs : Fs) : Bool := op.file?.all fun f => fs.handles f

def fsStep (fs : Fs) (op : FsOp) : Option Fs :=
  if op.callable fs then
    match op.run fs with
    | .ok fs' => some fs'
    | .error _ => none
  else none

def IsFormatted (fs : Fs) : Prop :=
  ∃ size data garbage, size < 2 ^ 32 ∧ filesysInit true (freeMapInit size data garbage) = .ok fs

def fileSystem : System Fs FsOp := System.ofFun IsFormatted fsStep

/-- 装置をそのままにして起動し直し、format せずに `filesys_init` を呼ぶ。 -/
def reboot (garbage : Nat → Bool) (fs : Fs) : Except FsPanic Fs :=
  filesysInit false (freeMapInit fs.device.size fs.device.data garbage)

inductive BootOp
  | run (op : FsOp)
  | reboot (garbage : Nat → Bool)

def bootStep (fs : Fs) : BootOp → Option Fs
  | .run op => fsStep fs op
  | .reboot garbage =>
    match Pintos.reboot garbage fs with
    | .ok fs' => some fs'
    | .error _ => none

def bootedFileSystem : System Fs BootOp := System.ofFun IsFormatted bootStep

end Pintos
