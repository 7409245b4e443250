import Pintos.Filesys.Filesys

/-!
# inode を直に使う遷移系

`filesys.c` を通さずに、inode・file・directory の関数をどの順にでも呼ぶ遷移系。
呼ぶ側の約束だけを条件にする。

* `inode_open` には inode のある sector を渡す
* `inode_close` には、前に受け取った参照を一度だけ渡す
* directory の中身は `dir_add` と `dir_remove` だけが書き換える
* free map の file の中身は free map だけが書き換える

どの sector に inode があるか、呼ぶ側がどの参照を持っているかは、code の変数ではない。
約束を述べるために状態に足してある。
-/

namespace Pintos

open Infra

structure Vnodes where
  fs : Fs
  -- inode のある sector
  live : List Nat
  -- そのうち `dir_create` で作った directory
  dirs : List Nat
  -- `inode_open` や `inode_reopen` で受け取り、まだ閉じていない参照の数
  held : InodeId → Nat

/-- 空き sector を一つ取って inode を作る。作れなければ、`filesys_create` と同じく sector を返す。 -/
def allocateInode (create : Nat → Fs → Except FsPanic (Bool × Fs)) (fs : Fs) :
    Except FsPanic (Option Nat × Fs) :=
  (freeMapAllocate 1 fs).bind fun a =>
    match a.1 with
    | none => .ok (none, a.2)
    | some sector =>
      (create sector a.2).bind fun r =>
        if r.1 then .ok (some sector, r.2)
        else (freeMapRelease sector 1 r.2).map fun fs' => (none, fs')

inductive VOp
  | inodeCreate (length : Int)
  | dirCreate (entryCnt : Nat)
  | inodeOpen (sector : Nat)
  | inodeReopen (i : InodeId)
  | inodeRemove (i : InodeId)
  | inodeClose (i : InodeId)
  | inodeWriteAt (i : InodeId) (buffer : List UInt8) (offset : Nat)
  | fileOpen (i : InodeId)
  | fileReopen (f : FileId)
  | fileRead (f : FileId) (size : Nat)
  | fileWrite (f : FileId) (buffer : List UInt8)
  | fileSeek (f : FileId) (newPos : Int)
  | fileDenyWrite (f : FileId)
  | fileAllowWrite (f : FileId)
  | fileClose (f : FileId)
  | dirAdd (dir : InodeId) (name : CString) (sector : Nat)
  | dirRemove (dir : InodeId) (name : CString)
  | dirLookup (dir : InodeId) (name : CString)

namespace Vnodes

variable (v : Vnodes)

/-- inode `i` への参照を一つ足す。 -/
def hold (i : InodeId) : InodeId → Nat := Function.update v.held i (v.held i + 1)

/-- inode `i` への参照を一つ渡す。 -/
def drop (i : InodeId) : InodeId → Nat := Function.update v.held i (v.held i - 1)

/-- sector `s` の inode が無くなった状態。 -/
def forget (s : Nat) : Vnodes :=
  { v with live := v.live.filter (· ≠ s), dirs := v.dirs.filter (· ≠ s) }

/-- 参照を一つ閉じた後の状態。削除された inode の最後の参照なら、inode は無くなる。 -/
def closed (i : InodeId) (fs : Fs) : Vnodes :=
  if (v.fs.inode i).openCnt = 1 ∧ (v.fs.inode i).removed then
    { v.forget (v.fs.inode i).sector with fs := fs }
  else { v with fs := fs }

/-- `name` が指す sector。 -/
def target (dir : InodeId) (name : CString) : Option Nat :=
  match lookup dir name v.fs with
  | .ok (some (e, _)) => some e.inodeSector
  | _ => none

/-- `name` を消した後の状態。消した inode が開いていなければ、inode は無くなる。 -/
def unlinked (dir : InodeId) (name : CString) (fs : Fs) : Vnodes :=
  match v.target dir name with
  | none => { v with fs := fs }
  | some s =>
    if v.fs.openInodes.any fun i => (v.fs.inode i).sector = s then { v with fs := fs }
    else { v.forget s with fs := fs }

def isDir (dir : InodeId) : Prop := dir ∈ v.fs.openInodes ∧ (v.fs.inode dir).sector ∈ v.dirs

instance (dir : InodeId) : Decidable (v.isDir dir) := inferInstanceAs (Decidable (_ ∧ _))

/-- 中身を書き換えてよい inode。 -/
def isPlain (i : InodeId) : Prop :=
  (v.fs.inode i).sector ≠ freeMapSector ∧ (v.fs.inode i).sector ∉ v.dirs

instance (i : InodeId) : Decidable (v.isPlain i) := inferInstanceAs (Decidable (_ ∧ _))

end Vnodes

namespace VOp

/-- 呼ぶ側の約束。 -/
def callable (op : VOp) (v : Vnodes) : Prop :=
  match op with
  | .inodeCreate _ | .dirCreate _ => True
  | .inodeOpen sector => sector ∈ v.live
  | .inodeReopen i | .inodeRemove i => i ∈ v.fs.openInodes
  | .inodeClose i => 0 < v.held i
  | .inodeWriteAt i _ _ => i ∈ v.fs.openInodes ∧ v.isPlain i
  | .fileOpen i => 0 < v.held i ∧ v.isPlain i
  | .fileReopen f | .fileRead f _ | .fileWrite f _ | .fileSeek f _ | .fileDenyWrite f
  | .fileAllowWrite f | .fileClose f => v.fs.handles f
  | .dirAdd dir _ sector => v.isDir dir ∧ sector < 2 ^ 32
  | .dirRemove dir name | .dirLookup dir name =>
    v.isDir dir ∧ ∀ s, v.target dir name = some s → s ∈ v.live

instance (op : VOp) (v : Vnodes) : Decidable (op.callable v) := by
  unfold callable
  cases op <;> infer_instance

def run (op : VOp) (v : Vnodes) : Except FsPanic Vnodes :=
  match op with
  | .inodeCreate length =>
    (allocateInode (fun sector => Pintos.inodeCreate sector (int32 length)) v.fs).map fun r =>
      { v with fs := r.2, live := r.1.toList ++ v.live }
  | .dirCreate entryCnt =>
    (allocateInode (fun sector => Pintos.dirCreate sector entryCnt) v.fs).map fun r =>
      { v with fs := r.2, live := r.1.toList ++ v.live, dirs := r.1.toList ++ v.dirs }
  | .inodeOpen sector =>
    (Pintos.inodeOpen sector v.fs).map fun r => { v with fs := r.2, held := v.hold r.1 }
  | .inodeReopen i => .ok { v with fs := Pintos.inodeReopen i v.fs, held := v.hold i }
  | .inodeRemove i => .ok { v with fs := Pintos.inodeRemove i v.fs }
  | .inodeClose i =>
    (Pintos.inodeClose i v.fs).map fun fs => { v.closed i fs with held := v.drop i }
  | .inodeWriteAt i buffer offset =>
    (Pintos.inodeWriteAt i buffer offset v.fs).map fun r => { v with fs := r.2 }
  | .fileOpen i => .ok { v with fs := (Pintos.fileOpen i v.fs).2, held := v.drop i }
  | .fileReopen f => .ok { v with fs := (Pintos.fileReopen f v.fs).2 }
  | .fileRead f size => (Pintos.fileRead f size v.fs).map fun r => { v with fs := r.2 }
  | .fileWrite f buffer => (Pintos.fileWrite f buffer v.fs).map fun r => { v with fs := r.2 }
  | .fileSeek f newPos => (Pintos.fileSeek f (int32 newPos) v.fs).map fun fs => { v with fs := fs }
  | .fileDenyWrite f => (Pintos.fileDenyWrite f v.fs).map fun fs => { v with fs := fs }
  | .fileAllowWrite f => (Pintos.fileAllowWrite f v.fs).map fun fs => { v with fs := fs }
  | .fileClose f => (Pintos.fileClose f v.fs).map fun fs => v.closed (v.fs.file f).inode fs
  | .dirAdd dir name sector =>
    (Pintos.dirAdd dir name sector v.fs).map fun r => { v with fs := r.2 }
  | .dirRemove dir name => (Pintos.dirRemove dir name v.fs).map fun r => v.unlinked dir name r.2
  | .dirLookup dir name =>
    (Pintos.dirLookup dir name v.fs).map fun r =>
      { v with fs := r.2, held := r.1.elim v.held v.hold }

end VOp

def vnodeStep (v : Vnodes) (op : VOp) : Option Vnodes :=
  if op.callable v then
    match op.run v with
    | .ok v' => some v'
    | .error _ => none
  else none

/--
参照だけの約束。渡す inode や file は開いていて、閉じる参照は呼ぶ側のものである。

sector に何が書いてあるかは問わない。どの inode を file として開いてもよい。
-/
def VOp.valid (op : VOp) (v : Vnodes) : Prop :=
  match op with
  | .inodeCreate _ | .dirCreate _ | .inodeOpen _ => True
  | .inodeReopen i | .inodeRemove i | .inodeWriteAt i _ _ => i ∈ v.fs.openInodes
  | .inodeClose i | .fileOpen i => 0 < v.held i
  | .fileReopen f | .fileRead f _ | .fileWrite f _ | .fileSeek f _ | .fileDenyWrite f
  | .fileAllowWrite f | .fileClose f => f ∈ v.fs.files
  | .dirAdd dir _ _ | .dirRemove dir _ | .dirLookup dir _ => dir ∈ v.fs.openInodes

instance (op : VOp) (v : Vnodes) : Decidable (op.valid v) := by
  unfold VOp.valid
  cases op <;> infer_instance

def fileStep (v : Vnodes) (op : VOp) : Option Vnodes :=
  if op.valid v then
    match op.run v with
    | .ok v' => some v'
    | .error _ => none
  else none

/-- format したばかりでは、free map の file と root directory の inode だけがある。 -/
def Vnodes.IsFormatted (v : Vnodes) : Prop :=
  Pintos.IsFormatted v.fs ∧ v.live = [freeMapSector, rootDirSector] ∧ v.dirs = [rootDirSector] ∧
    v.held = fun _ => 0

def vnodeLayer : System Vnodes VOp := System.ofFun Vnodes.IsFormatted vnodeStep

def fileLayer : System Vnodes VOp := System.ofFun Vnodes.IsFormatted fileStep

end Pintos
