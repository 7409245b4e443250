import Pintos.Filesys.Inode

/-!
# free map（`filesys/free-map.c`）

使っている sector を bitmap で持ち、変えるたびに free map の file に書く。
-/

namespace Pintos

open Infra

/-- `ASSERT` が偽になる計算を、止まる理由と結び付ける。 -/
def orPanic {α : Type} (p : FsPanic) : Option α → Except FsPanic α
  | some a => .ok a
  | none => .error p

/-- `bitmap_write`。全体を書けたかを返す。 -/
def bitmapWrite (f : FileId) (fs : Fs) : Except FsPanic (Bool × Fs) :=
  (inodeWriteAt (fs.file f).inode fs.freeMap.toBytes 0 fs).map fun r =>
    (r.1 = fs.freeMap.fileSize, r.2)

/--
`free_map_allocate`。連続した `cnt` 個の空き sector を取り、その先頭を返す。

free map の file がまだ無い間（`do_format` の途中）は書かない。書けなければ取り消す。
-/
def freeMapAllocate (cnt : Nat) (fs : Fs) : Except FsPanic (Option Nat × Fs) :=
  match fs.freeMap.scanAndFlip 0 cnt false with
  | none => .ok (none, fs)
  | some (sector, map) =>
    match fs.freeMapFile with
    | none => .ok (some sector, { fs with freeMap := map })
    | some f =>
      (bitmapWrite f { fs with freeMap := map }).bind fun r =>
        if r.1 then .ok (some sector, r.2)
        else
          (orPanic .bitmapRange (r.2.freeMap.setMultiple sector cnt false)).map fun map' =>
            (none, { r.2 with freeMap := map' })

def freeMapRelease (sector : Nat) (cnt : Nat) (fs : Fs) : Except FsPanic Fs :=
  (orPanic .bitmapRange (fs.freeMap.all sector cnt)).bind fun used =>
    if !used then .error .freeMapRelease
    else
      (orPanic .bitmapRange (fs.freeMap.setMultiple sector cnt false)).bind fun map =>
        (orPanic .freeMapNull fs.freeMapFile).bind fun f =>
          (bitmapWrite f { fs with freeMap := map }).map fun r => r.2

end Pintos
