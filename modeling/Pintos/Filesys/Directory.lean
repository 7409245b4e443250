import Pintos.Filesys.File
import Pintos.Lib.String

/-!
# directory（`filesys/directory.c`）

directory の中身は 20 byte の entry の列である。
`struct dir` のうち `pos` は `dir_readdir` だけが使うので、directory は inode で表し、
`pos` は `dir_readdir` の引数と結果にする。
-/

namespace Pintos

open Infra

def nameMax : Nat := 14

/-- `strlcpy (dst, src, NAME_MAX + 1)`。 -/
def strlcpyName (dst src : List UInt8) : List UInt8 :=
  src.take nameMax ++ 0 :: dst.drop (min src.length nameMax + 1)

/-- `struct dir_entry`。`name` は NUL で終わる 15 byte である。 -/
structure DirEntry where
  inodeSector : Nat
  name : List UInt8
  inUse : Bool
deriving DecidableEq

/-- `sizeof (struct dir_entry)`。 -/
def dirEntrySize : Nat := 20

namespace DirEntry

def toBytes (e : DirEntry) : List UInt8 :=
  le32 e.inodeSector ++ e.name ++ [if e.inUse then 1 else 0]

def ofBytes (bytes : List UInt8) : DirEntry where
  inodeSector :=
    ofLe32 (bytes.getD 0 0) (bytes.getD 1 0) (bytes.getD 2 0) (bytes.getD 3 0)
  name := (bytes.drop 4).take (nameMax + 1)
  inUse := bytes.getD 19 0 ≠ 0

end DirEntry

/-- `ofs` から entry を一つ読む。file の終わりに届けば `none` である。 -/
def readEntry (dir : InodeId) (ofs : Nat) (fs : Fs) : Except FsPanic (Option DirEntry) :=
  (inodeReadAt dir dirEntrySize ofs fs).map fun bytes =>
    if bytes.length = dirEntrySize then some (DirEntry.ofBytes bytes) else none

/-- `lookup` の for。 -/
def lookupLoop (dir : InodeId) (name : CString) (fs : Fs) :
    (fuel ofs : Nat) → Except FsPanic (Option (DirEntry × Nat))
  | 0, _ => .ok none
  | fuel + 1, ofs =>
    (readEntry dir ofs fs).bind fun
      | none => .ok none
      | some e =>
        if e.inUse ∧ name.val = cstr e.name then .ok (some (e, ofs))
        else lookupLoop dir name fs fuel (ofs + dirEntrySize)

/-- `lookup`。名前の一致する entry と、その offset を返す。 -/
def lookup (dir : InodeId) (name : CString) (fs : Fs) : Except FsPanic (Option (DirEntry × Nat)) :=
  lookupLoop dir name fs ((fs.inode dir).data.length + 1) 0

/-- `dir_lookup`。見つかれば inode を開く。 -/
def dirLookup (dir : InodeId) (name : CString) (fs : Fs) :
    Except FsPanic (Option InodeId × Fs) :=
  (lookup dir name fs).bind fun
    | none => .ok (none, fs)
    | some (e, _) => (inodeOpen e.inodeSector fs).map fun r => (some r.1, r.2)

/--
`dir_add` の空き entry を探す for。

空きが無ければ file の終わりの offset を返し、`e` には最後に読んだ entry が残る。
-/
def slotLoop (dir : InodeId) (fs : Fs) :
    (fuel : Nat) → (e : DirEntry) → (ofs : Nat) → Except FsPanic (DirEntry × Nat)
  | 0, e, ofs => .ok (e, ofs)
  | fuel + 1, e, ofs =>
    (readEntry dir ofs fs).bind fun
      | none => .ok (e, ofs)
      | some e' =>
        if e'.inUse then slotLoop dir fs fuel e' (ofs + dirEntrySize) else .ok (e', ofs)

def dirAdd (dir : InodeId) (name : CString) (inodeSector : Nat) (fs : Fs) :
    Except FsPanic (Bool × Fs) :=
  if name.val = [] ∨ name.val.length > nameMax then .ok (false, fs)
  else
    (lookup dir name fs).bind fun
      | some _ => .ok (false, fs)
      | none =>
        (slotLoop dir fs ((fs.inode dir).data.length + 1) ⟨0, List.replicate (nameMax + 1) 0, false⟩
          0).bind fun slot =>
          let e : DirEntry :=
            { inodeSector := inodeSector, name := strlcpyName slot.1.name name.val, inUse := true }
          (inodeWriteAt dir e.toBytes slot.2 fs).map fun r => (r.1 = dirEntrySize, r.2)

/-- `dir_remove`。entry を消し、inode に削除の印を付けて閉じる。 -/
def dirRemove (dir : InodeId) (name : CString) (fs : Fs) : Except FsPanic (Bool × Fs) :=
  (lookup dir name fs).bind fun
    | none => .ok (false, fs)
    | some (e, ofs) =>
      (inodeOpen e.inodeSector fs).bind fun r =>
        (inodeWriteAt dir { e with inUse := false }.toBytes ofs r.2).bind fun w =>
          if w.1 ≠ dirEntrySize then (inodeClose r.1 w.2).map fun fs' => (false, fs')
          else (inodeClose r.1 (inodeRemove r.1 w.2)).map fun fs' => (true, fs')

/-- `dir_readdir` の while。 -/
def readdirLoop (dir : InodeId) (fs : Fs) :
    (fuel pos : Nat) → Except FsPanic (Option (List UInt8) × Nat)
  | 0, pos => .ok (none, pos)
  | fuel + 1, pos =>
    (readEntry dir pos fs).bind fun
      | none => .ok (none, pos)
      | some e =>
        if e.inUse then .ok (some ((cstr e.name).take nameMax), pos + dirEntrySize)
        else readdirLoop dir fs fuel (pos + dirEntrySize)

/-- `dir_readdir`。次の entry の名前と、進めた `pos` を返す。 -/
def dirReaddir (dir : InodeId) (pos : Nat) (fs : Fs) :
    Except FsPanic (Option (List UInt8) × Nat) :=
  readdirLoop dir fs ((fs.inode dir).data.length + 1) pos

end Pintos
