import Pintos.Filesys.File
import Pintos.Threads.Vaddr

/-!
# ELF の segment（`userprog/process.c`）

program header の検査 `validate_segment` と、`load` の page の計算と、page を一つずつ読む
`load_segment`。header の各 field は 32 bit の語である。

`palloc_get_page` と `pagedir_set_page` の成否は、page の番地から決まるとする。一度の
`load_segment` は同じ番地を二度試さないので、これで成否は任意である。
-/

namespace Pintos.Loader

open Infra

/-- 32 bit の語。 -/
abbrev Word := BitVec 32

def pgMask : Word := 0xfff

def pfW : Word := 2

/-- `struct Elf32_Phdr` のうち、`load` が読むもの。 -/
structure Phdr where
  pOffset : Word
  pVaddr : Word
  pFilesz : Word
  pMemsz : Word
  pFlags : Word

/-- `validate_segment`。`fileLength` は `file_length (file)` である。 -/
def validateSegment (phdr : Phdr) (fileLength : Nat) : Bool :=
  if phdr.pOffset &&& pgMask ≠ phdr.pVaddr &&& pgMask then false
  else if phdr.pOffset > BitVec.ofNat 32 fileLength then false
  else if phdr.pMemsz < phdr.pFilesz then false
  else if phdr.pMemsz = 0 then false
  else if !isUserVaddr phdr.pVaddr.toNat then false
  else if !isUserVaddr (phdr.pVaddr + phdr.pMemsz).toNat then false
  else if phdr.pVaddr + phdr.pMemsz < phdr.pVaddr then false
  else if phdr.pVaddr < 4096 then false
  else true

def roundUp (x step : Word) : Word := (x + step - 1) / step * step

/-- `load_segment` の引数。`ofs` は `off_t` である。 -/
structure Segment where
  ofs : Int
  upage : Word
  readBytes : Word
  zeroBytes : Word
  writable : Bool

/-- `load` の `PT_LOAD` の計算。 -/
def Phdr.segment (phdr : Phdr) : Segment :=
  let writable := phdr.pFlags &&& pfW ≠ 0
  let filePage := phdr.pOffset &&& ~~~pgMask
  let memPage := phdr.pVaddr &&& ~~~pgMask
  let pageOffset := phdr.pVaddr &&& pgMask
  let readBytes := pageOffset + phdr.pFilesz
  let zeroBytes := roundUp (pageOffset + phdr.pMemsz) 4096 - readBytes
  ⟨filePage.toInt, memPage, readBytes, zeroBytes, writable⟩

/-! ## `load_segment` -/

/-- 写像した page。 -/
structure Page where
  bytes : List UInt8
  writable : Bool

/-- `palloc_get_page` と `pagedir_set_page` の成否。 -/
structure Supply where
  palloc : Word → Bool
  setPage : Word → Bool

/-- file system と、page 番号から page への写像と、`load_segment` が写像した番地。 -/
structure LoadState where
  fs : Fs
  space : Nat → Option Page
  installed : List Word

/-- 途中で止まる理由。 -/
inductive Halt
  | assertion
  | fs (panic : FsPanic)
  | outOfFuel

def installPage (supply : Supply) (upage : Word) (page : Page) (st : LoadState) :
    Option LoadState :=
  if (st.space (pgNo upage.toNat)).isNone && supply.setPage upage then
    some { st with
      space := Function.update st.space (pgNo upage.toNat) (some page)
      installed := st.installed ++ [upage] }
  else none

/-- `load_segment` の while。 -/
def loadPages (supply : Supply) (f : FileId) (writable : Bool) :
    (fuel : Nat) → (readBytes zeroBytes upage : Word) → LoadState →
      Except Halt (Bool × LoadState)
  | 0, _, _, _, _ => .error .outOfFuel
  | fuel + 1, readBytes, zeroBytes, upage, st =>
    if readBytes > 0 ∨ zeroBytes > 0 then
      let pageReadBytes := if readBytes < 4096 then readBytes else 4096
      let pageZeroBytes := 4096 - pageReadBytes
      if !supply.palloc upage then .ok (false, st)
      else
        match fileRead f pageReadBytes.toNat st.fs with
        | .error panic => .error (.fs panic)
        | .ok (bytes, fs) =>
          if bytes.length ≠ pageReadBytes.toNat then .ok (false, { st with fs })
          else
            -- `memset` は読んだ byte の後ろを埋める。
            let page := ⟨bytes ++ List.replicate pageZeroBytes.toNat 0, writable⟩
            match installPage supply upage page { st with fs } with
            | none => .ok (false, { st with fs })
            | some st =>
              loadPages supply f writable fuel (readBytes - pageReadBytes)
                (zeroBytes - pageZeroBytes) (upage + 4096) st
    else .ok (true, st)

def loadSegment (supply : Supply) (f : FileId) (seg : Segment) (fuel : Nat) (st : LoadState) :
    Except Halt (Bool × LoadState) :=
  if (seg.readBytes + seg.zeroBytes) % 4096 ≠ 0 then .error .assertion
  else if pgOfs seg.upage.toNat ≠ 0 then .error .assertion
  else if seg.ofs.tmod pgSize ≠ 0 then .error .assertion
  else
    match fileSeek f seg.ofs st.fs with
    | .error panic => .error (.fs panic)
    | .ok fs =>
      loadPages supply f seg.writable fuel seg.readBytes seg.zeroBytes seg.upage { st with fs }

/-- user の番地にある byte。 -/
def userByte (space : Nat → Option Page) (va : Nat) : Option UInt8 :=
  (space (pgNo va)).bind fun page => page.bytes[pgOfs va]?

end Pintos.Loader
