import Pintos.Filesys.Block
import Pintos.Lib.Ustar

/-!
# archive の読み書き（`filesys/fsutil.c`）

`fsutil_append` は file を scratch device に ustar の形で足し、`fsutil_extract` は
scratch device の archive を file system に取り出す。

写す元の file は、名前と中身で表す。`file_read` は中身を順に返す。取り出した file を受け取る
file system は、`filesys_create` と `filesys_open` と `file_write` の成否だけを与える
`Target` で表し、受け取った file を順に並べる。
-/

namespace Pintos

/-- `PANIC` の理由。 -/
inductive UtilPanic
  | block (panic : FsPanic)
  | nameTooLong
  | outOfSpace
  | badHeader (sector : Nat) (error : String)
  | createFailed (fileName : List UInt8)
  | openFailed (fileName : List UInt8)
  | writeFailed (fileName : List UInt8) (unwritten : Nat)
  | outOfFuel

/-- 写す file。`file_length` は `off_t` なので、長さは `2 ^ 31` に届かない。 -/
structure ArchiveFile where
  name : CString
  content : List UInt8
  length_lt : content.length < 2 ^ 31

/-- sector に byte の列を書く。 -/
def writeSector (dst : Block) (sector : Nat) (bytes : List UInt8) : Except UtilPanic Block :=
  (dst.write sector fun o => bytes.getD o 0).mapError .block

def readSector (src : Block) (sector : Nat) : Except UtilPanic (List UInt8) :=
  ((src.read sector).mapError .block).map fun data => (List.range blockSectorSize).map data

def zeroSector : List UInt8 := List.replicate blockSectorSize 0

/-- 残りが `size` byte のときの `chunk_size`。 -/
def sectorChunk (size : Nat) : Nat := if size > blockSectorSize then blockSectorSize else size

theorem sectorChunk_pos {size : Nat} (h : size > 0) : 0 < sectorChunk size := by
  unfold sectorChunk
  split
  · decide
  · exact h

/-! ## `fsutil_append` -/

/-- 中身を写す while。次の sector を返す。 -/
def appendData (dst : Block) (sector : Nat) (content : List UInt8) :
    Except UtilPanic (Block × Nat) :=
  if content = [] then .ok (dst, sector)
  else
    let chunkSize := sectorChunk content.length
    if sector ≥ dst.size then .error .outOfSpace
    else
      let buffer := content.take chunkSize ++ List.replicate (blockSectorSize - chunkSize) 0
      match writeSector dst sector buffer with
      | .error panic => .error panic
      | .ok dst => appendData dst (sector + 1) (content.drop chunkSize)
termination_by content.length
decreasing_by
  have hpos := List.length_pos_iff.mpr ‹content ≠ []›
  have hchunk := sectorChunk_pos hpos
  rw [List.length_drop]
  omega

/-- `fsutil_append`。`static` の `sector` は次に書く sector である。 -/
def fsutilAppend (file : ArchiveFile) (dst : Block) (sector : Nat) :
    Except UtilPanic (Block × Nat) :=
  match ustarMakeHeader file.name.val .regular file.content.length with
  | none => .error .nameTooLong
  | some header => do
    let dst ← writeSector dst sector header
    let (dst, sector) ← appendData dst (sector + 1) file.content
    let dst ← writeSector dst sector zeroSector
    let dst ← writeSector dst (sector + 1) zeroSector
    return (dst, sector)

def fsutilAppends : List ArchiveFile → Block → Nat → Except UtilPanic (Block × Nat)
  | [], dst, sector => .ok (dst, sector)
  | file :: files, dst, sector => do
    let (dst, sector) ← fsutilAppend file dst sector
    fsutilAppends files dst sector

/-! ## `fsutil_extract` -/

abbrev Extracted := List (List UInt8 × List UInt8)

/-- file system の返事。既に受け取った file によって変わってよい。 -/
structure Target where
  filesysCreate : Extracted → (fileName : List UInt8) → (size : Nat) → Bool
  filesysOpen : Extracted → (fileName : List UInt8) → (size : Nat) → Bool
  fileWrite : Extracted → (fileName written chunk : List UInt8) → Bool

/-- 中身を写す while。書いた byte と次の sector を返す。 -/
def extractData (target : Target) (put : Extracted) (fileName : List UInt8) (src : Block)
    (sector size : Nat) (written : List UInt8) : Except UtilPanic (List UInt8 × Nat) :=
  if size > 0 then
    let chunkSize := sectorChunk size
    match readSector src sector with
    | .error panic => .error panic
    | .ok data =>
      let chunk := data.take chunkSize
      if !target.fileWrite put fileName written chunk then .error (.writeFailed fileName size)
      else
        extractData target put fileName src (sector + 1) (size - chunkSize) (written ++ chunk)
  else .ok (written, sector)
termination_by size
decreasing_by
  have hchunk := sectorChunk_pos ‹size > 0›
  omega

/-- `fsutil_extract` の `for (;;)`。取り出した file と、次に読む sector を返す。 -/
def extractLoop (target : Target) (src : Block) :
    (fuel sector : Nat) → Extracted → Except UtilPanic (Extracted × Nat)
  | 0, _, _ => .error .outOfFuel
  | fuel + 1, sector, put => do
    let header ← readSector src sector
    match ustarParseHeader header with
    | .error error => .error (.badHeader sector error)
    | .ok ⟨_, .eof, _⟩ => .ok (put, sector + 1)
    | .ok ⟨_, .directory, _⟩ => extractLoop target src fuel (sector + 1) put
    | .ok ⟨fileName, .regular, size⟩ =>
      let fileName := fileName.getD []
      if !target.filesysCreate put fileName size then .error (.createFailed fileName)
      else if !target.filesysOpen put fileName size then .error (.openFailed fileName)
      else do
        let (bytes, sector) ← extractData target put fileName src (sector + 1) size []
        extractLoop target src fuel sector (put ++ [(fileName, bytes)])

/-- `fsutil_extract`。終わりに、archive の先頭の二つの sector を消す。 -/
def fsutilExtract (target : Target) (src : Block) (fuel sector : Nat) :
    Except UtilPanic (Extracted × Block × Nat) := do
  let (put, sector) ← extractLoop target src fuel sector []
  let src ← writeSector src 0 zeroSector
  let src ← writeSector src 1 zeroSector
  return (put, src, sector)

end Pintos
