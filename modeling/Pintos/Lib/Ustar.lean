import Pintos.Lib.String

/-!
# ustar の header（`lib/ustar.c`）

512 byte の header を、field ごとの byte の列で表す。文字列は NUL を除いた byte の列である。
-/

namespace Pintos

/-- `enum ustar_type`。 -/
inductive UstarType
  | regular | directory | eof
  deriving DecidableEq, Repr

/-- header に書かれる byte。`USTAR_EOF` は書かれない。 -/
def UstarType.typeflag : UstarType → UInt8
  | .regular => 0x30
  | .directory => 0x35
  | .eof => 0xff

structure UstarHeader where
  name : List UInt8
  mode : List UInt8
  uid : List UInt8
  gid : List UInt8
  size : List UInt8
  mtime : List UInt8
  chksum : List UInt8
  typeflag : UInt8
  linkname : List UInt8
  magic : List UInt8
  version : List UInt8
  uname : List UInt8
  gname : List UInt8
  devmajor : List UInt8
  devminor : List UInt8
  namePrefix : List UInt8
  padding : List UInt8

namespace UstarHeader

/-- `chksum` より前の 148 byte。 -/
def before (h : UstarHeader) : List UInt8 :=
  h.name ++ h.mode ++ h.uid ++ h.gid ++ h.size ++ h.mtime

/-- `chksum` より後の 356 byte。 -/
def after (h : UstarHeader) : List UInt8 :=
  h.typeflag :: (h.linkname ++ h.magic ++ h.version ++ h.uname ++ h.gname ++ h.devmajor ++
    h.devminor ++ h.namePrefix ++ h.padding)

def toBytes (h : UstarHeader) : List UInt8 := h.before ++ h.chksum ++ h.after

def ofBytes (bytes : List UInt8) : UstarHeader where
  name := bytes.take 100
  mode := (bytes.drop 100).take 8
  uid := (bytes.drop 108).take 8
  gid := (bytes.drop 116).take 8
  size := (bytes.drop 124).take 12
  mtime := (bytes.drop 136).take 12
  chksum := (bytes.drop 148).take 8
  typeflag := bytes.getD 156 0
  linkname := (bytes.drop 157).take 100
  magic := (bytes.drop 257).take 6
  version := (bytes.drop 263).take 2
  uname := (bytes.drop 265).take 32
  gname := (bytes.drop 297).take 32
  devmajor := (bytes.drop 329).take 8
  devminor := (bytes.drop 337).take 8
  namePrefix := (bytes.drop 345).take 155
  padding := (bytes.drop 500).take 12

end UstarHeader

/-- `calculate_chksum`。`chksum` の 8 byte は空白として数える。 -/
def calculateChksum (header : List UInt8) : Nat :=
  ((List.range 512).map fun i =>
    if 148 ≤ i ∧ i < 156 then 0x20 else (header.getD i 0).toNat).sum % 2 ^ 32

/-! ## 名前 -/

/-- `'/'` で始まるか、`"./"` か `"../"` で始まる。 -/
def isAntisocial (fileName : List UInt8) : Bool :=
  fileName.head? == some 0x2f || [0x2e, 0x2f].isPrefixOf fileName ||
    [0x2e, 0x2e, 0x2f].isPrefixOf fileName

theorem ne_nil_of_isAntisocial {fileName : List UInt8} (h : isAntisocial fileName) :
    fileName ≠ [] := by
  rintro rfl
  cases h

/-- `strip_antisocial_prefixes` の while。最初の `'/'` の次へ進む。 -/
def stripLoop (fileName : List UInt8) : List UInt8 :=
  if _h : isAntisocial fileName then stripLoop (fileName.dropWhile (· ≠ 0x2f)).tail else fileName
termination_by fileName.length
decreasing_by
  have hpos := List.length_pos_iff.mpr (ne_nil_of_isAntisocial _h)
  have hdrop := (List.dropWhile_suffix (l := fileName) (· ≠ 0x2f)).length_le
  rw [List.length_tail]
  omega

def stripAntisocialPrefixes (fileName : List UInt8) : List UInt8 :=
  let fileName := stripLoop fileName
  if fileName = [] ∨ fileName = [0x2e, 0x2e] then [0x2e] else fileName

/-! ## 作る -/

/-- 0 で埋めた `n` byte の field に、文字列を `strlcpy` で写す。 -/
def strlcpyField (n : Nat) (s : List UInt8) : List UInt8 :=
  s.take (n - 1) ++ List.replicate (n - min s.length (n - 1)) 0

/-- 8 進の数字。上の桁から並べる。 -/
def octalDigits (v : Nat) : List Nat :=
  if v < 8 then [v] else octalDigits (v / 8) ++ [v % 8]

/-- `"%0wo"` で書いた数。 -/
def formatOctal (w v : Nat) : List UInt8 :=
  (List.replicate (w - (octalDigits v).length) 0 ++ octalDigits v).map fun d => UInt8.ofNat (0x30 + d)

/-- 0 で埋めた `n` byte の field に、`snprintf (field, n, "%0wo", v)` で書く。 -/
def octalField (n w v : Nat) : List UInt8 := strlcpyField n (formatOctal w v)

def ustarFill (fileName : List UInt8) (type : UstarType) (size : Nat) : UstarHeader where
  name := strlcpyField 100 fileName
  mode := octalField 8 7 (if type = .regular then 0o644 else 0o755)
  uid := strlcpyField 8 [0x30, 0x30, 0x30, 0x30, 0x30, 0x30, 0x30]
  gid := strlcpyField 8 [0x30, 0x30, 0x30, 0x30, 0x30, 0x30, 0x30]
  size := octalField 12 11 size
  mtime := octalField 12 11 1136102400
  chksum := List.replicate 8 0
  typeflag := type.typeflag
  linkname := List.replicate 100 0
  magic := strlcpyField 6 [0x75, 0x73, 0x74, 0x61, 0x72]
  version := [0x30, 0x30]
  uname := strlcpyField 32 [0x72, 0x6f, 0x6f, 0x74]
  gname := strlcpyField 32 [0x72, 0x6f, 0x6f, 0x74]
  devmajor := List.replicate 8 0
  devminor := List.replicate 8 0
  namePrefix := List.replicate 155 0
  padding := List.replicate 12 0

/-- `ustar_make_header`。名前が長すぎれば `none` である。 -/
def ustarMakeHeader (fileName : List UInt8) (type : UstarType) (size : Nat) :
    Option (List UInt8) :=
  let fileName := stripAntisocialPrefixes fileName
  if fileName.length > 99 then none
  else
    let h := ustarFill fileName type size
    some { h with chksum := octalField 8 7 (calculateChksum h.toBytes) }.toBytes

/-! ## 読む -/

def ulongMax : Nat := 2 ^ 32 - 1

/-- `parse_octal_field` の for。 -/
def parseOctalLoop : (s : List UInt8) → (ofs value : Nat) → Option Nat
  | [], _, _ => none
  | c :: s, ofs, value =>
    if 0x30 ≤ c ∧ c ≤ 0x37 then
      if value > ulongMax / 8 then none
      else parseOctalLoop s (ofs + 1) (c.toNat - 0x30 + value * 8)
    else if c = 0x20 ∨ c = 0 then if ofs > 0 then some value else none
    else none

def parseOctalField (field : List UInt8) : Option Nat := parseOctalLoop field 0 0

/-- `parse_octal_field` の for を、`*value` の折り返しも含めて書いたもの。`parseOctalLoop` との違いは
`% 2 ^ 32` だけである。 -/
def parseOctalWordLoop : (s : List UInt8) → (ofs value : Nat) → Option Nat
  | [], _, _ => none
  | c :: s, ofs, value =>
    if 0x30 ≤ c ∧ c ≤ 0x37 then
      if value > ulongMax / 8 then none
      else parseOctalWordLoop s (ofs + 1) ((c.toNat - 0x30 + value * 8) % 2 ^ 32)
    else if c = 0x20 ∨ c = 0 then if ofs > 0 then some value else none
    else none

/-- `*value` が 32 bit である `parse_octal_field`。 -/
def parseOctalWord (field : List UInt8) : Option Nat := parseOctalWordLoop field 0 0

structure UstarEntry where
  fileName : Option (List UInt8)
  type : UstarType
  size : Nat
  deriving DecidableEq

def ustarParseHeader (header : List UInt8) : Except String UstarEntry :=
  let h := UstarHeader.ofBytes header
  if header.all (· == 0) then .ok ⟨none, .eof, 0⟩
  else if h.magic ≠ [0x75, 0x73, 0x74, 0x61, 0x72, 0] then .error "not a ustar archive"
  else if h.version ≠ [0x30, 0x30] then .error "invalid ustar version"
  else
    match parseOctalField h.chksum with
    | none => .error "corrupt chksum field"
    | some chksum =>
      if chksum ≠ calculateChksum header then .error "checksum mismatch"
      else if h.name.getD 99 0 ≠ 0 ∨ h.namePrefix.getD 0 0 ≠ 0 then .error "file name too long"
      else
        let fileName := some (stripAntisocialPrefixes (cstr h.name))
        if h.typeflag = UstarType.regular.typeflag then
          match parseOctalField h.size with
          | none => .error "corrupt file size field"
          | some size =>
            if size > 2 ^ 31 - 1 then .error "file too large" else .ok ⟨fileName, .regular, size⟩
        else if h.typeflag = UstarType.directory.typeflag then .ok ⟨fileName, .directory, 0⟩
        else .error "unimplemented file type"

end Pintos
