import Pintos.Lib.String

/-!
# 書式付きの出力（`lib/stdio.c`）

文字列は終端の NUL を除いた文字の列で、それを指す pointer は残りの文字の列である。
`[]` は NUL を指す pointer で、NUL を越えて読むことと buffer の外に書くことは `none` である。
`output` に渡した文字は、順に並べて返す。
-/

namespace Pintos

open Infra

/-! ## 変換の指定 -/

structure PrintfFlags where
  minus : Bool
  plus : Bool
  space : Bool
  pound : Bool
  zero : Bool
  group : Bool

/-- flag の文字を一つ足す。 -/
def PrintfFlags.add (f : PrintfFlags) (c : Char) : PrintfFlags where
  minus := f.minus || c = '-'
  plus := f.plus || c = '+'
  space := f.space || c = ' '
  pound := f.pound || c = '#'
  zero := f.zero || c = '0'
  group := f.group || c.toNat = 0x27

def isFlag (c : Char) : Bool := c ∈ ['-', '+', ' ', '#', '0'] || c.toNat = 0x27

inductive ArgType
  | char | short | int | intmax | long | longlong | ptrdifft | sizet

/-- 引数の bit 数。`char` と `short` は `int` で渡され、縮めて使う。 -/
def ArgType.bits : ArgType → Nat
  | .char => 8
  | .short => 16
  | .intmax | .longlong => 64
  | _ => 32

/-- `struct printf_conversion`。 -/
structure PrintfConversion where
  flags : PrintfFlags
  width : Int
  precision : Int
  type : ArgType

/-- `va_list`。stack の 32 bit の語の列である。 -/
abbrev VaList := Nat → BitVec 32

/-- `va_arg`。64 bit の引数は二語で、下の語が先にある。 -/
def VaList.next (args : VaList) (bits : Nat) : BitVec bits × VaList :=
  ((args 1 ++ args 0).setWidth bits, fun i => args (i + if bits = 64 then 2 else 1))

/-- 幅と精度の数。`*` なら引数から読む。 -/
def parseNumber (args : VaList) (format : List Char) : Int × VaList :=
  if format.head? = some '*' then ((args.next 32).1.toInt, (args.next 32).2)
  else
    ((format.takeWhile isdigit).foldl (fun n c => int32 (n * 10 + c.toNat - '0'.toNat)) 0, args)

def skipNumber (format : List Char) : List Char :=
  if format.head? = some '*' then format.tail else format.dropWhile isdigit

/-- 精度。指定が無いか負なら -1 である。 -/
def parsePrecision (args : VaList) (format : List Char) : Int × VaList :=
  if format.head? = some '.' then
    let (precision, args) := parseNumber args format.tail
    (if precision < 0 then -1 else precision, args)
  else (-1, args)

def skipPrecision (format : List Char) : List Char :=
  if format.head? = some '.' then skipNumber format.tail else format

def parseType : List Char → ArgType
  | 'h' :: 'h' :: _ => .char
  | 'h' :: _ => .short
  | 'j' :: _ => .intmax
  | 'l' :: 'l' :: _ => .longlong
  | 'l' :: _ => .long
  | 't' :: _ => .ptrdifft
  | 'z' :: _ => .sizet
  | _ => .int

def skipType : List Char → List Char
  | 'h' :: 'h' :: format | 'h' :: format | 'j' :: format | 'l' :: 'l' :: format | 'l' :: format
  | 't' :: format | 'z' :: format | format => format

/-- flag と幅と精度と型の後ろ。 -/
def skipOptions (format : List Char) : List Char :=
  skipType (skipPrecision (skipNumber (format.dropWhile isFlag)))

/-- `parse_conversion`。変換の文字を指す pointer と、残りの引数も返す。 -/
def parseConversion (format : List Char) (args : VaList) : PrintfConversion × List Char × VaList :=
  let f := (format.takeWhile isFlag).foldl PrintfFlags.add ⟨false, false, false, false, false, false⟩
  let format := format.dropWhile isFlag
  let (width, args) := parseNumber args format
  let format := skipNumber format
  let (precision, args) := parsePrecision args format
  let format := skipPrecision format
  -- `-` が `0` を消すのは幅を読む前である。負の幅が立てる MINUS は ZERO を消さない
  let flags := { f with
    minus := f.minus || width < 0
    space := f.space && !f.plus
    zero := f.zero && !f.minus && precision < 0 }
  (⟨flags, if width < 0 then int32 (-width) else width, precision, parseType format⟩,
    skipType format, args)

theorem skipNumber_suffix (format : List Char) : skipNumber format <:+ format := by
  unfold skipNumber
  split
  · exact List.tail_suffix _
  · exact List.dropWhile_suffix _

theorem skipPrecision_suffix (format : List Char) : skipPrecision format <:+ format := by
  unfold skipPrecision
  split
  · exact (skipNumber_suffix _).trans (List.tail_suffix _)
  · exact List.suffix_rfl

theorem skipType_suffix (format : List Char) : skipType format <:+ format := by
  unfold skipType
  split <;> simp [List.suffix_cons_iff]

theorem skipOptions_suffix (format : List Char) : skipOptions format <:+ format :=
  (skipType_suffix _).trans <| (skipPrecision_suffix _).trans <|
    (skipNumber_suffix _).trans (List.dropWhile_suffix _)

/-! ## 整数 -/

/-- `base_d`、`base_o`、`base_x`、`base_X`。 -/
inductive IntegerBase
  | d | o | x | X

namespace IntegerBase

def base : IntegerBase → Nat
  | d => 10
  | o => 8
  | x | X => 16

/-- `digits` の文字。 -/
def digit : IntegerBase → Nat → Char
  | X, n => n.digitChar.toUpper
  | _, n => n.digitChar

/-- `#` flag が値の前に付ける文字。 -/
def mark : IntegerBase → List Char
  | x => ['0', 'x']
  | X => ['0', 'X']
  | _ => []

def group : IntegerBase → Nat
  | d | o => 3
  | x | X => 4

theorem one_lt_base (b : IntegerBase) : 1 < b.base := by
  cases b <;> decide

end IntegerBase

/-- 数字を下の桁から並べる while。 -/
def putDigits (b : IntegerBase) (group : Bool) (value digitCnt : Nat) : List Char :=
  if _h : value > 0 then
    (if group ∧ digitCnt > 0 ∧ digitCnt % b.group = 0 then [','] else []) ++
      b.digit (value % b.base) :: putDigits b group (value / b.base) (digitCnt + 1)
  else []
termination_by value
decreasing_by exact Nat.div_lt_self _h b.one_lt_base

/-- 精度まで `0` を足す while。最後の 1 byte は残す。 -/
def putZeros (precision : Int) (buf : List Char) : List Char :=
  if buf.length < precision ∧ buf.length < 63 then putZeros precision (buf ++ ['0']) else buf
termination_by 63 - buf.length
decreasing_by simp; omega

/-- 数字の少なくとも並べる個数。 -/
def PrintfConversion.rendered (c : PrintfConversion) : Int :=
  if c.precision < 0 then 1 else c.precision

def outputDup (c : Char) (cnt : Int) : List Char := List.replicate cnt.toNat c

def signOf (flags : PrintfFlags) (isSigned negative : Bool) : List Char :=
  if !isSigned then []
  else if negative then ['-']
  else if flags.plus then ['+'] else if flags.space then [' '] else []

def markOf (flags : PrintfFlags) (b : IntegerBase) (value : Nat) : List Char :=
  if flags.pound ∧ value ≠ 0 then b.mark else []

/-- 幅まで詰めて出力する。`buf` は下の桁が先である。 -/
def padInteger (c : PrintfConversion) (sign x buf : List Char) : List Char :=
  let padCnt := c.width - buf.length - x.length - sign.length
  outputDup ' ' (if c.flags.minus || c.flags.zero then 0 else padCnt) ++ sign ++ x ++
    outputDup '0' (if c.flags.zero then padCnt else 0) ++ buf.reverse ++
    outputDup ' ' (if c.flags.minus then padCnt else 0)

/-- `buf` から `cp` までの文字。下の桁が先である。 -/
def integerBuf (b : IntegerBase) (c : PrintfConversion) (value : Nat) : List Char :=
  let buf := putZeros c.rendered (putDigits b c.flags.group value 0)
  if c.flags.pound ∧ b.base = 8 ∧ buf.getLast? ≠ some '0' then buf ++ ['0'] else buf

/-- `format_integer`。`cp` は進むだけなので、64 文字を越えて書くことが、`buf` の外に書くことである。 -/
def formatInteger (value : Nat) (isSigned negative : Bool) (b : IntegerBase)
    (c : PrintfConversion) : Option (List Char) :=
  if (integerBuf b c value).length ≤ 64 then
    some (padInteger c (signOf c.flags isSigned negative) (markOf c.flags b value)
      (integerBuf b c value))
  else none

/-! ## 出力 -/

def formatString (string : List Char) (c : PrintfConversion) : List Char :=
  let pad := outputDup ' ' (c.width - string.length)
  if c.flags.minus then string ++ pad else pad ++ string

/--
変換の文字 `k` の出力と、残りの引数。`string` は、番地にある文字列である。

使えない変換の `__printf` は、書式が決まっているので出力を直に書く。
-/
def convert (string : BitVec 32 → List Char) (k : Char) (c : PrintfConversion) (args : VaList) :
    Option (List Char × VaList) :=
  let arg := args.next c.type.bits
  let word := args.next 32
  let unsigned b := (formatInteger arg.1.toNat false false b c).map (·, arg.2)
  match k with
  | 'd' | 'i' =>
    (formatInteger arg.1.toInt.natAbs true (arg.1.toInt < 0) .d c).map (·, arg.2)
  | 'o' => unsigned .o
  | 'u' => unsigned .d
  | 'x' => unsigned .x
  | 'X' => unsigned .X
  | 'c' => some (formatString [Char.ofNat (word.1.toNat % 256)] c, word.2)
  | 's' =>
    let s := if word.1 = 0 then "(null)".toList else string word.1
    some (formatString (if c.precision < 0 then s else s.take c.precision.toNat) c, word.2)
  | 'p' =>
    let c := { c with flags := ⟨false, false, false, true, false, false⟩ }
    (formatInteger word.1.toNat false false .x c).map (·, word.2)
  | 'f' | 'e' | 'E' | 'g' | 'G' | 'n' =>
    some ("<<no %".toList ++ k :: " in kernel>>".toList, args)
  | _ => some ("<<no %".toList ++ k :: " conversion>>".toList, args)

/-- `__vprintf`。 -/
def vprintf (string : BitVec 32 → List Char) : List Char → VaList → Option (List Char)
  | [], _ => some []
  | c :: format, args =>
    if c ≠ '%' then (vprintf string format args).map (c :: ·)
    else if format.head? = some '%' then (vprintf string format.tail args).map ('%' :: ·)
    else
      let r := parseConversion format args
      match _h : r.2.1 with
      -- NUL を変換の文字と見た後、for の `format++` は NUL を越える
      | [] => none
      | k :: rest => do
        let out ← convert string k r.1 r.2.2
        (vprintf string rest out.2).map (out.1 ++ ·)
termination_by format => format.length
decreasing_by
  all_goals simp only [List.length_cons, List.length_tail]
  · omega
  · omega
  · have hle := (skipOptions_suffix format).length_le
    rw [show skipOptions format = k :: rest from _h, List.length_cons] at hle
    omega

end Pintos
