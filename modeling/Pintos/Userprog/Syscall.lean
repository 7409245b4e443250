import Pintos.Infra.Bytes

/-!
# system call の入口（`userprog/syscall.c`）

`syscall_handler` が user の stack から、system call の番号と引数を読むところ。
番号と引数が決まった後の仕事は、文字列の検査だけを持つ。

## 読み出し

kernel は page directory にある page ならどの address でも読める。無い page を読むと
page fault になり、`page_fault` は `exit (-1)` を呼ぶ。
読もうとした byte は、そこで終わったときも含めて順に記録する。

## `exit`

`exit (-1)` は戻らないので、検査に落ちた process も page fault を起こした process も、
そこで -1 で終わる。
-/

namespace Pintos.Userprog

open Infra

/-! ## address -/

abbrev Addr := BitVec 32

def physBase : Addr := 0xc0000000

def isUserVaddr (a : Addr) : Bool := a < physBase

def pgNo (a : Addr) : Nat := a.toNat / 4096

/-- process の page directory と、そこから見える byte。 -/
structure AddressSpace where
  present : Nat → Bool
  byte : Addr → UInt8

namespace AddressSpace

variable (m : AddressSpace)

/-- `pagedir_get_page` が NULL を返さない。 -/
def mapped (a : Addr) : Bool := m.present (pgNo a)

/-- address `a` からの 4 byte。 -/
def bytesAt (a : Addr) : List Addr := [a, a + 1, a + 2, a + 3]

def word (a : Addr) : Nat := ofLe32 (m.byte a) (m.byte (a + 1)) (m.byte (a + 2)) (m.byte (a + 3))

end AddressSpace

/-! ## 途中で終わる計算 -/

/-- 読もうとした byte と、計算の結果。`none` は `exit (-1)` で終わったことを表す。 -/
structure Handling (α : Type) where
  reads : List Addr
  result : Option α

namespace Handling

variable {α β : Type}

def pure (x : α) : Handling α := ⟨[], some x⟩

def bind (x : Handling α) (f : α → Handling β) : Handling β :=
  match x.result with
  | some a => ⟨x.reads ++ (f a).reads, (f a).result⟩
  | none => ⟨x.reads, none⟩

end Handling

/-- `exit (-1)`。 -/
def exitFailure {α : Type} : Handling α := ⟨[], none⟩

/-- 検査に通らなければ `exit (-1)` を呼ぶ。 -/
def exitUnless (ok : Bool) : Handling Unit := if ok then .pure () else exitFailure

section

variable (m : AddressSpace)

/-- `*(uint32_t *) a`。 -/
def readWord (a : Addr) : Handling Nat where
  reads := AddressSpace.bytesAt a
  result := if (AddressSpace.bytesAt a).all m.mapped then some (m.word a) else none

/-- `check_valid_vaddr`。 -/
def checkValidVaddr (a : Addr) : Handling Unit :=
  (exitUnless (isUserVaddr a)).bind fun _ => exitUnless (m.mapped a)

/-- 番号と引数の位置を順に検査する。 -/
def checkAll (esp : Addr) : List Addr → Handling Unit
  | [] => .pure ()
  | o :: os => (checkValidVaddr m (esp + o)).bind fun _ => checkAll esp os

/-- 引数の語を順に読む。 -/
def readAll (esp : Addr) : List Addr → Handling (List Nat)
  | [] => .pure []
  | o :: os =>
    (readWord m (esp + o)).bind fun w => (readAll esp os).bind fun ws => .pure (w :: ws)

end

/-! ## system call の番号 -/

/-- `switch` に case のある番号。 -/
inductive SysNr
  | halt
  | exit
  | exec
  | wait
  | create
  | remove
  | sysOpen
  | filesize
  | read
  | write
  | seek
  | tell
  | close
  | fibonacci
  | maxOfFourInt
deriving DecidableEq

namespace SysNr

/-- `lib/syscall-nr.h` の番号。 -/
def ofWord : Nat → Option SysNr
  | 0 => some halt
  | 1 => some exit
  | 2 => some exec
  | 3 => some wait
  | 4 => some create
  | 5 => some remove
  | 6 => some sysOpen
  | 7 => some filesize
  | 8 => some read
  | 9 => some write
  | 10 => some seek
  | 11 => some tell
  | 12 => some close
  | 13 => some fibonacci
  | 14 => some maxOfFourInt
  | _ => none

/-- `check_valid_vaddr` に渡す、`esp` からの位置。 -/
def checks : SysNr → List Addr
  | halt | fibonacci | maxOfFourInt => []
  | exit | exec | wait | remove | sysOpen | close | filesize | tell => [4]
  | create | seek => [4, 8]
  | read | write => [4, 8, 12]

/-- 読む引数の、`esp` からの位置。 -/
def args : SysNr → List Addr
  | halt => []
  | exit | exec | wait | remove | sysOpen | close | filesize | tell | fibonacci => [4]
  | create | seek => [4, 8]
  | read | write => [4, 8, 12]
  | maxOfFourInt => [4, 8, 12, 16]

end SysNr

section

variable (m : AddressSpace) (esp : Addr)

/-- `switch`。呼ぶ system call と引数を返す。case の無い番号は `exit (-1)` になる。 -/
def dispatch (number : Nat) : Handling (SysNr × List Nat) :=
  match SysNr.ofWord number with
  | some nr =>
    (checkAll m esp nr.checks).bind fun _ =>
      (readAll m esp nr.args).bind fun ws => .pure (nr, ws)
  | none => exitFailure

def syscallHandler : Handling (SysNr × List Nat) :=
  (exitUnless (!(esp == 0 || !isUserVaddr esp))).bind fun _ =>
    (exitUnless (isUserVaddr (esp + 4))).bind fun _ =>
      (readWord m esp).bind (dispatch m esp)

end

/-! ## 文字列の検査 -/

/-- `check_valid_string` が address に対してすること。 -/
inductive Access
  /-- `check_valid_vaddr` が通した。 -/
  | accepted (a : Addr)
  | read (a : Addr)
deriving DecidableEq

/-- 検査と読み出しの記録と、戻ったかどうか。戻らなければ `exit (-1)` で終わっている。 -/
structure Scan where
  log : List Access
  returned : Bool

/-- `x` が先に進めば、続けて `y` をする。 -/
def Scan.andThen (x y : Scan) : Scan := if x.returned then ⟨x.log ++ y.log, y.returned⟩ else x

section

variable (m : AddressSpace)

/-- 文字の address の `check_valid_vaddr`。 -/
def checkChar (a : Addr) : Scan where
  log := if (checkValidVaddr m a).result.isSome then [.accepted a] else []
  returned := (checkValidVaddr m a).result.isSome

/-- `*current_char`。無い page なら `page_fault` の `exit (-1)` で終わる。 -/
def readChar (a : Addr) : Scan := ⟨[.read a], m.mapped a⟩

/-- `while (*current_char)`。検査の後に進む address は user の address である。 -/
def scanString (a : Addr) : Scan :=
  (readChar m a).andThen <|
    if m.byte a = 0 then ⟨[], true⟩
    else (checkChar m a).andThen <|
      if isUserVaddr a then scanString (a + 1) else ⟨[], false⟩
termination_by 2 ^ 32 - a.toNat
decreasing_by
  rename_i h
  have hlt : a.toNat < physBase.toNat := of_decide_eq_true h
  have hbase : physBase.toNat = 0xc0000000 := rfl
  rw [BitVec.toNat_add, show (1 : Addr).toNat = 1 from rfl, Nat.mod_eq_of_lt (by omega)]
  omega

def checkValidString (str : Addr) : Scan := (checkChar m str).andThen (scanString m str)

end

end Pintos.Userprog
