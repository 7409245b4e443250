import Pintos.Infra.Memory
import Pintos.Lib.String
import Pintos.Threads.Vaddr

/-!
# command line から user stack まで（`userprog/process.c`）

`process_execute` と `load` は command line を写し、`setup_user_stack` は語に区切って
user stack に積む。前半は配列への書き込みを記録し、後半は stack の中身を作る。

user の memory は番地から byte への関数である。`esp` は 32 bit の数で、`Nat` で表す。
-/

namespace Pintos.Loader

open Infra

/-- 区切り文字 `" "`。 -/
def space : List UInt8 := [0x20]

/-! ## 配列への書き込み -/

/-- `process_execute` から `setup_user_stack` までに書かれる配列。 -/
inductive Buffer
  | fnCopy | firstWord | threadName | fullFileNameCopy | fullFileNameCopy2 | realFileNameCopy
  | argv
  deriving DecidableEq, Repr

/-- 大きさ `size` の配列の `index` への書き込み。 -/
structure Write where
  buffer : Buffer
  size : Nat
  index : Nat
  deriving DecidableEq, Repr

/-- `strlcpy` による書き込み。 -/
def strlcpyWrites (buffer : Buffer) (size : Nat) (src : List UInt8) (n : Nat) : List Write :=
  (strlcpyIndices src n).map (⟨buffer, size, ·⟩)

/-- 途中の割り当てなどが成功したか。`stringsPushed` は、`thread_exit` するまでに積めた語の数である。 -/
structure Outcomes where
  fnCopy : Bool
  threadCreated : Bool
  pagedir : Bool
  fullFileNameCopy : Bool
  realFileNameCopy : Bool
  fileOpened : Bool
  segmentsLoaded : Bool
  stackMapped : Bool
  stringsPushed : Nat
  framePushed : Bool

/-- 書き込みと、process が始まったか。始まらなければ `exec` は −1 を返す。 -/
structure Execution where
  writes : List Write
  started : Bool

/-- `setup_user_stack` の、配列への書き込み。 -/
def setupUserStackWrites (out : Outcomes) (fileName : List UInt8) : List Write :=
  let tokens := tokenizeIn space (fileName ++ [0]) 0
  let argc := tokens.argv.length
  tokens.cuts.map (⟨.fullFileNameCopy2, 256, ·⟩) ++
    (List.range argc).map (⟨.argv, 128, ·⟩) ++
    ((List.range argc).reverse.take out.stringsPushed).map (⟨.argv, 128, ·⟩)

/-- `load` の、配列への書き込み。 -/
def load (out : Outcomes) (fileName : List UInt8) : Execution :=
  if !out.pagedir then ⟨[], false⟩
  else if !out.fullFileNameCopy then ⟨[], false⟩
  else
    let strlen := fileName.length
    let first := strtokRIn space (fileName ++ [0]) 0
    let copies := strlcpyWrites .fullFileNameCopy (strlen + 1) fileName (strlen + 1) ++
      strlcpyWrites .fullFileNameCopy2 256 fileName (strlen + 1) ++
      first.cut.toList.map (⟨.fullFileNameCopy, strlen + 1, ·⟩)
    match first.token with
    | none => ⟨copies, false⟩
    | some token =>
      if !out.realFileNameCopy then ⟨copies, false⟩
      else
        let name := cStringAt (cutAt (fileName ++ [0]) first.cut) token
        let named := copies ++
          strlcpyWrites .realFileNameCopy (name.length + 1) name (name.length + 1)
        if out.fileOpened && out.segmentsLoaded && out.stackMapped then
          ⟨named ++ setupUserStackWrites out fileName, out.framePushed⟩
        else ⟨named, false⟩

/-- `process_execute` と、始めた thread の `load` の、配列への書き込み。 -/
def processExecute (out : Outcomes) (fileName : List UInt8) : Execution :=
  if !out.fnCopy then ⟨[], false⟩
  else
    let firstWordLength := strcspn fileName space
    let copies := strlcpyWrites .fnCopy pgSize fileName pgSize ++
      strlcpyWrites .firstWord 20 fileName (firstWordLength + 1)
    if !out.threadCreated then ⟨copies, false⟩
    else
      let loaded := load out (fileName.take (pgSize - 1))
      ⟨copies ++ strlcpyWrites .threadName 16 (fileName.take firstWordLength) 16 ++ loaded.writes,
        loaded.started⟩

/-! ## user stack -/

/-- user の memory と `esp`。 -/
structure UserStack where
  mem : Nat → UInt8
  esp : Nat

def sub32 (a b : Nat) : Nat := (a + 2 ^ 32 - b) % 2 ^ 32

section

variable (pagedirGetPage : Nat → Option Nat)

def isValidStackPointer (esp : Nat) : Bool :=
  isUserVaddr esp && (pagedirGetPage esp).isSome

/-- `*esp -= size` の後、`*esp` を確かめて、そこへ `size` byte を書く。値は新しい `esp` で決まる。
`none` は `thread_exit` である。 -/
def push (size : Nat) (value : Nat → List UInt8) (stack : UserStack) : Option UserStack :=
  let esp := sub32 stack.esp size
  if isValidStackPointer pagedirGetPage esp then some ⟨store stack.mem esp (value esp), esp⟩
  else none

/-- 語を積んだ後の stack と、番地で置き換えた `argv` と、`total_len`。 -/
structure Strings where
  stack : UserStack
  argv : List Nat
  totalLen : Nat

/-- 語を積む loop。`argv[argc - 1]` から始め、`argv[i]` を積んだ番地で置き換える。 -/
def pushStrings : List (List UInt8) → UserStack → Option Strings
  | [], stack => some ⟨stack, [], 0⟩
  | word :: words, stack => do
    let rest ← pushStrings words stack
    let stack ← push pagedirGetPage (word.length + 1) (fun _ => word ++ [0]) rest.stack
    return ⟨stack, stack.esp :: rest.argv, rest.totalLen + (word.length + 1)⟩

def pushPadding (totalLen : Nat) (stack : UserStack) : Option UserStack :=
  let remainder := totalLen % 4
  let paddingSize := 4 - remainder
  if remainder ≠ 0 then
    push pagedirGetPage paddingSize (fun _ => List.replicate paddingSize 0) stack
  else some stack

/-- `argv[argc - 1]` から `argv[0]` までの番地を積む loop。 -/
def pushAddresses : List Nat → UserStack → Option UserStack
  | [], stack => some stack
  | address :: rest, stack => do
    let stack ← pushAddresses rest stack
    push pagedirGetPage 4 (fun _ => le32 address) stack

/-- `setup_user_stack`。`fileName` は command line の置かれた配列である。 -/
def setupUserStack (fileName : List UInt8) (stack : UserStack) : Option UserStack := do
  let tokens := tokenizeIn space fileName 0
  let argc := tokens.argv.length
  let strings ← pushStrings pagedirGetPage (tokens.argv.map (cStringAt tokens.buf)) stack
  let stack ← pushPadding pagedirGetPage strings.totalLen strings.stack
  let stack ← push pagedirGetPage 4 (fun _ => le32 0) stack
  let stack ← pushAddresses pagedirGetPage strings.argv stack
  let stack ← push pagedirGetPage 4 (fun esp => le32 (esp + 4)) stack
  let stack ← push pagedirGetPage 4 (fun _ => le32 argc) stack
  push pagedirGetPage 4 (fun _ => le32 0) stack

end

end Pintos.Loader
