import Pintos.Lib.Random
import Pintos.Lib.String

/-!
# 起動の引数（`threads/init.c`）

`read_command_line` は、loader の残した引数を `argv` に並べて表示する。

`parse_options` は `-` で始まる引数を順に読み、大域変数に書く。
読み終えると、`-rs` があったかどうかによらず、時刻で乱数を初期化する。

どの option があるかは、kernel を作るときの `FILESYS`、`VM`、`USERPROG` で決まる。
-/

namespace Pintos

open Infra

/-! ## command line

loader は、引数の数と、NUL で終わる引数を並べた `LOADER_ARGS_LEN` byte の領域を残す。`mem` は
`LOADER_ARGS` から先の byte で、pointer は `LOADER_ARGS` からの offset で表す。
-/

def loaderArgsLen : Nat := 128

/-- `argv` の要素の数。 -/
def argvLen : Nat := loaderArgsLen / 2 + 1

/-- `static char *argv[]` の中身と、これまでに書いた添え字。NULL は `none` である。 -/
structure Argv where
  entry : Int → Option Nat
  written : List Int

/-- `argv[i] = p`。添え字は配列の外でもよい。 -/
def Argv.write (argv : Argv) (i : Int) (p : Option Nat) : Argv where
  entry := fun k => if k = i then p else argv.entry k
  written := argv.written ++ [i]

/-- 引数を並べる for。`n` は残りの回数で、PANIC すれば先頭が `true` になる。 -/
def readArgs (mem : List UInt8) : (n i p : Nat) → (argv : Argv) → Bool × Argv
  | 0, _, _, argv => (false, argv)
  | n + 1, i, p, argv =>
    if p ≥ loaderArgsLen then (true, argv)
    else
      readArgs mem n (i + 1) (p + strnlen (mem.drop p) (loaderArgsLen - p) + 1)
        (argv.write i (some p))

/-- `"Kernel command line:"`。 -/
def commandLineBanner : List UInt8 :=
  [0x4b, 0x65, 0x72, 0x6e, 0x65, 0x6c, 0x20, 0x63, 0x6f, 0x6d, 0x6d, 0x61, 0x6e, 0x64,
    0x20, 0x6c, 0x69, 0x6e, 0x65, 0x3a]

/-- 一つの引数の表示。空白を含む引数は `'` で囲む。 -/
def printArg (arg : List UInt8) : List UInt8 :=
  if 0x20 ∈ arg then 0x20 :: 0x27 :: arg ++ [0x27] else 0x20 :: arg

/-- `read_command_line` の結果。`panicked` は `PANIC ("command line arguments overflow")` である。 -/
structure CommandLine where
  panicked : Bool
  argv : Argv
  output : List UInt8

/-- `read_command_line`。`argCnt` は `LOADER_ARG_CNT` に置かれた 32 bit の数である。 -/
def readCommandLine (argCnt : Nat) (mem : List UInt8) : CommandLine :=
  let argc := int32 argCnt
  let r := readArgs mem argc.toNat 0 0 ⟨fun _ => none, []⟩
  if r.1 then ⟨true, r.2, []⟩
  else
    ⟨false, r.2.write argc none,
      commandLineBanner ++
        ((List.range argc.toNat).flatMap fun i : Nat =>
          printArg (cStringAt mem ((r.2.entry i).getD 0))) ++ [0x0a]⟩

/-! ## option -/

/-- kernel を作るときの定義。 -/
structure Build where
  filesys : Bool
  vm : Bool
  userprog : Bool

/-- `enum shutdown_type`。 -/
inductive ShutdownType
  | none
  | powerOff
  | reboot
deriving DecidableEq

/-- option が書く大域変数。 -/
structure BootOptions where
  shutdown : ShutdownType
  formatFilesys : Bool
  filesysBdevName : Option (List Char)
  scratchBdevName : Option (List Char)
  swapBdevName : Option (List Char)
  threadMlfqs : Bool
  threadPriorAging : Bool
  userPageLimit : Nat
  random : Random

def bootDefaults : BootOptions where
  shutdown := .none
  formatFilesys := false
  filesysBdevName := none
  scratchBdevName := none
  swapBdevName := none
  threadMlfqs := false
  threadPriorAging := false
  userPageLimit := 2 ^ 32 - 1
  random := { s := fun _ => 0, i := 0, j := 0, inited := false }

/-- `parse_options` が戻らない理由。 -/
inductive BootStop
  -- `usage` は電源を切る
  | usage
  -- `atoi` の `ASSERT (s != NULL)`
  | atoiNull
  | unknownOption (name : List Char)
deriving DecidableEq

/-- `atoi (value)` を `unsigned` に変えたもの。 -/
def unsignedValue : Option (List Char) → Except BootStop Nat
  | none => .error .atoiNull
  | some value => .ok (atoi value % 2 ^ 32).toNat

def parseOption (build : Build) (name : List Char) (value : Option (List Char))
    (o : BootOptions) : Except BootStop BootOptions :=
  if name = "-h".toList then .error .usage
  else if name = "-q".toList then .ok { o with shutdown := .powerOff }
  else if name = "-r".toList then .ok { o with shutdown := .reboot }
  else if build.filesys ∧ name = "-f".toList then .ok { o with formatFilesys := true }
  else if build.filesys ∧ name = "-filesys".toList then .ok { o with filesysBdevName := value }
  else if build.filesys ∧ name = "-scratch".toList then .ok { o with scratchBdevName := value }
  else if build.filesys ∧ build.vm ∧ name = "-swap".toList then .ok { o with swapBdevName := value }
  else if name = "-rs".toList then
    (unsignedValue value).map fun seed => { o with random := randomInit seed }
  else if name = "-mlfqs".toList then .ok { o with threadMlfqs := true }
  else if ¬ build.userprog ∧ name = "-aging".toList then .ok { o with threadPriorAging := true }
  else if build.userprog ∧ name = "-ul".toList then
    (unsignedValue value).map fun limit => { o with userPageLimit := limit }
  else .error (.unknownOption name)

/-- `parse_options` の loop。option でない最初の引数から先を残す。 -/
def parseLoop (build : Build) :
    List (List Char) → BootOptions → Except BootStop (List (List Char) × BootOptions)
  | [], o => .ok ([], o)
  | arg :: argv, o =>
    if arg.head? = some '-' then
      -- `-` で始まるので、名前はある
      let (name, save) := strtokR ['='] arg
      let value := (strtokR [] save).1
      (parseOption build (name.getD []) value o).bind (parseLoop build argv)
    else .ok (arg :: argv, o)

/-- `parse_options`。`rtc` は `rtc_get_time ()` の返す値である。 -/
def parseOptions (build : Build) (rtc : Nat) (argv : List (List Char)) (o : BootOptions) :
    Except BootStop (List (List Char) × BootOptions) :=
  (parseLoop build argv o).map fun r => (r.1, { r.2 with random := randomInit rtc })

end Pintos
