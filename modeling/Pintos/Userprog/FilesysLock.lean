import Pintos.Infra.Run

/-!
# `filesys_lock`（`userprog/syscall.c`、`process.c`）

process の thread が、file system の層にいつ入り、`filesys_lock` をいつ持つか。
層の中の計算は持たず、入ってから出るまでの間にほかの thread が割り込めることだけを持つ。

## 道

system call、`load`、`process_exit` の一回の実行を、lock と層への出入りの列（道）にする。
どの branch を通るかは `Op` の引数が決める。

* system call は `lock_acquire` の後で層に入り、どの `return` の前でも `lock_release` する
* `load` と `process_exit` は lock を取らずに層に入る

## 省いたもの

引数の検査は lock の外にあるので持たない。層の中の page fault で、道の途中で `exit (-1)` する
thread は考えない。
-/

namespace Pintos.Userprog

open Infra

/-! ## 道 -/

/-- process から呼ばれる、層の入口。 -/
inductive Entry
  | filesysCreate
  | filesysRemove
  | filesysOpen
  | fileClose
  | fileRead
  | fileWrite
  | fileLength
  | fileSeek
  | fileTell
  | fileDenyWrite
  | fileAllowWrite
deriving DecidableEq

inductive Action
  | acquire
  | enter (e : Entry)
  | leave
  | release
deriving DecidableEq

/-- 入口を順に呼ぶ。 -/
def visit (es : List Entry) : List Action := es.flatMap fun e => [.enter e, .leave]

/-- lock を持って入口を順に呼ぶ。 -/
def locked (es : List Entry) : List Action := .acquire :: (visit es ++ [.release])

/-- `load` の for の一回。 -/
inductive PhdrRun
  /-- `file_ofs < 0`。 -/
  | negativeOffset
  /-- `file_ofs > file_length (file)`。 -/
  | pastEnd
  | shortRead
  /-- `PT_LOAD` でない。 -/
  | skipped
  /-- `validate_segment` が、`file_length` を呼ぶ前に false を返す。 -/
  | misaligned
  /-- `validate_segment` が、`file_length` を呼んだ後に false を返す。 -/
  | invalid
  /-- `load_segment` が `file_read` を `reads` 回呼んで `success` を返す。 -/
  | segment (reads : Nat) (success : Bool)
deriving DecidableEq

namespace PhdrRun

def entries : PhdrRun → List Entry
  | negativeOffset => []
  | pastEnd => [.fileLength]
  | shortRead | skipped | misaligned => [.fileLength, .fileSeek, .fileRead]
  | invalid => [.fileLength, .fileSeek, .fileRead, .fileLength]
  | segment reads _ =>
    [.fileLength, .fileSeek, .fileRead, .fileLength, .fileSeek] ++ List.replicate reads .fileRead

/-- `goto done` しない。 -/
def continues : PhdrRun → Bool
  | skipped | segment _ true => true
  | _ => false

end PhdrRun

/-- `load` の for。 -/
def phdrEntries : List PhdrRun → List Entry
  | [] => []
  | r :: rs => r.entries ++ if r.continues then phdrEntries rs else []

/-- `load` の一回の実行。 -/
inductive LoadRun
  /-- `filesys_open` の前に `goto done` する。 -/
  | notOpened
  | openFailed
  | badHeader
  | phdrs (rs : List PhdrRun)
deriving DecidableEq

def LoadRun.entries : LoadRun → List Entry
  | notOpened => []
  | openFailed => [.filesysOpen]
  | badHeader => [.filesysOpen, .fileRead]
  | phdrs rs => [.filesysOpen, .fileRead] ++ phdrEntries rs

/-- thread の一回の仕事。 -/
inductive Op
  | create
  | remove
  /-- `found` は `filesys_open` の成否、`own` は `is_opening_executable_file`。 -/
  | sysOpen (found own : Bool)
  /-- `exec` は `is_closing_executable_file`。 -/
  | close (exec : Bool)
  /-- `file` は `fd` が開いた file であること。そうでなければ lock を取らない。 -/
  | read (file : Bool)
  | write (file : Bool)
  | filesize
  | seek
  | tell
  | load (run : LoadRun)
  /-- `exec` は `exec_file` の有無、`files` は表で開いている file の数。 -/
  | processExit (exec : Bool) (files : Nat)
deriving DecidableEq

namespace Op

def path : Op → List Action
  | create => locked [.filesysCreate]
  | remove => locked [.filesysRemove]
  | sysOpen false _ => locked [.filesysOpen]
  | sysOpen true own => locked (.filesysOpen :: if own then [.fileDenyWrite] else [])
  | close exec => locked ((if exec then [.fileAllowWrite] else []) ++ [.fileClose])
  | read file => if file then locked [.fileRead] else []
  | write file => if file then locked [.fileWrite] else []
  | filesize => locked [.fileLength]
  | seek => locked [.fileSeek]
  | tell => locked [.fileTell]
  | load run => visit run.entries
  | processExit exec files =>
    visit ((if exec then [.fileClose] else []) ++ List.replicate files .fileClose)

/-- system call として呼ばれる。 -/
def isCall : Op → Bool
  | load _ | processExit _ _ => false
  | _ => true

end Op

/-! ## 遷移系 -/

inductive Stage
  /-- `start_process` が `load` を呼ぶ前。 -/
  | fresh
  | running
  /-- `process_exit` を呼んだ。 -/
  | dead
deriving DecidableEq

structure Worker where
  stage : Stage
  /-- 最後に始めた仕事。 -/
  op : Op
  /-- 残りの道。 -/
  path : List Action
  inside : Option Entry

/-- `n` 個の thread。どれも `load` から始める。 -/
structure Workers (n : Nat) where
  /-- `filesys_lock` の holder。 -/
  holder : Option (Fin n)
  worker : Fin n → Worker

variable {n : Nat}

def Workers.boot : Workers n where
  holder := none
  worker := fun _ => ⟨.fresh, .load .notOpened, [], none⟩

inductive WorkEvent (n : Nat)
  | start (t : Fin n) (op : Op)
  | advance (t : Fin n)
deriving DecidableEq

/-- 仕事を始められるなら、始めた後の段階。 -/
def Stage.next : Stage → Op → Option Stage
  | .fresh, .load _ => some .running
  | .running, .load _ => none
  | .running, .processExit _ _ => some .dead
  | .running, _ => some .running
  | _, _ => none

namespace Workers

variable (s : Workers n) (t : Fin n)

def setWorker (holder : Option (Fin n)) (w : Worker) : Workers n :=
  ⟨holder, Function.update s.worker t w⟩

def start (op : Op) : Option (Workers n) :=
  let w := s.worker t
  if w.path = [] then
    (w.stage.next op).map fun stage =>
      s.setWorker t s.holder { w with stage := stage, op := op, path := op.path }
  else none

/-- 道を一つ進む。進めないのは、lock を待つときと、lock の `ASSERT` が落ちるときである。 -/
def advance : Option (Workers n) :=
  let w := s.worker t
  match w.path with
  | [] => none
  | .acquire :: rest =>
    if s.holder = none then some (s.setWorker t (some t) { w with path := rest }) else none
  | .enter e :: rest => some (s.setWorker t s.holder { w with path := rest, inside := some e })
  | .leave :: rest => some (s.setWorker t s.holder { w with path := rest, inside := none })
  | .release :: rest =>
    if s.holder = some t then some (s.setWorker t none { w with path := rest }) else none

end Workers

def workStep (s : Workers n) : WorkEvent n → Option (Workers n)
  | .start t op => s.start t op
  | .advance t => s.advance t

def workers (n : Nat) : System (Workers n) (WorkEvent n) := System.ofFun (· = Workers.boot) workStep

end Pintos.Userprog
