import Pintos.Infra.Run

/-!
# process の始まりと終わり（`userprog/process.c`、`syscall.c`、`exception.c`）

`exec`・`wait`・`exit` と page fault を、いくつもの process がどの順にでも進める遷移系。
親と子は `struct thread` の中の三つの semaphore で待ち合わせる。

* `load_sema` — 子が load の結果を親に知らせる
* `exit_sema` — 子が終わったことを親に知らせる
* `wait_sema` — 親が子を片付けたことを子に知らせる

一つの thread の一歩は、ほかの thread と共有する変数を高々一度触るところまでとする。
`sema_down` は値が正のときだけ進む。

## `exit`

`exit` は `NO_RETURN` と宣言されている。終わりの `if` が偽になる道は呼んだところに戻ってしまうので、
どの道も `thread_exit` で終わるほかない。kernel の `exit` は、`exited` によらず親に知らせ、親を待ち、
`thread_exit` する。`exited` と `wrong_exit` を読む所は残らないので持たない。

## 解放した memory

`thread_exit` した thread の `struct thread` は解放される。
それを読み書きする一歩は何が起きるか分からないので、次の状態を持たない。

## 省いたもの

出力、file の後始末、`exec` などのほかの system call は待ち合わせに関わらないので持たない。
memory が足りずに thread を作れないことと、load の結果は、一歩ごとに任意に選ぶ。
-/

namespace Pintos.Userprog

open Infra Function

/-! ## データ -/

/-- thread。番号は使い回さない。0 が `initial_thread` である。 -/
abbrev Tid := Nat

/-- thread が次に実行するところ。 -/
inductive Pc
  /-- `initial_thread` の `run_actions`。 -/
  | main
  | idle
  -- `start_process`
  | load
  | loadFailed
  | loadFailedUp
  | loadUp
  /-- 利用者の code。 -/
  | user
  -- `exec`
  | execFind (child : Tid)
  | execDown (child : Tid)
  | execRead (child : Tid)
  -- `wait` と `process_wait`
  | waitSleep (child : Tid)
  | waitLookup (child : Tid)
  | waitDown (child : Tid)
  | waitReap (child : Tid)
  | waitUp (child : Tid) (status : Int)
  -- `exit`
  | exitEnter (status : Int)
  | exitUp
  | exitDown
  | kill
  | threadExit
deriving DecidableEq

/-- `struct thread` のうち、待ち合わせに使う項目。 -/
structure Proc where
  parent : Option Tid
  childList : List Tid
  loadSema : Nat
  exitSema : Nat
  waitSema : Nat
  exitStatus : Int
  pc : Pc
deriving DecidableEq

structure Procs where
  proc : Tid → Proc
  /-- `all_list`。`thread_exit` した thread は入っていない。 -/
  allList : List Tid
  nextTid : Tid

/-- `init_thread` が作る `struct thread`。 -/
def Proc.init (parent : Option Tid) (pc : Pc) : Proc where
  parent := parent
  childList := []
  loadSema := 0
  exitSema := 0
  waitSema := 0
  exitStatus := 0
  pc := pc

/-- `process_wait` を呼んだところ。親のない `initial_thread` は `run_task` から呼ぶ。 -/
def Proc.home (p : Proc) : Pc := if p.parent = none then .main else .user

namespace Procs

variable (s : Procs) (t : Tid)

def modify (f : Proc → Proc) : Procs := { s with proc := update s.proc t (f (s.proc t)) }

def setPc (pc : Pc) : Procs := s.modify t fun p => { p with pc := pc }

/-! ## 子の列 -/

/-- 列をたどった結果。 -/
inductive Found
  | child (c : Tid)
  | absent
  /-- 解放した `struct thread` に行き当たった。 -/
  | dangling
deriving DecidableEq

/-- `get_child_thread_by_tid` の for。 -/
def findChild (tid : Int) : List Tid → Found
  | [] => .absent
  | c :: cs =>
    if c ∉ s.allList then .dangling else if (c : Int) = tid then .child c else findChild tid cs

/-- 列の要素 `c` を外すときに書き換える、前後の要素。 -/
def neighbours (l : List Tid) (c : Tid) : List Tid :=
  (l.takeWhile (· ≠ c)).getLast?.toList ++ (l.dropWhile (· ≠ c)).tail.head?.toList

/--
`thread_create`。新しい thread は `start_process` から始まり、作った thread の列の後ろに入る。

作った thread は `pc` に進む。
-/
def create (pc : Tid → Pc) : Option Procs :=
  if ∀ c ∈ (s.proc t).childList.getLast?, c ∈ s.allList then
    some
      { proc :=
          update
            (update s.proc t
              { s.proc t with childList := (s.proc t).childList ++ [s.nextTid], pc := pc s.nextTid })
            s.nextTid (Proc.init (some t) .load)
        allList := s.allList ++ [s.nextTid]
        nextTid := s.nextTid + 1 }
  else none

/-- `thread_exit`。 -/
def destroy : Procs := { s with allList := s.allList.erase t }

end Procs

/-! ## 一歩 -/

/-- `load` の結果。`overflow` は `setup_user_stack` の `thread_exit` である。 -/
inductive LoadResult
  | loaded
  | failed
  | overflow
deriving DecidableEq

/-- 一歩で選べること。選ぶことが無ければ `go` である。 -/
inductive Act
  | go
  | runTask (created : Bool)
  | finish
  | load (result : LoadResult)
  | exec (created : Bool)
  | wait (tid : Int)
  | exit (status : Int)
  /-- 検査に通らない引数の system call か、kernel の番地か写像されていない番地への page fault。 -/
  | badAccess
  /-- ほかの page fault と例外。`kill` に進む。 -/
  | trap
deriving DecidableEq

open Procs in
/-- thread `t` の一歩。進めないときと、解放した memory に触るときは `none` である。 -/
def next (s : Procs) (t : Tid) (a : Act) : Option Procs :=
  let p := s.proc t
  match p.pc, a with
  -- `process_wait (TID_ERROR)` は `all_list` に無い番号なので、すぐに戻る
  | .main, .runTask false => some s
  | .main, .runTask true => s.create t .waitLookup
  | .main, .finish => some (s.setPc t .threadExit)
  -- `start_process`
  | .load, .load .loaded => some (s.setPc t .loadUp)
  | .load, .load .failed => some (s.setPc t .loadFailed)
  | .load, .load .overflow => some (s.setPc t .threadExit)
  | .loadFailed, .go => some (s.modify t fun p => { p with exitStatus := -1, pc := .loadFailedUp })
  | .loadFailedUp, .go =>
    some (s.modify t fun p =>
      { p with loadSema := p.loadSema + 1, pc := .exitEnter (-1) })
  | .loadUp, .go => some (s.modify t fun p => { p with loadSema := p.loadSema + 1, pc := .user })
  -- `exec`
  | .user, .exec false => if s.findChild (-1) p.childList = .dangling then none else some s
  | .user, .exec true => s.create t .execFind
  | .execFind c, .go =>
    match s.findChild c p.childList with
    | .child c => some (s.setPc t (.execDown c))
    | .absent => some (s.setPc t .user)
    | .dangling => none
  | .execDown c, .go =>
    if c ∈ s.allList ∧ 0 < (s.proc c).loadSema then
      some ((s.setPc t (.execRead c)).modify c fun q => { q with loadSema := q.loadSema - 1 })
    else none
  | .execRead c, .go => if c ∈ s.allList then some (s.setPc t .user) else none
  -- `wait`
  | .user, .wait tid =>
    match s.findChild tid p.childList with
    | .child c => if (s.proc c).parent = some t then some (s.setPc t (.waitSleep c)) else some s
    | .absent => some s
    | .dangling => none
  | .waitSleep c, .go => some (s.setPc t (.waitLookup c))
  -- `process_wait`
  | .waitLookup c, .go =>
    if c ∈ s.allList ∧ (s.proc c).parent = some t then some (s.setPc t (.waitDown c))
    else some (s.setPc t p.home)
  | .waitDown c, .go =>
    if c ∈ s.allList ∧ 0 < (s.proc c).exitSema then
      some ((s.setPc t (.waitReap c)).modify c fun q => { q with exitSema := q.exitSema - 1 })
    else none
  | .waitReap c, .go =>
    if c ∈ s.allList ∧ ∀ d ∈ neighbours p.childList c, d ∈ s.allList then
      some (s.modify t fun p =>
        { p with childList := p.childList.erase c, pc := .waitUp c (s.proc c).exitStatus })
    else none
  | .waitUp c _, .go =>
    if c ∈ s.allList then
      some ((s.modify c fun q => { q with waitSema := q.waitSema + 1 }).setPc t p.home)
    else none
  -- 利用者の code から kernel に入る
  | .user, .exit status => some (s.setPc t (.exitEnter status))
  | .user, .badAccess => some (s.setPc t (.exitEnter (-1)))
  | .user, .trap => some (s.setPc t .kill)
  -- `exit`
  | .exitEnter status, .go =>
    some (s.modify t fun p => { p with exitStatus := status, pc := .exitUp })
  | .exitUp, .go =>
    some (s.modify t fun p =>
      { p with
        exitSema := p.exitSema + 1
        pc := if p.parent ≠ none then .exitDown else .threadExit })
  | .exitDown, .go =>
    if 0 < p.waitSema then
      some (s.modify t fun p => { p with waitSema := p.waitSema - 1, pc := .threadExit })
    else none
  | .kill, .go => some (s.setPc t .threadExit)
  | .threadExit, .go => some (s.destroy t)
  | _, _ => none

/-- 一歩は、`thread_exit` していない thread だけが進める。 -/
def step (s : Procs) (e : Tid × Act) : Option Procs :=
  if e.1 ∈ s.allList then next s e.1 e.2 else none

/-- `thread_start` の後の状態。idle thread も `initial_thread` の子の列に入っている。 -/
def boot : Procs where
  proc t :=
    if t = 0 then { Proc.init none .main with childList := [1] }
    else if t = 1 then Proc.init (some 0) .idle
    else Proc.init none .idle
  allList := [0, 1]
  nextTid := 2

def processes : System Procs (Tid × Act) := System.ofFun (· = boot) step

/-! ## 観測 -/

/-- 一歩で起きたこと。 -/
inductive Obs
  | exitCall (t : Tid) (status : Int)
  | loadDone (t : Tid) (success : Bool)
  /-- `exec` が値を返した。`child` は作った thread である。 -/
  | execReturn (t : Tid) (child : Option Tid) (value : Int)
  /-- `wait` が値を返した。`handshake` は、子の終了を待って返ったことを表す。 -/
  | waitReturn (t : Tid) (tid : Int) (value : Int) (handshake : Bool)
deriving DecidableEq

def obs (s : Procs) (e : Tid × Act) : List Obs :=
  let t := e.1
  let p := s.proc t
  match p.pc, e.2 with
  | .load, .load .loaded => [.loadDone t true]
  | .load, .load .failed => [.loadDone t false]
  | .user, .exec false => [.execReturn t none (-1)]
  | .execFind c, .go =>
    match s.findChild c p.childList with
    | .absent => [.execReturn t (some c) (-1)]
    | _ => []
  | .execRead c, .go => [.execReturn t (some c) (if (s.proc c).exitStatus = -1 then -1 else c)]
  | .user, .wait tid =>
    match s.findChild tid p.childList with
    | .child c => if (s.proc c).parent = some t then [] else [.waitReturn t tid (-1) false]
    | _ => [.waitReturn t tid (-1) false]
  | .waitLookup c, .go =>
    if c ∈ s.allList ∧ (s.proc c).parent = some t then [] else [.waitReturn t c (-1) false]
  | .waitUp c status, .go => [.waitReturn t c status true]
  | .exitEnter status, .go => [.exitCall t status]
  | _, _ => []

end Pintos.Userprog
