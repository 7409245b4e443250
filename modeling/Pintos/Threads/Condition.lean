import Pintos.Infra.Int32
import Pintos.Infra.Run

/-!
# 条件変数（`threads/synch.c`）

一つの lock と一つの条件変数を使う、任意の数の thread。

## 一歩

割り込みが入りうる所で code を区切り、区切りの間を一歩とする。
どの thread が次に進むかは任意なので、timer による切り替えも、
`sema_up` の中の `test_max_priority` による切り替えも含む。

* `sema_down` と `sema_up` の中は割り込みを禁じているので、block するまで、または終わるまでが一歩である
* `lock_acquire` の holder の書き込みは `sema_down` の後の別の一歩である
* `lock_release` は holder を消した所と `sema_up` の間で区切れる
* `cond->waiters` の検査、取り出し、追加もそれぞれ一歩である

`sema_up` が起こすのは `waiters` のどれでもよいとする。

## waiter

`cond_wait` の `struct semaphore_elem waiter` は呼んだ thread の stack にあり、
一つの thread が同時に二つ持つことはないので、thread の番号で指す。
`sema_init` までの中身は任意である。
-/

namespace Pintos.Condition

open Infra

abbrev Tid := Nat

/-- `struct semaphore`。 -/
structure Sema where
  value : Nat
  waiters : List Tid

/-- thread が次に実行する所。引数 `cw` は `cond_wait` の中から、`bc` は `cond_broadcast` の中からの呼び出しを表す。 -/
inductive Pc
  /-- `synch.c` の外。 -/
  | idle
  /-- `sema_down (&lock->semaphore)` の while。 -/
  | lockDown (cw : Bool)
  /-- `lock->semaphore` の `waiters` で block している。 -/
  | lockBlocked (cw : Bool)
  /-- `lock->holder = thread_current ()`。 -/
  | lockSetHolder (cw : Bool)
  /-- `sema_up (&lock->semaphore)`。 -/
  | lockUp (cw : Bool)
  /-- `sema_init (&waiter.semaphore, 0)`。 -/
  | waitInit
  /-- `list_push_back (&cond->waiters, &waiter.elem)`。 -/
  | waitPush
  /-- `cond_wait` の `lock_release (lock)`。 -/
  | waitRelease
  /-- `sema_down (&waiter.semaphore)` の while。 -/
  | waitDown
  /-- `waiter.semaphore` で block している。 -/
  | waitBlocked
  /-- `cond_wait` の `lock_acquire (lock)`。 -/
  | waitAcquire
  /-- `cond_signal` の `list_empty (&cond->waiters)`。 -/
  | signalTest (bc : Bool)
  /-- `list_pop_front (&cond->waiters)`。 -/
  | signalPop (bc : Bool)
  /-- 取り出した waiter の `sema_up`。 -/
  | signalUp (bc : Bool) (w : Tid)
  /-- `cond_broadcast` の while の条件。 -/
  | broadcastTest
deriving DecidableEq

structure CondState where
  lockSema : Sema
  holder : Option Tid
  /-- `cond->waiters`。 -/
  waiters : List Tid
  /-- 各 thread の `waiter.semaphore`。 -/
  sema : Tid → Sema
  pc : Tid → Pc

/-- 偽になった `ASSERT`。 -/
inductive CondPanic
  | lockAcquireHeld
  | lockTryAcquireHeld
  | lockReleaseHeld
  | condWaitHeld
  | condSignalHeld
  | listPopEmpty
  | threadUnblockStatus
deriving DecidableEq

/-! ## semaphore -/

namespace Sema

/-- `sema->value--`。 -/
@[simps] def dec (m : Sema) : Sema := { m with value := m.value - 1 }

/-- `waiters` に入る。 -/
@[simps] def enqueue (t : Tid) (m : Sema) : Sema := { m with waiters := t :: m.waiters }

/-- `sema_up` が起こしうる thread。 -/
def canWake (w : Option Tid) (m : Sema) : Bool :=
  match w with
  | none => m.waiters = []
  | some u => decide (u ∈ m.waiters)

/-- `waiters` から `w` を外し、値を上げる。 -/
@[simps] def up (w : Option Tid) (m : Sema) : Sema where
  value := (m.value + 1) % 2 ^ 32
  waiters := match w with
    | none => m.waiters
    | some u => m.waiters.erase u

end Sema

namespace CondState

@[simps] def setPc (t : Tid) (p : Pc) (s : CondState) : CondState :=
  { s with pc := Function.update s.pc t p }

@[simps] def setSema (t : Tid) (m : Sema) (s : CondState) : CondState :=
  { s with sema := Function.update s.sema t m }

/-- `thread_unblock`。起きた thread は `sema_down` の while に戻る。 -/
def threadUnblock (u : Tid) (s : CondState) : Except CondPanic CondState :=
  match s.pc u with
  | .lockBlocked cw => .ok (s.setPc u (.lockDown cw))
  | .waitBlocked => .ok (s.setPc u .waitDown)
  | _ => .error .threadUnblockStatus

def wake (w : Option Tid) (s : CondState) : Except CondPanic CondState :=
  match w with
  | none => .ok s
  | some u => s.threadUnblock u

/-! ## lock -/

def lockAcquire (cw : Bool) (t : Tid) (s : CondState) : Except CondPanic CondState :=
  if s.holder = some t then .error .lockAcquireHeld else .ok (s.setPc t (.lockDown cw))

def lockTryAcquire (t : Tid) (s : CondState) : Except CondPanic CondState :=
  if s.holder = some t then .error .lockTryAcquireHeld
  else if s.lockSema.value > 0 then
    .ok ({ s with lockSema := s.lockSema.dec }.setPc t (.lockSetHolder false))
  else .ok s

/-- `sema_down (&lock->semaphore)` の while の一周。 -/
def lockDown (cw : Bool) (t : Tid) (s : CondState) : CondState :=
  if s.lockSema.value = 0 then
    { s with lockSema := s.lockSema.enqueue t }.setPc t (.lockBlocked cw)
  else { s with lockSema := s.lockSema.dec }.setPc t (.lockSetHolder cw)

def lockRelease (cw : Bool) (t : Tid) (s : CondState) : Except CondPanic CondState :=
  if s.holder = some t then .ok ({ s with holder := none }.setPc t (.lockUp cw))
  else .error .lockReleaseHeld

/-- `lock_release` の後に戻る所。 -/
def afterUp (cw : Bool) : Pc := if cw then .waitDown else .idle

/-! ## 条件変数 -/

def condWait (t : Tid) (s : CondState) : Except CondPanic CondState :=
  if s.holder = some t then .ok (s.setPc t .waitInit) else .error .condWaitHeld

/-- `sema_down (&waiter.semaphore)` の while の一周。 -/
def waitDown (t : Tid) (s : CondState) : CondState :=
  if (s.sema t).value = 0 then
    (s.setSema t ((s.sema t).enqueue t)).setPc t .waitBlocked
  else (s.setSema t (s.sema t).dec).setPc t .waitAcquire

def condSignal (bc : Bool) (t : Tid) (s : CondState) : Except CondPanic CondState :=
  if s.holder = some t then .ok (s.setPc t (.signalTest bc)) else .error .condSignalHeld

/-- `cond_signal` の後に戻る所。 -/
def afterSignal (bc : Bool) : Pc := if bc then .broadcastTest else .idle

def signalTest (bc : Bool) (t : Tid) (s : CondState) : CondState :=
  if s.waiters = [] then s.setPc t (afterSignal bc) else s.setPc t (.signalPop bc)

def signalPop (bc : Bool) (t : Tid) (s : CondState) : Except CondPanic CondState :=
  match s.waiters with
  | [] => .error .listPopEmpty
  | w :: ws => .ok ({ s with waiters := ws }.setPc t (.signalUp bc w))

/-- `cond_broadcast` の while。 -/
def broadcastTest (t : Tid) (s : CondState) : Except CondPanic CondState :=
  if s.waiters = [] then .ok (s.setPc t .idle) else s.condSignal true t

end CondState

/-! ## 一歩 -/

inductive CondOp
  | acquire
  | tryAcquire
  | release
  | wait
  | signal
  | broadcast
deriving DecidableEq

inductive CondEvent
  /-- `synch.c` の外にいる thread `t` が呼ぶ。 -/
  | call (t : Tid) (op : CondOp)
  /-- thread `t` が進む。`w` は `sema_up` が起こす thread である。 -/
  | run (t : Tid) (w : Option Tid)
deriving DecidableEq

namespace CondState

def call (op : CondOp) (t : Tid) (s : CondState) : Except CondPanic CondState :=
  match op with
  | .acquire => s.lockAcquire false t
  | .tryAcquire => s.lockTryAcquire t
  | .release => s.lockRelease false t
  | .wait => s.condWait t
  | .signal => s.condSignal false t
  | .broadcast => .ok (s.setPc t .broadcastTest)

/-- thread `t` が次の区切りまで進む。block している thread は進めない。 -/
def run (w : Option Tid) (t : Tid) (s : CondState) : Option (Except CondPanic CondState) :=
  match s.pc t with
  | .idle | .lockBlocked _ | .waitBlocked => none
  | .lockDown cw => some (.ok (s.lockDown cw t))
  | .lockSetHolder _ => some (.ok ({ s with holder := some t }.setPc t .idle))
  | .lockUp cw =>
    if s.lockSema.canWake w then
      some (({ s with lockSema := s.lockSema.up w }.setPc t (afterUp cw)).wake w)
    else none
  | .waitInit => some (.ok ((s.setSema t ⟨0, []⟩).setPc t .waitPush))
  | .waitPush => some (.ok ({ s with waiters := s.waiters ++ [t] }.setPc t .waitRelease))
  | .waitRelease => some (s.lockRelease true t)
  | .waitDown => some (.ok (s.waitDown t))
  | .waitAcquire => some (s.lockAcquire true t)
  | .signalTest bc => some (.ok (s.signalTest bc t))
  | .signalPop bc => some (s.signalPop bc t)
  | .signalUp bc u =>
    if (s.sema u).canWake w then
      some (((s.setSema u ((s.sema u).up w)).setPc t (afterSignal bc)).wake w)
    else none
  | .broadcastTest => some (s.broadcastTest t)

def next (s : CondState) (e : CondEvent) : Option (Except CondPanic CondState) :=
  match e with
  | .call t op => if s.pc t = .idle then some (s.call op t) else none
  | .run t w => s.run w t

def step (s : CondState) (e : CondEvent) : Option CondState :=
  match s.next e with
  | some (.ok s') => some s'
  | _ => none

/-- **文書にある約束。** `cond_wait`、`cond_signal`、`cond_broadcast` は lock を持って呼ぶ。 -/
def disciplined (s : CondState) (e : CondEvent) : Bool :=
  match e with
  | .call t .wait | .call t .signal | .call t .broadcast => s.holder = some t
  | _ => true

/-- 約束を守る一歩。 -/
def disciplinedStep : CondState → CondEvent → Option CondState :=
  guarded (fun s e => s.disciplined e = true) step

/-- `lock_init` と `cond_init` の後。 -/
def init (sema : Tid → Sema) : CondState where
  lockSema := ⟨1, []⟩
  holder := none
  waiters := []
  sema := sema
  pc := fun _ => .idle

end CondState

/-- 約束を守る thread の任意の交錯。 -/
def condSystem : System CondState CondEvent :=
  System.ofFun (fun s => ∃ sema, s = CondState.init sema) CondState.disciplinedStep

/-! ## 観測 -/

inductive CondObs
  /-- `t` が `cond_wait` を呼んだ。 -/
  | waited (t : Tid)
  /-- `t` が、`cond->waiters` が `ws` のときに `cond_signal` か `cond_broadcast` を呼んだ。 -/
  | called (t : Tid) (ws : List Tid)
  /-- `t` が `w` の semaphore を上げた。 -/
  | released (t w : Tid)
  /-- `t` の `cond_signal` が終わった。 -/
  | signalled (t : Tid)
  /-- `t` の `cond_broadcast` が終わった。 -/
  | broadcasted (t : Tid)
  /-- `t` の `cond_wait` が終わった。 -/
  | returned (t : Tid)
deriving DecidableEq

def CondState.obs (s : CondState) (e : CondEvent) : List CondObs :=
  match e with
  | .call t .wait => [.waited t]
  | .call t .signal | .call t .broadcast => [.called t s.waiters]
  | .call _ _ => []
  | .run t _ =>
    match s.pc t with
    | .signalTest false => if s.waiters = [] then [.signalled t] else []
    | .signalUp false w => [.released t w, .signalled t]
    | .signalUp true w => [.released t w]
    | .broadcastTest => if s.waiters = [] then [.broadcasted t] else []
    | .lockSetHolder true => [.returned t]
    | _ => []

end Pintos.Condition
