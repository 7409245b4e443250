import Mathlib.Data.List.Basic
import Pintos.Infra.Run

/-!
# 割り込み queue（`devices/intq.c`）

kernel thread と割り込み handler が共有する円環 buffer と、その monitor。

## 一区切り

`intq_getc` と `intq_putc` は割り込みを禁じて呼ばれる。
途中で別の thread や割り込みが入りうるのは、次の三か所だけである。

* `lock_acquire` の `sema_down` で block している間
* `wait` の `thread_block` で block している間
* `lock_release` の `sema_up` が `test_max_priority` で譲った間

そこで、これらの間を一歩とし、どの thread がいつ選ばれるかは任意とする。
`sema_up` が起こす thread と、譲るかどうかも任意である。

割り込みの level の検査は、どの一歩でも割り込みが禁じられているので通る。
-/

namespace Pintos.Devices

open Infra

/-! ## 円環 buffer -/

def intqBufsize : Nat := 64

/-- `struct intq` の buffer。配列の外の添字は使わない（`take` と `put` の検査）。 -/
structure Intq where
  buf : Nat → UInt8
  head : Nat
  tail : Nat

namespace Intq

/-- `intq_init` の後の buffer。中身は何でもよい。 -/
def init (buf : Nat → UInt8) : Intq := ⟨buf, 0, 0⟩

def next (pos : Nat) : Nat := (pos + 1) % intqBufsize

def empty (q : Intq) : Bool := q.head = q.tail

def full (q : Intq) : Bool := next q.head = q.tail

/-- `byte = q->buf[q->tail]; q->tail = next (q->tail);` -/
def take (q : Intq) : Option (UInt8 × Intq) :=
  if q.tail < intqBufsize then some (q.buf q.tail, { q with tail := next q.tail }) else none

/-- `q->buf[q->head] = byte; q->head = next (q->head);` -/
def put (byte : UInt8) (q : Intq) : Option Intq :=
  if q.head < intqBufsize then
    some { q with buf := Function.update q.buf q.head byte, head := next q.head }
  else none

/-- 待たずに終わる `intq_getc`。空なら `none`。 -/
def getc (q : Intq) : Option (UInt8 × Intq) := if q.empty then none else q.take

/-- 待たずに終わる `intq_putc`。満杯なら `none`。 -/
def putc (byte : UInt8) (q : Intq) : Option Intq := if q.full then none else q.put byte

end Intq

inductive Op
  | getc
  | putc (byte : UInt8)
deriving DecidableEq

/-- 終わった `intq_getc` か `intq_putc` の一回。 -/
def Intq.step (q : Intq) (o : Op) : Option Intq :=
  match o with
  | .getc => q.getc.map (·.2)
  | .putc byte => q.putc byte

/-- buffer に入った byte と、出た byte。 -/
inductive Moved
  | inserted (byte : UInt8)
  | removed (byte : UInt8)
deriving DecidableEq

def Intq.moved (q : Intq) (o : Op) : List Moved :=
  match o with
  | .getc => (q.getc.map fun r => Moved.removed r.1).toList
  | .putc byte => [.inserted byte]

def inserted (tr : List Moved) : List UInt8 :=
  tr.filterMap fun
    | .inserted byte => some byte
    | .removed _ => none

def removed (tr : List Moved) : List UInt8 :=
  tr.filterMap fun
    | .inserted _ => none
    | .removed byte => some byte

/-- `intq_init` から始めて、`intq_getc` と `intq_putc` が任意の順に終わる。 -/
def intqQueue : System Intq Op := System.ofFun (fun q => ∃ buf, q = Intq.init buf) Intq.step

/-! ## monitor -/

abbrev Tid := Nat

/-- `while` の条件。`getc` は空の間、`putc` は満杯の間待つ。 -/
def Op.mustWait (o : Op) (q : Intq) : Bool :=
  match o with
  | .getc => q.empty
  | .putc _ => q.full

inductive Pc
  /-- `intq` の中で止まっていない。走っているか、`intq` の外にいる。 -/
  | running
  /-- `lock_release` で譲った後。次は `while` の条件である。 -/
  | test (o : Op)
  /-- `q->lock` の `waiters` で block している。 -/
  | lockWait (o : Op)
  /-- 起こされて、`sema_down` の `while` に戻るところ。 -/
  | lockRetry (o : Op)
  /-- `wait` の `thread_block` で block している。 -/
  | waiting (o : Op)
  /-- 起こされて、`wait` から戻るところ。 -/
  | woken (o : Op)
deriving DecidableEq

/-- `struct intq` と、それを使う thread の位置。 -/
structure Monitor where
  q : Intq
  notFull : Option Tid
  notEmpty : Option Tid
  lockValue : Nat
  lockHolder : Option Tid
  lockWaiters : List Tid
  pc : Tid → Pc

/-- 偽になった `ASSERT` と、配列の外の参照。 -/
inductive IntqPanic
  | waitCondition
  | signalCondition
  | lockAcquireHeld
  | lockReleaseHeld
  | threadUnblockStatus
  | outOfBounds
deriving DecidableEq

namespace Monitor

@[simps] def setPc (m : Monitor) (t : Tid) (p : Pc) : Monitor :=
  { m with pc := Function.update m.pc t p }

def threadUnblock (t : Tid) (m : Monitor) : Except IntqPanic Monitor :=
  match m.pc t with
  | .lockWait o => .ok (m.setPc t (.lockRetry o))
  | .waiting o => .ok (m.setPc t (.woken o))
  | _ => .error .threadUnblockStatus

/-- `signal (q, &q->not_full)`。 -/
def signalNotFull (m : Monitor) : Except IntqPanic Monitor :=
  if m.q.full then .error .signalCondition
  else
    match m.notFull with
    | none => .ok m
    | some t => (m.threadUnblock t).map fun m' => { m' with notFull := none }

/-- `signal (q, &q->not_empty)`。 -/
def signalNotEmpty (m : Monitor) : Except IntqPanic Monitor :=
  if m.q.empty then .error .signalCondition
  else
    match m.notEmpty with
    | none => .ok m
    | some t => (m.threadUnblock t).map fun m' => { m' with notEmpty := none }

/-- `while` を抜けた後。 -/
def finish (o : Op) (m : Monitor) : Except IntqPanic Monitor :=
  match o with
  | .getc =>
    match m.q.take with
    | none => .error .outOfBounds
    | some (_, q) => { m with q := q }.signalNotFull
  | .putc byte =>
    match m.q.put byte with
    | none => .error .outOfBounds
    | some q => { m with q := q }.signalNotEmpty

/-- `*waiter = thread_current ()`。 -/
def setWaiter (o : Op) (t : Tid) (m : Monitor) : Monitor :=
  match o with
  | .getc => { m with notEmpty := some t }
  | .putc _ => { m with notFull := some t }

/-- `wait`。待つ条件がまだ成り立つことを確かめて block する。 -/
def wait (o : Op) (t : Tid) (m : Monitor) : Except IntqPanic Monitor :=
  if o.mustWait m.q then .ok ((m.setWaiter o t).setPc t (.waiting o))
  else .error .waitCondition

/-- `lock_acquire` の `sema_down` の while から `wait` まで。 -/
def acquire (o : Op) (t : Tid) (m : Monitor) : Except IntqPanic Monitor :=
  if m.lockValue = 0 then
    .ok ({ m with lockWaiters := t :: m.lockWaiters }.setPc t (.lockWait o))
  else { m with lockValue := m.lockValue - 1, lockHolder := some t }.wait o t

/-- `while` の条件から、終わるか block するまで。 -/
def loop (o : Op) (t : Tid) (m : Monitor) : Except IntqPanic Monitor :=
  if o.mustWait m.q then
    if m.lockHolder = some t then .error .lockAcquireHeld else m.acquire o t
  else m.finish o

/-- `sema->value++`。 -/
def raiseValue (m : Monitor) : Monitor := { m with lockValue := m.lockValue + 1 }

/--
`sema_up` が `waiters` の `w` を起こして値を上げる。
`w` が `none` なのは誰も待っていないときである。
-/
def semaUp (w : Option Tid) (m : Monitor) : Except IntqPanic Monitor :=
  match w with
  | none => .ok m.raiseValue
  | some u => ({ m with lockWaiters := m.lockWaiters.erase u }.threadUnblock u).map raiseValue

/-- `wait` から戻って `lock_release` を呼ぶ。譲らなければ、そのまま `while` の条件に進む。 -/
def release (w : Option Tid) (yield : Bool) (o : Op) (t : Tid) (m : Monitor) :
    Except IntqPanic Monitor :=
  if m.lockHolder = some t then
    ({ m with lockHolder := none }.semaUp w).bind fun m =>
      if yield then .ok (m.setPc t (.test o)) else m.loop o t
  else .error .lockReleaseHeld

end Monitor

/-! ## 一歩 -/

inductive IntqEvent
  /-- thread `t` が `intq_getc` か `intq_putc` を呼ぶ。 -/
  | call (t : Tid) (o : Op)
  /-- 譲った後か、lock で起こされた thread `t` が続ける。 -/
  | run (t : Tid)
  /-- `wait` で起こされた thread `t` が続ける。 -/
  | resume (t : Tid) (w : Option Tid) (yield : Bool)
  /-- 割り込み handler は、満杯でないときだけ入れ、空でないときだけ取り出す。 -/
  | interrupt (o : Op)
deriving DecidableEq

/-- `sema_up` が起こしうる thread。 -/
def Monitor.canWake (m : Monitor) (w : Option Tid) : Bool :=
  match w with
  | none => m.lockWaiters = []
  | some u => decide (u ∈ m.lockWaiters)

/-- 一歩の結果。起こりえない一歩は `none` である。 -/
def Monitor.next (m : Monitor) (e : IntqEvent) : Option (Except IntqPanic Monitor) :=
  match e with
  | .call t o => if m.pc t = .running then some (m.loop o t) else none
  | .run t =>
    match m.pc t with
    | .test o => some ((m.setPc t .running).loop o t)
    | .lockRetry o => some ((m.setPc t .running).acquire o t)
    | _ => none
  | .resume t w yield =>
    match m.pc t with
    | .woken o => if m.canWake w then some ((m.setPc t .running).release w yield o t) else none
    | _ => none
  | .interrupt o => if o.mustWait m.q then none else some (m.finish o)

def Monitor.step (m : Monitor) (e : IntqEvent) : Option Monitor :=
  match m.next e with
  | some (.ok m') => some m'
  | _ => none

/-- `intq_init` の後、まだ誰も呼んでいない。 -/
def Monitor.init (buf : Nat → UInt8) : Monitor where
  q := Intq.init buf
  notFull := none
  notEmpty := none
  lockValue := 1
  lockHolder := none
  lockWaiters := []
  pc := fun _ => .running

/-- 任意の数の thread と割り込み handler が、一つの `intq` を使う。 -/
def intqMonitor : System Monitor IntqEvent :=
  System.ofFun (fun m => ∃ buf, m = Monitor.init buf) Monitor.step

end Pintos.Devices
