import Pintos.Infra.Run
import Pintos.Threads.Interrupt

/-!
# scheduler の遷移系

`thread_init` と `thread_start` から始めて、thread の呼び出しと割り込みをどの順にでも並べた実行。

一歩は次の三つのどれかである。

* `call c` — `stack` が空の実行中の thread が、自分の code から `c` を呼ぶ
* `resume` — 実行中の thread が `stack` の先頭を取り出して実行する
* `interrupt h` — 割り込みが許可されているときに外部割り込みが入る

切り替えも割り込みも入らない区間が一歩になる。
`ASSERT` が偽になった実行はそこで止まり、次の状態を持たない。

semaphore と lock は呼ぶ側が持つ数だけあり、初期値は任意とする。
`lock_release` の検査に反しない限り、どの thread が何を呼ぶかに制限は無い。
`thread_unblock` を直に呼ぶのは、どの列にも入らずに自分で block した thread に対してだけとする。
-/

namespace Pintos

open Infra

/-! ## code の実行 -/

/-- 一区切りの code を実行する。 -/
def exec (c : Code) (k : Kernel) : Except Panic Kernel :=
  match c with
  | .intrDisable => .ok (intrDisable k)
  | .intrEnable => intrEnable k
  | .threadCreate page priority => threadCreate page priority k
  | .threadBlock => threadBlock (k.push [.blockReturn])
  | .threadUnblock t => threadUnblock t k
  | .threadYield => threadYield k
  | .threadExit => threadExit k
  | .threadSleep ticks => threadSleep ticks k
  | .threadSetPriority p => threadSetPriority p k
  | .threadSetNice n => threadSetNice n k
  | .semaDown s => semaDown s k
  | .semaTryDown s => semaTryDown s k
  | .semaUp s => semaUp s k
  | .lockAcquire l => lockAcquire l k
  | .lockTryAcquire l => lockTryAcquire l k
  | .lockRelease l => lockRelease l k
  | .intrSetLevel old => intrSetLevel old k
  | .iret => .ok { k with intrLevel := .on }
  | .blockReturn => .ok k
  | .sleepReturn old => intrSetLevel old k
  | .semaDownLoop s old => semaDownLoop s old k
  | .lockSetHolder l => .ok (lockSetHolder l k)
  | .allocateTid t => .ok (allocateTid t k)
  | .createUnblock t => threadUnblock t k
  | .createTest t => createTest t k
  | .kernelThread => intrEnable k
  | .idleStart => semaUp .idleStarted { k with idleThread := some k.cur }
  | .idleLoop => threadBlock (intrDisable (k.push [.idleHlt]))
  -- `sti; hlt`
  | .idleHlt => .ok { k with intrLevel := .on }
  | .startLoadAvg => .ok { k with loadAvg := fpConst 0 }

/-! ## 一歩 -/

/-- 割り込みの handler。 -/
inductive Handler
  | timer
  | semaUp (s : SemaId)
  | unblock (t : ThreadId)
  | other
deriving DecidableEq

def Handler.run (h : Handler) (k : Kernel) : Except Panic Kernel :=
  match h with
  | .timer => timerInterrupt k
  | .semaUp s => Pintos.semaUp s k
  | .unblock t => threadUnblock t k
  | .other => .ok k

inductive Event
  | call (c : Code)
  | resume
  | interrupt (h : Handler)
deriving DecidableEq

/-- どの列にも入らずに自分で block した thread。 -/
def Kernel.selfBlocked (k : Kernel) (t : ThreadId) : Bool :=
  (k.thread t).status = .blocked ∧ (k.thread t).stack.head? = some .blockReturn

/-- thread が自分の code から呼べるもの。 -/
def Code.isCall (k : Kernel) : Code → Bool
  | .intrDisable | .intrEnable | .threadCreate _ _ | .threadBlock | .threadYield
  | .threadExit | .threadSleep _ | .threadSetPriority _ | .threadSetNice _
  | .semaDown (.user _) | .semaTryDown (.user _) | .semaUp (.user _)
  | .lockAcquire (.user _) | .lockTryAcquire (.user _) | .lockRelease (.user _) => true
  | .threadUnblock t => k.selfBlocked t
  | _ => false

/-- 実行中の thread が次に呼びうるもの。idle thread の code は `idle` の loop だけである。 -/
def Code.callable (k : Kernel) (c : Code) : Bool :=
  if k.idleThread = some k.cur then c = .idleLoop else c.isCall k

/-- 入りうる割り込み。 -/
def Handler.possible (k : Kernel) : Handler → Bool
  | .semaUp (.user _) | .timer | .other => true
  | .semaUp _ => false
  | .unblock t => k.selfBlocked t

/-- `stack` の先頭を取り除く。 -/
@[simps! nextThread readyList sleepList allList sema holder cur idleThread intrLevel inExternalIntr
  schedulingMode threadPriorAging]
def Kernel.pop (k : Kernel) : Kernel :=
  k.modify k.cur fun th => { th with stack := th.stack.tail }

@[simp] theorem Kernel.pop_status (k : Kernel) (u : ThreadId) :
    (k.pop.thread u).status = (k.thread u).status :=
  modify_field Thread.status fun _ => rfl

@[simp] theorem Kernel.pop_priority (k : Kernel) (u : ThreadId) :
    (k.pop.thread u).priority = (k.thread u).priority :=
  modify_field Thread.priority fun _ => rfl

@[simp] theorem Kernel.pop_stack (k : Kernel) (u : ThreadId) :
    (k.pop.thread u).stack = if u = k.cur then (k.thread u).stack.tail else (k.thread u).stack := by
  unfold pop
  split
  · next h => subst h; rw [modify_thread_self]
  · next h => rw [modify_thread_of_ne h]

theorem Kernel.pop_curStack (k : Kernel) : k.pop.curThread.stack = k.curThread.stack.tail :=
  (k.pop_stack k.cur).trans (if_pos rfl)

/-- 一歩の結果。起こりえない一歩は `none` である。 -/
def next (k : Kernel) (e : Event) : Option (Except Panic Kernel) :=
  match e with
  | .call c => if k.curThread.stack = [] ∧ c.callable k then some (exec c k) else none
  | .resume =>
    match k.curThread.stack with
    | [] => none
    | c :: _ => some (exec c k.pop)
  | .interrupt h =>
    if k.intrLevel = .on ∧ h.possible k then some (intrHandler h.run k) else none

/-- `ASSERT` が偽にならない一歩。 -/
def step (k : Kernel) (e : Event) : Option Kernel :=
  match next k e with
  | some (.ok k') => some k'
  | _ => none

theorem step_cases {k k' : Kernel} {e : Event} (h : step k e = some k') :
    (∃ c, e = .call c ∧ k.curThread.stack = [] ∧ c.callable k = true ∧ exec c k = .ok k') ∨
    (∃ c cs, e = .resume ∧ k.curThread.stack = c :: cs ∧ exec c k.pop = .ok k') ∨
    (∃ hd, e = .interrupt hd ∧ k.intrLevel = .on ∧ hd.possible k = true ∧
      intrHandler hd.run k = .ok k') := by
  have hn : next k e = some (.ok k') := by
    unfold step at h
    split at h
    · next k₁ hk => rw [hk, Option.some.inj h]
    · cases h
  cases e with
  | call c =>
    simp only [next, Option.ite_none_right_eq_some, Option.some.injEq] at hn
    exact .inl ⟨c, rfl, hn.1.1, hn.1.2, hn.2⟩
  | resume =>
    cases hst : k.curThread.stack with
    | nil => simp [next, hst] at hn
    | cons c cs =>
      simp only [next, hst, Option.some.injEq] at hn
      exact .inr (.inl ⟨c, cs, rfl, rfl, hn⟩)
  | interrupt hd =>
    simp only [next, Option.ite_none_right_eq_some, Option.some.injEq] at hn
    exact .inr (.inr ⟨hd, rfl, hn.1.1, hn.1.2, hn.2⟩)

/-! ## 起動 -/

/-- まだ作られていない thread の記録。 -/
def noThread : Thread where
  tid := 0
  status := .dying
  priority := 0
  nice := 0
  recentCpu := 0
  wakeUpTime := 0
  stack := []

/-- `thread_init` が作る initial thread。 -/
def initialThread (mode : SchedulingMode) : Thread where
  tid := 1
  status := .running
  priority := match mode with
    | .priority => priDefault
    | .mlfqs => mlfqsPriority (fpConst 0) 0
  nice := 0
  recentCpu := 0
  wakeUpTime := 0
  stack := []

/-- `thread_init` の後の状態。`values` は呼ぶ側の semaphore の初期値である。 -/
def threadInit (mode : SchedulingMode) (aging : Bool) (values : Nat → BitVec 32) : Kernel where
  thread := Function.update (fun _ => noThread) 0 (initialThread mode)
  nextThread := 1
  readyList := []
  sleepList := []
  allList := [0]
  sema
    | .idleStarted => ⟨0, []⟩
    | .user n => ⟨(values n).toNat, []⟩
    | .lock _ => ⟨1, []⟩
  holder := fun _ => none
  cur := 0
  idleThread := none
  nextTid := 2
  loadAvg := 0
  threadTicks := 0
  ticks := 0
  threadPriorAging := aging
  schedulingMode := mode
  intrLevel := .off
  inExternalIntr := false
  yieldOnReturn := false

/-- `thread_start`。idle thread を作り、割り込みを許可して、idle thread が動き出すのを待つ。 -/
def threadStart (k : Kernel) : Except Panic Kernel :=
  threadCreateWith priMin [.kernelThread, .idleStart]
    (k.push [.intrEnable, .semaDown .idleStarted, .startLoadAvg])

/-- `thread_start` が始まったところ。 -/
def IsBoot (k : Kernel) : Prop :=
  ∃ mode aging values, threadStart (threadInit mode aging values) = .ok k

/-- 起動した状態を書き下したもの。 -/
def boot (mode : SchedulingMode) (aging : Bool) (values : Nat → BitVec 32) : Kernel :=
  ((threadInit mode aging values).push
    [.intrEnable, .semaDown .idleStarted, .startLoadAvg]).created priMin
      [.kernelThread, .idleStart]

theorem threadStart_threadInit (mode : SchedulingMode) (aging : Bool) (values : Nat → BitVec 32) :
    threadStart (threadInit mode aging values) = .ok (boot mode aging values) := by
  unfold threadStart threadCreateWith
  rw [if_pos (by decide)]
  rfl

theorem isBoot_iff {k : Kernel} : IsBoot k ↔ ∃ mode aging values, k = boot mode aging values := by
  unfold IsBoot
  simp only [threadStart_threadInit, Except.ok.injEq, eq_comm]

def scheduler : System Kernel Event := System.ofFun IsBoot step

theorem reachable_boot (mode : SchedulingMode) (aging : Bool) (values : Nat → BitVec 32) :
    Reachable scheduler (boot mode aging values) :=
  ReachableIf.init (isBoot_iff.mpr ⟨mode, aging, values, rfl⟩)

/-- `thread_start` を終えるまでの一歩の列。 -/
def startEvents : List Event := List.replicate 13 .resume

/-- MLFQS の `thread_start`。idle thread も初めは main と同じ priority なので、自分から止まる。 -/
def mlfqsStartEvents : List Event :=
  List.replicate 11 .resume ++ [.call .idleLoop, .resume, .resume]

/-- `thread_create` を呼んで、最後の検査まで終えるまでの一歩の列。 -/
def createEvents (priority : Int) : List Event :=
  .call (.threadCreate true priority) :: List.replicate 7 .resume

end Pintos
