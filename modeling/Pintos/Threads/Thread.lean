import Pintos.Lib.List
import Pintos.Threads.FixedPoint

/-!
# thread（`threads/thread.h` と `threads/thread.c`）

scheduler の状態と、`thread.c` の関数。関数はすべて `Kernel → Except Panic Kernel` で、
`ASSERT` が偽なら `Panic` を返す。

## context switch の書き方

`schedule` は制御を別の thread に移すので、呼んだ関数の残りは、
その thread が次に選ばれたときに実行される。
そこで thread ごとに「まだ実行していない kernel の code」の列 `stack` を持たせる。
C の kernel stack のうち、切り替えをまたいで残る部分だけを表したものである。

* 切り替える前に、残りの code（たとえば `intr_set_level (old_level)`）を `stack` に積む
* 選ばれた thread は `stack` の先頭から実行を続ける
* `stack` が空の thread は自分の code を実行していて、次に何を呼んでもよい

## 省いたもの

名前、`magic`、統計（`idle_ticks` など）、page の中身はどの関数の判断にも使われないので持たない。
thread は page の番地でなく番号で区別し、番号は使い回さない。
-/

namespace Pintos

open Infra

/-! ## データ -/

/-- `struct thread *`。0 が initial thread である。 -/
abbrev ThreadId := Nat

/-- `PRI_MIN`、`PRI_DEFAULT`、`PRI_MAX`。 -/
def priMin : Int := 0
def priDefault : Int := 31
def priMax : Int := 63

def timeSlice : Nat := 4

def timerFreq : Int := 100

/-- `enum thread_status`。 -/
inductive ThreadStatus
  | running
  | ready
  | blocked
  | dying
deriving DecidableEq

/-- `scheduling_mode_t`。 -/
inductive SchedulingMode
  | priority
  | mlfqs
deriving DecidableEq

/-- `enum intr_level`。 -/
inductive IntrLevel
  | off
  | on
deriving DecidableEq

/-- lock。`tid` は `allocate_tid` が使う `tid_lock` である。 -/
inductive LockId
  | tid
  | user (n : Nat)
deriving DecidableEq

/-- semaphore。`idleStarted` は `thread_start` の局所変数、`lock` は lock の中の semaphore である。 -/
inductive SemaId
  | idleStarted
  | user (n : Nat)
  | lock (l : LockId)
deriving DecidableEq

/--
kernel の code の一区切り。

前半は thread が自分の code から呼べる関数、
後半は関数の途中（切り替えや割り込みをまたぐ所）から先の残りである。
-/
inductive Code
  | intrDisable
  | intrEnable
  | threadCreate (page : Bool) (priority : Int)
  | threadBlock
  | threadUnblock (t : ThreadId)
  | threadYield
  | threadExit
  | threadSleep (ticks : Int)
  | threadSetPriority (newPriority : Int)
  | threadSetNice (nice : Int)
  | semaDown (s : SemaId)
  | semaTryDown (s : SemaId)
  | semaUp (s : SemaId)
  | lockAcquire (l : LockId)
  | lockTryAcquire (l : LockId)
  | lockRelease (l : LockId)
  -- `schedule` から戻った後の `intr_set_level (old_level)`
  | intrSetLevel (old : IntrLevel)
  -- 割り込みからの復帰
  | iret
  -- `thread_block` を直に呼んだ code への復帰
  | blockReturn
  -- `thread_sleep` の `thread_block` から後ろ
  | sleepReturn (old : IntrLevel)
  -- `sema_down` の while の先頭から後ろ
  | semaDownLoop (s : SemaId) (old : IntrLevel)
  -- `lock->holder = thread_current ()`
  | lockSetHolder (l : LockId)
  -- `thread_create` の続き
  | allocateTid (t : ThreadId)
  | createUnblock (t : ThreadId)
  | createTest (t : ThreadId)
  -- `kernel_thread` の `intr_enable ()`
  | kernelThread
  -- `idle` の先頭、loop の一周、その `thread_block` から後ろ
  | idleStart
  | idleLoop
  | idleHlt
  -- `thread_start` の `load_avg = FP_CONST (0)`
  | startLoadAvg
deriving DecidableEq

structure Thread where
  tid : Int
  status : ThreadStatus
  priority : Int
  nice : Int
  recentCpu : Int
  wakeUpTime : Int
  stack : List Code

structure Semaphore where
  value : Nat
  waiters : List ThreadId

/-- scheduler の大域変数と CPU の状態。 -/
structure Kernel where
  thread : ThreadId → Thread
  -- 次に割り当てる page の番号
  nextThread : ThreadId
  readyList : List ThreadId
  sleepList : List ThreadId
  allList : List ThreadId
  sema : SemaId → Semaphore
  holder : LockId → Option ThreadId
  -- `running_thread ()`
  cur : ThreadId
  idleThread : Option ThreadId
  nextTid : Int
  loadAvg : Int
  threadTicks : Nat
  ticks : Int
  threadPriorAging : Bool
  schedulingMode : SchedulingMode
  intrLevel : IntrLevel
  inExternalIntr : Bool
  yieldOnReturn : Bool

/-- 偽になった `ASSERT`。どの関数のどの検査かを名前で表す。 -/
inductive Panic
  | threadCurrentStatus
  | threadBlockContext
  | threadBlockLevel
  | threadUnblockStatus
  | threadExitContext
  | threadYieldContext
  | threadSleepContext
  | threadSleepLevel
  | initThreadPriority
  | scheduleLevel
  | scheduleStatus
  | scheduleNext
  | intrEnableContext
  | intrYieldOnReturnContext
  | intrHandlerLevel
  | intrHandlerContext
  | semaDownContext
  | lockAcquireContext
  | lockAcquireHeld
  | lockTryAcquireHeld
  | lockReleaseHeld
  | ideNotReached
deriving DecidableEq

/-! ## 状態の書き換え -/

namespace Kernel

/-- thread `t` の記録を書き換える。 -/
@[simps nextThread readyList sleepList allList sema holder cur idleThread intrLevel inExternalIntr
  schedulingMode threadPriorAging]
def modify (k : Kernel) (t : ThreadId) (f : Thread → Thread) : Kernel :=
  { k with thread := Function.update k.thread t (f (k.thread t)) }

@[simps! nextThread readyList sleepList allList sema holder cur idleThread intrLevel inExternalIntr
  schedulingMode threadPriorAging]
def setStatus (k : Kernel) (t : ThreadId) (st : ThreadStatus) : Kernel :=
  k.modify t fun th => { th with status := st }

/-- 実行中の thread の残りの code に `cs` を積む。 -/
@[simps! nextThread readyList sleepList allList sema holder cur idleThread intrLevel inExternalIntr
  schedulingMode threadPriorAging]
def push (k : Kernel) (cs : List Code) : Kernel :=
  k.modify k.cur fun th => { th with stack := cs ++ th.stack }

theorem modify_thread_self (k : Kernel) (t : ThreadId) (f : Thread → Thread) :
    (k.modify t f).thread t = f (k.thread t) := Function.update_self ..

theorem modify_thread_of_ne {k : Kernel} {t u : ThreadId} {f : Thread → Thread} (h : u ≠ t) :
    (k.modify t f).thread u = k.thread u := Function.update_of_ne h ..

theorem modify_field {β : Type} {k : Kernel} {t u : ThreadId} {f : Thread → Thread}
    (g : Thread → β) (h : ∀ th, g (f th) = g th) :
    g ((k.modify t f).thread u) = g (k.thread u) := by
  by_cases hu : u = t
  · subst hu; rw [modify_thread_self, h]
  · rw [modify_thread_of_ne hu]

@[simp] theorem setStatus_status (k : Kernel) (t u : ThreadId) (st : ThreadStatus) :
    ((k.setStatus t st).thread u).status = if u = t then st else (k.thread u).status := by
  unfold setStatus
  split
  · next h => subst h; rw [modify_thread_self]
  · next h => rw [modify_thread_of_ne h]

@[simp] theorem setStatus_stack (k : Kernel) (t u : ThreadId) (st : ThreadStatus) :
    ((k.setStatus t st).thread u).stack = (k.thread u).stack :=
  modify_field Thread.stack fun _ => rfl

@[simp] theorem setStatus_priority (k : Kernel) (t u : ThreadId) (st : ThreadStatus) :
    ((k.setStatus t st).thread u).priority = (k.thread u).priority :=
  modify_field Thread.priority fun _ => rfl

@[simp] theorem push_status (k : Kernel) (cs : List Code) (u : ThreadId) :
    ((k.push cs).thread u).status = (k.thread u).status :=
  modify_field Thread.status fun _ => rfl

@[simp] theorem push_stack (k : Kernel) (cs : List Code) (u : ThreadId) :
    ((k.push cs).thread u).stack =
      if u = k.cur then cs ++ (k.thread u).stack else (k.thread u).stack := by
  unfold push
  split
  · next h => subst h; rw [modify_thread_self]
  · next h => rw [modify_thread_of_ne h]

@[simp] theorem push_priority (k : Kernel) (cs : List Code) (u : ThreadId) :
    ((k.push cs).thread u).priority = (k.thread u).priority :=
  modify_field Thread.priority fun _ => rfl

/-- `thread_current ()` が見る記録。 -/
def curThread (k : Kernel) : Thread := k.thread k.cur

theorem push_curStack (k : Kernel) (cs : List Code) :
    (k.push cs).curThread.stack = cs ++ k.curThread.stack :=
  (push_stack k cs k.cur).trans (if_pos rfl)

def cmpPriority (k : Kernel) (a b : ThreadId) : Bool :=
  decide ((k.thread a).priority > (k.thread b).priority)

def cmpWakeUpTime (k : Kernel) (a b : ThreadId) : Bool :=
  decide ((k.thread a).wakeUpTime < (k.thread b).wakeUpTime)

end Kernel

/-! ## 割り込みの許可（`threads/interrupt.c`） -/

def intrDisable (k : Kernel) : Kernel := { k with intrLevel := .off }

def intrEnable (k : Kernel) : Except Panic Kernel :=
  if k.inExternalIntr then .error .intrEnableContext else .ok { k with intrLevel := .on }

def intrSetLevel (level : IntrLevel) (k : Kernel) : Except Panic Kernel :=
  match level with
  | .on => intrEnable k
  | .off => .ok (intrDisable k)

def intrYieldOnReturn (k : Kernel) : Except Panic Kernel :=
  if k.inExternalIntr then .ok { k with yieldOnReturn := true }
  else .error .intrYieldOnReturnContext

/-! ## 切り替え -/

/-- `next_thread_to_run`。`ready_list` が空なら `idle_thread` を返す。 -/
def nextThreadToRun (k : Kernel) : Option ThreadId × Kernel :=
  match k.readyList with
  | [] => (k.idleThread, k)
  | t :: ts => (some t, { k with readyList := ts })

/--
`thread_schedule_tail`。新しい time slice を始める。

死んだ thread の page の解放は状態に残らない。番号を使い回さないからである。
-/
def threadScheduleTail (k : Kernel) : Kernel :=
  { k.setStatus k.cur .running with threadTicks := 0 }

def schedule (k : Kernel) : Except Panic Kernel :=
  if k.intrLevel ≠ .off then .error .scheduleLevel
  else if k.curThread.status = .running then .error .scheduleStatus
  else
    match nextThreadToRun k with
    | (none, _) => .error .scheduleNext
    | (some next, k') => .ok (threadScheduleTail { k' with cur := next })

def threadBlock (k : Kernel) : Except Panic Kernel :=
  if k.inExternalIntr then .error .threadBlockContext
  else if k.intrLevel ≠ .off then .error .threadBlockLevel
  else if k.curThread.status ≠ .running then .error .threadCurrentStatus
  else schedule (k.setStatus k.cur .blocked)

/-- `thread_unblock`。割り込みは入る前の level に戻すので、残る変化は列と status だけである。 -/
def threadUnblock (t : ThreadId) (k : Kernel) : Except Panic Kernel :=
  if (k.thread t).status ≠ .blocked then .error .threadUnblockStatus
  else
    .ok { k.setStatus t .ready with
      readyList := listInsertOrdered k.cmpPriority t k.readyList }

def threadYield (k : Kernel) : Except Panic Kernel :=
  if k.curThread.status ≠ .running then .error .threadCurrentStatus
  else if k.inExternalIntr then .error .threadYieldContext
  else
    schedule
      { (k.setStatus k.cur .ready).push [.intrSetLevel k.intrLevel] with
        intrLevel := .off
        -- idle thread は ready_list に入らない
        readyList :=
          if k.idleThread = some k.cur then k.readyList
          else listInsertOrdered k.cmpPriority k.cur k.readyList }

/-- `thread_exit`。USERPROG の `process_exit` は scheduler の状態に触れない。 -/
def threadExit (k : Kernel) : Except Panic Kernel :=
  if k.inExternalIntr then .error .threadExitContext
  else if k.curThread.status ≠ .running then .error .threadCurrentStatus
  else
    schedule
      { k.setStatus k.cur .dying with
        intrLevel := .off
        allList := k.allList.erase k.cur }

/--
`test_max_priority (); intr_set_level (old);`

呼ぶ側は三つとも、この後に割り込みの level を戻して終わる。
譲る場合、level を戻すのは次に選ばれたときなので `stack` に積む。
-/
def testMaxPriority (old : IntrLevel) (k : Kernel) : Except Panic Kernel :=
  match k.readyList with
  | [] => intrSetLevel old k
  | t :: _ =>
    if k.curThread.priority < (k.thread t).priority then
      threadYield (k.push [.intrSetLevel old])
    else intrSetLevel old k

/-! ## 眠りと目覚め -/

def threadSleep (ticks : Int) (k : Kernel) : Except Panic Kernel :=
  if k.curThread.status ≠ .running then .error .threadCurrentStatus
  else if k.inExternalIntr then .error .threadSleepContext
  else if k.intrLevel ≠ .on then .error .threadSleepLevel
  else if ticks ≤ 0 then .ok k
  else
    let k₁ := k.modify k.cur fun th => { th with wakeUpTime := ticks }
    threadBlock
      { k₁.push [.sleepReturn k.intrLevel] with
        intrLevel := .off
        sleepList := listInsertOrdered k₁.cmpWakeUpTime k.cur k₁.sleepList }

/-- `thread_awake` の loop。`sleep_list` の先頭から、時刻の来た thread を起こす。 -/
def awakeLoop (now : Int) : List ThreadId → Kernel → Except Panic Kernel
  | [], k => .ok k
  | t :: ts, k =>
    if (k.thread t).wakeUpTime ≤ now then
      (threadUnblock t { k with sleepList := ts }).bind (awakeLoop now ts)
    else .ok k

def threadAwake (now : Int) (k : Kernel) : Except Panic Kernel := awakeLoop now k.sleepList k

/-! ## priority の計算 -/

/-- `calculate_priority` の式。 -/
def mlfqsPriority (recentCpu nice : Int) : Int :=
  let temp := fpDivInt recentCpu 4
  let temp := fpSub (fpConst priMax) temp
  let temp := fpSubInt temp (int32 (nice * 2))
  let p := fpIntPart temp
  let p := if p > priMax then priMax else p
  if p < priMin then priMin else p

def calculatePriority (t : ThreadId) (k : Kernel) : Kernel :=
  if k.idleThread = some t then k
  else k.modify t fun th => { th with priority := mlfqsPriority th.recentCpu th.nice }

def calculateRecentCpu (t : ThreadId) (k : Kernel) : Kernel :=
  if k.idleThread = some t then k
  else
    let coef1 := fpMulInt k.loadAvg 2
    let coef2 := fpAddInt coef1 1
    let coefficient := fpDiv coef1 coef2
    k.modify t fun th =>
      { th with recentCpu := fpAddInt (fpMul coefficient th.recentCpu) th.nice }

/-- `calculate_load_avg` の `ready_threads`。 -/
def readyThreads (k : Kernel) : Nat :=
  if k.idleThread = some k.cur then k.readyList.length else k.readyList.length + 1

def calculateLoadAvg (k : Kernel) : Kernel :=
  let coef1 := fpDivInt (fpConst 59) 60
  let coef2 := fpDivInt (fpConst 1) 60
  let term1 := fpMul coef1 k.loadAvg
  let term2 := fpMulInt coef2 (readyThreads k)
  { k with loadAvg := fpAdd term1 term2 }

def threadForeach (func : ThreadId → Kernel → Kernel) (k : Kernel) : Kernel :=
  k.allList.foldl (fun k t => func t k) k

def updateRecentCpu (t : ThreadId) (k : Kernel) : Kernel :=
  if k.idleThread = some t then k
  else k.modify t fun th => { th with recentCpu := fpAdd th.recentCpu (fpConst 1) }

def updateLoadAvgAndRecentCpu (k : Kernel) : Kernel :=
  threadForeach calculateRecentCpu (calculateLoadAvg k)

def sortReadyList (k : Kernel) : Kernel :=
  { k with readyList := listSort k.cmpPriority k.readyList }

def updatePriorityAndYield (k : Kernel) : Except Panic Kernel :=
  let k := sortReadyList (threadForeach calculatePriority k)
  match k.readyList with
  | [] => .ok k
  | front :: _ =>
    if (k.thread front).priority > k.curThread.priority then intrYieldOnReturn k else .ok k

/-- `thread_aging`。`ready_list` の thread の priority を `PRI_MAX` まで一つ上げる。 -/
def threadAging (k : Kernel) : Kernel :=
  k.readyList.foldl
    (fun k t => k.modify t fun th =>
      if th.priority < priMax then { th with priority := th.priority + 1 } else th) k

def threadSetPriority (newPriority : Int) (k : Kernel) : Except Panic Kernel :=
  match k.schedulingMode with
  | .mlfqs => .ok k
  | .priority =>
    let oldPriority := k.curThread.priority
    let k₁ := intrDisable (k.modify k.cur fun th => { th with priority := newPriority })
    if newPriority < oldPriority then testMaxPriority k.intrLevel k₁
    else intrSetLevel k.intrLevel k₁

def threadSetNice (nice : Int) (k : Kernel) : Except Panic Kernel :=
  let k₁ := intrDisable (k.modify k.cur fun th => { th with nice := nice })
  testMaxPriority k.intrLevel (sortReadyList (calculatePriority k.cur k₁))

/-- `thread_get_load_avg`。100 倍して丸めた値と、割り込みの level を戻した状態。 -/
def threadGetLoadAvg (k : Kernel) : Except Panic (Int × Kernel) :=
  let loadAvgInt := fpRound (fpMulInt k.loadAvg 100)
  (intrSetLevel k.intrLevel (intrDisable k)).map (loadAvgInt, ·)

def threadGetRecentCpu (k : Kernel) : Except Panic (Int × Kernel) :=
  if k.curThread.status ≠ .running then .error .threadCurrentStatus
  else
    let recentCpuInt := fpRound (fpMulInt k.curThread.recentCpu 100)
    (intrSetLevel k.intrLevel (intrDisable k)).map (recentCpuInt, ·)

/-! ## thread_tick -/

/-- `thread_tick` の MLFQS の分岐。 -/
def mlfqsTick (k : Kernel) : Except Panic Kernel :=
  let k := updateRecentCpu k.cur k
  let k := if k.ticks % timerFreq = 0 then updateLoadAvgAndRecentCpu k else k
  if k.ticks % timeSlice = 0 then updatePriorityAndYield k else .ok k

/-- 実行中の thread が time slice を使い切ったか。 -/
def timeSliceTick (k : Kernel) : Except Panic Kernel :=
  if k.threadTicks + 1 ≥ timeSlice then intrYieldOnReturn { k with threadTicks := k.threadTicks + 1 }
  else .ok { k with threadTicks := k.threadTicks + 1 }

def modeTick (k : Kernel) : Except Panic Kernel :=
  match k.schedulingMode with
  | .priority => .ok k
  | .mlfqs => mlfqsTick k

def agingTick (k : Kernel) : Kernel := if k.threadPriorAging then threadAging k else k

def threadTick (k : Kernel) : Except Panic Kernel :=
  (timeSliceTick k).bind fun k₁ => (modeTick k₁).bind fun k₂ => .ok (agingTick k₂)

/-! ## thread_create -/

/-- `init_thread`。`nice` と `recent_cpu` は MLFQS のときだけ親から受け継ぐ。 -/
def initThread (k : Kernel) (priority : Int) (stack : List Code) : Thread :=
  match k.schedulingMode with
  | .priority =>
    { tid := 0, status := .blocked, priority := priority, nice := 0, recentCpu := 0,
      wakeUpTime := 0, stack := stack }
  | .mlfqs =>
    { tid := 0, status := .blocked,
      priority := mlfqsPriority k.curThread.recentCpu k.curThread.nice,
      nice := k.curThread.nice, recentCpu := k.curThread.recentCpu,
      wakeUpTime := 0, stack := stack }

/--
`thread_create` が新しい thread を `all_list` に加えた状態。

`allocate_tid` から先は途中で切り替わりうるので、`stack` に積んで一区切りずつ実行する。
引数の `stack` は、新しい thread が最初に選ばれたときに実行する code である。
-/
def Kernel.created (k : Kernel) (priority : Int) (stack : List Code) : Kernel :=
  let t := k.nextThread
  { k with
    thread := Function.update k.thread t (initThread k priority stack)
    nextThread := t + 1
    allList := k.allList ++ [t] }.push
      [.lockAcquire .tid, .allocateTid t, .lockRelease .tid, .createUnblock t, .createTest t]

def threadCreateWith (priority : Int) (stack : List Code) (k : Kernel) : Except Panic Kernel :=
  if priMin ≤ priority ∧ priority ≤ priMax then .ok (k.created priority stack)
  else .error .initThreadPriority

/-- `thread_create`。`page` は `palloc_get_page` が page を返したかである。 -/
def threadCreate (page : Bool) (priority : Int) (k : Kernel) : Except Panic Kernel :=
  if page then threadCreateWith priority [.kernelThread] k else .ok k

/-- `tid = t->tid = next_tid++`。 -/
def allocateTid (t : ThreadId) (k : Kernel) : Kernel :=
  { k.modify t fun th => { th with tid := k.nextTid } with nextTid := k.nextTid + 1 }

/-- `thread_create` の最後の、新しい thread に譲るかどうかの検査。 -/
def createTest (t : ThreadId) (k : Kernel) : Except Panic Kernel :=
  if (k.thread t).priority > k.curThread.priority then threadYield k else .ok k

end Pintos
