import Pintos.Properties.Action

/-!
# どの一歩も `Atomic` である

関数ごとに、成功した実行を基本操作に分ける。
この module の結論は `exec_atomic`（code の実行）と `intrHandler_atomic`（割り込み）で、
不変量の証明はこの二つから始める。
-/

namespace Pintos

open Infra

variable {k k' : Kernel} {s : SemaId} {t : ThreadId} {old : IntrLevel} {l : LockId} {c : Code}

/-! ## 割り込みの level -/

theorem Action.level (k : Kernel) (l : IntrLevel) : Action k [] { k with intrLevel := l } :=
  .flags l k.inExternalIntr k.yieldOnReturn

theorem intrEnable_actions (h : intrEnable k = .ok k') : Actions k [] k' := by
  rw [(intrEnable_ok h).2]
  exact (Action.level k .on).actions

theorem intrSetLevel_actions {l : IntrLevel} (h : intrSetLevel l k = .ok k') :
    Actions k [] k' := by
  rw [intrSetLevel_ok h]
  exact (Action.level k l).actions

/-! ## 切り替え -/

theorem threadYield_atomic (h : threadYield k = .ok k') : Atomic k [] k' := by
  obtain ⟨hrun, -, hs⟩ := threadYield_ok h
  obtain ⟨next, rest, hn, -, rfl⟩ := schedule_ok hs
  exact (Switch.yield hrun hn).atomic

theorem threadExit_atomic (h : threadExit k = .ok k') : Atomic k [] k' := by
  obtain ⟨hrun, hs⟩ := threadExit_ok h
  obtain ⟨next, rest, hn, -, rfl⟩ := schedule_ok hs
  exact (Switch.exit hrun hn).atomic

theorem testMaxPriority_atomic (h : testMaxPriority old k = .ok k') : Atomic k [] k' := by
  rcases testMaxPriority_ok h with ⟨-, rfl⟩ | hy
  · exact (Action.level k old).actions.atomic
  · exact (Action.push [.intrSetLevel old] (by simp [Code.isControl])).then (threadYield_atomic hy)

theorem waiting_atomic (hc : c.isWait = true) (hidle : k.IdleLike k.cur → c = .idleHlt)
    (hval : ∀ s old, c = .semaDownLoop s old → (k.sema s).value = 0)
    (hrun : k.curThread.status = .running) (h : schedule (k.waiting c) = .ok k') :
    Atomic k [] k' := by
  obtain ⟨next, rest, hn, hoff, rfl⟩ := schedule_ok h
  have hlevel : k.intrLevel = .off := (k.waiting_intrLevel c).symm.trans hoff
  exact (Switch.block hrun hc hidle hval hlevel hn).atomic

/-! ## semaphore と lock -/

theorem semaDecrement_atomic (hval : (k.sema s).value ≠ 0)
    (hidle : ¬ k.IdleLike k.cur) (h : semaDecrement s old k = .ok k') :
    Atomic k [.down s] k' := by
  rw [intrSetLevel_ok h]
  exact (Action.down s hval hidle).actions.then (Action.level _ old).actions.atomic

theorem semaDownLoop_atomic (hidle : ¬ k.IdleLike k.cur) (h : semaDownLoop s old k = .ok k') :
    Atomic k (if (k.sema s).value = 0 then [] else [.down s]) k' := by
  unfold semaDownLoop at h
  split at h
  · next hz =>
    obtain ⟨hrun, hs⟩ := threadBlock_ok h
    rw [if_pos hz]
    refine waiting_atomic (c := .semaDownLoop s old) rfl (fun hi => absurd hi hidle) ?_ ?_ hs
    · intro s' old' he
      cases he
      exact hz
    · have hst := Kernel.push_status k [.semaDownLoop s old] k.cur
      rw [Kernel.curThread, ← hst]
      exact hrun
  · next hz =>
    rw [if_neg hz]
    exact semaDecrement_atomic hz hidle h

theorem semaDown_atomic (hidle : ¬ k.IdleLike k.cur) (h : semaDown s k = .ok k') :
    Atomic k (if (k.sema s).value = 0 then [] else [.down s]) k' := by
  unfold semaDown at h
  obtain ⟨-, h⟩ := guard_eq_ok.mp h
  exact (Action.level k .off).then (semaDownLoop_atomic (k := intrDisable k) hidle h)

theorem semaTryDown_atomic (hidle : ¬ k.IdleLike k.cur) (h : semaTryDown s k = .ok k') :
    Atomic k (if (k.sema s).value = 0 then [] else [.down s]) k' := by
  unfold semaTryDown at h
  split at h
  · next hpos =>
    rw [if_neg (by omega)]
    exact (Action.level k .off).then
      (semaDecrement_atomic (k := intrDisable k) (Nat.pos_iff_ne_zero.mp hpos) hidle h)
  · next hz =>
    rw [if_pos (by omega)]
    exact (Action.level k .off).then (intrSetLevel_actions h).atomic

theorem semaUp_atomic (h : semaUp s k = .ok k') : Atomic k [.up s] k' := by
  obtain ⟨k₁, hw, ht⟩ := bind_eq_ok.mp h
  have hup : Action (intrDisable k) [.up s] (semaIncrement s k₁) := .up s k₁ hw
  exact (Action.level k .off).then (hup.actions.then (testMaxPriority_atomic ht))

/-! ## priority -/

/-- priority の計算は、status と `stack` を変えない。 -/
structure Recalculated (k k' : Kernel) : Prop where
  eq : k' = { k with thread := k'.thread }
  status : ∀ t, (k'.thread t).status = (k.thread t).status
  stack : ∀ t, (k'.thread t).stack = (k.thread t).stack

theorem Recalculated.refl (k : Kernel) : Recalculated k k := ⟨rfl, fun _ => rfl, fun _ => rfl⟩

theorem Recalculated.trans {k₁ k₂ k₃ : Kernel} (h : Recalculated k₁ k₂) (h' : Recalculated k₂ k₃) :
    Recalculated k₁ k₃ where
  eq := by rw [h'.eq, h.eq]
  status t := (h'.status t).trans (h.status t)
  stack t := (h'.stack t).trans (h.stack t)

theorem recalculated_modify {f : Thread → Thread}
    (hstatus : ∀ th, (f th).status = th.status) (hstack : ∀ th, (f th).stack = th.stack) :
    Recalculated k (k.modify t f) where
  eq := rfl
  status _ := Kernel.modify_field Thread.status hstatus
  stack _ := Kernel.modify_field Thread.stack hstack

theorem Recalculated.cur (h : Recalculated k k') : k'.cur = k.cur := by rw [h.eq]

theorem Recalculated.idleLike (h : Recalculated k k') (t : ThreadId) :
    k'.IdleLike t ↔ k.IdleLike t := by
  have hi : k'.idleThread = k.idleThread := by rw [h.eq]
  unfold Kernel.IdleLike
  rw [hi, h.stack]

theorem Recalculated.action (h : Recalculated k k')
    (hp : ∀ t, (k'.thread t).priority = (k.thread t).priority) : Action k [] k' := by
  rw [h.eq]
  exact .records k'.thread h.status h.stack hp

theorem Recalculated.resort (h : Recalculated k k') : Action k [] (sortReadyList k') := by
  rw [h.eq]
  exact .resort k'.thread h.status h.stack

theorem recalculated_foldl {f : Kernel → ThreadId → Kernel}
    (hf : ∀ k t, Recalculated k (f k t)) :
    ∀ (ts : List ThreadId) (k : Kernel), Recalculated k (ts.foldl f k)
  | [], k => .refl k
  | t :: ts, k => (hf k t).trans (recalculated_foldl hf ts (f k t))

theorem calculatePriority_recalculated (t : ThreadId) (k : Kernel) :
    Recalculated k (calculatePriority t k) := by
  unfold calculatePriority
  split
  · exact .refl k
  · exact recalculated_modify (fun _ => rfl) fun _ => rfl

theorem calculateRecentCpu_recalculated (t : ThreadId) (k : Kernel) :
    Recalculated k (calculateRecentCpu t k) := by
  unfold calculateRecentCpu
  split
  · exact .refl k
  · exact recalculated_modify (fun _ => rfl) fun _ => rfl

theorem threadAging_recalculated (k : Kernel) : Recalculated k (threadAging k) := by
  refine recalculated_foldl (fun k t => recalculated_modify ?_ ?_) k.readyList k
  · intro th
    split <;> rfl
  · intro th
    split <;> rfl

/-! ## 眠りと目覚め -/

theorem threadSleep_atomic {ticks : Int} (hidle : ¬ k.IdleLike k.cur)
    (h : threadSleep ticks k = .ok k') : Atomic k [] k' := by
  obtain ⟨hrun, -, ⟨-, rfl⟩ | ⟨-, h⟩⟩ := threadSleep_ok h
  · exact (Actions.nil k').atomic
  · have hrec : Recalculated k (k.modify k.cur fun th => { th with wakeUpTime := ticks }) :=
      recalculated_modify (fun _ => rfl) fun _ => rfl
    refine (hrec.action fun t => Kernel.modify_field Thread.priority fun _ => rfl).then
      ((Action.level _ .off).then ?_)
    obtain ⟨-, hs⟩ := threadBlock_ok h
    refine waiting_atomic (c := .sleepReturn k.intrLevel) rfl ?_ (fun s old he => nomatch he) ?_ hs
    · intro hi
      exact absurd ((hrec.idleLike k.cur).mp hi) hidle
    · exact (hrec.status k.cur).trans hrun

theorem awakeLoop_actions {now : Int} :
    ∀ (ts : List ThreadId) {k k' : Kernel}, k.sleepList = ts → awakeLoop now ts k = .ok k' →
      Actions k [] k'
  | [], k, k', _, h => by
    rw [awakeLoop] at h
    rw [← Except.ok.inj h]
    exact .nil k
  | t :: ts, k, k', hq, h => by
    rw [awakeLoop] at h
    split at h
    · obtain ⟨k₁, hu, hrest⟩ := bind_eq_ok.mp h
      obtain ⟨hb, rfl⟩ := threadUnblock_ok hu
      exact .cons (.awake t ts hq hb) (awakeLoop_actions ts rfl hrest)
    · rw [← Except.ok.inj h]
      exact .nil k

theorem threadSetPriority_atomic {p : Int} (h : threadSetPriority p k = .ok k') :
    Atomic k [] k' := by
  rcases threadSetPriority_ok h with ⟨-, rfl⟩ | ⟨-, h⟩
  · exact (Actions.nil k').atomic
  · refine (Action.setPriority p).then ((Action.level _ .off).then ?_)
    rcases h with h | ⟨-, h⟩
    · exact testMaxPriority_atomic h
    · exact (intrSetLevel_actions h).atomic

theorem threadSetNice_atomic {n : Int} (h : threadSetNice n k = .ok k') : Atomic k [] k' := by
  have hnice : Recalculated (intrDisable k)
      ((intrDisable k).modify k.cur fun th => { th with nice := n }) :=
    recalculated_modify (fun _ => rfl) fun _ => rfl
  have hcalc := hnice.trans (calculatePriority_recalculated k.cur _)
  exact (Action.level k .off).then (hcalc.resort.then (testMaxPriority_atomic h))

/-! ## timer -/

theorem intrYieldOnReturn_actions (h : intrYieldOnReturn k = .ok k') : Actions k [] k' := by
  rw [intrYieldOnReturn_ok h]
  exact (Action.flags k.intrLevel k.inExternalIntr true).actions

variable {func : ThreadId → Kernel → Kernel}

theorem threadForeach_recalculated (hf : ∀ t k, Recalculated k (func t k)) (k : Kernel) :
    Recalculated k (threadForeach func k) :=
  recalculated_foldl (fun k t => hf t k) k.allList k

theorem updatePriorityAndYield_actions (h : updatePriorityAndYield k = .ok k') :
    Actions k [] k' := by
  unfold updatePriorityAndYield at h
  refine (threadForeach_recalculated calculatePriority_recalculated k).resort.actions.append ?_
  simp only [] at h
  split at h
  · rw [← Except.ok.inj h]
    exact .nil _
  · split at h
    · exact intrYieldOnReturn_actions h
    · rw [← Except.ok.inj h]
      exact .nil _

theorem threadForeach_priority
    (hf : ∀ t k u, ((func t k).thread u).priority = (k.thread u).priority) :
    ∀ (ts : List ThreadId) (k : Kernel) (u : ThreadId),
      ((ts.foldl (fun k t => func t k) k).thread u).priority = (k.thread u).priority
  | [], _, _ => rfl
  | t :: ts, k, u => (threadForeach_priority hf ts (func t k) u).trans (hf t k u)

theorem calculateRecentCpu_priority (t : ThreadId) (k : Kernel) (u : ThreadId) :
    ((calculateRecentCpu t k).thread u).priority = (k.thread u).priority := by
  unfold calculateRecentCpu
  split
  · rfl
  · exact Kernel.modify_field Thread.priority fun _ => rfl

theorem updateLoadAvgAndRecentCpu_actions (k : Kernel) :
    Actions k [] (updateLoadAvgAndRecentCpu k) := by
  have hload : Action k [] (calculateLoadAvg k) := .counters k.ticks k.threadTicks _ k.nextTid
  have hcpu : Action (calculateLoadAvg k) [] (updateLoadAvgAndRecentCpu k) :=
    (threadForeach_recalculated calculateRecentCpu_recalculated _).action
      (threadForeach_priority calculateRecentCpu_priority _ _)
  exact hload.actions.append hcpu.actions

theorem updateRecentCpu_actions (t : ThreadId) (k : Kernel) :
    Actions k [] (updateRecentCpu t k) := by
  unfold updateRecentCpu
  split
  · exact .nil k
  · have hrec : Recalculated k (k.modify t fun th =>
        { th with recentCpu := fpAdd th.recentCpu (fpConst 1) }) :=
      recalculated_modify (fun _ => rfl) fun _ => rfl
    exact (hrec.action fun u => Kernel.modify_field Thread.priority fun _ => rfl).actions

theorem mlfqsTick_actions (h : mlfqsTick k = .ok k') : Actions k [] k' := by
  unfold mlfqsTick at h
  refine (updateRecentCpu_actions k.cur k).append ?_
  generalize updateRecentCpu k.cur k = k₁ at h
  simp only [] at h
  have hsecond : Actions k₁ []
      (if k₁.ticks % timerFreq = 0 then updateLoadAvgAndRecentCpu k₁ else k₁) := by
    split
    · exact updateLoadAvgAndRecentCpu_actions k₁
    · exact .nil k₁
  refine hsecond.append ?_
  generalize (if k₁.ticks % timerFreq = 0 then updateLoadAvgAndRecentCpu k₁ else k₁) = k₂ at h
  split at h
  · exact updatePriorityAndYield_actions h
  · rw [← Except.ok.inj h]
    exact .nil _

theorem timeSliceTick_actions (h : timeSliceTick k = .ok k') : Actions k [] k' := by
  unfold timeSliceTick at h
  have hcount : Action k [] { k with threadTicks := k.threadTicks + 1 } :=
    .counters k.ticks (k.threadTicks + 1) k.loadAvg k.nextTid
  split at h
  · exact hcount.actions.append (intrYieldOnReturn_actions h)
  · rw [← Except.ok.inj h]
    exact hcount.actions

theorem modeTick_actions (h : modeTick k = .ok k') : Actions k [] k' := by
  unfold modeTick at h
  split at h
  · rw [← Except.ok.inj h]
    exact .nil k
  · exact mlfqsTick_actions h

theorem agingTick_actions (k : Kernel) : Actions k [] (agingTick k) := by
  unfold agingTick
  split
  · exact Action.aging.actions
  · exact .nil k

theorem threadTick_actions (h : threadTick k = .ok k') : Actions k [] k' := by
  obtain ⟨k₁, hslice, h⟩ := bind_eq_ok.mp h
  obtain ⟨k₂, hmode, h⟩ := bind_eq_ok.mp h
  rw [← Except.ok.inj h]
  exact (timeSliceTick_actions hslice).append
    ((modeTick_actions hmode).append (agingTick_actions k₂))

theorem timerInterrupt_actions (h : timerInterrupt k = .ok k') : Actions k [] k' := by
  obtain ⟨k₁, ht, ha⟩ := bind_eq_ok.mp h
  have htick : Action k [] { k with ticks := k.ticks + 1 } :=
    .counters (k.ticks + 1) k.threadTicks k.loadAvg k.nextTid
  exact htick.actions.append ((threadTick_actions ht).append (awakeLoop_actions _ rfl ha))

/-! ## code の実行 -/

def Code.emits (k : Kernel) : Code → List Obs
  | .semaUp s => [.up s]
  | .idleStart => [.up .idleStarted]
  | .semaDown s | .semaDownLoop s _ | .semaTryDown s =>
    if (k.sema s).value = 0 then [] else [.down s]
  | .lockAcquire l | .lockTryAcquire l =>
    if (k.sema (.lock l)).value = 0 then [] else [.down (.lock l)]
  | .lockSetHolder l => [.acquired k.cur l]
  | .lockRelease l => [.released k.cur l]
  | _ => []

/-- `c` を実行する直前の状態について、分けるのに要ること。 -/
structure InHand (k : Kernel) (c : Code) : Prop where
  /-- idle thread は `idle` の code しか実行しない。 -/
  idle : k.IdleLike k.cur → c.isIdleFrame = true ∨ c = .idleLoop
  start : c = .idleStart → k.idleThread = none ∧ (∀ u, .idleStart ∉ (k.thread u).stack) ∧
    ∀ d ∈ k.curThread.stack, d.isIdleFrame = true
  /-- 直に起こす相手はどの列にも入っていない。 -/
  unblock : ∀ t, c = .threadUnblock t ∨ c = .createUnblock t → k.Loose t

theorem threadCreate_atomic {page : Bool} {p : Int} (hidle : ¬ k.IdleLike k.cur)
    (h : threadCreate page p k = .ok k') : Atomic k [] k' := by
  rcases threadCreate_ok h with rfl | ⟨-, rfl⟩
  · exact (Actions.nil k').atomic
  · exact (Action.create p hidle).actions.atomic

theorem threadUnblock_atomic (hh : k.Loose t) (h : threadUnblock t k = .ok k') : Atomic k [] k' := by
  obtain ⟨hb, rfl⟩ := threadUnblock_ok h
  exact (Action.unblock t hb hh).actions.atomic

theorem allocateTid_actions (t : ThreadId) (k : Kernel) : Actions k [] (allocateTid t k) := by
  have hrec : Recalculated k (k.modify t fun th => { th with tid := k.nextTid }) :=
    recalculated_modify (fun _ => rfl) fun _ => rfl
  have hnum : Action (k.modify t fun th => { th with tid := k.nextTid }) [] (allocateTid t k) :=
    .counters k.ticks k.threadTicks k.loadAvg (k.nextTid + 1)
  exact (hrec.action fun u => Kernel.modify_field Thread.priority fun _ => rfl).actions.append
    hnum.actions

theorem createTest_atomic (h : createTest t k = .ok k') : Atomic k [] k' := by
  rcases createTest_ok h with h | rfl
  · exact threadYield_atomic h
  · exact (Actions.nil k').atomic

theorem blockWith_atomic (hc : c.isWait = true) (hq : c.queue? = none)
    (hidle : k.IdleLike k.cur → c = .idleHlt) (h : threadBlock (k.push [c]) = .ok k') :
    Atomic k [] k' := by
  obtain ⟨hrun, hs⟩ := threadBlock_ok h
  have hw : k.waiting c = (k.push [c]).setStatus k.cur .blocked := by
    unfold Kernel.waiting
    rw [hq]
  refine waiting_atomic hc hidle ?_ ?_ (hw ▸ hs)
  · rintro s old rfl
    cases hq
  · exact (Kernel.push_status k [c] k.cur).symm.trans hrun

theorem exec_atomic (hh : InHand k c) (h : exec c k = .ok k') : Atomic k (c.emits k) k' := by
  -- idle thread が実行しない code では、実行中の thread は idle thread でない
  have hbusy : c.isIdleFrame = false → c ≠ .idleLoop → ¬ k.IdleLike k.cur := by
    intro hf hl hi
    rcases hh.idle hi with ht | ht
    · rw [hf] at ht; cases ht
    · exact hl ht
  have hok : ∀ {k₁ : Kernel}, Actions k [] k₁ → (Except.ok k₁ : Except Panic Kernel) = .ok k' →
      Atomic k [] k' := by
    intro k₁ ha he
    rw [← Except.ok.inj he]
    exact ha.atomic
  cases c with
  | intrDisable => exact hok (Action.level k .off).actions h
  | intrEnable | kernelThread => exact (intrEnable_actions h).atomic
  | threadCreate page p => exact threadCreate_atomic (hbusy rfl (by simp)) h
  | threadBlock =>
    exact blockWith_atomic rfl rfl (fun hi => absurd hi (hbusy rfl (by simp))) h
  | threadUnblock t => exact threadUnblock_atomic (hh.unblock t (.inl rfl)) h
  | threadYield => exact threadYield_atomic h
  | threadExit => exact threadExit_atomic h
  | threadSleep n => exact threadSleep_atomic (hbusy rfl (by simp)) h
  | threadSetPriority p => exact threadSetPriority_atomic h
  | threadSetNice n => exact threadSetNice_atomic h
  | semaDown s => exact semaDown_atomic (hbusy rfl (by simp)) h
  | semaTryDown s => exact semaTryDown_atomic (hbusy rfl (by simp)) h
  | semaUp s => exact semaUp_atomic h
  | lockAcquire l => exact semaDown_atomic (hbusy rfl (by simp)) (lockAcquire_ok h)
  | lockTryAcquire l => exact semaTryDown_atomic (hbusy rfl (by simp)) (lockTryAcquire_ok h)
  | lockRelease l =>
    obtain ⟨hh, rfl⟩ := lockRelease_ok h
    exact (Action.released l hh (hbusy rfl (by simp))).actions.atomic
  | intrSetLevel | sleepReturn => exact (intrSetLevel_actions h).atomic
  | iret | idleHlt => exact hok (Action.level k .on).actions h
  | blockReturn => exact hok (.nil k) h
  | semaDownLoop s old => exact semaDownLoop_atomic (hbusy rfl (by simp)) h
  | lockSetHolder l =>
    rw [← Except.ok.inj h]
    exact (Action.acquired l).actions.atomic
  | allocateTid t => exact hok (allocateTid_actions t k) h
  | createUnblock t => exact threadUnblock_atomic (hh.unblock t (.inr rfl)) h
  | createTest t => exact createTest_atomic h
  | idleStart =>
    obtain ⟨hnone, hstart, hframes⟩ := hh.start rfl
    exact (Action.startIdle hnone hstart hframes).then (semaUp_atomic h)
  | idleLoop =>
    exact (Action.level k .off).then (blockWith_atomic (k := intrDisable k) rfl rfl (fun _ => rfl) h)
  | startLoadAvg => exact hok (Action.counters k.ticks k.threadTicks _ k.nextTid).actions h

/-! ## 割り込み -/

def Handler.emits : Handler → List Obs
  | .semaUp s => [.up s]
  | _ => []

theorem semaUp_actions (hctx : k.inExternalIntr = true)
    (h : semaUp s k = .ok k') : Actions k [.up s] k' := by
  obtain ⟨k₁, hw, ht⟩ := bind_eq_ok.mp h
  have hup : Action (intrDisable k) [.up s] (semaIncrement s k₁) := .up s k₁ hw
  rcases testMaxPriority_ok ht with ⟨-, rfl⟩ | hy
  · exact (Action.level k .off).actions.append
      (hup.actions.append (Action.level _ k.intrLevel).actions)
  · obtain ⟨-, hno, -⟩ := threadYield_ok hy
    have hyes : k₁.inExternalIntr = true := by
      rcases semaWake_ok hw with ⟨-, rfl⟩ | ⟨t, ts, -, -, rfl⟩ <;> exact hctx
    rw [show ((semaIncrement s k₁).push _).inExternalIntr = k₁.inExternalIntr from rfl, hyes] at hno
    cases hno

theorem Handler.run_actions {hd : Handler} (hctx : k.inExternalIntr = true)
    (hp : ∀ t, hd = .unblock t → k.Loose t) (h : hd.run k = .ok k') :
    Actions k hd.emits k' := by
  cases hd with
  | timer => exact timerInterrupt_actions h
  | semaUp s => exact semaUp_actions hctx h
  | unblock t =>
    obtain ⟨hb, rfl⟩ := threadUnblock_ok h
    exact (Action.unblock t hb (hp t rfl)).actions
  | other =>
    rw [← Except.ok.inj h]
    exact .nil k

theorem intrHandler_atomic {hd : Handler} (hp : ∀ t, hd = .unblock t → k.Loose t)
    (h : intrHandler hd.run k = .ok k') : Atomic k hd.emits k' := by
  obtain ⟨k₁, hrun, hafter⟩ := intrHandler_ok h
  have henter : Actions k [] k.inHandler := (Action.flags .off true false).actions
  have hbody := Handler.run_actions (k := k.inHandler) rfl hp hrun
  have hleave : Atomic k₁ [] k' := by
    rcases hafter with ⟨-, hy⟩ | ⟨-, rfl⟩
    · have hflags : Action k₁ [] { k₁ with inExternalIntr := false } :=
        .flags k₁.intrLevel false k₁.yieldOnReturn
      exact hflags.then
        ((Action.push [.iret] (by simp [Code.isControl])).then (threadYield_atomic hy))
    · exact (Action.flags .on false k₁.yieldOnReturn).actions.atomic
  have hall := hbody.then hleave
  rw [List.append_nil] at hall
  exact henter.then hall

end Pintos
