import Pintos.Properties.FixedPoint
import Pintos.Properties.Sleep

/-!
# `timer_sleep` の起きる時刻

`timer_sleep` は `int64_t` の時刻を `int` の `abs_wake_up_time` に入れてから
`thread_sleep` に渡す。折り返した値が小さくなると、早く起きるか、眠らずに戻る。
-/

namespace Pintos

open Infra

variable {k k' k₁ k₂ : Kernel} {w : Int}

/-! ## 時刻 -/

theorem step_ticks_le {e : Event} (hw : WellFormed k) (hs : SleepSorted k)
    (h : step k e = some k') : k.ticks ≤ k'.ticks := by
  cases step_sleepStep hw hs h with
  | timer k₁ _ _ hwoken hkept =>
    rw [hkept.ticks, hwoken.ticks]
    exact Int.le_add_one le_rfl
  | slept w _ hslept => exact hslept.ticks.ge
  | kept _ hkept => exact hkept.ticks.ge

theorem restart_invariant {I : Kernel → Prop} (h : Reachable scheduler k) (h0 : I k)
    (hstep : ∀ s e s', WellFormed s → SleepSorted s → I s → step s e = some s' → I s')
    (hr : Reachable (scheduler.restart k) k') : I k' := by
  refine Reachable.invariant_of (J := fun s => WellFormed s ∧ SleepSorted s) ?_ ?_ ?_ hr
  · intro s hs
    have hreach := h.trans hs
    exact ⟨reachable_wellFormed hreach, reachable_sleepSorted hreach⟩
  · rintro s rfl
    exact h0
  · rintro s e s' ⟨hw, hsort⟩ hi hst
    exact hstep s e s' hw hsort hi hst

theorem restart_ticks_le (h : Reachable scheduler k) (hr : Reachable (scheduler.restart k) k') :
    k.ticks ≤ k'.ticks :=
  restart_invariant (I := fun s => k.ticks ≤ s.ticks) h le_rfl
    (fun _ _ _ hw hs hi hst => hi.trans (step_ticks_le hw hs hst)) hr

theorem threadSleep_asleep (hpos : 0 < w) (hstep : step k₁ (.call (.threadSleep w)) = some k₂) :
    k₁.cur ∈ k₂.sleepList ∧ (k₂.thread k₁.cur).wakeUpTime = w ∧ k₂.ticks = k₁.ticks := by
  have hslept := step_threadSleep hstep hpos
  rw [hslept.sleepList, hslept.wakeUpTime, if_pos rfl]
  exact ⟨mem_listInsertOrdered.mpr (.inl rfl), rfl, hslept.ticks⟩

/-- **眠った thread は、`w` と次の timer 割り込みの遅いほうまで起きない。** -/
theorem asleep_until (hpos : 0 < w) (h : Reachable scheduler k₁)
    (hstep : step k₁ (.call (.threadSleep w)) = some k₂)
    (hr : Reachable (scheduler.restart k₂) k') :
    k₁.cur ∈ k'.sleepList ∧ (k'.thread k₁.cur).wakeUpTime = w ∧ k₁.ticks ≤ k'.ticks ∨
    w ≤ k'.ticks ∧ k₁.ticks < k'.ticks := by
  obtain ⟨hmem, hwake, hticks⟩ := threadSleep_asleep hpos hstep
  refine restart_invariant
    (I := fun s => k₁.cur ∈ s.sleepList ∧ (s.thread k₁.cur).wakeUpTime = w ∧ k₁.ticks ≤ s.ticks ∨
      w ≤ s.ticks ∧ k₁.ticks < s.ticks)
    (h.next hstep) (.inl ⟨hmem, hwake, hticks.ge⟩) ?_ hr
  rintro s e s' hw hs (⟨hin, htime, hle⟩ | ⟨hdue, hlt⟩) hst
  · cases step_sleepStep hw hs hst with
    | kept _ hkept =>
      exact .inl ⟨by rwa [hkept.sleepList], (hkept.wakeUpTime _ hin).trans htime,
        hle.trans hkept.ticks.ge⟩
    | slept v _ hslept =>
      have hne : k₁.cur ≠ s.cur := fun he => hw.cur_not_sleeping (he ▸ hin)
      refine .inl ⟨?_, ?_, hle.trans hslept.ticks.ge⟩
      · rw [hslept.sleepList]
        exact mem_listInsertOrdered.mpr (.inr hin)
      · rw [hslept.wakeUpTime, if_neg hne, htime]
    | timer s₁ _ _ hwoken hkept =>
      have ht : s'.ticks = s.ticks + 1 := hkept.ticks.trans hwoken.ticks
      by_cases hdue : w ≤ s.ticks + 1
      · exact .inr ⟨by omega, by omega⟩
      · have hin₁ : k₁.cur ∈ s₁.sleepList := by
          rw [hwoken.sleepList]
          refine List.mem_filter.mpr ⟨hin, ?_⟩
          simp [Kernel.dueBy, htime, Int.not_le.mp hdue]
        refine .inl ⟨by rwa [hkept.sleepList], ?_, by omega⟩
        rw [hkept.wakeUpTime _ hin₁, hwoken.wakeUpTime, htime]
  · have := step_ticks_le hw hs hst
    exact .inr ⟨by omega, by omega⟩

/-! ## 折り返し -/

theorem int32_le_sub {x : Int} (h : 2 ^ 31 ≤ x) : int32 x ≤ x - 2 ^ 32 := by
  unfold int32
  rw [Int.bmod_def]
  omega

/-! ## main だけが走る実行 -/

/-- priority scheduler で、時刻 `n` に main だけが、残りの code `stack` を持って走っている。 -/
structure Solo (n : Int) (stack : List Code) (level : IntrLevel) (k : Kernel) : Prop where
  ticks : k.ticks = n
  cur : k.cur = 0
  stack : (k.thread 0).stack = stack
  status : (k.thread 0).status = .running
  readyList : k.readyList = []
  sleepList : k.sleepList = []
  idleThread : k.idleThread = some 1
  idleStack : (k.thread 1).stack = [.intrSetLevel .off, .intrSetLevel .on]
  intrLevel : k.intrLevel = level
  inExternalIntr : k.inExternalIntr = false
  schedulingMode : k.schedulingMode = .priority
  aging : k.threadPriorAging = false

theorem exists_solo : ∃ k, Reachable scheduler k ∧ Solo 0 [] .on k := by
  obtain ⟨k, hr, hk⟩ := exists_reachable_of_run startEvents
    (reachable_boot .priority false fun _ => 0)
    (p := fun k => k.ticks = 0 && k.cur = 0 && (k.thread 0).stack = [] &&
      (k.thread 0).status = .running && k.readyList = [] && k.sleepList = [] &&
      k.idleThread = some 1 && (k.thread 1).stack = [.intrSetLevel .off, .intrSetLevel .on] &&
      k.intrLevel = .on && !k.inExternalIntr && k.schedulingMode = .priority &&
      !k.threadPriorAging)
    (by decide +kernel)
  simp only [Bool.and_eq_true, decide_eq_true_eq, Bool.not_eq_true', and_assoc] at hk
  obtain ⟨h1, h2, h3, h4, h5, h6, h7, h8, h9, h10, h11, h12⟩ := hk
  exact ⟨k, hr, h1, h2, h3, h4, h5, h6, h7, h8, h9, h10, h11, h12⟩

theorem step_resume {c : Code} {cs : List Code} (hst : k.curThread.stack = c :: cs)
    (hx : exec c k.pop = .ok k') : step k .resume = some k' := by
  simp [step, next, hst, hx]

theorem schedule_of_nextIs {next : ThreadId} {rest : List ThreadId} (hoff : k.intrLevel = .off)
    (hst : k.curThread.status ≠ .running) (h : k.NextIs next rest) :
    schedule k = .ok (k.switchTo next rest) := by
  unfold schedule
  rw [if_neg (not_not_intro hoff), if_neg hst]
  rcases h with hcons | ⟨hnil, rfl, hidle⟩
  · rw [nextThreadToRun_cons hcons]
    rfl
  · rw [nextThreadToRun_nil hnil, hidle]
    simp [threadScheduleTail, Kernel.switchTo, Kernel.setStatus, Kernel.modify, hnil]

theorem step_interrupt {hd : Handler} (hon : k.intrLevel = .on) (hp : hd.possible k = true)
    (hx : intrHandler hd.run k = .ok k') : step k (.interrupt hd) = some k' := by
  simp [step, next, hon, hp, hx]

theorem intrHandler_of_ok {handler : Kernel → Except Panic Kernel}
    (hctx : k.inExternalIntr = false) (hx : handler k.inHandler = .ok k₁)
    (hoff : k₁.intrLevel = .off) (hctx₁ : k₁.inExternalIntr = true) :
    intrHandler handler k =
      if k₁.yieldOnReturn then threadYield ({ k₁ with inExternalIntr := false }.push [.iret])
      else .ok { k₁ with inExternalIntr := false, intrLevel := .on } := by
  unfold intrHandler
  rw [hctx, if_neg Bool.false_ne_true,
    show handler { k with intrLevel := .off, inExternalIntr := true, yieldOnReturn := false } = _
      from hx]
  simp [Except.bind, hoff, hctx₁]

theorem threadTick_plain (hmode : k.schedulingMode = .priority) (hage : k.threadPriorAging = false)
    (hctx : k.inExternalIntr = true) : threadTick k =
      .ok (k.counted.flagged (k.yieldOnReturn || decide (timeSlice ≤ k.threadTicks + 1))) := by
  unfold threadTick timeSliceTick
  split
  · next h => simp [intrYieldOnReturn, modeTick, agingTick, hmode, hage, hctx, Except.bind,
      Kernel.counted, Kernel.flagged, h]
  · next h => simp [modeTick, agingTick, hmode, hage, Except.bind, Kernel.counted, Kernel.flagged, h]

namespace Solo

variable {n : Int} {cs : List Code} {level : IntrLevel}

/-- `stack` の先頭が割り込みの level を `l` にするだけの code なら、それを終える。 -/
theorem resume {c : Code} {l : IntrLevel} (h : Solo n (c :: cs) level k)
    (hx : ∀ k₀ : Kernel, k₀.inExternalIntr = false → exec c k₀ = .ok { k₀ with intrLevel := l }) :
    ∃ k', step k .resume = some k' ∧ Solo n cs l k' := by
  have hst : k.curThread.stack = c :: cs := by rw [Kernel.curThread, h.cur, h.stack]
  refine ⟨_, step_resume hst (hx k.pop h.inExternalIntr), ?_⟩
  refine ⟨h.ticks, h.cur, ?_, ?_, h.readyList, h.sleepList, h.idleThread, ?_, rfl,
    h.inExternalIntr, h.schedulingMode, h.aging⟩
  · show (k.pop.thread 0).stack = cs
    simp [h.cur, h.stack]
  · show (k.pop.thread 0).status = .running
    simp [h.status]
  · show (k.pop.thread 1).stack = _
    simp [h.cur, h.idleStack]

theorem push (h : Solo n cs level k) (c : Code) : Solo n (c :: cs) level (k.push [c]) := by
  refine ⟨h.ticks, h.cur, ?_, ?_, h.readyList, h.sleepList, h.idleThread, ?_, h.intrLevel,
    h.inExternalIntr, h.schedulingMode, h.aging⟩
  · simp [h.cur, h.stack]
  · simp [h.status]
  · simp [h.cur, h.idleStack]

theorem yield (h : Solo n cs level k) :
    ∃ k', threadYield k = .ok k' ∧ Solo n (.intrSetLevel level :: cs) .off k' := by
  have hready : k.yielded.readyList = [0] := by
    simp [Kernel.yielded, h.idleThread, h.cur, h.readyList, listInsertOrdered]
  have hsched : threadYield k = schedule k.yielded := by
    unfold threadYield
    rw [if_neg (by simp [Kernel.curThread, h.cur, h.status]), if_neg (by simp [h.inExternalIntr])]
    rfl
  have hst : k.yielded.curThread.status ≠ .running := by
    show (k.yielded.thread k.cur).status ≠ _
    simp
  refine ⟨_, hsched.trans (schedule_of_nextIs rfl hst (.inl hready)), ?_⟩
  refine ⟨h.ticks, rfl, ?_, ?_, rfl, h.sleepList, h.idleThread, ?_, rfl, h.inExternalIntr,
    h.schedulingMode, h.aging⟩
  · simp [h.cur, h.stack, h.intrLevel]
  · simp
  · simp [h.cur, h.idleStack]

theorem ticked (h : Solo n cs level k) (y : Bool) (l : IntrLevel) :
    Solo (n + 1) cs l
      { k.ticking.counted.flagged y with inExternalIntr := false, intrLevel := l } := by
  unfold Kernel.flagged Kernel.counted Kernel.ticking Kernel.inHandler
  exact ⟨by rw [← h.ticks], h.cur, h.stack, h.status, h.readyList, h.sleepList, h.idleThread,
    h.idleStack, rfl, rfl, h.schedulingMode, h.aging⟩

/-- 次の timer 割り込み。time slice を使い切っていれば、自分に譲る。 -/
theorem tick (h : Solo n [] .on k) : ∃ k', step k (.interrupt .timer) = some k' ∧
    (Solo (n + 1) [] .on k' ∨ Solo (n + 1) [.intrSetLevel .off, .iret] .off k') := by
  have htimer : timerInterrupt k.inHandler =
      .ok (k.ticking.counted.flagged (decide (timeSlice ≤ k.threadTicks + 1))) := by
    show (threadTick k.ticking).bind _ = _
    rw [threadTick_plain (k := k.ticking) h.schedulingMode h.aging rfl]
    show awakeLoop _ k.sleepList _ = _
    rw [h.sleepList]
    rfl
  have hctx := intrHandler_of_ok h.inExternalIntr htimer rfl rfl
  cases hy : decide (timeSlice ≤ k.threadTicks + 1) with
  | false =>
    rw [hy] at hctx
    exact ⟨_, step_interrupt h.intrLevel rfl hctx, .inl (h.ticked false .on)⟩
  | true =>
    rw [hy] at hctx
    have hback : Solo (n + 1) [] .off
        { k.ticking.counted.flagged true with inExternalIntr := false } := h.ticked true .off
    obtain ⟨k', hyield, hsolo⟩ := (hback.push .iret).yield
    exact ⟨k', step_interrupt h.intrLevel rfl (hctx.trans hyield), .inr hsolo⟩

theorem next (h : Solo n [] .on k) :
    ∃ k', Reachable (scheduler.restart k) k' ∧ Solo (n + 1) [] .on k' := by
  obtain ⟨k₁, hstep, h₁ | h₁⟩ := h.tick
  · exact ⟨k₁, Reachable.next (.init rfl) hstep, h₁⟩
  · obtain ⟨k₂, hstep₂, h₂⟩ := h₁.resume fun k₀ _ => rfl
    obtain ⟨k₃, hstep₃, h₃⟩ := h₂.resume fun k₀ _ => rfl
    exact ⟨k₃, ((Reachable.next (.init rfl) hstep).next hstep₂).next hstep₃, h₃⟩

theorem advance (h : Solo n [] .on k) (m : Nat) :
    ∃ k', Reachable (scheduler.restart k) k' ∧ Solo (n + m) [] .on k' := by
  induction m with
  | zero => exact ⟨k, .init rfl, by simpa using h⟩
  | succ m ih =>
    obtain ⟨k₁, hr, h₁⟩ := ih
    obtain ⟨k₂, hr₂, h₂⟩ := h₁.next
    exact ⟨k₂, hr.trans hr₂, by rwa [Int.natCast_succ, ← Int.add_assoc]⟩

theorem step_threadSleep (h : Solo n [] .on k) (hx : threadSleep w k = .ok k') :
    step k (.call (.threadSleep w)) = some k' := by
  have hst : k.curThread.stack = [] := by rw [Kernel.curThread, h.cur, h.stack]
  have hcall : (Code.threadSleep w).callable k = true := by
    simp [Code.callable, h.idleThread, h.cur, Code.isCall]
  simp [step, Pintos.next, hst, hcall, exec, hx]

theorem sleep_returns (h : Solo n [] .on k) (hneg : w ≤ 0) :
    step k (.call (.threadSleep w)) = some k := by
  refine h.step_threadSleep ?_
  simp [threadSleep, Kernel.curThread, h.cur, h.status, h.inExternalIntr, h.intrLevel, hneg]

end Solo

/-- main が時刻 `w` まで眠り、idle thread が残りの code `stack` を持って走っている。 -/
structure Idling (n w : Int) (stack : List Code) (level : IntrLevel) (k : Kernel) : Prop where
  ticks : k.ticks = n
  cur : k.cur = 1
  stack : (k.thread 1).stack = stack
  status : (k.thread 0).status = .blocked
  wakeUpTime : (k.thread 0).wakeUpTime = w
  sleepList : k.sleepList = [0]
  threadTicks : k.threadTicks = 0
  intrLevel : k.intrLevel = level
  inExternalIntr : k.inExternalIntr = false
  schedulingMode : k.schedulingMode = .priority
  aging : k.threadPriorAging = false

def Kernel.dozing (k : Kernel) (w : Int) : Kernel :=
  { k.modify k.cur fun th => { th with wakeUpTime := w } with intrLevel := .off }

theorem dozing_status (k : Kernel) (w : Int) (u : ThreadId) :
    ((k.dozing w).thread u).status = (k.thread u).status :=
  Kernel.modify_field (f := fun th => { th with wakeUpTime := w }) Thread.status fun _ => rfl

theorem dozing_stack (k : Kernel) (w : Int) (u : ThreadId) :
    ((k.dozing w).thread u).stack = (k.thread u).stack :=
  Kernel.modify_field (f := fun th => { th with wakeUpTime := w }) Thread.stack fun _ => rfl

theorem Solo.sleep {n : Int} (h : Solo n [] .on k) (hpos : 0 < w) :
    ∃ k', step k (.call (.threadSleep w)) = some k' ∧
      Idling n w [.intrSetLevel .off, .intrSetLevel .on] .off k' := by
  have hwait : threadSleep w k = schedule ((k.dozing w).waiting (.sleepReturn k.intrLevel)) := by
    unfold threadSleep
    rw [if_neg (by simp [Kernel.curThread, h.cur, h.status]), if_neg (by simp [h.inExternalIntr]),
      if_neg (by simp [h.intrLevel]), if_neg (Int.not_le.mpr hpos)]
    have hrun : (((k.dozing w).push [.sleepReturn k.intrLevel]).thread k.cur).status = .running := by
      rw [Kernel.push_status, dozing_status, h.cur, h.status]
    show threadBlock _ = _
    unfold threadBlock
    rw [if_neg (by simp [h.inExternalIntr]), if_neg (by simp)]
    exact if_neg (not_not_intro hrun)
  have hst : ((k.dozing w).waiting (.sleepReturn k.intrLevel)).curThread.status ≠ .running := by
    show (((k.dozing w).waiting (.sleepReturn k.intrLevel)).thread (k.dozing w).cur).status ≠ _
    simp
  have hnext : ((k.dozing w).waiting (.sleepReturn k.intrLevel)).NextIs 1 [] :=
    Or.inr ⟨h.readyList, rfl, h.idleThread⟩
  have hstep := h.step_threadSleep (hwait.trans (schedule_of_nextIs rfl hst hnext))
  obtain ⟨-, hwake, -⟩ := threadSleep_asleep hpos hstep
  rw [h.cur] at hwake
  have hcur : (k.dozing w).cur = 0 := h.cur
  refine ⟨_, hstep, h.ticks, rfl, ?_, ?_, hwake, ?_, rfl, rfl, h.inExternalIntr,
    h.schedulingMode, h.aging⟩
  · simp [hcur, dozing_stack, h.idleStack]
  · simp [hcur]
  · show listInsertOrdered _ k.cur k.sleepList = [0]
    rw [h.sleepList, h.cur]
    rfl

namespace Idling

variable {n w : Int} {cs : List Code} {level : IntrLevel}

theorem resume {c : Code} {l : IntrLevel} (h : Idling n w (c :: cs) level k)
    (hx : ∀ k₀ : Kernel, k₀.inExternalIntr = false → exec c k₀ = .ok { k₀ with intrLevel := l }) :
    ∃ k', step k .resume = some k' ∧ Idling n w cs l k' := by
  have hst : k.curThread.stack = c :: cs := by rw [Kernel.curThread, h.cur, h.stack]
  refine ⟨_, step_resume hst (hx k.pop h.inExternalIntr), ?_⟩
  refine ⟨h.ticks, h.cur, ?_, ?_, ?_, h.sleepList, h.threadTicks, rfl, h.inExternalIntr,
    h.schedulingMode, h.aging⟩
  · show (k.pop.thread 1).stack = cs
    simp [h.cur, h.stack]
  · show (k.pop.thread 0).status = .blocked
    simp [h.status]
  · exact ((pop_sameVitals k).wakeUpTime 0).trans h.wakeUpTime

theorem wake (h : Idling n w cs .on k) (hdue : w ≤ n + 1) :
    ∃ k', step k (.interrupt .timer) = some k' ∧ k'.sleepList = [] ∧ k'.ticks = n + 1 := by
  have htimer : timerInterrupt k.inHandler =
      .ok (Kernel.readied { k.ticking.counted.flagged false with sleepList := [] } 0) := by
    show (threadTick k.ticking).bind _ = _
    -- 切り替わったばかりなので、time slice は残っている
    have hslice : decide (timeSlice ≤ k.ticking.threadTicks + 1) = false := by
      rw [show k.ticking.threadTicks = 0 from h.threadTicks]
      rfl
    have hlate : (k.thread 0).wakeUpTime ≤ k.ticks + 1 := by
      rw [h.wakeUpTime, h.ticks]
      exact hdue
    rw [threadTick_plain (k := k.ticking) h.schedulingMode h.aging rfl]
    show awakeLoop (k.ticks + 1) k.sleepList (k.ticking.counted.flagged (decide _)) = _
    rw [hslice, h.sleepList]
    have hunblock := threadUnblock_of_blocked
      (k := { k.ticking.counted.flagged false with sleepList := [] }) h.status
    exact (if_pos hlate).trans (congrArg (Except.bind · (awakeLoop (k.ticks + 1) [])) hunblock)
  have hctx := intrHandler_of_ok h.inExternalIntr htimer rfl rfl
  exact ⟨_, step_interrupt h.intrLevel rfl hctx, rfl, congrArg (· + 1) h.ticks⟩

end Idling

theorem Solo.sleep_wakes {n : Int} (h : Solo n [] .on k) (hpos : 0 < w) (hdue : w ≤ n + 1) :
    ∃ k₁ k', step k (.call (.threadSleep w)) = some k₁ ∧ Reachable (scheduler.restart k₁) k' ∧
      k'.sleepList = [] ∧ k'.ticks = n + 1 := by
  obtain ⟨k₁, hstep₁, h₁⟩ := h.sleep hpos
  obtain ⟨k₂, hstep₂, h₂⟩ := h₁.resume fun _ _ => rfl
  obtain ⟨k₃, hstep₃, h₃⟩ := h₂.resume (l := .on) fun k₀ hctx => by
    simp [exec, intrSetLevel, intrEnable, hctx]
  obtain ⟨k₄, hstep₄, hsleep, hticks⟩ := h₃.wake hdue
  exact ⟨k₁, k₄, hstep₁, ((Reachable.next (.init rfl) hstep₂).next hstep₃).next hstep₄, hsleep,
    hticks⟩

/-! ## `timer_sleep` -/

/--
**時刻 `start` に呼んだ `timer_sleep (ticks)` は、早く戻らない。**

thread は時刻 `start` の状態 `k₀` で時計を読む。どれだけ割り込みが入り、ほかの thread が走った
後でも、`k₁` で `thread_sleep` を呼んだなら、その先では `start + ticks` まで眠っている。
-/
def NeverEarly (start ticks : Int) : Prop :=
  ∀ k₀ k₁ k₂ k', Reachable scheduler k₀ → k₀.ticks = start →
    Reachable (scheduler.restart k₀) k₁ → k₁.cur = k₀.cur →
    (∃ c ∈ timerSleep start ticks, step k₁ (.call c) = some k₂) →
    Reachable (scheduler.restart k₂) k' →
    k₀.cur ∈ k'.sleepList ∨ start + ticks ≤ k'.ticks

/-- **時刻 `n ≥ 0` に main だけが走っている状態がある。** -/
theorem exists_solo_at {n : Int} (h : 0 ≤ n) : ∃ k, Reachable scheduler k ∧ Solo n [] .on k := by
  obtain ⟨k, hr, hk⟩ := exists_solo
  obtain ⟨k', hr', hk'⟩ := hk.advance n.toNat
  rw [Int.toNat_of_nonneg h, Int.zero_add] at hk'
  exact ⟨k', hr.trans hr', hk'⟩

/--
**`timer_sleep` が早く戻らないのは、起きる時刻が `int` に収まるときと、
1 tick だけ眠って折り返した時刻が正のときに限る。**

* 折り返した時刻が正でなければ、眠らずに戻る
* 正でも、2 tick 以上眠るなら、折り返した時刻か次の timer 割り込みで起きる
* 1 tick なら、次の timer 割り込みはもう `start + 1` である
-/
theorem timer_sleep_never_early_iff {start ticks : Int} (hstart : 0 ≤ start) (hpos : 0 < ticks) :
    NeverEarly start ticks ↔
      start + ticks < 2 ^ 31 ∨ ticks = 1 ∧ 0 < int32 (start + ticks) := by
  have hcode : timerSleep start ticks = some (.threadSleep (int32 (start + ticks))) :=
    if_neg (Int.not_le.mpr hpos)
  constructor
  · intro h
    by_contra hnot
    rw [not_or, Int.not_lt] at hnot
    have hle := int32_le_sub hnot.1
    by_cases hw : int32 (start + ticks) ≤ 0
    · -- 眠らずに戻る
      obtain ⟨k, hr, hk⟩ := exists_solo_at hstart
      rcases h k k k k hr hk.ticks (.init rfl) rfl ⟨_, hcode, hk.sleep_returns hw⟩ (.init rfl)
        with hin | hlate
      · rw [hk.sleepList] at hin
        cases hin
      · rw [hk.ticks] at hlate
        omega
    · -- 眠る直前に、折り返した時刻の一つ前まで進んでいる
      have hw := Int.not_le.mp hw
      obtain ⟨k₀, hr, h₀⟩ := exists_solo_at hstart
      obtain ⟨k₁, hr₁, h₁⟩ := h₀.advance (int32 (start + ticks) - 1 - start).toNat
      obtain ⟨k₂, k', hstep, hr', hsleep, hticks⟩ := h₁.sleep_wakes hw (by omega)
      rcases h k₀ k₁ k₂ k' hr h₀.ticks hr₁ (h₁.cur.trans h₀.cur.symm) ⟨_, hcode, hstep⟩ hr'
        with hin | hlate
      · rw [hsleep] at hin
        cases hin
      · have hone : ticks ≠ 1 := fun he => hnot.2 ⟨he, hw⟩
        omega
  · rintro h k₀ k₁ k₂ k' hr hticks hr₁ hcur ⟨c, hc, hstep⟩ hr'
    obtain rfl := Option.some.inj (hcode.symm.trans hc)
    have hle := restart_ticks_le hr hr₁
    have hw : 0 < int32 (start + ticks) := by
      rcases h with hsmall | h
      · rw [int32_of_inInt32 ⟨by omega, hsmall⟩]
        omega
      · exact h.2
    rw [← hcur]
    rcases asleep_until hw (hr.trans hr₁) hstep hr' with ⟨hin, -⟩ | ⟨hdue, hlt⟩
    · exact .inl hin
    · refine .inr ?_
      rcases h with hsmall | ⟨rfl, -⟩
      · rwa [int32_of_inInt32 ⟨by omega, hsmall⟩] at hdue
      · omega

/-- 起動して 100 tick 眠る。 -/
theorem timer_sleep_never_early_iff_hundred : NeverEarly 0 100 :=
  (timer_sleep_never_early_iff (by decide) (by decide)).mpr (.inl (by decide))

/--
**早く戻る `timer_sleep` がある。**

* 時刻 0 に `2^31` tick 眠ろうとすると、眠らずに戻る
* `2^32 + 1` tick 眠ろうとすると、時刻 1 に起きる
-/
theorem exists_timer_sleep_early : ¬ NeverEarly 0 (2 ^ 31) ∧ ¬ NeverEarly 0 (2 ^ 32 + 1) := by
  obtain ⟨k, hr, hk⟩ := exists_solo
  refine ⟨fun h => ?_, fun h => ?_⟩
  · rcases h k k k k hr hk.ticks (.init rfl) rfl ⟨_, rfl, hk.sleep_returns (by decide)⟩ (.init rfl)
      with hin | hlate
    · rw [hk.sleepList] at hin
      cases hin
    · rw [hk.ticks] at hlate
      exact absurd hlate (by decide)
  · obtain ⟨k₂, k', hstep, hr', hsleep, hticks⟩ :=
      hk.sleep_wakes (w := int32 (0 + (2 ^ 32 + 1))) (by decide) (by decide)
    rcases h k k k₂ k' hr hk.ticks (.init rfl) rfl ⟨_, rfl, hstep⟩ hr' with hin | hlate
    · rw [hsleep] at hin
      cases hin
    · rw [hticks] at hlate
      exact absurd hlate (by decide)

end Pintos
