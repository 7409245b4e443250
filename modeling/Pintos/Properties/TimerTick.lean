import Pintos.Properties.Vitals

/-!
# timer 割り込みの中

`timer_interrupt` は `thread_tick` と `thread_awake` からなる。

* `thread_tick` が書き換えるのは priority、`recent_cpu`、`load_avg`、`ready_list` の並びと、
  time slice の数だけである（`TickFrame`）
* `thread_awake` は、`sleep_list` が起きる時刻の順に並んでいれば、
  時刻の来た thread をちょうど全部起こす（`Woken`）

どちらの `ASSERT` も偽にならない。
-/

namespace Pintos

open Infra

variable {k k' k₁ k₂ : Kernel}

/-! ## `thread_tick` が変えないもの -/

/-- `thread_tick` の前後の関係。 -/
structure TickFrame (k k' : Kernel) : Prop where
  eq : k' = { k with
    thread := k'.thread, readyList := k'.readyList, loadAvg := k'.loadAvg,
    threadTicks := k'.threadTicks, yieldOnReturn := k'.yieldOnReturn }
  ready : k'.readyList.Perm k.readyList
  status : ∀ t, (k'.thread t).status = (k.thread t).status
  stack : ∀ t, (k'.thread t).stack = (k.thread t).stack
  nice : ∀ t, (k'.thread t).nice = (k.thread t).nice
  wakeUpTime : ∀ t, (k'.thread t).wakeUpTime = (k.thread t).wakeUpTime

namespace TickFrame

theorem refl (k : Kernel) : TickFrame k k :=
  ⟨rfl, .refl _, fun _ => rfl, fun _ => rfl, fun _ => rfl, fun _ => rfl⟩

theorem trans (h : TickFrame k k₁) (h' : TickFrame k₁ k₂) : TickFrame k k₂ where
  eq := by rw [h'.eq, h.eq]
  ready := h'.ready.trans h.ready
  status t := (h'.status t).trans (h.status t)
  stack t := (h'.stack t).trans (h.stack t)
  nice t := (h'.nice t).trans (h.nice t)
  wakeUpTime t := (h'.wakeUpTime t).trans (h.wakeUpTime t)

theorem modify {t : ThreadId} {f : Thread → Thread} (hstatus : ∀ th, (f th).status = th.status)
    (hstack : ∀ th, (f th).stack = th.stack) (hnice : ∀ th, (f th).nice = th.nice)
    (hwake : ∀ th, (f th).wakeUpTime = th.wakeUpTime) : TickFrame k (k.modify t f) where
  eq := rfl
  ready := .refl _
  status _ := Kernel.modify_field Thread.status hstatus
  stack _ := Kernel.modify_field Thread.stack hstack
  nice _ := Kernel.modify_field Thread.nice hnice
  wakeUpTime _ := Kernel.modify_field Thread.wakeUpTime hwake

theorem foldl {f : Kernel → ThreadId → Kernel} (hf : ∀ k t, TickFrame k (f k t))
    (ts : List ThreadId) (k : Kernel) : TickFrame k (ts.foldl f k) := by
  induction ts generalizing k with
  | nil => exact .refl k
  | cons t ts ih => exact (hf k t).trans (ih (f k t))

variable (h : TickFrame k k')
include h

theorem idleThread : k'.idleThread = k.idleThread := by rw [h.eq]

theorem allList : k'.allList = k.allList := by rw [h.eq]

theorem sleepList : k'.sleepList = k.sleepList := by rw [h.eq]

theorem sema : k'.sema = k.sema := by rw [h.eq]

theorem ticks : k'.ticks = k.ticks := by rw [h.eq]

theorem inExternalIntr : k'.inExternalIntr = k.inExternalIntr := by rw [h.eq]

end TickFrame

/-! ## `thread_tick` -/

theorem calculatePriority_tickFrame (t : ThreadId) (k : Kernel) :
    TickFrame k (calculatePriority t k) := by
  unfold calculatePriority
  split
  · exact .refl k
  · exact .modify (fun _ => rfl) (fun _ => rfl) (fun _ => rfl) fun _ => rfl

theorem calculateRecentCpu_tickFrame (t : ThreadId) (k : Kernel) :
    TickFrame k (calculateRecentCpu t k) := by
  unfold calculateRecentCpu
  split
  · exact .refl k
  · exact .modify (fun _ => rfl) (fun _ => rfl) (fun _ => rfl) fun _ => rfl

theorem updateRecentCpu_tickFrame (t : ThreadId) (k : Kernel) :
    TickFrame k (updateRecentCpu t k) := by
  unfold updateRecentCpu
  split
  · exact .refl k
  · exact .modify (fun _ => rfl) (fun _ => rfl) (fun _ => rfl) fun _ => rfl

theorem threadAging_tickFrame (k : Kernel) : TickFrame k (threadAging k) := by
  refine .foldl (fun k t => .modify ?_ ?_ ?_ ?_) k.readyList k
  all_goals
    intro th
    split <;> rfl

theorem agingTick_tickFrame (k : Kernel) : TickFrame k (agingTick k) := by
  unfold agingTick
  split
  · exact threadAging_tickFrame k
  · exact .refl k

theorem updateLoadAvgAndRecentCpu_tickFrame (k : Kernel) :
    TickFrame k (updateLoadAvgAndRecentCpu k) := by
  have hload : TickFrame k (calculateLoadAvg k) :=
    ⟨rfl, .refl _, fun _ => rfl, fun _ => rfl, fun _ => rfl, fun _ => rfl⟩
  exact hload.trans (.foldl (fun k t => calculateRecentCpu_tickFrame t k) k.allList _)

theorem sortReadyList_tickFrame (k : Kernel) : TickFrame k (sortReadyList k) :=
  ⟨rfl, listSort_perm _ _, fun _ => rfl, fun _ => rfl, fun _ => rfl, fun _ => rfl⟩

/-- 戻るときに譲るかどうかを書き換えた状態。 -/
def Kernel.flagged (k : Kernel) (y : Bool) : Kernel := { k with yieldOnReturn := y }

theorem flagged_tickFrame (k : Kernel) (y : Bool) : TickFrame k (k.flagged y) :=
  ⟨rfl, .refl _, fun _ => rfl, fun _ => rfl, fun _ => rfl, fun _ => rfl⟩

theorem intrYieldOnReturn_of_context (h : k.inExternalIntr = true) :
    intrYieldOnReturn k = .ok (k.flagged true) := if_pos h

def Kernel.reprioritized (k : Kernel) : Kernel := sortReadyList (threadForeach calculatePriority k)

theorem reprioritized_tickFrame (k : Kernel) : TickFrame k k.reprioritized :=
  (TickFrame.foldl (fun k t => calculatePriority_tickFrame t k) k.allList k).trans
    (sortReadyList_tickFrame _)

theorem updatePriorityAndYield_total (hctx : k.inExternalIntr = true) :
    ∃ y, updatePriorityAndYield k = .ok (k.reprioritized.flagged y) := by
  have hctx' : k.reprioritized.inExternalIntr = true :=
    (reprioritized_tickFrame k).inExternalIntr.trans hctx
  have hkeep : ∃ y, (Except.ok k.reprioritized : Except Panic Kernel) =
      .ok (k.reprioritized.flagged y) := ⟨k.reprioritized.yieldOnReturn, rfl⟩
  unfold updatePriorityAndYield
  dsimp only
  split
  · exact hkeep
  · split
    · exact ⟨true, intrYieldOnReturn_of_context hctx'⟩
    · exact hkeep

def Kernel.everySecond (k : Kernel) : Kernel :=
  if k.ticks % timerFreq = 0 then updateLoadAvgAndRecentCpu k else k

theorem everySecond_tickFrame (k : Kernel) : TickFrame k k.everySecond := by
  unfold Kernel.everySecond
  split
  · exact updateLoadAvgAndRecentCpu_tickFrame k
  · exact .refl k

def Kernel.everySlice (k : Kernel) : Kernel :=
  if k.ticks % timeSlice = 0 then k.reprioritized else k

theorem everySlice_tickFrame (k : Kernel) : TickFrame k k.everySlice := by
  unfold Kernel.everySlice
  split
  · exact reprioritized_tickFrame k
  · exact .refl k

/-- MLFQS の tick が計算する状態。`yield_on_return` は別に決まる。 -/
def Kernel.mlfqsTicked (k : Kernel) : Kernel := (updateRecentCpu k.cur k).everySecond.everySlice

theorem mlfqsTick_total (hctx : k.inExternalIntr = true) :
    ∃ y, mlfqsTick k = .ok (k.mlfqsTicked.flagged y) := by
  have hctx' : (updateRecentCpu k.cur k).everySecond.inExternalIntr = true :=
    (((updateRecentCpu_tickFrame k.cur k).trans (everySecond_tickFrame _)).inExternalIntr).trans hctx
  show ∃ y, (if (updateRecentCpu k.cur k).everySecond.ticks % timeSlice = 0 then
    updatePriorityAndYield (updateRecentCpu k.cur k).everySecond
    else Except.ok (updateRecentCpu k.cur k).everySecond) = _
  unfold Kernel.mlfqsTicked Kernel.everySlice
  split
  · exact updatePriorityAndYield_total hctx'
  · exact ⟨_, rfl⟩

def Kernel.modeTicked (k : Kernel) : Kernel :=
  match k.schedulingMode with
  | .priority => k
  | .mlfqs => k.mlfqsTicked

theorem modeTicked_tickFrame (k : Kernel) : TickFrame k k.modeTicked := by
  unfold Kernel.modeTicked
  split
  · exact .refl k
  · exact ((updateRecentCpu_tickFrame k.cur k).trans (everySecond_tickFrame _)).trans
      (everySlice_tickFrame _)

theorem modeTick_total (hctx : k.inExternalIntr = true) :
    ∃ y, modeTick k = .ok (k.modeTicked.flagged y) := by
  unfold modeTick Kernel.modeTicked
  cases k.schedulingMode with
  | priority => exact ⟨k.yieldOnReturn, rfl⟩
  | mlfqs => exact mlfqsTick_total hctx

def Kernel.counted (k : Kernel) : Kernel := { k with threadTicks := k.threadTicks + 1 }

theorem timeSliceTick_total (hctx : k.inExternalIntr = true) :
    ∃ y, timeSliceTick k = .ok (k.counted.flagged y) := by
  unfold timeSliceTick
  split
  · exact ⟨true, intrYieldOnReturn_of_context (k := k.counted) hctx⟩
  · exact ⟨k.yieldOnReturn, rfl⟩

/-- **割り込みの中の `thread_tick` は、検査に掛からずに終わる。** -/
theorem threadTick_total (hctx : k.inExternalIntr = true) :
    ∃ y y', threadTick k = .ok (agingTick ((k.counted.flagged y).modeTicked.flagged y')) := by
  obtain ⟨y, hslice⟩ := timeSliceTick_total hctx
  obtain ⟨y', hmode⟩ := modeTick_total (k := k.counted.flagged y) hctx
  refine ⟨y, y', ?_⟩
  unfold threadTick
  rw [hslice]
  show (modeTick (k.counted.flagged y)).bind _ = _
  rw [hmode]
  rfl

theorem threadTick_tickFrame (h : threadTick k = .ok k') (hctx : k.inExternalIntr = true) :
    TickFrame k k' := by
  obtain ⟨y, y', ht⟩ := threadTick_total hctx
  rw [Except.ok.inj (h.symm.trans ht)]
  have hcount : TickFrame k (k.counted.flagged y) :=
    ⟨rfl, .refl _, fun _ => rfl, fun _ => rfl, fun _ => rfl, fun _ => rfl⟩
  exact (hcount.trans (modeTicked_tickFrame _)).trans
    ((flagged_tickFrame _ y').trans (agingTick_tickFrame _))

/-! ## `thread_awake` -/

/-- 時刻 `now` に起きる時刻が来ている。 -/
def Kernel.dueBy (k : Kernel) (now : Int) (t : ThreadId) : Bool :=
  decide ((k.thread t).wakeUpTime ≤ now)

/-- `sleep_list` が、起きる時刻の早い順に並んでいる。 -/
def SleepSorted (k : Kernel) : Prop := ListSorted k.cmpWakeUpTime k.sleepList

theorem sleepSorted_iff : SleepSorted k ↔
    k.sleepList.Pairwise fun a b => (k.thread a).wakeUpTime ≤ (k.thread b).wakeUpTime := by
  unfold SleepSorted ListSorted
  simp only [Kernel.cmpWakeUpTime, decide_eq_false_iff_not, Int.not_lt]

/-- `k` から、時刻 `now` に起きるべき thread をちょうど全部起こした状態。 -/
structure Woken (now : Int) (k k' : Kernel) : Prop where
  /-- 残るのは、起きる時刻がまだ来ていない thread である。 -/
  sleepList : k'.sleepList = k.sleepList.filter fun t => !k.dueBy now t
  /-- 起こした thread は、`ready_list` に一度ずつ入る。 -/
  readyList : k'.readyList.Perm (k.sleepList.filter (k.dueBy now) ++ k.readyList)
  status : ∀ t, (k'.thread t).status =
    if t ∈ k.sleepList ∧ k.dueBy now t = true then .ready else (k.thread t).status
  vitals : ∀ t, (k'.thread t).vitals = (k.thread t).vitals
  ticks : k'.ticks = k.ticks
  sema : k'.sema = k.sema
  allList : k'.allList = k.allList
  loadAvg : k'.loadAvg = k.loadAvg

theorem Woken.cons {now : Int} {t : ThreadId} {ts : List ThreadId} (hts : k.sleepList = t :: ts)
    (hnot : t ∉ ts) (hdue : k.dueBy now t = true)
    (h : Woken now (Kernel.readied { k with sleepList := ts } t) k') : Woken now k k' := by
  have hvitals := (readied_sameVitals { k with sleepList := ts } t).vitals
  have hdueBy : (Kernel.readied { k with sleepList := ts } t).dueBy now = k.dueBy now := by
    funext u
    unfold Kernel.dueBy
    rw [(readied_sameVitals { k with sleepList := ts } t).wakeUpTime]
  have hready : (Kernel.readied { k with sleepList := ts } t).readyList.Perm (t :: k.readyList) :=
    listInsertOrdered_perm ..
  have hsleep : (Kernel.readied { k with sleepList := ts } t).sleepList = ts := rfl
  constructor
  case sleepList => rw [h.sleepList, hdueBy, hsleep, hts, List.filter_cons_of_neg (by simp [hdue])]
  case readyList =>
    rw [hts, List.filter_cons_of_pos hdue]
    refine h.readyList.trans ?_
    rw [hdueBy, hsleep]
    exact (hready.append_left _).trans List.perm_middle
  case status =>
    intro u
    have hold : ((Kernel.readied { k with sleepList := ts } t).thread u).status =
        if u = t then .ready else (k.thread u).status := Kernel.setStatus_status k t u .ready
    rw [h.status, hdueBy, hsleep, hold, hts]
    by_cases hu : u = t
    · subst hu
      simp [hnot, hdue]
    · simp [hu]
  case vitals => exact fun u => (h.vitals u).trans (hvitals u)
  case ticks => exact h.ticks
  case sema => exact h.sema
  case allList => exact h.allList
  case loadAvg => exact h.loadAvg

/-- **並んだ `sleep_list` から、`thread_awake` は時刻の来た thread をちょうど全部起こす。** -/
theorem awakeLoop_woken (now : Int) (ts : List ThreadId) (hts : k.sleepList = ts)
    (hs : SleepSorted k) (hnd : ts.Nodup) (hb : ∀ t ∈ ts, (k.thread t).status = .blocked) :
    ∃ k', awakeLoop now ts k = .ok k' ∧ Woken now k k' := by
  induction ts generalizing k with
  | nil =>
    refine ⟨k, rfl, ?_, ?_, ?_, fun _ => rfl, rfl, rfl, rfl, rfl⟩
    · rw [hts]; rfl
    · rw [hts]; exact .refl _
    · intro t; simp [hts]
  | cons t ts ih =>
    rw [sleepSorted_iff, hts] at hs
    obtain ⟨hfirst, hrest⟩ := List.pairwise_cons.mp hs
    obtain ⟨hnot, hnd⟩ := List.nodup_cons.mp hnd
    by_cases hdue : (k.thread t).wakeUpTime ≤ now
    · have hwake := (readied_sameVitals { k with sleepList := ts } t).wakeUpTime
      obtain ⟨k', hrun, hwoken⟩ := ih (k := Kernel.readied { k with sleepList := ts } t) rfl
        (by
          rw [sleepSorted_iff]
          exact hrest.imp fun hab => by rw [hwake, hwake]; exact hab)
        hnd (by
          intro u hu
          have hne : u ≠ t := fun he => hnot (he ▸ hu)
          rw [show ((Kernel.readied { k with sleepList := ts } t).thread u).status = _ from
            Kernel.setStatus_status k t u .ready, if_neg hne]
          exact hb u (List.mem_cons_of_mem t hu))
      refine ⟨k', ?_, .cons hts hnot (decide_eq_true hdue) hwoken⟩
      rw [awakeLoop, if_pos hdue, threadUnblock_of_blocked (k := { k with sleepList := ts })
        (hb t (List.mem_cons_self ..))]
      exact hrun
    · -- 先頭がまだなら、残りもまだである
      have hlate : ∀ u ∈ k.sleepList, k.dueBy now u = false := by
        intro u hu
        rw [hts] at hu
        refine decide_eq_false ?_
        rcases List.mem_cons.mp hu with rfl | hu
        · exact hdue
        · have := hfirst u hu
          omega
      refine ⟨k, by rw [awakeLoop, if_neg hdue], ?_, ?_, ?_, fun _ => rfl, rfl, rfl, rfl, rfl⟩
      · exact (List.filter_eq_self.mpr fun u hu => by simp [hlate u hu]).symm
      · rw [List.filter_eq_nil_iff.mpr fun u hu => by simp [hlate u hu]]
        exact .refl _
      · intro u
        rw [if_neg]
        rintro ⟨hu, hd⟩
        rw [hlate u hu] at hd
        cases hd

end Pintos
