import Pintos.Properties.FixedPoint
import Pintos.Properties.Sleep

/-!
# priority の範囲

priority を書く code は五つある。

* `init_thread` は範囲を `ASSERT` する
* `thread_aging` は `PRI_MAX` で止まる
* `calculate_priority` は範囲に収める。`thread_set_nice` と MLFQS の tick はこれを使う
* `thread_set_priority` は何も調べない

最後の一つに範囲の外の値を渡さない限り、どの thread の priority も範囲に収まる。
-/

namespace Pintos

open Infra Function

variable {k k' : Kernel}

def Thread.InRange (th : Thread) : Prop := priMin ≤ th.priority ∧ th.priority ≤ priMax

/-- **どの thread の priority も範囲に収まる。** -/
def PrioritiesInRange (k : Kernel) : Prop := ∀ t, (k.thread t).InRange

namespace PrioritiesInRange

theorem same (h : PrioritiesInRange k) (hs : SameVitals k k') : PrioritiesInRange k' := by
  intro t
  rw [Thread.InRange, hs.priority]
  exact h t

theorem modify (h : PrioritiesInRange k) {t : ThreadId} {f : Thread → Thread}
    (hf : ∀ th, th.InRange → (f th).InRange) : PrioritiesInRange (k.modify t f) := by
  intro u
  by_cases hu : u = t
  · subst hu
    rw [Kernel.modify_thread_self]
    exact hf _ (h u)
  · rw [Kernel.modify_thread_of_ne hu]
    exact h u

theorem foldl {f : Kernel → ThreadId → Kernel}
    (hf : ∀ k t, PrioritiesInRange k → PrioritiesInRange (f k t)) (ts : List ThreadId)
    (h : PrioritiesInRange k) : PrioritiesInRange (ts.foldl f k) := by
  induction ts generalizing k with
  | nil => exact h
  | cons t ts ih => exact ih (hf k t h)

end PrioritiesInRange

/-! ## priority を書く code -/

/-- `calculate_priority` の式は、途中の計算がどう溢れても範囲に収まる。 -/
theorem mlfqsPriority_inRange (recentCpu nice : Int) :
    priMin ≤ mlfqsPriority recentCpu nice ∧ mlfqsPriority recentCpu nice ≤ priMax := by
  rw [mlfqsPriority_eq]
  exact ⟨le_max_left .., max_le (by decide) (min_le_left ..)⟩

theorem calculatePriority_inRange (t : ThreadId) (h : PrioritiesInRange k) :
    PrioritiesInRange (calculatePriority t k) := by
  unfold calculatePriority
  split
  · exact h
  · exact h.modify fun th _ => mlfqsPriority_inRange th.recentCpu th.nice

theorem calculateRecentCpu_inRange (t : ThreadId) (h : PrioritiesInRange k) :
    PrioritiesInRange (calculateRecentCpu t k) := by
  unfold calculateRecentCpu
  split
  · exact h
  · exact h.modify fun _ hth => hth

theorem updateRecentCpu_inRange (t : ThreadId) (h : PrioritiesInRange k) :
    PrioritiesInRange (updateRecentCpu t k) := by
  unfold updateRecentCpu
  split
  · exact h
  · exact h.modify fun _ hth => hth

section

variable (h : PrioritiesInRange k)
include h

theorem threadAging_inRange : PrioritiesInRange (threadAging k) := by
  refine h.foldl (fun k t hk => hk.modify fun th hth => ?_) k.readyList
  split
  · next hlt =>
    have hle : th.priority + 1 ≤ priMax := hlt
    exact ⟨hth.1.trans (Int.le_add_one le_rfl), hle⟩
  · exact hth

theorem agingTick_inRange : PrioritiesInRange (agingTick k) := by
  unfold agingTick
  split
  · exact threadAging_inRange h
  · exact h

theorem everySecond_inRange : PrioritiesInRange k.everySecond := by
  unfold Kernel.everySecond
  split
  · exact PrioritiesInRange.foldl (k := calculateLoadAvg k)
      (fun k t hk => calculateRecentCpu_inRange t hk) _ h
  · exact h

theorem everySlice_inRange : PrioritiesInRange k.everySlice := by
  unfold Kernel.everySlice
  split
  · exact h.foldl (fun k t hk => calculatePriority_inRange t hk) k.allList
  · exact h

theorem modeTicked_inRange : PrioritiesInRange k.modeTicked := by
  unfold Kernel.modeTicked
  split
  · exact h
  · exact everySlice_inRange (everySecond_inRange (updateRecentCpu_inRange k.cur h))

end

theorem timerInterrupt_inRange (hw : WellFormed k) (hs : SleepSorted k) {k₁ : Kernel}
    (hx : timerInterrupt k.inHandler = .ok k₁) (h : PrioritiesInRange k) : PrioritiesInRange k₁ := by
  obtain ⟨y, y', k₂, k₃, rfl, -, hrun, hwoken⟩ := timerInterrupt_steps hw hs
  obtain rfl := Except.ok.inj (hrun.symm.trans hx)
  have htick := agingTick_inRange (k := (k.ticking.counted.flagged y).modeTicked.flagged y')
    (modeTicked_inRange (k := k.ticking.counted.flagged y) h)
  intro t
  rw [Thread.InRange, show (k₃.thread t).priority = _ from
    congrArg Vitals.priority (hwoken.vitals t)]
  exact htick t

theorem created_inRange {p : Int} (h : PrioritiesInRange k) (hp : priMin ≤ p ∧ p ≤ priMax)
    (stack : List Code) : PrioritiesInRange (k.created p stack) := by
  have hinit : (initThread k p stack).InRange := by
    unfold initThread
    split
    · exact hp
    · exact mlfqsPriority_inRange ..
  have halloc : PrioritiesInRange (k.allocated p stack) := by
    intro t
    by_cases ht : t = k.nextThread
    · subst ht
      rw [show (k.allocated p stack).thread _ = _ from update_self ..]
      exact hinit
    · rw [show (k.allocated p stack).thread t = _ from update_of_ne ht ..]
      exact h t
  exact halloc.same (push_sameVitals _ _)

theorem threadCreate_inRange {page : Bool} {p : Int} (h : PrioritiesInRange k)
    (hx : threadCreate page p k = .ok k') : PrioritiesInRange k' := by
  rcases threadCreate_ok hx with rfl | ⟨hp, rfl⟩
  · exact h
  · exact created_inRange h hp _

theorem threadSleep_inRange {w : Int} (h : PrioritiesInRange k)
    (hx : threadSleep w k = .ok k') : PrioritiesInRange k' := by
  obtain ⟨-, -, ⟨-, rfl⟩ | ⟨-, hx⟩⟩ := threadSleep_ok hx
  · exact h
  · have hmod : PrioritiesInRange (k.modify k.cur fun th => { th with wakeUpTime := w }) :=
      h.modify fun _ hth => hth
    have hpush := hmod.same (push_sameVitals _ [.sleepReturn k.intrLevel])
    intro t
    rw [Thread.InRange, (threadBlock_sameVitals hx).priority]
    exact hpush t

theorem threadExit_inRange (h : PrioritiesInRange k) (hx : threadExit k = .ok k') :
    PrioritiesInRange k' := by
  have hdying : PrioritiesInRange k.exited :=
    fun t => h.same (setStatus_sameVitals k k.cur .dying) t
  exact hdying.same (schedule_sameVitals (threadExit_ok hx).2)

theorem threadSetNice_inRange {n : Int} (h : PrioritiesInRange k)
    (hx : threadSetNice n k = .ok k') : PrioritiesInRange k' := by
  have hmod : PrioritiesInRange (k.modify k.cur fun th => { th with nice := n }) :=
    h.modify fun _ hth => hth
  have hcalc : PrioritiesInRange (sortReadyList (calculatePriority k.cur
      (intrDisable (k.modify k.cur fun th => { th with nice := n })))) :=
    calculatePriority_inRange k.cur (k := intrDisable _) hmod
  exact hcalc.same (sameVitals_callRule.testMaxPriority hx)

theorem threadSetPriority_priority {p : Int} (hx : threadSetPriority p k = .ok k') (t : ThreadId) :
    (k'.thread t).priority =
      if k.schedulingMode = .priority ∧ t = k.cur then p else (k.thread t).priority := by
  rcases threadSetPriority_ok hx with ⟨hmode, rfl⟩ | ⟨hmode, hx⟩
  · simp [hmode]
  · have hs : SameVitals (k.modify k.cur fun th => { th with priority := p }) k' := by
      rcases hx with hx | ⟨-, hx⟩
      · exact sameVitals_callRule.testMaxPriority (k := intrDisable _) hx
      · exact sameVitals_callRule.intrSetLevel (k := intrDisable _) hx
    rw [hs.priority]
    by_cases ht : t = k.cur
    · subst ht
      simp [hmode, Kernel.modify_thread_self]
    · simp [ht, Kernel.modify_thread_of_ne ht]

/-! ## 一歩 -/

def Event.newPriority? : Event → Option Int
  | .call (.threadSetPriority p) => some p
  | _ => none

/-- priority scheduler で `thread_set_priority` に渡す値が、範囲に収まる。 -/
def SetsInRange (k : Kernel) (e : Event) : Prop :=
  ∀ p ∈ e.newPriority?, k.schedulingMode = .priority → priMin ≤ p ∧ p ≤ priMax

instance (k : Kernel) (e : Event) : Decidable (SetsInRange k e) :=
  inferInstanceAs (Decidable (∀ _ ∈ _, _))

theorem exec_inRange {c : Code} (h : PrioritiesInRange k) (hx : exec c k = .ok k')
    (hc : ∀ p, c ≠ .threadSetPriority p) : PrioritiesInRange k' := by
  cases hr : c.rewrites with
  | false => exact h.same (sameVitals_callRule.exec hr hx)
  | true =>
    cases c with
    | threadCreate page p => exact threadCreate_inRange h hx
    | threadExit => exact threadExit_inRange h hx
    | threadSleep w => exact threadSleep_inRange h hx
    | threadSetPriority p => exact absurd rfl (hc p)
    | threadSetNice n => exact threadSetNice_inRange h hx
    | startLoadAvg =>
      rw [← Except.ok.inj hx]
      exact h
    | _ => cases hr

/-- **一歩の後も範囲に収まるのは、`SetsInRange` のときに限る。** -/
theorem step_inRange_iff {e : Event} (hw : WellFormed k) (hs : SleepSorted k)
    (h : PrioritiesInRange k) (hstep : step k e = some k') :
    PrioritiesInRange k' ↔ SetsInRange k e := by
  have hother : e.newPriority? = none → SetsInRange k e := by
    intro hnone p hp
    rw [hnone] at hp
    cases hp
  rcases step_cases hstep with ⟨c, rfl, -, -, hx⟩ | ⟨c, cs, rfl, hst, hx⟩ | ⟨hd, rfl, -, -, hx⟩
  · cases c with
    | threadSetPriority p =>
      have hval := threadSetPriority_priority hx
      constructor
      · rintro h' q ⟨⟩ hmode
        have hcur := h' k.cur
        rwa [Thread.InRange, hval, if_pos ⟨hmode, rfl⟩] at hcur
      · intro hp t
        rw [Thread.InRange, hval]
        split
        · next hcond => exact hp p rfl hcond.1
        · exact h t
    | _ => exact iff_of_true (exec_inRange h hx nofun) (hother rfl)
  · refine iff_of_true (exec_inRange (h.same (pop_sameVitals k)) hx ?_) (hother rfl)
    -- `thread_set_priority` は途中の code ではない
    rintro p rfl
    have hframe := hw.framesOk.isFrame k.cur (.threadSetPriority p) (by
      rw [show (k.thread k.cur).stack = _ from hst]; simp)
    cases hframe
  · refine iff_of_true ?_ (hother rfl)
    obtain ⟨k₁, hrun, hsame⟩ := intrHandler_sameVitals hx
    refine PrioritiesInRange.same ?_ hsame
    by_cases hne : hd = .timer
    · subst hne
      exact timerInterrupt_inRange hw hs hrun h
    · exact h.same (Handler.run_sameVitals (k := k.inHandler) hne hrun)

theorem boot_inRange (mode : SchedulingMode) (aging : Bool) (values : Nat → BitVec 32) :
    PrioritiesInRange (boot mode aging values) := by
  have hinit : PrioritiesInRange (threadInit mode aging values) := by
    intro t
    show (update (fun _ => noThread) 0 (initialThread mode) t).InRange
    by_cases ht : t = 0
    · subst ht
      rw [update_self]
      cases mode with
      | priority => exact ⟨by decide, by decide⟩
      | mlfqs => exact mlfqsPriority_inRange (fpConst 0) 0
    · rw [update_of_ne ht]
      exact ⟨by decide, by decide⟩
  exact created_inRange (hinit.same (push_sameVitals _ _)) (by decide) _

/--
**`thread_set_priority` に範囲の外の値を渡さない実行では、どの thread の priority も範囲に収まる。**

その実行の次の一歩が範囲の外の値を渡せば、一歩の直後に収まらない。
`thread_set_nice` の引数、aging、MLFQS の計算に条件は無い。
-/
theorem reachableIf_priority_range_iff (h : ReachableIf scheduler SetsInRange k) :
    PrioritiesInRange k ∧
    ∀ e k', step k e = some k' → (PrioritiesInRange k' ↔ SetsInRange k e) := by
  have hrange : PrioritiesInRange k := by
    refine reachable_of_boot (J := fun k => WellFormed k ∧ SleepSorted k)
      (fun _ hr => ⟨reachable_wellFormed hr, reachable_sleepSorted hr⟩) boot_inRange ?_ h
    rintro k₁ e k₂ ⟨hw, hs⟩ hin hset hstep
    exact (step_inRange_iff hw hs hin hstep).mpr hset
  refine ⟨hrange, fun e k' hstep => ?_⟩
  exact step_inRange_iff (reachable_wellFormed h.reachable) (reachable_sleepSorted h.reachable)
    hrange hstep

/-- main が priority を `PRI_MIN` に下げ、`PRI_MAX` に上げる実行。 -/
theorem reachableIf_priority_range_iff_ends : ∃ k, ReachableIf scheduler SetsInRange k ∧
    k.curThread.priority = priMax ∧ ∀ k', step k (.call (.threadSetPriority 64)) = some k' →
      ¬ PrioritiesInRange k' := by
  have hboot : ReachableIf scheduler SetsInRange (boot .priority false fun _ => 0) :=
    .init (isBoot_iff.mpr ⟨.priority, false, fun _ => 0, rfl⟩)
  obtain ⟨k, hr, hk⟩ := exists_reachableIf_of_run
    (startEvents ++ [.call (.threadSetPriority 0), .call (.threadSetPriority 63)]) hboot
    (p := fun k => k.schedulingMode = .priority && k.curThread.priority = priMax)
    (by decide +kernel)
  simp only [Bool.and_eq_true, decide_eq_true_eq] at hk
  refine ⟨k, hr, hk.2, fun k' hstep hin => ?_⟩
  have hset := ((reachableIf_priority_range_iff hr).2 _ _ hstep).mp hin
  exact absurd (hset 64 rfl hk.1).2 (by decide)

/-- **`thread_set_priority` は範囲の外の値をそのまま書く。** -/
theorem exists_reachable_priority_out_of_range :
    (∃ k, Reachable scheduler k ∧ k.curThread.priority = 64) ∧
    ∃ k, Reachable scheduler k ∧ k.curThread.priority = -1 := by
  have hrun : ∀ p : Int, ((runEvents step (boot .priority false fun _ => 0)
      (startEvents ++ [.call (.threadSetPriority p)])).any fun k => k.curThread.priority = p) = true →
      ∃ k, Reachable scheduler k ∧ k.curThread.priority = p := by
    intro p hp
    obtain ⟨k, hr, hk⟩ := exists_reachable_of_run _ (reachable_boot .priority false fun _ => 0) hp
    exact ⟨k, hr, of_decide_eq_true hk⟩
  exact ⟨hrun 64 (by decide +kernel), hrun (-1) (by decide +kernel)⟩

end Pintos
