import Pintos.Properties.MlfqsTick
import Pintos.Properties.PreemptionStep
import Pintos.Properties.Sleep

/-!
# `sema_up` が起こす thread

`sema_down` は `waiters` に priority の順に入れ、`sema_up` はその先頭を起こす。
先頭が待っている thread の中で最も高いことは、列が priority の順のままでいることによる。

* 実行中の thread の priority が変わっても、`waiters` には入っていないので順序は変わらない
* MLFQS の再計算は、待っている thread の priority も書き換えるが、並べ直すのは `ready_list` だけである

列の順序が崩れるのは後の場合だけで、崩れるかどうかは計算し直した priority で決まる（`KeepsOrder`）。
-/

namespace Pintos

open Infra

variable {k k' k₁ : Kernel}

/-- どの semaphore の `waiters` も、priority の高い順に並んでいる。 -/
def WaitersSorted (k : Kernel) : Prop :=
  ∀ s, (k.sema s).waiters.Pairwise fun a b => (k.thread b).priority ≤ (k.thread a).priority

/--
続けて何回 `sema_up` しても、起こされるのは残りの中で最も高い thread である。

`n = 0` が次の `sema_up` である。
-/
def WakesMax (k : Kernel) : Prop :=
  ∀ s n t ts, (k.sema s).waiters.drop n = t :: ts →
    ∀ u ∈ ts, (k.thread u).priority ≤ (k.thread t).priority

theorem pairwise_iff_drop {α : Type} {R : α → α → Prop} (l : List α) :
    l.Pairwise R ↔ ∀ n a as, l.drop n = a :: as → ∀ b ∈ as, R a b := by
  induction l with
  | nil => simp
  | cons x l ih =>
    rw [List.pairwise_cons, ih]
    constructor
    · rintro ⟨hx, hl⟩ n a as hd b hb
      cases n with
      | zero =>
        obtain ⟨rfl, rfl⟩ := List.cons.inj hd
        exact hx b hb
      | succ n => exact hl n a as hd b hb
    · intro h
      exact ⟨fun b hb => h 0 x l rfl b hb, fun n => h (n + 1)⟩

theorem wakesMax_iff : WakesMax k ↔ WaitersSorted k := by
  unfold WakesMax WaitersSorted
  exact forall_congr' fun s => (pairwise_iff_drop _).symm

theorem WaitersSorted.congr (h : WaitersSorted k)
    (hw : ∀ s, (k'.sema s).waiters = (k.sema s).waiters)
    (hp : ∀ s, ∀ t ∈ (k.sema s).waiters, (k'.thread t).priority = (k.thread t).priority) :
    WaitersSorted k' := by
  intro s
  rw [hw]
  refine (h s).imp_of_mem fun ha hb hab => ?_
  rw [hp s _ ha, hp s _ hb]
  exact hab

theorem WaitersSorted.same (h : WaitersSorted k) (hv : SameVitals k k') (hs : k'.sema = k.sema) :
    WaitersSorted k' :=
  h.congr (fun s => by rw [hs]) fun _ t _ => hv.priority t

/-! ## code の実行 -/

theorem schedule_sema (h : schedule k = .ok k') : k'.sema = k.sema := by
  obtain ⟨next, rest, -, -, rfl⟩ := schedule_ok h
  rfl

theorem threadYield_sema (h : threadYield k = .ok k') : k'.sema = k.sema :=
  schedule_sema (k := k.yielded) (threadYield_ok h).2.2

theorem WaitersSorted.setWaiters (h : WaitersSorted k) (s : SemaId) {ts : List ThreadId}
    (hts : ts.Pairwise fun a b => (k.thread b).priority ≤ (k.thread a).priority) :
    WaitersSorted (k.setSema s { k.sema s with waiters := ts }) := by
  intro s'
  by_cases hs : s' = s
  · subst hs; simpa using hts
  · simpa [hs] using h s'

theorem waitersSorted_callRule : CallRule fun k k' => WaitersSorted k → WaitersSorted k' where
  trans h h' hs := h' (h hs)
  flags h hs := by
    unfold OnlyFlags at h
    rw [h]
    exact hs
  record k t _ hf hs := hs.same (modify_sameVitals k t hf) rfl
  value k s v hs := by
    refine hs.congr (fun s' => ?_) fun _ _ _ => rfl
    by_cases he : s' = s
    · subst he; simp
    · simp [he]
  -- 実行中の thread を、今の priority の位置に入れる
  enqueue k s hs := by
    have hsorted := listInsertOrdered_sorted (cmpPriority_strictWeakOrder k) k.cur
      ((hs s).imp fun hab => by simpa [Kernel.cmpPriority] using hab)
    exact hs.setWaiters s (hsorted.imp fun hab => by simpa [Kernel.cmpPriority] using hab)
  dequeue {k s _ _} hw hs := by
    have htail := hs s
    rw [hw] at htail
    exact hs.setWaiters s (List.pairwise_cons.mp htail).2
  yield h hs := hs.same (threadYield_sameVitals h) (threadYield_sema h)
  block {k _} h hs :=
    hs.same (threadBlock_sameVitals h)
      (schedule_sema (k := k.setStatus k.cur .blocked) (threadBlock_ok h).2)
  unblock {k _ t} h hs := by
    rw [(threadUnblock_ok h).2]
    exact hs.same (readied_sameVitals k t) rfl

theorem WaitersSorted.modify_cur (hs : WaitersSorted k) (hw : WellFormed k) (f : Thread → Thread) :
    WaitersSorted (k.modify k.cur f) := by
  refine hs.congr (fun _ => rfl) fun s t ht => ?_
  rw [Kernel.modify_thread_of_ne]
  rintro rfl
  exact hw.ne_cur_of_blocked ((hw.placed.mem_queue (.sema s) _).mp ht).1 rfl

theorem exec_waitersSorted {c : Code} (hw : WellFormed k) (hs : WaitersSorted k)
    (h : exec c k = .ok k') : WaitersSorted k' := by
  cases hc : c.rewrites with
  | false => exact waitersSorted_callRule.exec hc h hs
  | true =>
    cases c with
    | threadCreate page p =>
      rcases threadCreate_ok h with rfl | ⟨-, rfl⟩
      · exact hs
      · refine waitersSorted_callRule.push (k.allocated p [.kernelThread]) _ ?_
        refine hs.congr (fun _ => rfl) fun s t ht => ?_
        rw [allocated_of_ne]
        rintro rfl
        have hb := ((hw.placed.mem_queue (.sema s) _).mp ht).1
        rw [hw.uncreated_status] at hb
        cases hb
    | threadExit =>
      have hsched := (threadExit_ok h).2
      have hexit : WaitersSorted k.exited := hs.congr (fun _ => rfl) fun _ t _ => k.exited_priority t
      exact hexit.same (schedule_sameVitals hsched) (schedule_sema hsched)
    | threadSleep w =>
      obtain ⟨-, -, ⟨-, rfl⟩ | ⟨-, h⟩⟩ := threadSleep_ok h
      · exact hs
      · refine waitersSorted_callRule.block h ?_
        exact waitersSorted_callRule.push _ [.sleepReturn k.intrLevel]
          (hs.modify_cur hw fun th => { th with wakeUpTime := w })
    | threadSetPriority p =>
      have hmod : WaitersSorted (intrDisable (k.modify k.cur fun th =>
          { th with priority := p })) := hs.modify_cur hw fun th => { th with priority := p }
      rcases threadSetPriority_ok h with ⟨-, rfl⟩ | ⟨-, h | ⟨-, h⟩⟩
      · exact hs
      · exact waitersSorted_callRule.testMaxPriority h hmod
      · exact waitersSorted_callRule.intrSetLevel h hmod
    | threadSetNice n =>
      -- 書き換えるのは実行中の thread の `nice` と priority だけである
      refine waitersSorted_callRule.testMaxPriority h (hs.congr (fun s => ?_) fun s t ht => ?_)
      · show ((sortReadyList (calculatePriority k.cur _)).sema s).waiters = _
        rw [((calculatePriority_tickFrame k.cur _).trans (sortReadyList_tickFrame _)).sema]
        rfl
      · have hne : t ≠ k.cur := by
          rintro rfl
          exact hw.ne_cur_of_blocked ((hw.placed.mem_queue (.sema s) _).mp ht).1 rfl
        have hnice : (k.modify k.cur fun th => { th with nice := n }).thread t = k.thread t :=
          Kernel.modify_thread_of_ne hne
        show ((calculatePriority k.cur _).thread t).priority = _
        unfold calculatePriority
        split
        · exact congrArg Thread.priority hnice
        · rw [Kernel.modify_thread_of_ne hne]
          exact congrArg Thread.priority hnice
    | startLoadAvg =>
      rw [← Except.ok.inj h]
      exact hs
    | _ => cases hc

/-! ## timer 割り込み -/

/-- timer 割り込みの後の、`ready_list` にいない thread の priority。 -/
def Kernel.tickedPriority (k : Kernel) (t : ThreadId) : Int :=
  match k.schedulingMode with
  | .priority => (k.thread t).priority
  | .mlfqs => { k with ticks := k.ticks + 1 }.nextPriority t

/-- timer 割り込みは semaphore に触れず、待っている thread の priority を計算し直すだけである。 -/
theorem timerInterrupt_priority (hw : WellFormed k) (hl : Listed k) (hs : SleepSorted k)
    (h : timerInterrupt k.inHandler = .ok k') :
    k'.sema = k.sema ∧
      ∀ t ∉ k.readyList, (k'.thread t).priority = k.tickedPriority t := by
  obtain ⟨y, y', k₁, k₂, hk₁, hf, hrun, hwoken⟩ := timerInterrupt_steps hw hs
  obtain rfl := Except.ok.inj (hrun.symm.trans h)
  refine ⟨hwoken.sema.trans hf.sema, fun t ht => ?_⟩
  have hmode := modeTicked_tickFrame (k.ticking.counted.flagged y)
  have hready : ((k.ticking.counted.flagged y).modeTicked.flagged y').readyList.Perm k.readyList :=
    hmode.ready
  calc (k₂.thread t).priority
      = (k₁.thread t).priority := congrArg Vitals.priority (hwoken.vitals t)
    _ = ((k.ticking.counted.flagged y).modeTicked.thread t).priority := by
      rw [hk₁]
      refine (agingTick_priority (hready.nodup_iff.mpr hw.placed.ready_nodup) t).trans (if_neg ?_)
      exact fun hm => ht (hready.mem_iff.mp hm.2)
    _ = k.tickedPriority t := by
      have hmode : (k.ticking.counted.flagged y).schedulingMode = k.schedulingMode := rfl
      unfold Kernel.modeTicked Kernel.tickedPriority
      rw [hmode]
      cases k.schedulingMode with
      | priority => rfl
      | mlfqs =>
        refine (mlfqsTicked_priority (k := k.ticking.counted.flagged y) hl.nodup t).trans ?_
        unfold Kernel.flagged Kernel.counted Kernel.ticking Kernel.inHandler
        rfl

/-! ## 一歩 -/

/--
**`waiters` の順序を崩さない一歩。**

MLFQS の timer 割り込みでは、計算し直した priority でも、どの `waiters` も高い順に並んでいる。
ほかの一歩には条件が無い。
-/
def KeepsOrder (k : Kernel) (e : Event) : Prop :=
  e = .interrupt .timer → k.schedulingMode = .mlfqs → ∀ s,
    (k.sema s).waiters.Pairwise fun a b =>
      { k with ticks := k.ticks + 1 }.nextPriority b ≤
        { k with ticks := k.ticks + 1 }.nextPriority a

theorem step_waitersSorted_iff {e : Event} (hw : WellFormed k) (hl : Listed k)
    (hsleep : SleepSorted k) (hs : WaitersSorted k) (h : step k e = some k') :
    KeepsOrder k e ↔ WaitersSorted k' := by
  rcases step_cases h with ⟨c, rfl, -, -, hx⟩ | ⟨c, cs, rfl, hst, hx⟩ | ⟨hd, rfl, -, -, hx⟩
  · exact iff_of_true nofun (exec_waitersSorted hw hs hx)
  · exact iff_of_true nofun (exec_waitersSorted (hw.pop hst) (hs.same (pop_sameVitals k) rfl) hx)
  · obtain ⟨k₁, hrun, hafter⟩ := intrHandler_ok hx
    have hreturn : WaitersSorted k₁ ↔ WaitersSorted k' := by
      rcases hafter with ⟨-, hy⟩ | ⟨-, rfl⟩
      · have hv : SameVitals k₁ k' :=
          (push_sameVitals { k₁ with inExternalIntr := false } _).trans (threadYield_sameVitals hy)
        have hsema : k'.sema = k₁.sema :=
          threadYield_sema (k := { k₁ with inExternalIntr := false }.push [.iret]) hy
        exact ⟨fun h₁ => h₁.same hv hsema, fun h' => h'.same hv.symm hsema.symm⟩
      · exact Iff.rfl
    rw [← hreturn]
    cases hd with
    | timer =>
      obtain ⟨hsema, hp⟩ := timerInterrupt_priority hw hl hsleep hrun
      have hwait : ∀ s, ∀ t ∈ (k.sema s).waiters, (k₁.thread t).priority = k.tickedPriority t := by
        intro s t ht
        refine hp t (hw.not_mem_ready ?_)
        rw [((hw.placed.mem_queue (.sema s) t).mp ht).1]
        simp
      have hsorted : WaitersSorted k₁ ↔ ∀ s, (k.sema s).waiters.Pairwise fun a b =>
          k.tickedPriority b ≤ k.tickedPriority a := by
        unfold WaitersSorted
        rw [hsema]
        refine forall_congr' fun s => List.Pairwise.iff_of_mem fun {a b} ha hb => ?_
        rw [hwait s a ha, hwait s b hb]
      rw [hsorted]
      unfold KeepsOrder Kernel.tickedPriority
      cases hmode : k.schedulingMode with
      | priority => exact iff_of_true nofun hs
      | mlfqs => exact ⟨fun hk => hk rfl rfl, fun h _ _ => h⟩
    | semaUp s => exact iff_of_true nofun (waitersSorted_callRule.semaUp hrun hs)
    | unblock t => exact iff_of_true nofun (waitersSorted_callRule.unblock hrun hs)
    | other =>
      refine iff_of_true nofun ?_
      rw [← Except.ok.inj hrun]
      exact hs

/-! ## 到達可能な状態 -/

theorem reachableIf_waitersSorted (h : ReachableIf scheduler KeepsOrder k) : WaitersSorted k := by
  refine reachable_of_boot (J := fun k => WellFormed k ∧ Listed k ∧ SleepSorted k)
    (fun _ hr => ⟨reachable_wellFormed hr, reachable_listed hr, reachable_sleepSorted hr⟩) ?_ ?_ h
  · intro mode aging values s
    rw [show ((boot mode aging values).sema s).waiters = [] from boot_queue mode aging values (.sema s)]
    exact List.Pairwise.nil
  · intro k₁ e k₂ ⟨hw, hl, hsleep⟩ hs hk hstep
    exact (step_waitersSorted_iff hw hl hsleep hs hstep).mp hk

/-- **priority scheduler では、`waiters` はいつも高い順に並んでいる。** -/
theorem reachable_waitersSorted_of_priority (h : Reachable scheduler k)
    (hmode : k.schedulingMode = .priority) : WaitersSorted k := by
  refine reachableIf_waitersSorted ?_
  induction h with
  | init h0 => exact .init h0
  | @step k₁ k' e hr _ hstep ih =>
    have hmode₁ : k₁.schedulingMode = .priority :=
      (step_schedulingMode (reachable_wellFormed hr) hstep).symm.trans hmode
    exact (ih hmode₁).step (fun _ hm => nomatch hmode₁.symm.trans hm) hstep

/-- thread 2（10）の後から待った main（31）が、前に入る。 -/
theorem waitersSorted_of_priority_two : ∃ k, WaitersSorted k ∧ (k.sema (.user 0)).waiters = [0, 2] ∧
    (k.thread 2).priority < (k.thread 0).priority := by
  obtain ⟨k, hr, hk⟩ := exists_reachable_of_run
    (startEvents ++ createEvents 10 ++ [.call (.threadSetPriority 5), .resume,
      .call (.semaDown (.user 0)), .resume, .resume, .call (.threadSetPriority 31),
      .call (.semaDown (.user 0))]) (reachable_boot .priority false fun _ => 0)
    (p := fun k => k.schedulingMode = .priority ∧ (k.sema (.user 0)).waiters = [0, 2] ∧
      (k.thread 2).priority < (k.thread 0).priority) (by decide +kernel)
  obtain ⟨hmode, hq, hlt⟩ := of_decide_eq_true hk
  exact ⟨k, reachable_waitersSorted_of_priority hr hmode, hq, hlt⟩

/--
**順序を崩さない一歩だけの実行では、`sema_up` はいつも最も高い thread を起こす。**

そのような実行で着くどの状態でも、次が成り立つ。

* 待つ thread のある semaphore への `sema_up` は、`waiters` の先頭を起こす。
  その priority は、待っているどの thread よりも低くない
* 次の一歩の後も、続けて何回 `sema_up` しても最も高い thread が起こされることは、
  その一歩が順序を崩さないことと同じである
-/
theorem semaUp_wakes_highest (h : ReachableIf scheduler KeepsOrder k) :
    (∀ s t ts, (k.sema s).waiters = t :: ts →
      (∀ u, k.WaitsIn u (.sema s) → (k.thread u).priority ≤ (k.thread t).priority) ∧
      ∃ k₁, semaWake s (intrDisable k) = .ok k₁ ∧
        semaUp s k = testMaxPriority k.intrLevel (semaIncrement s k₁) ∧
        (k₁.sema s).waiters = ts ∧ (k₁.thread t).status = .ready ∧ t ∈ k₁.readyList) ∧
    ∀ e k', step k e = some k' → (KeepsOrder k e ↔ WakesMax k') := by
  have hw := reachable_wellFormed h.reachable
  have hs := reachableIf_waitersSorted h
  refine ⟨fun s t ts hq => ⟨fun u hu => ?_, ?_⟩, fun e k' hstep => ?_⟩
  · have hmem : u ∈ (k.sema s).waiters := (hw.placed.mem_queue (.sema s) u).mpr hu
    have hsorted := hs s
    rw [hq] at hmem hsorted
    rcases List.mem_cons.mp hmem with rfl | hmem
    · exact Int.le_refl _
    · exact (List.pairwise_cons.mp hsorted).1 u hmem
  · have hb : (k.thread t).status = .blocked :=
      ((hw.placed.mem_queue (.sema s) t).mp (by
        show t ∈ (k.sema s).waiters
        rw [hq]; simp)).1
    have hwake : semaWake s (intrDisable k) =
        .ok (((intrDisable k).setSema s { k.sema s with waiters := ts }).readied t) := by
      unfold semaWake
      rw [show ((intrDisable k).sema s).waiters = t :: ts from hq]
      exact threadUnblock_of_blocked hb
    refine ⟨_, hwake, ?_, ?_, ?_, ?_⟩
    · unfold semaUp
      rw [hwake]
      rfl
    · show (Function.update k.sema s _ s).waiters = ts
      rw [Function.update_self]
    · rw [Kernel.readied_status, if_pos rfl]
    · exact mem_listInsertOrdered.mpr (.inl rfl)
  · rw [wakesMax_iff]
    exact step_waitersSorted_iff hw (reachable_listed h.reachable)
      (reachable_sleepSorted h.reachable) hs hstep

/-- MLFQS で、`nice` の違う二つの thread が同じ semaphore で待つ。timer 割り込みは入らない。 -/
def niceEvents : List Event :=
  mlfqsStartEvents ++ createEvents 31 ++ createEvents 31 ++
    -- thread 2 は `nice` を上げて、thread 3 に譲る
    [.call .threadYield, .resume, .call (.threadSetNice 5), .resume, .call (.semaDown (.user 0)),
      .resume, .call (.semaDown (.user 1)), .resume, .resume, .call (.semaDown (.user 0))]

/-- 先に待った高い thread 3 が先頭にいて、`sema_up` はそれを起こす。 -/
theorem semaUp_wakes_highest_nice : ∃ k, ReachableIf scheduler KeepsOrder k ∧
    k.schedulingMode = .mlfqs ∧ (k.sema (.user 0)).waiters = [3, 2] ∧
    (k.thread 2).priority = 53 ∧ (k.thread 3).priority = 63 ∧
    ∃ k₁, semaWake (.user 0) (intrDisable k) = .ok k₁ ∧ (k₁.sema (.user 0)).waiters = [2] ∧
      (k₁.thread 3).status = .ready := by
  have hboot : ReachableIf scheduler (fun _ e => e ≠ .interrupt .timer)
      (boot .mlfqs false fun _ => 0) := .init (isBoot_iff.mpr ⟨.mlfqs, false, fun _ => 0, rfl⟩)
  obtain ⟨k, hr, hk⟩ := exists_reachableIf_of_run niceEvents hboot
    (p := fun k => k.schedulingMode = .mlfqs && ((k.sema (.user 0)).waiters = [3, 2] &&
      ((k.thread 2).priority = 53 && (k.thread 3).priority = 63))) (by decide +kernel)
  simp only [Bool.and_eq_true, decide_eq_true_eq] at hk
  obtain ⟨hmode, hq, h2, h3⟩ := hk
  have hkeeps : ReachableIf scheduler KeepsOrder k := hr.mono fun _ _ hne he => absurd he hne
  obtain ⟨k₁, hwake, -, hrest, hst, -⟩ := ((semaUp_wakes_highest hkeeps).1 _ _ _ hq).2
  exact ⟨k, hkeeps, hmode, hq, h2, h3, k₁, hwake, hrest, hst⟩

/--
thread 2 が 3 tick 走ってから待ち、走っていない thread 3 がその後ろで待つ。
priority は 4 tick ごとにしか計算されないので、待つときは二つとも 63 である。
-/
def staleEvents : List Event :=
  mlfqsStartEvents ++ createEvents 31 ++ createEvents 31 ++
    [.call .threadYield, .resume, .interrupt .timer, .interrupt .timer, .interrupt .timer,
      .call (.semaDown (.user 0)), .resume, .call (.semaDown (.user 0)), .resume,
      .interrupt .timer]

/-- **再計算の後、`sema_up` は高い thread 3 を待たせたまま thread 2 を起こす。** -/
theorem exists_semaUp_lower : ∃ k, Reachable scheduler k ∧ k.schedulingMode = .mlfqs ∧
    (k.sema (.user 0)).waiters = [2, 3] ∧ (k.thread 2).priority = 62 ∧
    (k.thread 3).priority = 63 ∧
    ∃ k', step k (.call (.semaUp (.user 0))) = some k' ∧ (k'.sema (.user 0)).waiters = [3] ∧
      (k'.thread 2).status = .ready ∧ (k'.thread 3).status = .blocked := by
  obtain ⟨k, hr, hk⟩ := exists_reachable_of_run staleEvents
    (reachable_boot .mlfqs false fun _ => 0)
    (p := fun k => k.schedulingMode = .mlfqs && ((k.sema (.user 0)).waiters = [2, 3] &&
      ((k.thread 2).priority = 62 && ((k.thread 3).priority = 63 &&
      (step k (.call (.semaUp (.user 0)))).any fun k' =>
        (k'.sema (.user 0)).waiters = [3] && ((k'.thread 2).status = .ready &&
          (k'.thread 3).status = .blocked))))) (by decide +kernel)
  simp only [Bool.and_eq_true, decide_eq_true_eq] at hk
  obtain ⟨hmode, hq, h2, h3, hstep⟩ := hk
  cases hk' : step k (.call (.semaUp (.user 0))) with
  | none => rw [hk'] at hstep; cases hstep
  | some k' =>
    rw [hk', Option.any_some] at hstep
    simp only [Bool.and_eq_true, decide_eq_true_eq] at hstep
    exact ⟨k, hr, hmode, hq, h2, h3, k', hk', hstep⟩

end Pintos
