import Pintos.Properties.TimerTick
import Pintos.Threads.InitThread

/-!
# 眠りと目覚め

`thread_awake` は `sleep_list` の先頭がまだなら止まるので、
起こし残しが無いことは、列が起きる時刻の順に並んでいることによる。

* `thread_sleep` は時刻の順に入れる。過ぎた時刻でもよい
* 眠っている thread の `wake_up_time` を書き換える code は無い
* timer 割り込みは、並んだ列の先頭から取り除く
-/

namespace Pintos

open Infra

variable {k k' k₁ : Kernel}

theorem cmpWakeUpTime_strictWeakOrder (k : Kernel) : StrictWeakOrder k.cmpWakeUpTime where
  asymm a b h := by
    simp only [Kernel.cmpWakeUpTime, decide_eq_true_eq, decide_eq_false_iff_not] at h ⊢
    omega
  trans a b c h h' := by
    simp only [Kernel.cmpWakeUpTime, decide_eq_false_iff_not] at h h' ⊢
    omega

/-- 眠っている thread と時刻が変わらない。 -/
structure SleepKept (k k' : Kernel) : Prop where
  ticks : k'.ticks = k.ticks
  sleepList : k'.sleepList = k.sleepList
  wakeUpTime : ∀ t ∈ k.sleepList, (k'.thread t).wakeUpTime = (k.thread t).wakeUpTime

theorem SameVitals.sleepKept (h : SameVitals k k') : SleepKept k k' :=
  ⟨h.ticks, h.sleepList, fun t _ => h.wakeUpTime t⟩

theorem SleepKept.trans (h : SleepKept k k₁) (h' : SleepKept k₁ k') : SleepKept k k' where
  ticks := h'.ticks.trans h.ticks
  sleepList := h'.sleepList.trans h.sleepList
  wakeUpTime t ht := (h'.wakeUpTime t (h.sleepList ▸ ht)).trans (h.wakeUpTime t ht)

theorem SleepSorted.kept (hs : SleepSorted k) (h : SleepKept k k') : SleepSorted k' := by
  rw [sleepSorted_iff] at hs ⊢
  rw [h.sleepList]
  refine hs.imp_of_mem fun ha hb hab => ?_
  rw [h.wakeUpTime _ ha, h.wakeUpTime _ hb]
  exact hab

/-! ## code の実行 -/

/-- `thread_sleep` の結果。 -/
structure Slept (w : Int) (k k' : Kernel) : Prop where
  positive : 0 < w
  ticks : k'.ticks = k.ticks
  sleepList : k'.sleepList =
    listInsertOrdered (k.modify k.cur fun th => { th with wakeUpTime := w }).cmpWakeUpTime k.cur
      k.sleepList
  wakeUpTime : ∀ t, (k'.thread t).wakeUpTime = if t = k.cur then w else (k.thread t).wakeUpTime

theorem threadSleep_slept {w : Int} (h : threadSleep w k = .ok k') :
    w ≤ 0 ∧ k' = k ∨ Slept w k k' := by
  obtain ⟨-, -, ⟨hw, rfl⟩ | ⟨hw, h⟩⟩ := threadSleep_ok h
  · exact .inl ⟨hw, rfl⟩
  · right
    have hblock := threadBlock_sameVitals h
    have hpush := push_sameVitals (k.modify k.cur fun th => { th with wakeUpTime := w })
      [.sleepReturn k.intrLevel]
    refine ⟨hw, hblock.ticks, hblock.sleepList, fun t => ?_⟩
    refine (hblock.wakeUpTime t).trans ((hpush.wakeUpTime t).trans ?_)
    split
    · next ht => subst ht; rw [Kernel.modify_thread_self]
    · next ht => rw [Kernel.modify_thread_of_ne ht]

theorem step_threadSleep {w : Int} (h : step k (.call (.threadSleep w)) = some k') (hpos : 0 < w) :
    Slept w k k' := by
  obtain ⟨c, he, -, -, hx⟩ | ⟨_, _, he, -⟩ | ⟨_, he, -⟩ := step_cases h
  · obtain rfl := Event.call.inj he
    exact (threadSleep_slept hx).resolve_left fun hle => Int.not_le.mpr hpos hle.1
  · cases he
  · cases he

theorem Slept.sorted {w : Int} (h : Slept w k k') (hs : SleepSorted k)
    (hcur : k.cur ∉ k.sleepList) : SleepSorted k' := by
  have hmod : ∀ t, ((k.modify k.cur fun th => { th with wakeUpTime := w }).thread t).wakeUpTime =
      (k'.thread t).wakeUpTime := by
    intro t
    rw [h.wakeUpTime]
    split
    · next ht => subst ht; rw [Kernel.modify_thread_self]
    · next ht => rw [Kernel.modify_thread_of_ne ht]
  have hcmp : (k.modify k.cur fun th => { th with wakeUpTime := w }).cmpWakeUpTime =
      k'.cmpWakeUpTime := by
    funext a b
    simp only [Kernel.cmpWakeUpTime, hmod]
  have hold : ListSorted k'.cmpWakeUpTime k.sleepList := by
    refine hs.imp_of_mem fun {a b} ha hb hab => ?_
    have hne : ∀ {t}, t ∈ k.sleepList → t ≠ k.cur := fun ht he => hcur (he ▸ ht)
    simpa only [Kernel.cmpWakeUpTime, h.wakeUpTime, if_neg (hne ha), if_neg (hne hb)] using hab
  unfold SleepSorted
  rw [h.sleepList, hcmp]
  exact listInsertOrdered_sorted (cmpWakeUpTime_strictWeakOrder k') k.cur hold

theorem inserted_sleepKept (hnew : k.nextThread ∉ k.sleepList) (th : Thread) :
    SleepKept k (k.inserted th) := by
  have hlisted : SleepKept k (k.enlisted th) := by
    refine ⟨rfl, rfl, fun t ht => ?_⟩
    rw [enlisted_of_ne fun he => hnew (he ▸ ht)]
  exact hlisted.trans (push_sameVitals _ _).sleepKept

theorem threadCreate_sleepKept {page : Bool} {p : Int} (hnew : k.nextThread ∉ k.sleepList)
    (h : threadCreate page p k = .ok k') : SleepKept k k' := by
  rcases threadCreate_ok h with rfl | ⟨-, rfl⟩
  · exact (SameVitals.refl k').sleepKept
  · exact inserted_sleepKept hnew _

theorem threadExit_sleepKept (h : threadExit k = .ok k') : SleepKept k k' := by
  have hstatus := (setStatus_sameVitals k k.cur .dying).sleepKept
  have hexit : SleepKept k k.exited := ⟨rfl, rfl, hstatus.wakeUpTime⟩
  exact hexit.trans (schedule_sameVitals (threadExit_ok h).2).sleepKept

theorem modify_sleepKept {f : Thread → Thread} (hf : ∀ th, (f th).wakeUpTime = th.wakeUpTime) :
    SleepKept k (intrDisable (k.modify k.cur f)) :=
  ⟨rfl, rfl, fun t _ => Kernel.modify_field (k := k) (t := k.cur) (u := t) Thread.wakeUpTime hf⟩

theorem threadSetPriority_sleepKept {p : Int} (h : threadSetPriority p k = .ok k') :
    SleepKept k k' := by
  have hmod : SleepKept k (intrDisable (k.modify k.cur fun th => { th with priority := p })) :=
    modify_sleepKept fun _ => rfl
  rcases threadSetPriority_ok h with ⟨-, rfl⟩ | ⟨-, h | ⟨-, h⟩⟩
  · exact (SameVitals.refl k').sleepKept
  · exact hmod.trans (sameVitals_callRule.testMaxPriority h).sleepKept
  · exact hmod.trans (sameVitals_callRule.intrSetLevel h).sleepKept

theorem TickFrame.sleepKept (h : TickFrame k k') : SleepKept k k' :=
  ⟨h.ticks, h.sleepList, fun t _ => h.wakeUpTime t⟩

theorem threadSetNice_sleepKept {n : Int} (h : threadSetNice n k = .ok k') : SleepKept k k' := by
  have hmod : SleepKept k (intrDisable (k.modify k.cur fun th => { th with nice := n })) :=
    modify_sleepKept fun _ => rfl
  have hcalc := (calculatePriority_tickFrame k.cur
    (intrDisable (k.modify k.cur fun th => { th with nice := n }))).trans (sortReadyList_tickFrame _)
  exact (hmod.trans hcalc.sleepKept).trans (sameVitals_callRule.testMaxPriority h).sleepKept

theorem exec_sleep {c : Code} (hnew : k.nextThread ∉ k.sleepList) (h : exec c k = .ok k') :
    SleepKept k k' ∨ ∃ w, c = .threadSleep w ∧ Slept w k k' := by
  cases hc : c.rewrites with
  | false => exact .inl (sameVitals_callRule.exec hc h).sleepKept
  | true =>
    cases c with
    | threadCreate page p => exact .inl (threadCreate_sleepKept hnew h)
    | threadExit => exact .inl (threadExit_sleepKept h)
    | threadSetPriority p => exact .inl (threadSetPriority_sleepKept h)
    | threadSetNice n => exact .inl (threadSetNice_sleepKept h)
    | startLoadAvg =>
      rw [← Except.ok.inj h]
      exact .inl ⟨rfl, rfl, fun _ _ => rfl⟩
    | threadSleep w =>
      rcases threadSleep_slept h with ⟨-, rfl⟩ | hslept
      · exact .inl (SameVitals.refl k').sleepKept
      · exact .inr ⟨w, rfl, hslept⟩
    | _ => cases hc

/-! ## timer 割り込み -/

theorem WellFormed.blocked_of_sleeping (h : WellFormed k) {t : ThreadId} (ht : t ∈ k.sleepList) :
    (k.thread t).status = .blocked := ((h.placed.mem_queue .sleep t).mp ht).1

theorem WellFormed.nextThread_not_sleeping (h : WellFormed k) : k.nextThread ∉ k.sleepList := by
  intro ht
  have hb := h.blocked_of_sleeping ht
  rw [h.uncreated_status] at hb
  cases hb

theorem WellFormed.cur_not_sleeping (h : WellFormed k) : k.cur ∉ k.sleepList :=
  fun ht => h.ne_cur_of_blocked (h.blocked_of_sleeping ht) rfl

/-- `ticks` を進めて `thread_tick` を呼ぶところ。 -/
def Kernel.ticking (k : Kernel) : Kernel := { k.inHandler with ticks := k.ticks + 1 }

/-- **timer 割り込みは検査に掛からない。** `thread_tick` の後、時刻の来た thread をちょうど全部起こす。 -/
theorem timerInterrupt_steps (hw : WellFormed k) (hs : SleepSorted k) :
    ∃ y y' k₁ k', k₁ = agingTick ((k.ticking.counted.flagged y).modeTicked.flagged y') ∧
      TickFrame k.ticking k₁ ∧ timerInterrupt k.inHandler = .ok k' ∧ Woken (k.ticks + 1) k₁ k' := by
  obtain ⟨y, y', htick⟩ := threadTick_total (k := k.ticking) rfl
  have hf := threadTick_tickFrame htick rfl
  generalize hk₁ : agingTick _ = k₁ at htick hf
  have hsorted : SleepSorted k₁ := SleepSorted.kept (k := k.ticking) hs hf.sleepKept
  have hsleep : k₁.sleepList = k.sleepList := hf.sleepList
  obtain ⟨k', hawake, h⟩ := awakeLoop_woken k₁.ticks k₁.sleepList rfl hsorted
    (by rw [hsleep]; exact hw.placed.queue_nodup .sleep)
    (by
      intro t ht
      rw [hsleep] at ht
      exact (hf.status t).trans (hw.blocked_of_sleeping ht))
  refine ⟨y, y', k₁, k', hk₁.symm, hf, ?_, ?_⟩
  · show (threadTick k.ticking).bind _ = _
    rw [htick]
    exact hawake
  · rw [hf.ticks] at h
    exact h

/-- `timer_interrupt` の前の状態 `k` から見た、その結果。 -/
structure TimerWoken (k k' : Kernel) : Prop where
  ticks : k'.ticks = k.ticks + 1
  /-- 残るのは、起きる時刻が今の `ticks` より後の thread である。 -/
  sleepList : k'.sleepList = k.sleepList.filter fun t => !k.dueBy (k.ticks + 1) t
  /-- 起こした thread は、`ready_list` に一度ずつ入る。 -/
  readyList : k'.readyList.Perm (k.sleepList.filter (k.dueBy (k.ticks + 1)) ++ k.readyList)
  status : ∀ t, (k'.thread t).status =
    if t ∈ k.sleepList ∧ k.dueBy (k.ticks + 1) t = true then .ready else (k.thread t).status
  wakeUpTime : ∀ t, (k'.thread t).wakeUpTime = (k.thread t).wakeUpTime

theorem timerInterrupt_woken (hw : WellFormed k) (hs : SleepSorted k) :
    ∃ k', timerInterrupt k.inHandler = .ok k' ∧ TimerWoken k k' := by
  obtain ⟨y, y', k₁, k', -, hf, hrun, h⟩ := timerInterrupt_steps hw hs
  have hsleep : k₁.sleepList = k.sleepList := hf.sleepList
  have hdue : k₁.dueBy (k.ticks + 1) = k.dueBy (k.ticks + 1) := by
    funext t
    unfold Kernel.dueBy
    rw [hf.wakeUpTime]
    rfl
  refine ⟨k', hrun, h.ticks.trans hf.ticks, ?_, ?_, fun t => ?_, fun t => ?_⟩
  · rw [h.sleepList, hdue, hsleep]
  · refine h.readyList.trans ?_
    rw [hdue, hsleep]
    exact hf.ready.append_left _
  · rw [h.status, hdue, hsleep, hf.status]
    rfl
  · exact (congrArg Vitals.wakeUpTime (h.vitals t)).trans (hf.wakeUpTime t)

theorem TimerWoken.sorted (h : TimerWoken k k') (hs : SleepSorted k) : SleepSorted k' := by
  rw [sleepSorted_iff] at hs ⊢
  rw [h.sleepList]
  refine (hs.filter _).imp fun hab => ?_
  rw [h.wakeUpTime, h.wakeUpTime]
  exact hab

/-! ## 一歩 -/

/-- 一歩で `sleep_list` に起きること。 -/
inductive SleepStep (k : Kernel) (e : Event) (k' : Kernel) : Prop where
  /-- timer 割り込みの後の `yield_on_return` は、眠っている thread に触れない。 -/
  | timer (k₁ : Kernel) (he : e = .interrupt .timer) (h₁ : timerInterrupt k.inHandler = .ok k₁)
      (hwoken : TimerWoken k k₁) (hkept : SleepKept k₁ k')
  | slept (w : Int) (he : e = .call (.threadSleep w)) (hslept : Slept w k k')
  | kept (he : e ≠ .interrupt .timer) (hkept : SleepKept k k')

theorem step_sleepStep {e : Event} (hw : WellFormed k) (hs : SleepSorted k)
    (h : step k e = some k') : SleepStep k e k' := by
  rcases step_cases h with ⟨c, rfl, -, -, hx⟩ | ⟨c, cs, rfl, hst, hx⟩ | ⟨hd, rfl, -, -, hx⟩
  · rcases exec_sleep hw.nextThread_not_sleeping hx with hkept | ⟨w, rfl, hslept⟩
    · exact .kept nofun hkept
    · exact .slept w rfl hslept
  · rcases exec_sleep (hw.pop hst).nextThread_not_sleeping hx with hkept | ⟨w, rfl, -⟩
    · exact .kept nofun ((pop_sameVitals k).sleepKept.trans hkept)
    · -- `thread_sleep` は途中の code ではない
      have hframe := hw.framesOk.isFrame k.cur (.threadSleep w) (by
        rw [show (k.thread k.cur).stack = _ from hst]; simp)
      cases hframe
  · obtain ⟨k₁, hrun, hsame⟩ := intrHandler_sameVitals hx
    by_cases hne : hd = .timer
    · subst hne
      obtain ⟨k₂, h₂, hwoken⟩ := timerInterrupt_woken hw hs
      have he : k₂ = k₁ := Except.ok.inj (h₂.symm.trans hrun)
      subst he
      exact .timer k₂ rfl h₂ hwoken hsame.sleepKept
    · have hbody : SameVitals k k₁ := Handler.run_sameVitals (k := k.inHandler) hne hrun
      exact .kept (fun he => hne (Event.interrupt.inj he)) (hbody.trans hsame).sleepKept

theorem SleepStep.sorted {e : Event} (h : SleepStep k e k') (hw : WellFormed k)
    (hs : SleepSorted k) : SleepSorted k' := by
  cases h with
  | timer k₁ _ _ hwoken hkept => exact (hwoken.sorted hs).kept hkept
  | slept w _ hslept => exact hslept.sorted hs hw.cur_not_sleeping
  | kept _ hkept => exact hs.kept hkept

theorem reachable_sleepSorted (h : Reachable scheduler k) : SleepSorted k :=
  reachable_of_boot (fun _ => reachable_wellFormed) (fun _ _ _ => List.Pairwise.nil)
    (fun _ _ _ hw hs _ hstep => (step_sleepStep hw hs hstep).sorted hw hs) h

/--
**眠った thread は、起きる時刻の来た最初の timer 割り込みで、ちょうど一度起こされる。**

どの到達可能な状態でも、次が成り立つ。

* `sleep_list` は起きる時刻の順に並び、眠っている thread を一度ずつ含む
* timer 割り込みは検査に掛からずに終わる。残るのは起きる時刻が `ticks` より後の thread だけで、
  ほかの眠っていた thread は `ready_list` に一度ずつ移る。
  移った thread のほかに status の変わる thread は無い
* timer 割り込みのほかの一歩では、眠っている thread は起きる時刻もそのままで眠り続ける。
  新しく眠るのは `thread_sleep` を呼んだ thread だけである
-/
theorem sleep_wakes_exactly (h : Reachable scheduler k) :
    SleepSorted k ∧ k.sleepList.Nodup ∧ (∀ t, t ∈ k.sleepList ↔ k.WaitsIn t .sleep) ∧
    (∃ k₁, timerInterrupt k.inHandler = .ok k₁ ∧ TimerWoken k k₁) ∧
    (∀ k', step k (.interrupt .timer) = some k' → k'.ticks = k.ticks + 1 ∧
      k'.sleepList = k.sleepList.filter (fun t => k.ticks + 1 < (k.thread t).wakeUpTime)) ∧
    (∀ e k', step k e = some k' → e ≠ .interrupt .timer → k'.ticks = k.ticks ∧
      ∀ t ∈ k.sleepList, t ∈ k'.sleepList ∧ (k'.thread t).wakeUpTime = (k.thread t).wakeUpTime) ∧
    (∀ w k', step k (.call (.threadSleep w)) = some k' → 0 < w →
      k'.sleepList.Perm (k.cur :: k.sleepList) ∧ (k'.thread k.cur).wakeUpTime = w) ∧
    ∀ e k', step k e = some k' → ∀ t ∈ k'.sleepList,
      t ∈ k.sleepList ∨ t = k.cur ∧ ∃ w, e = .call (.threadSleep w) := by
  have hw := reachable_wellFormed h
  have hs := reachable_sleepSorted h
  have hnot := hw.cur_not_sleeping
  refine ⟨hs, hw.placed.queue_nodup .sleep, hw.placed.mem_queue .sleep,
    timerInterrupt_woken hw hs, ?_, ?_, ?_, ?_⟩
  · intro k' hstep
    cases step_sleepStep hw hs hstep with
    | slept w he => cases he
    | kept he => exact absurd rfl he
    | timer k₁ _ _ hwoken hkept =>
      refine ⟨hkept.ticks.trans hwoken.ticks, hkept.sleepList.trans (hwoken.sleepList.trans ?_)⟩
      refine List.filter_congr fun t _ => ?_
      rw [Kernel.dueBy, ← decide_not]
      exact decide_eq_decide.mpr Int.not_le
  · intro e k' hstep hne
    cases step_sleepStep hw hs hstep with
    | timer _ he => exact absurd he hne
    | kept _ hkept =>
      refine ⟨hkept.ticks, fun t ht => ⟨?_, hkept.wakeUpTime t ht⟩⟩
      rw [hkept.sleepList]
      exact ht
    | slept w _ hslept =>
      refine ⟨hslept.ticks, fun t ht => ⟨?_, ?_⟩⟩
      · rw [hslept.sleepList]
        exact mem_listInsertOrdered.mpr (.inr ht)
      · rw [hslept.wakeUpTime, if_neg]
        rintro rfl
        exact hnot ht
  · intro w k' hstep hpos
    have hslept := step_threadSleep hstep hpos
    rw [hslept.sleepList, hslept.wakeUpTime, if_pos rfl]
    exact ⟨listInsertOrdered_perm .., rfl⟩
  · intro e k' hstep t ht
    cases step_sleepStep hw hs hstep with
    | timer k₁ _ _ hwoken hkept =>
      rw [hkept.sleepList, hwoken.sleepList] at ht
      exact .inl (List.mem_filter.mp ht).1
    | kept _ hkept =>
      rw [hkept.sleepList] at ht
      exact .inl ht
    | slept w he hslept =>
      rw [hslept.sleepList] at ht
      rcases mem_listInsertOrdered.mp ht with rfl | ht
      · exact .inr ⟨rfl, w, he⟩
      · exact .inl ht

/-- 三つの thread が眠っていて、次の timer 割り込みで、過ぎた時刻のものを含む二つが起きる。 -/
theorem sleep_wakes_exactly_two : ∃ k, Reachable scheduler k ∧ k.ticks = 1 ∧
    k.sleepList = [3, 2, 4] ∧
    ∃ k₁, timerInterrupt k.inHandler = .ok k₁ ∧ k₁.ticks = 2 ∧ k₁.sleepList = [4] ∧
      k₁.readyList.Perm ([3, 2] ++ k.readyList) := by
  obtain ⟨k, hr, hk⟩ := exists_reachable_of_run
    (startEvents ++ [.interrupt .timer] ++
      createEvents 40 ++ [.resume, .call (.threadSleep 2), .resume] ++
      createEvents 40 ++ [.resume, .call (.threadSleep 1), .resume] ++
      createEvents 40 ++ [.resume, .call (.threadSleep 9), .resume])
    (reachable_boot .priority false fun _ => 0)
    (p := fun k => k.ticks = 1 && k.sleepList = [3, 2, 4] &&
      (k.sleepList.filter (k.dueBy 2) = [3, 2] && k.sleepList.filter (fun t => !k.dueBy 2 t) = [4]))
    (by decide +kernel)
  simp only [Bool.and_eq_true, decide_eq_true_eq] at hk
  obtain ⟨⟨hticks, hsleep⟩, hdue, hlate⟩ := hk
  obtain ⟨k₁, hrun, hwoken⟩ := (sleep_wakes_exactly hr).2.2.2.1
  refine ⟨k, hr, hticks, hsleep, k₁, hrun, ?_, ?_, ?_⟩
  · rw [hwoken.ticks, hticks]; rfl
  · rw [hwoken.sleepList, hticks]; exact hlate
  · rw [← hdue]
    have := hwoken.readyList
    rw [hticks] at this
    exact this

end Pintos
