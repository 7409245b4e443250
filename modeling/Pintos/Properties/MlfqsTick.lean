import Pintos.Properties.AllList
import Pintos.Properties.FixedPoint
import Pintos.Properties.TimerTick

/-!
# MLFQS の tick が計算する値

`thread_tick` の MLFQS の分岐の後の `load_avg`、`recent_cpu`、priority を、
前の状態の値の式で書く。

`all_list` に重複が無いので、`thread_foreach` は一つの thread を一度だけ計算する。
-/

namespace Pintos

variable {k : Kernel}

/-! ## `thread_foreach` -/

variable {func : ThreadId → Kernel → Kernel}

/-- 一つの thread を書き換える関数を全員に呼ぶ。`load_avg` は途中で変わらない。 -/
theorem threadForeach_thread {g : Int → Thread → Thread}
    (hf : ∀ t k, func t k = if k.idleThread = some t then k else k.modify t (g k.loadAvg))
    (ts : List ThreadId) (hnd : ts.Nodup) (k : Kernel) (u : ThreadId) :
    (ts.foldl (fun k t => func t k) k).thread u =
      if u ∈ ts ∧ k.idleThread ≠ some u then g k.loadAvg (k.thread u) else k.thread u := by
  induction ts generalizing k with
  | nil => simp
  | cons t ts ih =>
    obtain ⟨hnot, hnd⟩ := List.nodup_cons.mp hnd
    rw [List.foldl_cons, ih hnd, hf]
    by_cases hi : k.idleThread = some t
    · rw [if_pos hi]
      by_cases hu : u = t
      · subst hu
        simp [hi]
      · simp [hu]
    · rw [if_neg hi]
      by_cases hu : u = t
      · subst hu
        rw [if_neg fun h => hnot h.1, Kernel.modify_thread_self, if_pos ⟨List.mem_cons_self, hi⟩]
      · have hmem : u ∈ t :: ts ∧ k.idleThread ≠ some u ↔ u ∈ ts ∧ k.idleThread ≠ some u := by
          simp [hu]
        rw [Kernel.modify_thread_of_ne hu]
        exact (if_congr hmem rfl rfl).symm

/-! ## 値 -/

namespace Kernel

def nextLoadAvg (k : Kernel) : Int :=
  if k.ticks % timerFreq = 0 then loadAvgStep k.loadAvg (readyThreads k) else k.loadAvg

def chargedCpu (k : Kernel) (t : ThreadId) : Int :=
  if t = k.cur ∧ k.idleThread ≠ some t then fpAdd (k.thread t).recentCpu (fpConst 1)
  else (k.thread t).recentCpu

def nextRecentCpu (k : Kernel) (t : ThreadId) : Int :=
  if k.ticks % timerFreq = 0 ∧ t ∈ k.allList ∧ k.idleThread ≠ some t then
    recentCpuStep k.nextLoadAvg (k.chargedCpu t) (k.thread t).nice
  else k.chargedCpu t

def nextPriority (k : Kernel) (t : ThreadId) : Int :=
  if k.ticks % timeSlice = 0 ∧ t ∈ k.allList ∧ k.idleThread ≠ some t then
    mlfqsPriority (k.nextRecentCpu t) (k.thread t).nice
  else (k.thread t).priority

end Kernel

/-! ## `mlfqsTicked` -/

section

variable (k)

theorem updateRecentCpu_recentCpu (t : ThreadId) :
    ((updateRecentCpu k.cur k).thread t).recentCpu = k.chargedCpu t := by
  unfold updateRecentCpu Kernel.chargedCpu
  by_cases hi : k.idleThread = some k.cur
  · rw [if_pos hi, if_neg]
    rintro ⟨rfl, hne⟩
    exact hne hi
  · rw [if_neg hi]
    by_cases ht : t = k.cur
    · subst ht
      rw [if_pos ⟨rfl, hi⟩, Kernel.modify_thread_self]
    · rw [if_neg fun h => ht h.1, Kernel.modify_thread_of_ne ht]

theorem updateRecentCpu_priority (t : ThreadId) :
    ((updateRecentCpu k.cur k).thread t).priority = (k.thread t).priority := by
  unfold updateRecentCpu
  split
  · rfl
  · exact Kernel.modify_field Thread.priority fun _ => rfl

end

theorem threadForeach_loadAvg (hf : ∀ t k, (func t k).loadAvg = k.loadAvg) (ts : List ThreadId)
    (k : Kernel) : (ts.foldl (fun k t => func t k) k).loadAvg = k.loadAvg := by
  induction ts generalizing k with
  | nil => rfl
  | cons t ts ih => rw [List.foldl_cons, ih, hf]

theorem calculateRecentCpu_loadAvg (t : ThreadId) (k : Kernel) :
    (calculateRecentCpu t k).loadAvg = k.loadAvg := by
  unfold calculateRecentCpu
  split <;> rfl

theorem calculatePriority_loadAvg (t : ThreadId) (k : Kernel) :
    (calculatePriority t k).loadAvg = k.loadAvg := by
  unfold calculatePriority
  split <;> rfl

theorem everySecond_thread (hnd : k.allList.Nodup) (t : ThreadId) :
    k.everySecond.thread t =
      if k.ticks % timerFreq = 0 ∧ t ∈ k.allList ∧ k.idleThread ≠ some t then
        { k.thread t with
          recentCpu := recentCpuStep k.nextLoadAvg (k.thread t).recentCpu (k.thread t).nice }
      else k.thread t := by
  unfold Kernel.everySecond Kernel.nextLoadAvg
  by_cases hsec : k.ticks % timerFreq = 0
  · rw [if_pos hsec, if_pos hsec]
    refine (threadForeach_thread (g := fun loadAvg th =>
      { th with recentCpu := recentCpuStep loadAvg th.recentCpu th.nice })
      (fun _ _ => rfl) k.allList hnd (calculateLoadAvg k) t).trans ?_
    by_cases ht : t ∈ k.allList ∧ k.idleThread ≠ some t
    · exact (if_pos ht).trans (if_pos ⟨hsec, ht⟩).symm
    · exact (if_neg ht).trans (if_neg fun h => ht h.2).symm
  · rw [if_neg hsec, if_neg fun h => hsec h.1]

theorem everySecond_loadAvg (k : Kernel) : k.everySecond.loadAvg = k.nextLoadAvg := by
  unfold Kernel.everySecond Kernel.nextLoadAvg
  split
  · exact threadForeach_loadAvg calculateRecentCpu_loadAvg k.allList (calculateLoadAvg k)
  · rfl

theorem everySlice_thread (hnd : k.allList.Nodup) (t : ThreadId) :
    k.everySlice.thread t =
      if k.ticks % timeSlice = 0 ∧ t ∈ k.allList ∧ k.idleThread ≠ some t then
        { k.thread t with priority := mlfqsPriority (k.thread t).recentCpu (k.thread t).nice }
      else k.thread t := by
  unfold Kernel.everySlice
  by_cases hslice : k.ticks % timeSlice = 0
  · rw [if_pos hslice]
    refine (threadForeach_thread (g := fun _ th =>
      { th with priority := mlfqsPriority th.recentCpu th.nice })
      (fun _ _ => rfl) k.allList hnd k t).trans ?_
    simp [hslice]
  · rw [if_neg hslice, if_neg fun h => hslice h.1]

theorem everySlice_loadAvg (k : Kernel) : k.everySlice.loadAvg = k.loadAvg := by
  unfold Kernel.everySlice
  split
  · exact threadForeach_loadAvg calculatePriority_loadAvg k.allList k
  · rfl

/-! ## まとめ -/

theorem updateRecentCpu_nextLoadAvg (k : Kernel) :
    (updateRecentCpu k.cur k).nextLoadAvg = k.nextLoadAvg := by
  unfold updateRecentCpu
  split <;> rfl

theorem mlfqsTicked_loadAvg (k : Kernel) : k.mlfqsTicked.loadAvg = k.nextLoadAvg := by
  unfold Kernel.mlfqsTicked
  rw [everySlice_loadAvg, everySecond_loadAvg, updateRecentCpu_nextLoadAvg]

theorem charged_everySecond_recentCpu (hnd : k.allList.Nodup) (t : ThreadId) :
    ((updateRecentCpu k.cur k).everySecond.thread t).recentCpu = k.nextRecentCpu t := by
  have hf := updateRecentCpu_tickFrame k.cur k
  rw [everySecond_thread (by rw [hf.allList]; exact hnd), updateRecentCpu_nextLoadAvg, hf.ticks,
    hf.idleThread, hf.allList]
  unfold Kernel.nextRecentCpu
  split
  · show recentCpuStep _ ((updateRecentCpu k.cur k).thread t).recentCpu _ = _
    rw [updateRecentCpu_recentCpu, hf.nice]
  · exact updateRecentCpu_recentCpu k t

theorem charged_everySecond_priority (hnd : k.allList.Nodup) (t : ThreadId) :
    ((updateRecentCpu k.cur k).everySecond.thread t).priority = (k.thread t).priority := by
  have hf := updateRecentCpu_tickFrame k.cur k
  rw [everySecond_thread (by rw [hf.allList]; exact hnd)]
  split
  · exact updateRecentCpu_priority k t
  · exact updateRecentCpu_priority k t

theorem mlfqsTicked_recentCpu (hnd : k.allList.Nodup) (t : ThreadId) :
    (k.mlfqsTicked.thread t).recentCpu = k.nextRecentCpu t := by
  have hf := (updateRecentCpu_tickFrame k.cur k).trans (everySecond_tickFrame _)
  rw [← charged_everySecond_recentCpu hnd, Kernel.mlfqsTicked,
    everySlice_thread (by rw [hf.allList]; exact hnd)]
  split <;> rfl

theorem mlfqsTicked_priority (hnd : k.allList.Nodup) (t : ThreadId) :
    (k.mlfqsTicked.thread t).priority = k.nextPriority t := by
  have hf := (updateRecentCpu_tickFrame k.cur k).trans (everySecond_tickFrame _)
  rw [Kernel.mlfqsTicked, everySlice_thread (by rw [hf.allList]; exact hnd), hf.ticks,
    hf.idleThread, hf.allList]
  unfold Kernel.nextPriority
  split
  · show mlfqsPriority ((updateRecentCpu k.cur k).everySecond.thread t).recentCpu _ = _
    rw [charged_everySecond_recentCpu hnd, hf.nice]
  · exact charged_everySecond_priority hnd t

end Pintos
