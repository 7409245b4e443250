import Pintos.Properties.InitThread
import Pintos.Properties.LoadAverage
import Pintos.Properties.MlfqsTick

/-!
# MLFQS の計算は溢れない

idle でない thread が高々 `N` 個、`nice` が -20 以上 20 以下の実行で、
`load_avg` と全員の `recent_cpu` の範囲を一つの不変量にする。

* `load_avg` は `N` 以下なので、係数 `2 * load_avg / (2 * load_avg + 1)` は `2N / (2N + 1)` 以下である
* 一秒の間に増えるのは高々 100、係数を掛けて `nice` を足すと `240N + 20` 以下に戻る
* 一秒の途中では `240N + 20 + ticks % 100` 以下である

`init_thread` の途中に一秒の境目が来ると、写した値は減らないまま `all_list` に入り、範囲を出る。
-/

namespace Pintos

open Infra

/-! ## 式の範囲 -/

section

variable {N : Nat} {loadAvg recentCpu nice c : Int}

/-- 係数が `2N / (2N + 1)` 以下である。 -/
structure Decay (N : Nat) (c : Int) : Prop where
  nonneg : 0 ≤ c
  lt : c < 2 ^ 14
  le : c * (2 * N + 1) ≤ 2 * N * 2 ^ 14

/-- **`load_avg` が範囲にあれば、割る数は零でなく、係数は 0 以上 1 未満である。** -/
theorem decayWith_checked (hN : N ≤ 500) (h0 : 0 ≤ loadAvg) (hle : loadAvg ≤ N * 2 ^ 14) :
    ∃ c, decayWith checkedOperation loadAvg = some c ∧ Decay N c := by
  have hpos : 0 < loadAvg * 2 + 1 * 2 ^ 14 := by omega
  have hdiv : (loadAvg * 2 * 2 ^ 14).tdiv (loadAvg * 2 + 1 * 2 ^ 14) =
      loadAvg * 2 * 2 ^ 14 / (loadAvg * 2 + 1 * 2 ^ 14) := Int.tdiv_eq_ediv_of_nonneg (by omega)
  have hmul := Int.ediv_mul_le (loadAvg * 2 * 2 ^ 14) (Int.ne_of_gt hpos)
  have hnonneg : 0 ≤ loadAvg * 2 * 2 ^ 14 / (loadAvg * 2 + 1 * 2 ^ 14) :=
    Int.ediv_nonneg (by omega) (Int.le_of_lt hpos)
  rw [← hdiv] at hmul hnonneg
  generalize hc : (loadAvg * 2 * 2 ^ 14).tdiv (loadAvg * 2 + 1 * 2 ^ 14) = c at hmul hnonneg
  have hlt : c < 2 ^ 14 := by
    by_contra hge
    have : 2 ^ 14 * (loadAvg * 2 + 1 * 2 ^ 14) ≤ c * (loadAvg * 2 + 1 * 2 ^ 14) :=
      Int.mul_le_mul_of_nonneg_right (Int.not_lt.mp hge) (Int.le_of_lt hpos)
    omega
  have hbound : 2 * loadAvg * (2 ^ 14 - c) ≤ 2 * (N * 2 ^ 14) * (2 ^ 14 - c) :=
    Int.mul_le_mul_of_nonneg_right (by omega) (by omega)
  refine ⟨c, ?_, hnonneg, hlt, by linarith⟩
  have hsafe : InInt32 c := by
    unfold InInt32
    omega
  have hc1 := checked_mulInt (A := loadAvg) (B := 2) (by unfold InInt32; omega)
  have hc2 := checked_addInt (A := loadAvg * 2) (B := 1) (by decide) (by unfold InInt32; omega)
  have hc3 := checked_div (A := loadAvg * 2) (C := loadAvg * 2 + 1 * 2 ^ 14) (Int.ne_of_gt hpos)
    (by rw [hc]; exact hsafe)
  unfold decayWith
  simp only [Option.bind_eq_bind]
  rw [hc1, Option.bind_some, hc2, Option.bind_some, hc3, hc]

/-- 係数を掛けると、`(2N + 1) * m` 以下の値は `2N * m` 以下になる。 -/
theorem Decay.mul_le (h : Decay N c) {m : Int} (hm : 0 ≤ m)
    (hr : recentCpu ≤ (2 * N + 1) * m * 2 ^ 14) :
    c * recentCpu / 2 ^ 14 ≤ 2 * N * m * 2 ^ 14 := by
  have h1 : c * recentCpu ≤ c * ((2 * N + 1) * m * 2 ^ 14) := Int.mul_le_mul_of_nonneg_left hr h.nonneg
  have h2 : c * (2 * N + 1) * (m * 2 ^ 14) ≤ 2 * N * 2 ^ 14 * (m * 2 ^ 14) :=
    Int.mul_le_mul_of_nonneg_right h.le (by omega)
  refine Int.ediv_le_of_le_mul (by decide) ?_
  linarith

theorem Decay.le_mul (h : Decay N c) {m : Int} (hm : 0 ≤ m)
    (hr : -((2 * N + 1) * m * 2 ^ 14) ≤ recentCpu) :
    -(2 * N * m * 2 ^ 14) ≤ c * recentCpu / 2 ^ 14 := by
  have h1 : c * -((2 * N + 1) * m * 2 ^ 14) ≤ c * recentCpu := Int.mul_le_mul_of_nonneg_left hr h.nonneg
  have h2 : c * (2 * N + 1) * (m * 2 ^ 14) ≤ 2 * N * 2 ^ 14 * (m * 2 ^ 14) :=
    Int.mul_le_mul_of_nonneg_right h.le (by omega)
  refine Int.le_ediv_of_mul_le (by decide) ?_
  linarith

def CpuRange (N : Nat) (recentCpu : Int) : Prop :=
  -((40 * N + 20) * 2 ^ 14) ≤ recentCpu ∧ recentCpu ≤ (240 * N + 120) * 2 ^ 14

def NiceRange (nice : Int) : Prop := -20 ≤ nice ∧ nice ≤ 20

instance (nice : Int) : Decidable (NiceRange nice) := inferInstanceAs (Decidable (_ ∧ _))

/-- **範囲の中では `calculate_recent_cpu` のどの演算も溢れず、値は `240N + 20` 以下に戻る。** -/
theorem recentCpuWith_checked (hN : N ≤ 500) (h0 : 0 ≤ loadAvg) (hle : loadAvg ≤ N * 2 ^ 14)
    (hr : CpuRange N recentCpu) (hn : NiceRange nice) :
    recentCpuWith checkedOperation loadAvg recentCpu nice =
        some (recentCpuStep loadAvg recentCpu nice) ∧
      CpuRange N (recentCpuStep loadAvg recentCpu nice) ∧
      recentCpuStep loadAvg recentCpu nice ≤ (240 * N + 20) * 2 ^ 14 := by
  obtain ⟨c, hc, hdecay⟩ := decayWith_checked hN h0 hle
  have hup := hdecay.mul_le (m := 120) (by decide) (by have := hr.2; linarith)
  have hlow := hdecay.le_mul (m := 20) (by decide) (by have := hr.1; linarith)
  obtain ⟨hn1, hn2⟩ := hn
  have hmul := checked_mul (A := c) (C := recentCpu) (by unfold InInt32; omega)
  have hadd := checked_addInt (A := c * recentCpu / 2 ^ 14) (B := nice) (by unfold InInt32; omega)
    (by unfold InInt32; omega)
  have hval : recentCpuWith checkedOperation loadAvg recentCpu nice =
      some (c * recentCpu / 2 ^ 14 + nice * 2 ^ 14) := by
    unfold recentCpuWith
    simp only [Option.bind_eq_bind]
    rw [hc, Option.bind_some, hmul, Option.bind_some, hadd]
  rw [recentCpuStep_of_checked hval]
  refine ⟨hval, ⟨?_, ?_⟩, ?_⟩ <;> omega

/-- **範囲の中では `calculate_priority` のどの演算も溢れない。** -/
theorem priorityWith_checked (hN : N ≤ 500) (hr : CpuRange N recentCpu) (hn : NiceRange nice) :
    priorityWith checkedOperation recentCpu nice = some (rawPriority recentCpu nice) := by
  have hr32 : InInt32 recentCpu := by
    obtain ⟨hr1, hr2⟩ := hr
    unfold InInt32
    omega
  have hval := priorityWith_eq hr32 hn
  rw [hval, rawPriority_of_checked hval]

end

/-! ## 不変量 -/

structure Ranged (N : Nat) (k : Kernel) : Prop where
  loadAvg_nonneg : 0 ≤ k.loadAvg
  loadAvg_le : k.loadAvg ≤ N * 2 ^ 14
  recentCpu : ∀ t, CpuRange N (k.thread t).recentCpu
  nice : ∀ t, NiceRange (k.thread t).nice

/-- 一秒の途中の不変量。idle thread の `recent_cpu` は増えも減りもしないので除く。 -/
structure CpuInv (N : Nat) (k : Kernel) : Prop extends Ranged N k where
  charged : ∀ t ∈ k.allList, k.idleThread ≠ some t →
    (k.thread t).recentCpu ≤ (240 * N + 20 + k.ticks % timerFreq) * 2 ^ 14

variable {N : Nat} {k k' k₁ : Kernel} {t : ThreadId} {f : Thread → Thread}

theorem CpuInv.congr (h : CpuInv N k) (hload : 0 ≤ k'.loadAvg ∧ k'.loadAvg ≤ N * 2 ^ 14)
    (hcpu : ∀ t, (k'.thread t).recentCpu = (k.thread t).recentCpu)
    (hnice : ∀ t, NiceRange (k'.thread t).nice) (hticks : k'.ticks = k.ticks)
    (hall : ∀ t ∈ k'.allList, t ∈ k.allList)
    (hidle : ∀ t, k.idleThread = some t → k'.idleThread = some t) : CpuInv N k' where
  loadAvg_nonneg := hload.1
  loadAvg_le := hload.2
  recentCpu t := by rw [hcpu]; exact h.recentCpu t
  nice := hnice
  charged t ht hi := by
    rw [hcpu, hticks]
    exact h.charged t (hall t ht) fun he => hi (hidle t he)

theorem CpuInv.same (h : CpuInv N k) (hs : SameVitals k k')
    (hidle : ∀ t, k.idleThread = some t → k'.idleThread = some t) : CpuInv N k' := by
  refine h.congr ?_ hs.recentCpu (fun t => ?_) hs.ticks (fun t ht => ?_) hidle
  · rw [hs.loadAvg]
    exact ⟨h.loadAvg_nonneg, h.loadAvg_le⟩
  · rw [hs.nice]
    exact h.nice t
  · rw [hs.allList] at ht
    exact ht

/-! ## idle thread は変わらない -/

theorem Action.idleThread {tr : List Obs} (ha : Action k tr k')
    (hi : k.idleThread = some t) : k'.idleThread = some t := by
  cases ha with
  | aging => rw [(threadAging_recalculated k).eq]; exact hi
  | startIdle hnone _ _ => rw [hnone] at hi; cases hi
  | up s k₁ hw =>
    rcases semaWake_ok hw with ⟨-, rfl⟩ | ⟨u, ts, -, -, rfl⟩ <;> exact hi
  | _ => exact hi

theorem Switch.idleThread (hs : Switch k k') : k'.idleThread = k.idleThread := by
  cases hs with
  | @block c _ _ _ _ _ _ _ _ => exact k.waiting_idleThread c
  | _ => rfl

/-! ## 記録を書き換える code -/

theorem WellFormed.cur_mem_allList (hw : WellFormed k) (hl : Listed k)
    (hcur : k.idleThread ≠ some k.cur) : k.cur ∈ k.allList := by
  refine hl.mem k.cur ?_ hcur
  rw [show (k.thread k.cur).status = .running from hw.cur_running]
  simp

/-- これから `all_list` に入る thread の値も範囲にある。 -/
structure Inherits (N : Nat) (k : Kernel) (th : Thread) : Prop where
  recentCpu : CpuRange N th.recentCpu
  nice : NiceRange th.nice
  charged : th.recentCpu ≤ (240 * N + 20 + k.ticks % timerFreq) * 2 ^ 14

theorem CpuInv.initThread (h : CpuInv N k) (hw : WellFormed k) (hl : Listed k)
    (hcur : k.idleThread ≠ some k.cur) (p : Int) (stack : List Code) :
    Inherits N k (initThread k p stack) := by
  have hmod : (0 : Int) ≤ k.ticks % timerFreq := Int.emod_nonneg _ (by decide)
  have hzero : CpuRange N 0 := by
    unfold CpuRange
    omega
  unfold Pintos.initThread
  split
  · exact ⟨hzero, by show NiceRange 0; decide, by show (0 : Int) ≤ _; omega⟩
  · exact ⟨h.recentCpu k.cur, h.nice k.cur, h.charged k.cur (hw.cur_mem_allList hl hcur) hcur⟩

theorem CpuInv.inserted (h : CpuInv N k) {th : Thread} (hth : Inherits N k th) :
    CpuInv N (k.inserted th) := by
  -- 新しい thread と、それまでの thread に分ける
  have hsplit : ∀ {P : Thread → Prop} (t : ThreadId), P th →
      (t ≠ k.nextThread → P (k.thread t)) → P ((k.enlisted th).thread t) := by
    intro P t hp hold
    by_cases hne : t = k.nextThread
    · subst hne
      rw [enlisted_self]
      exact hp
    · rw [enlisted_of_ne hne]
      exact hold hne
  have hlisted : CpuInv N (k.enlisted th) := by
    refine ⟨⟨h.loadAvg_nonneg, h.loadAvg_le, fun t => ?_, fun t => ?_⟩, fun t ht hi => ?_⟩
    · exact hsplit (P := fun th => CpuRange N th.recentCpu) t hth.recentCpu fun _ => h.recentCpu t
    · exact hsplit (P := fun th => NiceRange th.nice) t hth.nice fun _ => h.nice t
    · refine hsplit (P := fun th => th.recentCpu ≤ (240 * N + 20 + k.ticks % timerFreq) * 2 ^ 14) t
        hth.charged fun hne => h.charged t ?_ hi
      rcases List.mem_append.mp ht with ht | ht
      · exact ht
      · exact absurd (List.mem_singleton.mp ht) hne
  exact hlisted.same (push_sameVitals _ _) fun _ hi => hi

theorem CpuInv.modify_cur (h : CpuInv N k) (hcpu : ∀ th, (f th).recentCpu = th.recentCpu)
    (hnice : ∀ th, NiceRange th.nice → NiceRange (f th).nice) : CpuInv N (k.modify k.cur f) := by
  refine h.congr ⟨h.loadAvg_nonneg, h.loadAvg_le⟩ (fun t => ?_) (fun t => ?_) rfl
    (fun _ ht => ht) fun _ hi => hi
  · exact Kernel.modify_field Thread.recentCpu hcpu
  · by_cases ht : t = k.cur
    · subst ht
      rw [Kernel.modify_thread_self]
      exact hnice _ (h.nice k.cur)
    · rw [Kernel.modify_thread_of_ne ht]
      exact h.nice t

theorem calculatePriority_recentCpu (t : ThreadId) (k : Kernel) (u : ThreadId) :
    ((calculatePriority t k).thread u).recentCpu = (k.thread u).recentCpu := by
  unfold calculatePriority
  split
  · rfl
  · exact Kernel.modify_field Thread.recentCpu fun _ => rfl

section

variable (hidle : ∀ t, k.idleThread = some t → k'.idleThread = some t)
include hidle

theorem threadExit_cpuInv (h : CpuInv N k) (hx : threadExit k = .ok k') : CpuInv N k' := by
  have hdying := h.same (setStatus_sameVitals k k.cur .dying) fun _ hi => hi
  have hexited : CpuInv N k.exited := ⟨⟨h.loadAvg_nonneg, h.loadAvg_le, hdying.recentCpu,
    hdying.nice⟩, fun t ht => hdying.charged t (List.mem_of_mem_erase ht)⟩
  exact hexited.same (schedule_sameVitals (threadExit_ok hx).2) hidle

theorem threadSleep_cpuInv {w : Int} (h : CpuInv N k) (hx : threadSleep w k = .ok k') :
    CpuInv N k' := by
  obtain ⟨-, -, ⟨-, rfl⟩ | ⟨-, hx⟩⟩ := threadSleep_ok hx
  · exact h
  · have hmod := h.modify_cur (f := fun th => { th with wakeUpTime := w }) (fun _ => rfl) fun _ hn => hn
    have hpush := hmod.same (push_sameVitals _ [.sleepReturn k.intrLevel]) fun _ hi => hi
    have hsleep : CpuInv N (k.sleeping w) :=
      ⟨⟨h.loadAvg_nonneg, h.loadAvg_le, hpush.recentCpu, hpush.nice⟩, hpush.charged⟩
    exact hsleep.same (threadBlock_sameVitals hx) hidle

theorem threadSetPriority_cpuInv {p : Int} (h : CpuInv N k) (hx : threadSetPriority p k = .ok k') :
    CpuInv N k' := by
  have hmod := h.modify_cur (f := fun th => { th with priority := p }) (fun _ => rfl) fun _ hn => hn
  rcases threadSetPriority_ok hx with ⟨-, rfl⟩ | ⟨-, hx | ⟨-, hx⟩⟩
  · exact h
  · exact hmod.same (sameVitals_callRule.testMaxPriority (k := intrDisable _) hx) hidle
  · exact hmod.same (sameVitals_callRule.intrSetLevel (k := intrDisable _) hx) hidle

theorem threadSetNice_cpuInv {n : Int} (h : CpuInv N k) (hn : NiceRange n)
    (hx : threadSetNice n k = .ok k') : CpuInv N k' := by
  have hmod := h.modify_cur (f := fun th => { th with nice := n }) (fun _ => rfl) fun _ _ => hn
  generalize hk₁ : k.modify k.cur (fun th => { th with nice := n }) = k₁ at hmod
  have hf := (calculatePriority_tickFrame k.cur (intrDisable k₁)).trans (sortReadyList_tickFrame _)
  have hx : testMaxPriority k.intrLevel (sortReadyList (calculatePriority k.cur (intrDisable k₁))) =
      .ok k' := by
    rw [← hk₁]
    exact hx
  have hs := sameVitals_callRule.testMaxPriority hx
  refine hmod.congr ?_ (fun t => ?_) (fun t => ?_) (hs.ticks.trans hf.ticks) (fun t ht => ?_)
    fun t hi => hidle t (by rw [← hk₁] at hi; exact hi)
  · have hload : k'.loadAvg = k₁.loadAvg := hs.loadAvg.trans (calculatePriority_loadAvg k.cur _)
    rw [hload]
    exact ⟨hmod.loadAvg_nonneg, hmod.loadAvg_le⟩
  · exact (hs.recentCpu t).trans (calculatePriority_recentCpu k.cur (intrDisable k₁) t)
  · rw [(hs.nice t).trans (hf.nice t)]
    exact hmod.nice t
  · rw [hs.allList.trans hf.allList] at ht
    exact ht

end

/-! ## 溢れを検査する tick -/

/-- `update_recent_cpu`。 -/
def updateRecentCpuChecked (t : ThreadId) (k : Kernel) : Option Kernel :=
  if k.idleThread = some t then some k
  else do
    let one ← checkedOperation .const 1 0 0
    let r ← checkedOperation .add (k.thread t).recentCpu 0 one
    some (k.modify t fun th => { th with recentCpu := r })

/-- `calculate_load_avg`。 -/
def calculateLoadAvgChecked (k : Kernel) : Option Kernel := do
  let l ← loadAvgWith checkedOperation k.loadAvg (readyThreads k)
  some { k with loadAvg := l }

/-- `calculate_recent_cpu`。 -/
def calculateRecentCpuChecked (t : ThreadId) (k : Kernel) : Option Kernel :=
  if k.idleThread = some t then some k
  else do
    let r ← recentCpuWith checkedOperation k.loadAvg (k.thread t).recentCpu (k.thread t).nice
    some (k.modify t fun th => { th with recentCpu := r })

/-- `calculate_priority`。 -/
def calculatePriorityChecked (t : ThreadId) (k : Kernel) : Option Kernel :=
  if k.idleThread = some t then some k
  else do
    let p ← priorityWith checkedOperation (k.thread t).recentCpu (k.thread t).nice
    some (k.modify t fun th => { th with priority := max priMin (min priMax p) })

def threadForeachChecked (func : ThreadId → Kernel → Option Kernel) (k : Kernel) : Option Kernel :=
  k.allList.foldlM (fun k t => func t k) k

/-- `update_load_avg_and_recent_cpu`。 -/
def updateLoadAvgAndRecentCpuChecked (k : Kernel) : Option Kernel := do
  let k ← calculateLoadAvgChecked k
  threadForeachChecked calculateRecentCpuChecked k

def everySecondChecked (k : Kernel) : Option Kernel :=
  if k.ticks % timerFreq = 0 then updateLoadAvgAndRecentCpuChecked k else some k

/-- MLFQS の tick。溢れるか零で割る演算が一つでもあれば `none` になる。 -/
def mlfqsTickChecked (k : Kernel) : Option Kernel := do
  let k ← updateRecentCpuChecked k.cur k
  let k ← everySecondChecked k
  if k.ticks % timeSlice = 0 then (threadForeachChecked calculatePriorityChecked k).map sortReadyList
  else some k

theorem modify_congr {g : Thread → Thread} (h : f (k.thread t) = g (k.thread t)) :
    k.modify t f = k.modify t g := by
  unfold Kernel.modify
  rw [h]

theorem Ranged.modify (h : Ranged N k)
    (hcpu : CpuRange N (f (k.thread t)).recentCpu) (hnice : ∀ th, (f th).nice = th.nice) :
    Ranged N (k.modify t f) where
  loadAvg_nonneg := h.loadAvg_nonneg
  loadAvg_le := h.loadAvg_le
  recentCpu u := by
    by_cases hu : u = t
    · subst hu
      rw [Kernel.modify_thread_self]
      exact hcpu
    · rw [Kernel.modify_thread_of_ne hu]
      exact h.recentCpu u
  nice u := by
    rw [Kernel.modify_field Thread.nice hnice]
    exact h.nice u

theorem checked_charge {r : Int} (hN : N ≤ 500) (hr : CpuRange N r)
    (hle : r ≤ (240 * N + 119) * 2 ^ 14) :
    checkedOperation .add r 0 (2 ^ 14) = some (r + 2 ^ 14) ∧
      fpAdd r (fpConst 1) = r + 2 ^ 14 := by
  unfold CpuRange at hr
  have hadd := checked_add (A := r) (C := 2 ^ 14) (by unfold InInt32; omega)
  exact ⟨hadd, plainOperation_of_checked hadd⟩

theorem updateRecentCpuChecked_eq (hN : N ≤ 500) (h : Ranged N k)
    (ht : k.idleThread ≠ some t → (k.thread t).recentCpu ≤ (240 * N + 119) * 2 ^ 14) :
    updateRecentCpuChecked t k = some (updateRecentCpu t k) ∧ Ranged N (updateRecentCpu t k) := by
  unfold updateRecentCpuChecked updateRecentCpu
  by_cases hi : k.idleThread = some t
  · rw [if_pos hi, if_pos hi]
    exact ⟨rfl, h⟩
  · rw [if_neg hi, if_neg hi]
    have hr := h.recentCpu t
    have hle := ht hi
    have hone : checkedOperation .const 1 0 0 = some (2 ^ 14) := checked_const (by decide)
    obtain ⟨hadd, hval⟩ := checked_charge hN hr hle
    constructor
    · simp only [Option.bind_eq_bind]
      rw [hone, Option.bind_some, hadd, Option.bind_some, ← hval]
      exact congrArg some (modify_congr rfl)
    · refine h.modify ?_ fun _ => rfl
      show CpuRange N (fpAdd (k.thread t).recentCpu (fpConst 1))
      rw [hval]
      unfold CpuRange at hr ⊢
      omega

theorem calculateLoadAvgChecked_eq (hN : N ≤ 500) (h : Ranged N k) (hready : readyThreads k ≤ N) :
    calculateLoadAvgChecked k = some (calculateLoadAvg k) ∧ Ranged N (calculateLoadAvg k) := by
  have hcheck := loadAvgWith_checked (by omega) h.loadAvg_nonneg h.loadAvg_le hready
  have hval : loadAvgStep k.loadAvg (readyThreads k) = loadAvgValue k.loadAvg (readyThreads k) :=
    loadAvgStep_of_checked hcheck
  have hrange := loadAvgValue_range h.loadAvg_nonneg h.loadAvg_le hready
  rw [calculateLoadAvg_eq, hval]
  constructor
  · unfold calculateLoadAvgChecked
    simp only [Option.bind_eq_bind]
    rw [hcheck, Option.bind_some]
  · exact ⟨hrange.1, hrange.2, h.recentCpu, h.nice⟩

theorem calculateRecentCpuChecked_eq (hN : N ≤ 500) (h : Ranged N k) (t : ThreadId) :
    calculateRecentCpuChecked t k = some (calculateRecentCpu t k) ∧
      Ranged N (calculateRecentCpu t k) := by
  unfold calculateRecentCpuChecked
  by_cases hi : k.idleThread = some t
  · rw [if_pos hi, calculateRecentCpu, if_pos hi]
    exact ⟨rfl, h⟩
  · obtain ⟨hcheck, hrange, -⟩ := recentCpuWith_checked hN h.loadAvg_nonneg h.loadAvg_le
      (h.recentCpu t) (h.nice t)
    rw [if_neg hi, calculateRecentCpu, if_neg hi]
    constructor
    · simp only [Option.bind_eq_bind]
      rw [hcheck, Option.bind_some]
      exact congrArg some (modify_congr rfl)
    · exact h.modify hrange fun _ => rfl

theorem calculatePriorityChecked_eq (hN : N ≤ 500) (h : Ranged N k) (t : ThreadId) :
    calculatePriorityChecked t k = some (calculatePriority t k) ∧
      Ranged N (calculatePriority t k) := by
  unfold calculatePriorityChecked calculatePriority
  by_cases hi : k.idleThread = some t
  · rw [if_pos hi, if_pos hi]
    exact ⟨rfl, h⟩
  · rw [if_neg hi, if_neg hi]
    constructor
    · simp only [Option.bind_eq_bind]
      rw [priorityWith_checked hN (h.recentCpu t) (h.nice t), Option.bind_some]
      refine congrArg some (modify_congr ?_)
      rw [mlfqsPriority_eq]
    · exact h.modify (h.recentCpu t) fun _ => rfl

theorem threadForeachChecked_eq {func : ThreadId → Kernel → Kernel}
    {checked : ThreadId → Kernel → Option Kernel}
    (hstep : ∀ t k, Ranged N k → checked t k = some (func t k) ∧ Ranged N (func t k))
    (ts : List ThreadId) (h : Ranged N k) :
    ts.foldlM (fun k t => checked t k) k = some (ts.foldl (fun k t => func t k) k) ∧
      Ranged N (ts.foldl (fun k t => func t k) k) := by
  induction ts generalizing k with
  | nil => exact ⟨rfl, h⟩
  | cons t ts ih =>
    obtain ⟨hcheck, h'⟩ := hstep t k h
    rw [List.foldlM_cons, hcheck, List.foldl_cons]
    exact ih h'

theorem everySecondChecked_eq (hN : N ≤ 500) (h : Ranged N k) (hready : readyThreads k ≤ N) :
    everySecondChecked k = some k.everySecond ∧ Ranged N k.everySecond := by
  unfold everySecondChecked Kernel.everySecond
  split
  · obtain ⟨hload, hl⟩ := calculateLoadAvgChecked_eq hN h hready
    obtain ⟨hcpu, hr⟩ := threadForeachChecked_eq (N := N)
      (fun t _ hk => calculateRecentCpuChecked_eq hN hk t) (calculateLoadAvg k).allList hl
    refine ⟨?_, hr⟩
    unfold updateLoadAvgAndRecentCpuChecked
    simp only [Option.bind_eq_bind]
    rw [hload, Option.bind_some]
    exact hcpu
  · exact ⟨rfl, h⟩

/-- **範囲の中では、MLFQS の tick のどの演算も溢れない。** -/
theorem mlfqsTickChecked_eq (hN : N ≤ 500) (h : Ranged N k) (hready : readyThreads k ≤ N)
    (hcur : k.idleThread ≠ some k.cur → k.curThread.recentCpu ≤ (240 * N + 119) * 2 ^ 14) :
    mlfqsTickChecked k = some k.mlfqsTicked ∧ Ranged N k.mlfqsTicked := by
  obtain ⟨hcharge, h₁⟩ := updateRecentCpuChecked_eq hN (t := k.cur) h hcur
  have hready₁ : readyThreads (updateRecentCpu k.cur k) ≤ N := by
    unfold updateRecentCpu
    split <;> exact hready
  obtain ⟨hsecond, h₂⟩ := everySecondChecked_eq hN h₁ hready₁
  obtain ⟨hslice, h₃⟩ := threadForeachChecked_eq (N := N)
    (fun t _ hk => calculatePriorityChecked_eq hN hk t)
    (updateRecentCpu k.cur k).everySecond.allList h₂
  unfold mlfqsTickChecked Kernel.mlfqsTicked Kernel.everySlice
  simp only [Option.bind_eq_bind]
  rw [hcharge, Option.bind_some, hsecond, Option.bind_some]
  split
  · unfold threadForeachChecked
    rw [hslice]
    exact ⟨rfl, ⟨h₃.loadAvg_nonneg, h₃.loadAvg_le, h₃.recentCpu, h₃.nice⟩⟩
  · exact ⟨rfl, h₂⟩

/-! ## timer 割り込み -/

/-- `thread_tick` の MLFQS の計算を始めるところ。 -/
@[simps thread readyList allList cur idleThread loadAvg ticks schedulingMode]
def Kernel.tickStart (k : Kernel) (y : Bool) : Kernel :=
  { k with
    ticks := k.ticks + 1, threadTicks := k.threadTicks + 1, intrLevel := .off,
    inExternalIntr := true, yieldOnReturn := y }

theorem Kernel.tickStart_eq (k : Kernel) (y : Bool) : k.ticking.counted.flagged y = k.tickStart y :=
  rfl

theorem Kernel.tickStart_modeTicked (hmode : k.schedulingMode = .mlfqs) (y : Bool) :
    (k.tickStart y).modeTicked = (k.tickStart y).mlfqsTicked := by
  unfold modeTicked
  rw [tickStart_schedulingMode, hmode]

@[simp] theorem Kernel.tickStart_curThread (k : Kernel) (y : Bool) :
    (k.tickStart y).curThread = k.curThread := by
  rw [curThread, tickStart_thread, tickStart_cur, curThread]

@[simp] theorem Kernel.tickStart_chargedCpu (k : Kernel) (y : Bool) (t : ThreadId) :
    (k.tickStart y).chargedCpu t = k.chargedCpu t := by
  simp [chargedCpu]

theorem CpuInv.cur_le (h : CpuInv N k) (hw : WellFormed k) (hl : Listed k)
    (hcur : k.idleThread ≠ some k.cur) : k.curThread.recentCpu ≤ (240 * N + 119) * 2 ^ 14 := by
  have hle : k.curThread.recentCpu ≤ (240 * N + 20 + k.ticks % timerFreq) * 2 ^ 14 :=
    h.charged k.cur (hw.cur_mem_allList hl hcur) hcur
  have hmod : k.ticks % timerFreq < 100 := Int.emod_lt_of_pos _ (by decide)
  omega

theorem Ranged.tickStart (h : Ranged N k) (y : Bool) : Ranged N (k.tickStart y) where
  loadAvg_nonneg := by simpa using h.loadAvg_nonneg
  loadAvg_le := by simpa using h.loadAvg_le
  recentCpu t := by simpa using h.recentCpu t
  nice t := by simpa using h.nice t

theorem CpuInv.tickStart_cur_le (h : CpuInv N k) (hw : WellFormed k) (hl : Listed k) (y : Bool)
    (hcur : (k.tickStart y).idleThread ≠ some (k.tickStart y).cur) :
    (k.tickStart y).curThread.recentCpu ≤ (240 * N + 119) * 2 ^ 14 := by
  rw [Kernel.tickStart_idleThread, Kernel.tickStart_cur] at hcur
  rw [Kernel.tickStart_curThread]
  exact h.cur_le hw hl hcur

section

variable (hN : N ≤ 500) (h : CpuInv N k) (hw : WellFormed k) (hl : Listed k)
include hN h hw hl

theorem CpuInv.tickChecked (hcount : k.nonIdle ≤ N) (y : Bool) :
    mlfqsTickChecked (k.tickStart y) = some (k.tickStart y).mlfqsTicked ∧
      Ranged N (k.tickStart y).mlfqsTicked := by
  have hready : readyThreads (k.tickStart y) ≤ N := by
    have hle := Nat.le_trans (readyThreads_le_nonIdle hw hl) hcount
    simpa [readyThreads] using hle
  exact mlfqsTickChecked_eq hN (h.tickStart y) hready (h.tickStart_cur_le hw hl y)

theorem CpuInv.chargedCpu_le (ht : t ∈ k.allList) (hi : k.idleThread ≠ some t) :
    k.chargedCpu t ≤ (240 * N + 20 + k.ticks % timerFreq + 1) * 2 ^ 14 := by
  have hle := h.charged t ht hi
  unfold Kernel.chargedCpu
  split
  · next hcur =>
    obtain ⟨rfl, -⟩ := hcur
    rw [(checked_charge hN (h.recentCpu k.cur) (h.cur_le hw hl hi)).2]
    omega
  · omega

/-- **一秒の終わりに、`recent_cpu` は `240N + 20` 以下に戻る。** -/
theorem CpuInv.ticked_le (hcount : k.nonIdle ≤ N) (y : Bool) (ht : t ∈ k.allList)
    (hi : k.idleThread ≠ some t) : ((k.tickStart y).mlfqsTicked.thread t).recentCpu ≤
      (240 * N + 20 + (k.ticks + 1) % timerFreq) * 2 ^ 14 := by
  have hranged := (h.tickChecked hN hw hl hcount y).2
  have hload := mlfqsTicked_loadAvg (k.tickStart y)
  have hnd : (k.tickStart y).allList.Nodup := by simpa using hl.nodup
  rw [mlfqsTicked_recentCpu hnd]
  unfold Kernel.nextRecentCpu
  rw [Kernel.tickStart_ticks, Kernel.tickStart_allList, Kernel.tickStart_idleThread]
  by_cases hsec : (k.ticks + 1) % timerFreq = 0
  · rw [if_pos ⟨hsec, ht, hi⟩, hsec]
    have hcharged : CpuRange N ((k.tickStart y).chargedCpu t) := by
      rw [← updateRecentCpu_recentCpu]
      exact (updateRecentCpuChecked_eq hN (h.tickStart y)
        (h.tickStart_cur_le hw hl y)).2.recentCpu t
    obtain ⟨-, -, hle⟩ := recentCpuWith_checked hN (hload ▸ hranged.loadAvg_nonneg)
      (hload ▸ hranged.loadAvg_le) hcharged ((h.tickStart y).nice t)
    omega
  · rw [if_neg fun h => hsec h.1, Kernel.tickStart_chargedCpu]
    have hle := h.chargedCpu_le hN hw hl ht hi
    unfold timerFreq at hsec hle ⊢
    omega

end

theorem agingTick_recentCpu (k : Kernel) (t : ThreadId) :
    ((agingTick k).thread t).recentCpu = (k.thread t).recentCpu := by
  have haging : ((threadAging k).thread t).recentCpu = (k.thread t).recentCpu := by
    unfold threadAging
    generalize k.readyList = ts
    induction ts generalizing k with
    | nil => rfl
    | cons u ts ih =>
      rw [List.foldl_cons, ih]
      exact Kernel.modify_field Thread.recentCpu fun th => by split <;> rfl
  unfold agingTick
  split
  · exact haging
  · rfl

theorem timer_cpuInv (hN : N ≤ 500) (h : CpuInv N k) (hw : WellFormed k) (hl : Listed k)
    (hs : SleepSorted k) (hmode : k.schedulingMode = .mlfqs) (hcount : k.nonIdle ≤ N)
    (hrun : timerInterrupt k.inHandler = .ok k₁) (hsame : SameVitals k₁ k')
    (hidle : ∀ t, k.idleThread = some t → k'.idleThread = some t) : CpuInv N k' := by
  obtain ⟨y, y', k₂, k₃, hk₂, hf, hrun', hwoken⟩ := timerInterrupt_steps hw hs
  obtain rfl := Except.ok.inj (hrun'.symm.trans hrun)
  rw [Kernel.tickStart_eq, Kernel.tickStart_modeTicked hmode] at hk₂
  have hranged := (h.tickChecked hN hw hl hcount y).2
  have hcpu : ∀ t, (k'.thread t).recentCpu = ((k.tickStart y).mlfqsTicked.thread t).recentCpu := by
    intro t
    have haged : (k₂.thread t).recentCpu = ((k.tickStart y).mlfqsTicked.thread t).recentCpu := by
      rw [hk₂]
      exact agingTick_recentCpu _ t
    exact ((hsame.recentCpu t).trans (congrArg Vitals.recentCpu (hwoken.vitals t))).trans haged
  have hload : k'.loadAvg = (k.tickStart y).mlfqsTicked.loadAvg := by
    rw [hsame.loadAvg, hwoken.loadAvg, hk₂, agingTick_eq]
    rfl
  have hnice : ∀ t, (k'.thread t).nice = (k.thread t).nice := by
    intro t
    exact ((hsame.nice t).trans (congrArg Vitals.nice (hwoken.vitals t))).trans (hf.nice t)
  have hticks : k'.ticks = k.ticks + 1 := hsame.ticks.trans (hwoken.ticks.trans hf.ticks)
  have hall : k'.allList = k.allList := hsame.allList.trans (hwoken.allList.trans hf.allList)
  refine ⟨⟨?_, ?_, fun t => ?_, fun t => ?_⟩, fun t ht hi => ?_⟩
  · rw [hload]
    exact hranged.loadAvg_nonneg
  · rw [hload]
    exact hranged.loadAvg_le
  · rw [hcpu]
    exact hranged.recentCpu t
  · rw [hnice]
    exact h.nice t
  · rw [hall] at ht
    rw [hcpu, hticks]
    exact h.ticked_le hN hw hl hcount y ht fun he => hi (hidle t he)

/-! ## 一歩と実行 -/

theorem step_cpuInv (hN : N ≤ 500) (h : CpuInv N k) (hw : WellFormed k) (hl : Listed k)
    (hs : SleepSorted k) (hmode : k.schedulingMode = .mlfqs) {e : Event} (hcount : k.nonIdle ≤ N)
    (hnice : ∀ n, e = .call (.threadSetNice n) → NiceRange n)
    (hstep : step k e = some k') : CpuInv N k' := by
  have hidle : ∀ t, k.idleThread = some t → k'.idleThread = some t :=
    fun t hi => StepRule.step (P := fun k => k.idleThread = some t)
      ⟨fun ha _ => ha.idleThread, fun hs _ hi => hs.idleThread.trans hi, fun _ hi => hi⟩ hw hstep hi
  rcases step_vitals hstep with hsame | ⟨c, k₀, -, -, hc, hx, hhow⟩ | ⟨-, k₁, hrun, hsame⟩
  · exact h.same hsame hidle
  · rcases hhow with ⟨rfl, rfl, hcall⟩ | ⟨-, rfl, cs, hst⟩
    · cases c with
      | threadCreate page p =>
        rcases threadCreate_ok hx with rfl | ⟨-, rfl⟩
        · exact h
        · exact h.inserted (h.initThread hw hl (ne_idle_of_create hcall) p _)
      | threadExit => exact threadExit_cpuInv hidle h hx
      | threadSleep w => exact threadSleep_cpuInv hidle h hx
      | threadSetPriority p => exact threadSetPriority_cpuInv hidle h hx
      | threadSetNice n => exact threadSetNice_cpuInv hidle h (hnice n rfl) hx
      | startLoadAvg =>
        rw [Code.callable] at hcall
        split at hcall <;> cases hcall
      | _ => cases hc
    · -- `stack` に残るのは `load_avg = 0` だけである
      have hframe := hw.framesOk.isFrame k.cur c (by
        rw [show (k.thread k.cur).stack = _ from hst]; simp)
      cases c with
      | startLoadAvg =>
        have hpop : CpuInv N k.pop := h.same (pop_sameVitals k) fun _ hi => hi
        rw [← Except.ok.inj hx]
        refine hpop.congr ?_ (fun _ => rfl) hpop.nice rfl (fun _ ht => ht) fun _ hi => hi
        show 0 ≤ fpConst 0 ∧ fpConst 0 ≤ _
        rw [show fpConst 0 = 0 by decide]
        omega
      | threadCreate | threadExit | threadSleep | threadSetPriority | threadSetNice => cases hframe
      | _ => cases hc
  · exact timer_cpuInv hN h hw hl hs hmode hcount hrun hsame hidle

section Boot

variable (mode : SchedulingMode) (aging : Bool) (values : Nat → BitVec 32) (t : ThreadId)

theorem boot_values : ((boot mode aging values).thread t).recentCpu = 0 ∧
    ((boot mode aging values).thread t).nice = 0 := by
  by_cases h0 : t = 0
  · subst h0; exact ⟨rfl, rfl⟩
  · by_cases h1 : t = 1
    · subst h1; cases mode <;> exact ⟨rfl, rfl⟩
    · simp [boot, Kernel.created, h0, h1, threadInit, noThread, Kernel.push, Kernel.modify]

theorem boot_cpuInv : CpuInv N (boot mode aging values) := by
  have hload : (boot mode aging values).loadAvg = 0 := rfl
  have hticks : (boot mode aging values).ticks = 0 := rfl
  refine ⟨⟨?_, ?_, fun t => ?_, fun t => ?_⟩, fun t _ _ => ?_⟩
  · rw [hload]
  · rw [hload]
    omega
  · rw [(boot_values mode aging values t).1]
    unfold CpuRange
    omega
  · rw [(boot_values mode aging values t).2]
    unfold NiceRange
    decide
  · rw [(boot_values mode aging values t).1, hticks]
    unfold timerFreq
    omega

end Boot

/-- `thread_set_nice` に渡す `nice` が範囲にある。 -/
def CreationEvent.niceOk : CreationEvent → Bool
  | .step (.call (.threadSetNice n)) => NiceRange n
  | _ => true

/-- **idle でない thread が作りかけのものも入れて高々 `N` 個で、`nice` が範囲にある一歩。** -/
def Bounded (N : Nat) (m : Creation) (e : CreationEvent) : Prop :=
  m.kernel.nonIdle + m.making.length ≤ N ∧ e.niceOk = true

instance (m : Creation) (e : CreationEvent) : Decidable (Bounded N m e) :=
  inferInstanceAs (Decidable (_ ∧ _))

/-- **一秒の境目の timer 割り込みは、`init_thread` の途中の thread が無いときに入る。** -/
def OffBoundary (m : Creation) (e : CreationEvent) : Prop :=
  e = .step (.interrupt .timer) → (m.kernel.ticks + 1) % timerFreq = 0 → m.making = []

instance (m : Creation) (e : CreationEvent) : Decidable (OffBoundary m e) :=
  inferInstanceAs (Decidable (_ → _ → _))

/-- 境目でない tick は、写した値の上限を一つ上げるだけである。 -/
theorem Inherits.ticked {th : Thread} (h : Inherits N k th) (hticks : k'.ticks = k.ticks + 1)
    (hsec : (k.ticks + 1) % timerFreq ≠ 0) : Inherits N k' th := by
  refine ⟨h.recentCpu, h.nice, ?_⟩
  have hle := h.charged
  rw [hticks]
  unfold timerFreq at hsec hle ⊢
  omega

/-- 一秒の途中の不変量。作りかけの thread の値も範囲にある。 -/
structure CreationCpu (N : Nat) (m : Creation) : Prop where
  kernel : CpuInv N m.kernel
  making : ∀ e ∈ m.making, Inherits N m.kernel e.2

variable {m m' : Creation}

theorem CreationCpu.next (hN : N ≤ 500) (h : CreationCpu N m) (hm : CreationSound m)
    (hmode : m.kernel.schedulingMode = .mlfqs) {e : CreationEvent} (hin : Bounded N m e)
    (hoff : OffBoundary m e) (hs : m.next e = some m') : CreationCpu N m' := by
  obtain ⟨hw, hl, hsleep, -⟩ := hm
  rcases Creation.next_cases hs with ⟨ev, k', rfl, hstep, rfl⟩ | ⟨p, rfl, hcode, rfl⟩ |
    ⟨th, rfl, -, hmem, rfl⟩
  · have hcount : m.kernel.nonIdle ≤ N := Nat.le_of_add_right_le hin.1
    have hnice : ∀ n, ev = .call (.threadSetNice n) → NiceRange n := by
      rintro n rfl
      exact of_decide_eq_true hin.2
    refine ⟨step_cpuInv hN h.kernel hw hl hsleep hmode hcount hnice hstep, fun e he => ?_⟩
    have hth := h.making e he
    rcases step_ticks hw hsleep hstep with ⟨rfl, hticks⟩ | hticks
    · refine hth.ticked hticks fun hsec => ?_
      rw [hoff rfl hsec] at he
      cases he
    · exact ⟨hth.recentCpu, hth.nice, by rw [hticks]; exact hth.charged⟩
  · refine ⟨h.kernel, ?_⟩
    rintro e (_ | ⟨_, he⟩)
    · exact h.kernel.initThread hw hl (Creation.inCode_iff.mp hcode).2 p _
    · exact h.making e he
  · refine ⟨h.kernel.inserted (h.making _ hmem), fun e he => ?_⟩
    have hth := h.making e (List.mem_filter.mp he).1
    exact ⟨hth.recentCpu, hth.nice, hth.charged⟩

theorem reachableIf_creationCpu (hN : N ≤ 500)
    (h : ReachableIf creation (fun m e => Bounded N m e ∧ OffBoundary m e) m)
    (hmode : m.kernel.schedulingMode = .mlfqs) : CreationCpu N m := by
  revert hmode
  refine ReachableIf.invariant_of (J := CreationSound)
    (I := fun m => m.kernel.schedulingMode = .mlfqs → CreationCpu N m)
    (fun _ => reachable_creationSound) (fun m₀ h0 _ => ?_) ?_ h
  · obtain ⟨hboot, hnone⟩ : IsBoot m₀.kernel ∧ m₀.making = [] := h0
    obtain ⟨mode, aging, values, hk⟩ := isBoot_iff.mp hboot
    exact ⟨hk ▸ boot_cpuInv mode aging values, by rw [hnone]; exact nofun⟩
  · intro m₁ e m₂ hm ih hc hs hmode
    have hmode₁ := (hm.schedulingMode hs).symm.trans hmode
    exact (ih hmode₁).next hN hm hmode₁ hc.1 hc.2 hs

/-- 割る数が正で、係数を溢れずに計算できて、0 以上 1 未満である。 -/
def DecaySafe (loadAvg : Int) : Prop :=
  0 < fpAddInt (fpMulInt loadAvg 2) 1 ∧
    ∃ c, decayWith checkedOperation loadAvg = some c ∧ 0 ≤ c ∧ c < 2 ^ 14

theorem Ranged.decaySafe (hN : N ≤ 500) (h : Ranged N k) : DecaySafe k.loadAvg := by
  have h0 := h.loadAvg_nonneg
  have hle := h.loadAvg_le
  obtain ⟨c, hc, hdecay⟩ := decayWith_checked hN h0 hle
  refine ⟨?_, c, hc, hdecay.nonneg, hdecay.lt⟩
  have hmul : fpMulInt k.loadAvg 2 = k.loadAvg * 2 :=
    plainOperation_of_checked (checked_mulInt (by unfold InInt32; omega))
  have hadd : fpAddInt (k.loadAvg * 2) 1 = k.loadAvg * 2 + 1 * 2 ^ 14 :=
    plainOperation_of_checked (checked_addInt (by decide) (by unfold InInt32; omega))
  rw [hmul, hadd]
  omega

/--
**一秒の境目の tick が `init_thread` の途中に入らなければ、MLFQS の計算はどれだけ長い実行でも溢れない。**

idle でない thread がいつも高々 `N ≤ 500` 個で、`nice` が -20 以上 20 以下の実行で着く
どの状態でも、次が成り立つ。

* どの thread の `recent_cpu` も、作りかけの thread のものも、`±(240N + 120)` に収まる
* `calculate_recent_cpu` の割る数は正で、係数は 0 以上 1 未満である
* `init_thread` と `thread_set_nice` の `calculate_priority` は溢れない
* 次の `thread_tick` の計算は、検査つきの計算と同じで、どの演算も溢れない
-/
theorem mlfqs_arithmetic_safe (hN : N ≤ 500)
    (h : ReachableIf creation (fun m e => Bounded N m e ∧ OffBoundary m e) m)
    (hmode : m.kernel.schedulingMode = .mlfqs) :
    (∀ th, (∃ t, th = m.kernel.thread t) ∨ (∃ t, (t, th) ∈ m.making) →
      -((240 * N + 120) * 2 ^ 14) ≤ th.recentCpu ∧ th.recentCpu ≤ (240 * N + 120) * 2 ^ 14 ∧
      ∀ n, NiceRange n → priorityWith checkedOperation th.recentCpu n =
        some (rawPriority th.recentCpu n)) ∧
    DecaySafe m.kernel.loadAvg ∧
    (m.kernel.nonIdle ≤ N → ∃ y y',
      threadTick m.kernel.ticking =
        .ok (agingTick ((m.kernel.tickStart y).mlfqsTicked.flagged y')) ∧
      mlfqsTickChecked (m.kernel.tickStart y) = some (m.kernel.tickStart y).mlfqsTicked ∧
      DecaySafe (m.kernel.tickStart y).nextLoadAvg) := by
  have hm := reachable_creationSound h.reachable
  have hinv := reachableIf_creationCpu hN h hmode
  refine ⟨fun th hth => ?_, hinv.kernel.decaySafe hN, fun hcount => ?_⟩
  · have hr : CpuRange N th.recentCpu := by
      rcases hth with ⟨t, rfl⟩ | ⟨t, ht⟩
      · exact hinv.kernel.recentCpu t
      · exact (hinv.making _ ht).recentCpu
    exact ⟨by have := hr.1; omega, hr.2, fun n hn => priorityWith_checked hN hr hn⟩
  · obtain ⟨y, y', htick⟩ := threadTick_total (k := m.kernel.ticking) rfl
    obtain ⟨hcheck, hranged⟩ := hinv.kernel.tickChecked hN hm.wellFormed hm.listed hcount y
    refine ⟨y, y', ?_, hcheck, ?_⟩
    · rw [htick, Kernel.tickStart_eq, Kernel.tickStart_modeTicked hmode]
    · rw [← mlfqsTicked_loadAvg]
      exact hranged.decaySafe hN

theorem boot_creation (C : Creation → CreationEvent → Prop) :
    ReachableIf creation C ⟨boot .mlfqs false fun _ => 0, []⟩ :=
  .init ⟨isBoot_iff.mpr ⟨.mlfqs, false, fun _ => 0, rfl⟩, rfl⟩

/-- main が `nice` を下げて 3 tick 走り、新しい thread に写した後に 1 tick 走る。 -/
def busyEvents : List CreationEvent :=
  mlfqsStartEvents.map .step ++ .step (.call (.threadSetNice (-20))) ::
    List.replicate 3 (.step (.interrupt .timer)) ++ [.copy 31, .step (.interrupt .timer)]

theorem mlfqs_arithmetic_safe_busy : ∃ m,
    ReachableIf creation (fun m e => Bounded 2 m e ∧ OffBoundary m e) m ∧
    m.kernel.schedulingMode = .mlfqs ∧ (m.kernel.thread 0).recentCpu = 4 * 2 ^ 14 ∧
    m.making.map (fun e => (e.2.recentCpu, e.2.nice)) = [(3 * 2 ^ 14, -20)] ∧
    DecaySafe m.kernel.loadAvg := by
  obtain ⟨m, hr, hm⟩ := exists_reachableIf_of_run busyEvents
    (boot_creation fun m e => Bounded 2 m e ∧ OffBoundary m e)
    (p := fun m => m.kernel.schedulingMode = .mlfqs && ((m.kernel.thread 0).recentCpu = 4 * 2 ^ 14 &&
      m.making.map (fun e => (e.2.recentCpu, e.2.nice)) = [(3 * 2 ^ 14, -20)])) (by decide +kernel)
  simp only [Bool.and_eq_true, decide_eq_true_eq] at hm
  obtain ⟨hmode, hcpu, hmaking⟩ := hm
  exact ⟨m, hr, hmode, hcpu, hmaking, (mlfqs_arithmetic_safe (by decide) hr hmode).2.1⟩

/-- 一秒の 99 tick。4 tick ごとに yield するが、ほかに走る thread は無い。 -/
def secondEvents : List CreationEvent :=
  (List.replicate 24 (List.replicate 4 (.step (.interrupt .timer)) ++
    [.step .resume, .step .resume])).flatten ++ List.replicate 3 (.step (.interrupt .timer))

/-- 境目の tick の直前に値を写し、直後に `all_list` に入れて、新しい thread に譲って終わる。 -/
def handoverEvents : List CreationEvent :=
  [.copy 31, .step (.interrupt .timer), .step .resume, .step .resume, .insert] ++
    List.replicate 7 (.step .resume) ++ [.step (.call .threadExit), .step .resume]

/-- 七秒目に `recent_cpu` が 601 になる。境目の tick は、作りかけの thread の値を一度も減らさない。 -/
def undecayedEvents : List CreationEvent :=
  mlfqsStartEvents.map .step ++ (List.replicate 6 (secondEvents ++ handoverEvents)).flatten ++
    List.replicate 4 (.step (.interrupt .timer)) ++ [.step .resume, .step .resume] ++
    List.replicate 3 (.step (.interrupt .timer))

/-- **境目の tick が `init_thread` の途中に入ると、`recent_cpu` は範囲を出る。** -/
theorem exists_recentCpu_over : ∃ m, ReachableIf creation (Bounded 2) m ∧
    m.kernel.schedulingMode = .mlfqs ∧
    m.kernel.curThread.recentCpu > (240 * (2 : Nat) + 120) * 2 ^ 14 := by
  obtain ⟨m, hr, hm⟩ := exists_reachableIf_of_run undecayedEvents (boot_creation (Bounded 2))
    (p := fun m => m.kernel.schedulingMode = .mlfqs &&
      m.kernel.curThread.recentCpu > (240 * (2 : Nat) + 120) * 2 ^ 14) (by decide +kernel)
  simp only [Bool.and_eq_true, decide_eq_true_eq] at hm
  exact ⟨m, hr, hm⟩

end Pintos
