import Pintos.Properties.ListDiscipline

/-!
# thread の記録を書き換える code

priority、`nice`、`recent_cpu`、`wake_up_time` を書き換える code は少ない。
ほかの code は、切り替えや列の出し入れをしても、どの thread のこれらの値も変えない（`SameVitals`）。

`load_avg`、`ticks`、`all_list`、`sleep_list` もまとめて見ておく。
-/

namespace Pintos

open Infra

/-- 計算に使う thread の項目。 -/
structure Vitals where
  priority : Int
  nice : Int
  recentCpu : Int
  wakeUpTime : Int

def Thread.vitals (th : Thread) : Vitals := ⟨th.priority, th.nice, th.recentCpu, th.wakeUpTime⟩

structure Readings where
  vitals : ThreadId → Vitals
  loadAvg : Int
  ticks : Int
  allList : List ThreadId
  sleepList : List ThreadId

def Kernel.readings (k : Kernel) : Readings where
  vitals t := (k.thread t).vitals
  loadAvg := k.loadAvg
  ticks := k.ticks
  allList := k.allList
  sleepList := k.sleepList

def SameVitals (k k' : Kernel) : Prop := k'.readings = k.readings

variable {k k' k₁ k₂ : Kernel}

namespace SameVitals

theorem refl (k : Kernel) : SameVitals k k := rfl

theorem trans (h : SameVitals k k₁) (h' : SameVitals k₁ k₂) : SameVitals k k₂ :=
  Eq.trans h' h

variable (h : SameVitals k k')
include h

theorem symm : SameVitals k' k := Eq.symm h

theorem vitals (t : ThreadId) :
    (k'.thread t).vitals = (k.thread t).vitals := congrFun (congrArg Readings.vitals h) t

theorem priority (t : ThreadId) :
    (k'.thread t).priority = (k.thread t).priority := congrArg Vitals.priority (h.vitals t)

theorem nice (t : ThreadId) :
    (k'.thread t).nice = (k.thread t).nice := congrArg Vitals.nice (h.vitals t)

theorem recentCpu (t : ThreadId) :
    (k'.thread t).recentCpu = (k.thread t).recentCpu := congrArg Vitals.recentCpu (h.vitals t)

theorem wakeUpTime (t : ThreadId) :
    (k'.thread t).wakeUpTime = (k.thread t).wakeUpTime := congrArg Vitals.wakeUpTime (h.vitals t)

theorem loadAvg : k'.loadAvg = k.loadAvg := congrArg Readings.loadAvg h

theorem ticks : k'.ticks = k.ticks := congrArg Readings.ticks h

theorem allList : k'.allList = k.allList := congrArg Readings.allList h

theorem sleepList : k'.sleepList = k.sleepList :=
  congrArg Readings.sleepList h

end SameVitals

/-! ## 状態の書き換え -/

section

variable (k)

theorem modify_sameVitals (t : ThreadId) {f : Thread → Thread} (hf : ∀ th, (f th).vitals = th.vitals) :
    SameVitals k (k.modify t f) :=
  congrArg (Readings.mk · k.loadAvg k.ticks k.allList k.sleepList)
    (funext fun _ => Kernel.modify_field Thread.vitals hf)

theorem push_sameVitals (cs : List Code) : SameVitals k (k.push cs) :=
  modify_sameVitals k k.cur fun _ => rfl

theorem setStatus_sameVitals (t : ThreadId) (st : ThreadStatus) : SameVitals k (k.setStatus t st) :=
  modify_sameVitals k t fun _ => rfl

theorem pop_sameVitals : SameVitals k k.pop := modify_sameVitals k k.cur fun _ => rfl

theorem readied_sameVitals (t : ThreadId) : SameVitals k (k.readied t) :=
  setStatus_sameVitals k t .ready

end

/-! ## 切り替え -/

theorem schedule_sameVitals (h : schedule k = .ok k') : SameVitals k k' := by
  obtain ⟨next, rest, -, -, rfl⟩ := schedule_ok h
  exact setStatus_sameVitals k next .running

theorem threadYield_sameVitals (h : threadYield k = .ok k') : SameVitals k k' := by
  have hleft : SameVitals k k.yielded :=
    (setStatus_sameVitals k k.cur .ready).trans (push_sameVitals _ [.intrSetLevel k.intrLevel])
  exact hleft.trans (schedule_sameVitals (threadYield_ok h).2.2)

theorem threadBlock_sameVitals (h : threadBlock k = .ok k') : SameVitals k k' :=
  (setStatus_sameVitals k k.cur .blocked).trans (schedule_sameVitals (threadBlock_ok h).2)

/-! ## 呼び出しの規則 -/

/-- flag と、lock の holder と、次の番号のほかは同じである。 -/
def OnlyFlags (k k' : Kernel) : Prop :=
  k' = { k with
    holder := k'.holder
    idleThread := k'.idleThread
    nextTid := k'.nextTid
    intrLevel := k'.intrLevel
    inExternalIntr := k'.inExternalIntr
    yieldOnReturn := k'.yieldOnReturn }

/--
基本の操作について成り立つ関係。

semaphore と lock の関数も、ほかの短い code も、ここにある操作を続けたものである。
一つの関係についてこれらを示せば、code の実行全体についても成り立つ（`CallRule.exec`）。
-/
structure CallRule (R : Kernel → Kernel → Prop) : Prop where
  trans {k m k' : Kernel} : R k m → R m k' → R k k'
  flags {k k' : Kernel} : OnlyFlags k k' → R k k'
  /-- `tid`、`status`、`stack` だけを書き換える。 -/
  record (k : Kernel) (t : ThreadId) {f : Thread → Thread} :
    (∀ th, (f th).vitals = th.vitals) → R k (k.modify t f)
  value (k : Kernel) (s : SemaId) (v : Nat) : R k (k.setSema s { k.sema s with value := v })
  enqueue (k : Kernel) (s : SemaId) :
    R k (k.setSema s { k.sema s with
      waiters := listInsertOrdered k.cmpPriority k.cur (k.sema s).waiters })
  dequeue {k : Kernel} {s : SemaId} {t : ThreadId} {ts : List ThreadId} :
    (k.sema s).waiters = t :: ts → R k (k.setSema s { k.sema s with waiters := ts })
  yield {k k' : Kernel} : threadYield k = .ok k' → R k k'
  block {k k' : Kernel} : threadBlock k = .ok k' → R k k'
  unblock {k k' : Kernel} {t : ThreadId} : threadUnblock t k = .ok k' → R k k'

/-- 記録か、`load_avg`、`all_list`、`sleep_list` を書き換える code。 -/
def Code.rewrites : Code → Bool
  | .threadCreate _ _ | .threadExit | .threadSleep _ | .threadSetPriority _ | .threadSetNice _
  | .startLoadAvg => true
  | _ => false

namespace CallRule

variable {R : Kernel → Kernel → Prop} (hR : CallRule R) {s : SemaId} {old : IntrLevel}

include hR

theorem refl (k : Kernel) : R k k := hR.flags rfl

theorem push (k : Kernel) (cs : List Code) : R k (k.push cs) := hR.record k k.cur fun _ => rfl

theorem pop (k : Kernel) : R k k.pop := hR.record k k.cur fun _ => rfl

theorem level (k : Kernel) (l : IntrLevel) : R k { k with intrLevel := l } := hR.flags rfl

theorem intrSetLevel (h : intrSetLevel old k = .ok k') : R k k' := by
  rw [intrSetLevel_ok h]
  exact hR.level k old

theorem intrEnable (h : intrEnable k = .ok k') : R k k' := by
  rw [(intrEnable_ok h).2]
  exact hR.level k .on

theorem testMaxPriority (h : testMaxPriority old k = .ok k') : R k k' := by
  rcases testMaxPriority_ok h with ⟨-, rfl⟩ | hy
  · exact hR.level k old
  · exact hR.trans (hR.push k _) (hR.yield hy)

theorem semaDecrement (h : semaDecrement s old k = .ok k') : R k k' :=
  hR.trans (hR.value k s _) (hR.trans (hR.push _ _) (hR.intrSetLevel h))

theorem semaDownLoop (h : semaDownLoop s old k = .ok k') : R k k' := by
  unfold Pintos.semaDownLoop at h
  split at h
  · have hcmp : (k.push [.semaDownLoop s old]).cmpPriority = k.cmpPriority := by
      funext a b
      simp only [Kernel.cmpPriority, Kernel.push_priority]
    have hwait := hR.enqueue (k.push [.semaDownLoop s old]) s
    rw [hcmp] at hwait
    exact hR.trans (hR.push k _) (hR.trans hwait (hR.block h))
  · exact hR.semaDecrement h

theorem semaDown (h : semaDown s k = .ok k') : R k k' :=
  hR.trans (hR.level k .off) (hR.semaDownLoop (semaDown_ok h))

theorem semaTryDown (h : semaTryDown s k = .ok k') : R k k' := by
  unfold Pintos.semaTryDown at h
  refine hR.trans (hR.level k .off) ?_
  split at h
  · exact hR.semaDecrement h
  · exact hR.intrSetLevel h

theorem semaWake (h : semaWake s k = .ok k') : R k k' := by
  unfold Pintos.semaWake at h
  split at h
  · rw [← Except.ok.inj h]
    exact hR.refl k
  · next hw => exact hR.trans (hR.dequeue hw) (hR.unblock h)

theorem semaUp (h : semaUp s k = .ok k') : R k k' := by
  obtain ⟨k₁, hw, ht⟩ := bind_eq_ok.mp h
  exact hR.trans (hR.level k .off) (hR.trans (hR.semaWake hw)
    (hR.trans (hR.value k₁ s _) (hR.testMaxPriority ht)))

/-- **記録を書き換えない code は、基本の操作を続けたものである。** -/
theorem exec {c : Code} (hc : c.rewrites = false) (h : exec c k = .ok k') : R k k' := by
  -- flag や番号だけを書き換える code
  have hflag : ∀ {k₁ : Kernel}, (Except.ok k₁ : Except Panic Kernel) = .ok k' → R k k₁ → R k k' := by
    intro k₁ he hs
    rw [← Except.ok.inj he]
    exact hs
  cases c with
  | threadCreate | threadExit | threadSleep | threadSetPriority | threadSetNice | startLoadAvg =>
    cases hc
  | intrDisable | iret | blockReturn | idleHlt | lockSetHolder l => exact hflag h (hR.flags rfl)
  | intrEnable | kernelThread => exact hR.intrEnable h
  | threadBlock => exact hR.trans (hR.push k _) (hR.block h)
  | threadUnblock t | createUnblock t => exact hR.unblock h
  | threadYield => exact hR.yield h
  | semaDown s => exact hR.semaDown h
  | semaTryDown s => exact hR.semaTryDown h
  | semaUp s => exact hR.semaUp h
  | lockAcquire l => exact hR.semaDown (lockAcquire_ok h)
  | lockTryAcquire l => exact hR.semaTryDown (lockTryAcquire_ok h)
  | lockRelease l =>
    obtain ⟨-, rfl⟩ := lockRelease_ok h
    exact hR.trans (m := { k with holder := Function.update k.holder l none }) (hR.flags rfl)
      (hR.push _ _)
  | intrSetLevel old | sleepReturn old => exact hR.intrSetLevel h
  | semaDownLoop s old => exact hR.semaDownLoop h
  | allocateTid t =>
    have htid := hR.record k t (f := fun th => { th with tid := k.nextTid }) fun _ => rfl
    exact hflag h (hR.trans htid (hR.flags rfl))
  | createTest t =>
    rcases createTest_ok h with h | rfl
    · exact hR.yield h
    · exact hR.refl k'
  | idleStart =>
    exact hR.trans (m := { k with idleThread := some k.cur }) (hR.flags rfl) (hR.semaUp h)
  | idleLoop => exact hR.trans (hR.push k _) (hR.trans (hR.level _ .off) (hR.block h))

end CallRule

/-- **記録を書き換えない code は、どの値も変えない。** -/
theorem sameVitals_callRule : CallRule SameVitals where
  trans h h' := h.trans h'
  flags h := by
    unfold OnlyFlags at h
    rw [h]
    rfl
  record k t _ hf := modify_sameVitals k t hf
  value _ _ _ := rfl
  enqueue _ _ := rfl
  dequeue _ := rfl
  yield := threadYield_sameVitals
  block := threadBlock_sameVitals
  unblock {k _ t} h := by
    rw [(threadUnblock_ok h).2]
    exact readied_sameVitals k t

/-! ## 割り込み -/

theorem intrHandler_sameVitals {handler : Kernel → Except Panic Kernel}
    (h : intrHandler handler k = .ok k') :
    ∃ k₁, handler k.inHandler = .ok k₁ ∧ SameVitals k₁ k' := by
  obtain ⟨k₁, hrun, hafter⟩ := intrHandler_ok h
  refine ⟨k₁, hrun, ?_⟩
  rcases hafter with ⟨-, hy⟩ | ⟨-, rfl⟩
  · exact (push_sameVitals { k₁ with inExternalIntr := false } _).trans (threadYield_sameVitals hy)
  · exact .refl k₁

theorem Handler.run_sameVitals {hd : Handler} (hne : hd ≠ .timer) (h : hd.run k = .ok k') :
    SameVitals k k' := by
  cases hd with
  | timer => exact absurd rfl hne
  | semaUp s => exact sameVitals_callRule.semaUp h
  | unblock t => exact sameVitals_callRule.unblock h
  | other =>
    rw [← Except.ok.inj h]
    exact .refl k

/--
**一歩が値を変えるのは、次のどれかのときだけである。**

* 実行中の thread が、`stack` の先頭を取り除いた `k₀` から、書き換える code を実行した
* timer の割り込みが入った
-/
theorem step_vitals {e : Event} (h : step k e = some k') :
    SameVitals k k' ∨
    (∃ c k₀, SameVitals k k₀ ∧ k₀.cur = k.cur ∧ c.rewrites = true ∧ exec c k₀ = .ok k' ∧
      (e = .call c ∧ k₀ = k ∧ c.callable k = true ∨
        e = .resume ∧ k₀ = k.pop ∧ ∃ cs, k.curThread.stack = c :: cs)) ∨
    (e = .interrupt .timer ∧ ∃ k₁, timerInterrupt k.inHandler = .ok k₁ ∧ SameVitals k₁ k') := by
  rcases step_cases h with ⟨c, rfl, -, hcall, hx⟩ | ⟨c, cs, rfl, hst, hx⟩ | ⟨hd, rfl, -, -, hx⟩
  · cases hc : c.rewrites with
    | false => exact .inl (sameVitals_callRule.exec hc hx)
    | true => exact .inr (.inl ⟨c, k, .refl k, rfl, hc, hx, .inl ⟨rfl, rfl, hcall⟩⟩)
  · cases hc : c.rewrites with
    | false => exact .inl ((pop_sameVitals k).trans (sameVitals_callRule.exec hc hx))
    | true =>
      exact .inr (.inl ⟨c, k.pop, pop_sameVitals k, rfl, hc, hx, .inr ⟨rfl, rfl, cs, hst⟩⟩)
  · obtain ⟨k₁, hrun, hs⟩ := intrHandler_sameVitals hx
    by_cases hne : hd = .timer
    · subst hne
      exact .inr (.inr ⟨rfl, k₁, hrun, hs⟩)
    · have hbody : SameVitals k k₁ := Handler.run_sameVitals (k := k.inHandler) hne hrun
      exact .inl (hbody.trans hs)

end Pintos
