import Pintos.Properties.Schedule

/-!
# 一歩を基本操作に分ける

`Machine.lean` の一歩は、

1. 実行中の thread を変えない基本操作 `Action` を何回か行い、
2. 最後に高々一回、別の thread に切り替える（`Switch`）

という形をしている。これを `Atomic` と書く。
不変量は `exec` の一つ一つの code についてでなく、`Action` と `Switch` について示せばよい。

`Action` には、その操作で起きた semaphore と lock の出来事 `Obs` が付く。
-/

namespace Pintos

open Infra

/-! ## 出来事 -/

/-- semaphore の値の上げ下げと、lock の獲得と解放。 -/
inductive Obs
  | up (s : SemaId)
  | down (s : SemaId)
  | acquired (t : ThreadId) (l : LockId)
  | released (t : ThreadId) (l : LockId)
deriving DecidableEq

/-! ## frame の種類 -/

/-- 割り込みの level を戻すだけの frame。 -/
def Code.isControl : Code → Bool
  | .intrSetLevel _ | .iret => true
  | _ => false

/-- `stack` に積まれうる code。ほかは thread が自分の code から呼ぶだけである。 -/
def Code.isFrame : Code → Bool
  | .intrEnable | .semaDown .idleStarted | .startLoadAvg
  | .lockAcquire .tid | .allocateTid _ | .lockRelease .tid | .createUnblock _ | .createTest _
  | .intrSetLevel _ | .iret | .blockReturn | .sleepReturn _ | .semaDownLoop _ _
  | .lockSetHolder _ | .semaUp (.lock _) | .kernelThread | .idleStart | .idleHlt => true
  | _ => false

/-- idle thread の `stack` に現れる frame。 -/
def Code.isIdleFrame : Code → Bool
  | .kernelThread | .intrSetLevel _ | .iret | .idleStart | .idleHlt => true
  | _ => false

/-- block した thread の続きになる frame。 -/
def Code.isWait : Code → Bool
  | .blockReturn | .idleHlt | .sleepReturn _ | .semaDownLoop _ _ => true
  | _ => false

namespace Code

variable {c : Code}

theorem isFrame_of_isControl (h : c.isControl = true) : c.isFrame = true := by
  cases c <;> first | rfl | cases h

theorem isIdleFrame_of_isControl (h : c.isControl = true) : c.isIdleFrame = true := by
  cases c <;> first | rfl | cases h

theorem isFrame_of_isWait (h : c.isWait = true) : c.isFrame = true := by
  cases c <;> first | rfl | cases h

theorem eq_of_queue_sema {s : SemaId} (h : c.queue? = some (.sema s)) :
    ∃ old, c = .semaDownLoop s old := by
  cases c with
  | semaDownLoop s' old =>
    cases h
    exact ⟨old, rfl⟩
  | _ => cases h

theorem eq_of_queue_sleep (h : c.queue? = some .sleep) : ∃ old, c = .sleepReturn old := by
  cases c with
  | sleepReturn old => exact ⟨old, rfl⟩
  | _ => cases h

end Code

namespace Kernel

/-- `idle` を実行する thread。`idle_thread` を書く前でも、`stack` に `idle` の先頭が残っている。 -/
def IdleLike (k : Kernel) (t : ThreadId) : Prop :=
  k.idleThread = some t ∨ .idleStart ∈ (k.thread t).stack

/-- どの列にも入らずに止まっていて、ほかに起こす予定の code も無い thread。 -/
def Loose (k : Kernel) (t : ThreadId) : Prop :=
  ((k.thread t).stack.head? = some .blockReturn ∨
    (k.thread t).stack.head? = some .kernelThread) ∧
  ∀ u, .createUnblock t ∉ (k.thread u).stack

end Kernel

/-! ## 基本操作 -/

/-- 実行中の thread を変えない基本操作。 -/
inductive Action (k : Kernel) : List Obs → Kernel → Prop
  | flags (level : IntrLevel) (ctx yield : Bool) :
      Action k [] { k with intrLevel := level, inExternalIntr := ctx, yieldOnReturn := yield }
  | counters (ticks : Int) (threadTicks : Nat) (loadAvg nextTid : Int) :
      Action k [] { k with
        ticks := ticks, threadTicks := threadTicks, loadAvg := loadAvg, nextTid := nextTid }
  /-- `recent_cpu` などの計算。 -/
  | records (th : ThreadId → Thread) :
      (∀ t, (th t).status = (k.thread t).status) → (∀ t, (th t).stack = (k.thread t).stack) →
      (∀ t, (th t).priority = (k.thread t).priority) → Action k [] { k with thread := th }
  /-- priority を計算し直して `ready_list` を整列する。 -/
  | resort (th : ThreadId → Thread) :
      (∀ t, (th t).status = (k.thread t).status) → (∀ t, (th t).stack = (k.thread t).stack) →
      Action k [] (sortReadyList { k with thread := th })
  | setPriority (p : Int) : Action k [] (k.modify k.cur fun th => { th with priority := p })
  | aging : Action k [] (threadAging k)
  | push (cs : List Code) : (∀ c ∈ cs, c.isControl = true) → Action k [] (k.push cs)
  | startIdle :
      k.idleThread = none → (∀ u, .idleStart ∉ (k.thread u).stack) →
      (∀ c ∈ k.curThread.stack, c.isIdleFrame = true) →
      Action k [] { k with idleThread := some k.cur }
  /-- どの列にも入っていない thread を起こす。 -/
  | unblock (t : ThreadId) :
      (k.thread t).status = .blocked → k.Loose t → Action k [] (k.readied t)
  | awake (t : ThreadId) (ts : List ThreadId) :
      k.sleepList = t :: ts → (k.thread t).status = .blocked →
      Action k [] ({ k with sleepList := ts }.readied t)
  | up (s : SemaId) (k₁ : Kernel) :
      semaWake s k = .ok k₁ → Action k [.up s] (semaIncrement s k₁)
  | down (s : SemaId) :
      (k.sema s).value ≠ 0 → ¬ k.IdleLike k.cur →
      Action k [.down s]
        ((k.setSema s { k.sema s with value := (k.sema s).value - 1 }).push (afterDown s))
  | create (priority : Int) : ¬ k.IdleLike k.cur → Action k [] (k.created priority [.kernelThread])
  | acquired (l : LockId) : Action k [.acquired k.cur l] (lockSetHolder l k)
  | released (l : LockId) :
      k.holder l = some k.cur → ¬ k.IdleLike k.cur →
      Action k [.released k.cur l]
        ({ k with holder := Function.update k.holder l none }.push [.semaUp (.lock l)])

/-- 別の thread への切り替え。 -/
inductive Switch (k : Kernel) : Kernel → Prop
  | yield {next : ThreadId} {rest : List ThreadId} :
      k.curThread.status = .running → k.yielded.NextIs next rest →
      Switch k (k.yielded.switchTo next rest)
  | block {c : Code} {next : ThreadId} {rest : List ThreadId} :
      k.curThread.status = .running → c.isWait = true → (k.IdleLike k.cur → c = .idleHlt) →
      (∀ s old, c = .semaDownLoop s old → (k.sema s).value = 0) → k.intrLevel = .off →
      (k.waiting c).NextIs next rest → Switch k ((k.waiting c).switchTo next rest)
  | exit {next : ThreadId} {rest : List ThreadId} :
      k.curThread.status = .running → k.exited.NextIs next rest →
      Switch k (k.exited.switchTo next rest)

inductive Actions : Kernel → List Obs → Kernel → Prop
  | nil (k : Kernel) : Actions k [] k
  | cons {k k₁ k₂ : Kernel} {tr tr' : List Obs} :
      Action k tr k₁ → Actions k₁ tr' k₂ → Actions k (tr ++ tr') k₂

def Atomic (k : Kernel) (tr : List Obs) (k' : Kernel) : Prop :=
  ∃ k₁, Actions k tr k₁ ∧ (k' = k₁ ∨ Switch k₁ k')

/-! ## つなぎ方 -/

section

variable {k k₁ k₂ k' : Kernel} {tr tr' : List Obs}

theorem Action.actions (h : Action k tr k') : Actions k tr k' := by
  have h' := Actions.cons h (.nil k')
  rwa [List.append_nil] at h'

theorem Actions.append (h : Actions k tr k₁) (h' : Actions k₁ tr' k₂) :
    Actions k (tr ++ tr') k₂ := by
  induction h with
  | nil => exact h'
  | cons ha _ ih =>
    rw [List.append_assoc]
    exact .cons ha (ih h')

theorem Actions.atomic (h : Actions k tr k') : Atomic k tr k' := ⟨k', h, .inl rfl⟩

theorem Switch.atomic (h : Switch k k') : Atomic k [] k' := ⟨k, .nil k, .inr h⟩

theorem Actions.then (h : Actions k tr k₁) (h' : Atomic k₁ tr' k') : Atomic k (tr ++ tr') k' := by
  obtain ⟨k₂, h₂, hlast⟩ := h'
  exact ⟨k₂, h.append h₂, hlast⟩

theorem Action.then (h : Action k [] k₁) (h' : Atomic k₁ tr k') : Atomic k tr k' :=
  h.actions.then h'

end

end Pintos
