import Pintos.Properties.Schedule

/-!
# 割り込みの中の `sema_up`

`sema_up` の comment は、割り込みの handler から呼んでよいと言う。
ところが `sema_up` は最後に `test_max_priority` を呼び、
`ready_list` の先頭が実行中の thread より高ければその場で `thread_yield` する。
`thread_yield` は `ASSERT (!intr_context ())` を持つので、handler の中では kernel が止まる。

ここでは止まらない条件をちょうど求める。
見るのは `ready_list` の先頭と、起こされる `waiters` の先頭の priority だけである。
-/

namespace Pintos

open Infra

/-! ## handler -/

/-- 入った割り込みで semaphore `s` に `sema_up` する handler。 -/
inductive SemaUpHandler (s : SemaId) : (Kernel → Except Panic Kernel) → Prop
  | direct : SemaUpHandler s (semaUp s)
  /-- IDE の channel `c` が割り込みを待っていた場合。 -/
  | ide (vecNo : Nat) (before after : List Channel) (c : Channel) :
      (∀ d ∈ before, vecNo ≠ d.irq) → vecNo = c.irq → c.expectingInterrupt = true →
      c.completionWait = s → SemaUpHandler s (interruptHandler vecNo (before ++ c :: after))

theorem interruptHandler_skip {vecNo : Nat} {k : Kernel} {cs : List Channel} :
    ∀ {before : List Channel}, (∀ d ∈ before, vecNo ≠ d.irq) →
      interruptHandler vecNo (before ++ cs) k = interruptHandler vecNo cs k
  | [], _ => rfl
  | d :: ds, h => by
    rw [List.cons_append, interruptHandler, if_neg (h d (by simp))]
    exact interruptHandler_skip fun e he => h e (by simp [he])

theorem SemaUpHandler.eq {s : SemaId} {handler : Kernel → Except Panic Kernel}
    (h : SemaUpHandler s handler) : handler = semaUp s := by
  cases h with
  | direct => rfl
  | ide vecNo before after c hbefore hirq hexp hwait =>
    funext k
    rw [interruptHandler_skip hbefore, interruptHandler, if_pos hirq, if_pos hexp, hwait]

/-! ## 起こした後の `ready_list` -/

/-- 譲る検査が見る thread。`ready_list` の先頭と、起こされる `waiters` の先頭である。 -/
def Kernel.Contender (k : Kernel) (s : SemaId) (t : ThreadId) : Prop :=
  k.readyList.head? = some t ∨ (k.sema s).waiters.head? = some t

def Kernel.NoHigherContender (k : Kernel) (s : SemaId) : Prop :=
  ∀ t, k.Contender s t → (k.thread t).priority ≤ k.curThread.priority

/-- `sema_up` の、譲る検査の直前の状態。 -/
def Kernel.upped (k : Kernel) (s : SemaId) : Kernel :=
  match (k.sema s).waiters with
  | [] => semaIncrement s k
  | t :: ts => semaIncrement s ((k.setSema s { k.sema s with waiters := ts }).readied t)

theorem semaUp_of_blocked {s : SemaId} {k : Kernel}
    (hw : ∀ t, (k.sema s).waiters.head? = some t → (k.thread t).status = .blocked) :
    semaUp s k = testMaxPriority k.intrLevel ((intrDisable k).upped s) := by
  unfold semaUp semaWake Kernel.upped
  have hs : (intrDisable k).sema s = k.sema s := rfl
  rw [hs]
  cases hq : (k.sema s).waiters with
  | nil => rfl
  | cons t ts =>
    have hb : (k.thread t).status = .blocked := hw t (by simp [hq])
    simp only []
    rw [threadUnblock_of_blocked (by exact hb)]
    rfl

theorem upped_priority (k : Kernel) (s : SemaId) (u : ThreadId) :
    ((k.upped s).thread u).priority = (k.thread u).priority := by
  unfold Kernel.upped
  cases (k.sema s).waiters with
  | nil => rfl
  | cons t ts =>
    show (((k.setSema s _).setStatus t .ready).thread u).priority = _
    rw [Kernel.setStatus_priority]
    rfl

/-- 起こした後の先頭が高くないことは、起こす前の二つの先頭が高くないことである。 -/
theorem upped_front_iff (k : Kernel) (s : SemaId) (p : Int) :
    (∀ t, (k.upped s).readyList.head? = some t → (k.thread t).priority ≤ p) ↔
      ∀ t, k.Contender s t → (k.thread t).priority ≤ p := by
  unfold Kernel.upped Kernel.Contender
  cases hw : (k.sema s).waiters with
  | nil =>
    simp only [List.head?_nil, reduceCtorEq, or_false]
    rfl
  | cons t ts =>
    show (∀ u, (listInsertOrdered k.cmpPriority t k.readyList).head? = some u → _) ↔ _
    cases hr : k.readyList with
    | nil => simp [listInsertOrdered]
    | cons f fs =>
      rw [head?_listInsertOrdered_cons]
      simp only [Kernel.cmpPriority, decide_eq_true_eq, List.head?_cons, Option.some.injEq,
        or_imp, forall_and, forall_eq']
      split
      · next hlt => constructor <;> intro h <;> omega
      · next hge => constructor <;> intro h <;> omega

theorem upped_same (k : Kernel) (s : SemaId) : (k.upped s).cur = k.cur ∧
    (k.upped s).inExternalIntr = k.inExternalIntr ∧
    (k.upped s).yieldOnReturn = k.yieldOnReturn := by
  unfold Kernel.upped
  cases (k.sema s).waiters with
  | nil | cons => exact ⟨rfl, rfl, rfl⟩

theorem upped_status (k : Kernel) (s : SemaId) (u : ThreadId) :
    ((k.upped s).thread u).status =
      if (k.sema s).waiters.head? = some u then .ready else (k.thread u).status := by
  unfold Kernel.upped
  cases (k.sema s).waiters with
  | nil => rfl
  | cons t ts =>
    show (((k.setSema s _).setStatus t .ready).thread u).status = _
    rw [Kernel.setStatus_status]
    simp only [List.head?_cons, Option.some.injEq, eq_comm]
    rfl

/-! ## 割り込み全体 -/

section

variable {k : Kernel} {s : SemaId}

theorem semaUp_inHandler (hw : ∀ t ∈ (k.sema s).waiters, (k.thread t).status = .blocked) :
    semaUp s k.inHandler = testMaxPriority .off (k.inHandler.upped s) := by
  have hb : ∀ t, (k.inHandler.sema s).waiters.head? = some t →
      (k.inHandler.thread t).status = .blocked :=
    fun t ht => hw t (List.mem_of_mem_head? ht)
  exact semaUp_of_blocked hb

/-- 高い thread が無ければ、handler は `waiters` の先頭を起こすだけで終わる。 -/
theorem intrHandler_semaUp_of_le (hctx : k.inExternalIntr = false)
    (hw : ∀ t ∈ (k.sema s).waiters, (k.thread t).status = .blocked)
    (h : k.NoHigherContender s) :
    intrHandler (semaUp s) k =
      .ok { k.inHandler.upped s with intrLevel := .on, inExternalIntr := false } := by
  have hup : semaUp s k.inHandler = .ok (intrDisable (k.inHandler.upped s)) := by
    rw [semaUp_inHandler hw]
    refine testMaxPriority_of_le ?_
    intro t ht
    unfold Kernel.curThread
    rw [upped_priority, upped_priority, (upped_same ..).1]
    exact (upped_front_iff k.inHandler s k.curThread.priority).mpr h t ht
  unfold intrHandler
  rw [if_neg (by simp [hctx])]
  show (semaUp s k.inHandler).bind _ = _
  rw [hup]
  have hctx' : (k.inHandler.upped s).inExternalIntr = true := (upped_same ..).2.1
  have hyield : (k.inHandler.upped s).yieldOnReturn = false := (upped_same ..).2.2
  simp only [Except.bind, intrDisable, hctx', hyield]
  rfl

/-- 高い thread があれば、handler は `thread_yield` の検査で止まる。 -/
theorem intrHandler_semaUp_of_lt (hctx : k.inExternalIntr = false)
    (hrun : k.curThread.status = .running)
    (hw : ∀ t ∈ (k.sema s).waiters, (k.thread t).status = .blocked)
    (h : ¬ k.NoHigherContender s) :
    intrHandler (semaUp s) k = .error .threadYieldContext := by
  have hfront := mt (upped_front_iff k.inHandler s k.curThread.priority).mp h
  obtain ⟨t, hfront⟩ := not_forall.mp hfront
  obtain ⟨ht, hlt⟩ := Classical.not_imp.mp hfront
  have hcur : (k.sema s).waiters.head? ≠ some k.cur := by
    intro hc
    have hb := hw k.cur (List.mem_of_mem_head? hc)
    unfold Kernel.curThread at hrun
    rw [hb] at hrun
    cases hrun
  have hup : semaUp s k.inHandler = .error .threadYieldContext := by
    rw [semaUp_inHandler hw]
    have hlt' : (k.inHandler.upped s).curThread.priority <
        ((k.inHandler.upped s).thread t).priority := by
      unfold Kernel.curThread
      rw [upped_priority, upped_priority, (upped_same ..).1]
      exact Int.not_le.mp hlt
    rw [testMaxPriority_of_lt ht hlt']
    refine threadYield_context ?_ (upped_same ..).2.1
    show (((k.inHandler.upped s).push _).thread (k.inHandler.upped s).cur).status = _
    rw [Kernel.push_status, upped_status, (upped_same ..).1]
    exact (if_neg hcur).trans hrun
  unfold intrHandler
  rw [if_neg (by simp [hctx])]
  show (semaUp s k.inHandler).bind _ = _
  rw [hup]
  rfl

/--
**`sema_up` を呼ぶ割り込みが `thread_yield` の検査で止まらないのは、
`ready_list` の先頭も起こされる thread も、実行中の thread より高くないときに限る。**

そのときは切り替えずに終わり、待っていた thread は READY になる。
-/
theorem intrHandler_semaUp_iff {handler : Kernel → Except Panic Kernel}
    (hh : SemaUpHandler s handler) (hctx : k.inExternalIntr = false)
    (hrun : k.curThread.status = .running)
    (hw : ∀ t ∈ (k.sema s).waiters, (k.thread t).status = .blocked) :
    (intrHandler handler k ≠ .error .threadYieldContext ↔ k.NoHigherContender s) ∧
    (k.NoHigherContender s → ∃ k', intrHandler handler k = .ok k' ∧ k'.cur = k.cur ∧
      ∀ t, (k.sema s).waiters.head? = some t → (k'.thread t).status = .ready) := by
  rw [hh.eq]
  refine ⟨⟨?_, ?_⟩, ?_⟩
  · intro hne
    by_contra hno
    exact hne (intrHandler_semaUp_of_lt hctx hrun hw hno)
  · intro h
    rw [intrHandler_semaUp_of_le hctx hw h]
    simp
  · intro h
    refine ⟨_, intrHandler_semaUp_of_le hctx hw h, (upped_same ..).1, ?_⟩
    intro t ht
    have hst := upped_status k.inHandler s t
    rw [if_pos (by exact ht)] at hst
    exact hst

end

/-- main が priority の等しい thread を作り、semaphore を待つ。その thread に IDE の割り込みが入る。 -/
theorem intrHandler_semaUp_iff_waiter : ∃ k, Reachable scheduler k ∧ k.intrLevel = .on ∧
    (k.sema (.user 0)).waiters = [0] ∧ ∃ k',
      intrHandler (interruptHandler 0x2e [⟨0x2e, true, .user 0⟩, ⟨0x2f, false, .user 1⟩]) k =
        .ok k' ∧ k'.cur = k.cur ∧ (k'.thread 0).status = .ready := by
  obtain ⟨k, hk, hp⟩ := exists_reachable_of_run
    (startEvents ++ createEvents 31 ++ [.call (.semaDown (.user 0)), .resume])
    (reachable_boot .priority false fun _ => 0)
    (p := fun k => k.intrLevel = .on ∧ k.inExternalIntr = false ∧ k.curThread.status = .running ∧
      k.readyList = [] ∧ (k.sema (.user 0)).waiters = [0] ∧ (k.thread 0).status = .blocked ∧
      (k.thread 0).priority ≤ k.curThread.priority) (by decide +kernel)
  obtain ⟨hon, hctx, hrun, hready, hwaiters, hblocked, hle⟩ := of_decide_eq_true hp
  have hno : k.NoHigherContender (.user 0) := by
    rintro t (ht | ht)
    · rw [hready] at ht
      cases ht
    · rw [hwaiters] at ht
      cases ht
      exact hle
  obtain ⟨k', he, hcur, hwoken⟩ :=
    (intrHandler_semaUp_iff (.ide 0x2e [] _ ⟨0x2e, true, .user 0⟩ nofun rfl rfl rfl) hctx hrun
      (by simp [hwaiters, hblocked])).2 hno
  exact ⟨k, hk, hon, hwaiters, k', he, hcur, hwoken 0 (by rw [hwaiters]; rfl)⟩

/-! ## 止まる実行 -/

/--
main が `completion_wait` を待ち、idle thread が動いているところに IDE の割り込みが入ると止まる。

main の priority は 31、idle thread は 0 なので、handler の中の `sema_up` が譲ろうとする。
-/
theorem exists_reachable_ide_panic :
    ∃ k, Reachable scheduler k ∧ k.intrLevel = .on ∧ k.inExternalIntr = false ∧
      intrHandler (interruptHandler 0x2e [⟨0x2e, true, .user 0⟩, ⟨0x2f, false, .user 1⟩]) k =
        .error .threadYieldContext := by
  obtain ⟨k, hk, hp⟩ := exists_reachable_of_run
    (startEvents ++ [.call (.semaDown (.user 0)), .resume, .resume])
    (reachable_boot .priority false fun _ => 0)
    (p := fun k => k.intrLevel = .on ∧ k.inExternalIntr = false ∧ failure? (intrHandler
      (interruptHandler 0x2e [⟨0x2e, true, .user 0⟩, ⟨0x2f, false, .user 1⟩]) k) =
        some .threadYieldContext) (by decide +kernel)
  obtain ⟨hon, hctx, hfail⟩ := of_decide_eq_true hp
  exact ⟨k, hk, hon, hctx, failure?_eq_some.mp hfail⟩

end Pintos
