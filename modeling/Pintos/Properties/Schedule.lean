import Pintos.Infra.Except
import Pintos.Threads.Machine

/-!
# scheduler の関数の結果

`thread.c` と `synch.c` の関数が `ok` を返したとき、結果の状態がどう書けるか。
後の module はここの補題だけを使い、関数の定義は開かない。

切り替える関数は「`schedule` に渡す状態」に名前を付けておく。
-/

namespace Pintos

open Infra

variable {k k' : Kernel} {t : ThreadId} {old : IntrLevel} {l : LockId}

/-! ## 待つ列 -/

/-- thread が block したまま入りうる列。 -/
inductive Queue
  | sleep
  | sema (s : SemaId)
deriving DecidableEq

/-- 続きの code が決める、待っている列。 -/
def Code.queue? : Code → Option Queue
  | .sleepReturn _ => some .sleep
  | .semaDownLoop s _ => some (.sema s)
  | _ => none

namespace Kernel

def queue (k : Kernel) : Queue → List ThreadId
  | .sleep => k.sleepList
  | .sema s => (k.sema s).waiters

def enqueue (k : Kernel) : Queue → Kernel
  | .sleep => { k with sleepList := listInsertOrdered k.cmpWakeUpTime k.cur k.sleepList }
  | .sema s =>
    k.setSema s
      { k.sema s with waiters := listInsertOrdered k.cmpPriority k.cur (k.sema s).waiters }

/-! ## `schedule` に渡す状態 -/

def yielded (k : Kernel) : Kernel :=
  { (k.setStatus k.cur .ready).push [.intrSetLevel k.intrLevel] with
    intrLevel := .off
    readyList :=
      if k.idleThread = some k.cur then k.readyList
      else listInsertOrdered k.cmpPriority k.cur k.readyList }

/-- 続きの code を `c` として block する。 -/
def waiting (k : Kernel) (c : Code) : Kernel :=
  let k₁ := match c.queue? with
    | some q => k.enqueue q
    | none => k
  (k₁.push [c]).setStatus k.cur .blocked

def exited (k : Kernel) : Kernel :=
  { k.setStatus k.cur .dying with intrLevel := .off, allList := k.allList.erase k.cur }

/-- `thread_unblock` の結果。 -/
def readied (k : Kernel) (t : ThreadId) : Kernel :=
  { k.setStatus t .ready with readyList := listInsertOrdered k.cmpPriority t k.readyList }

/-- `next_thread_to_run` が選ぶ thread と残りの `ready_list`。 -/
def NextIs (k : Kernel) (next : ThreadId) (rest : List ThreadId) : Prop :=
  k.readyList = next :: rest ∨ k.readyList = [] ∧ rest = [] ∧ k.idleThread = some next

def switchTo (k : Kernel) (next : ThreadId) (rest : List ThreadId) : Kernel :=
  { k.setStatus next .running with cur := next, readyList := rest, threadTicks := 0 }

/-! ## thread ごとの項目 -/

section Fields

variable (k : Kernel) (u : ThreadId)

@[simp] theorem switchTo_status (next : ThreadId) (rest : List ThreadId) :
    ((k.switchTo next rest).thread u).status =
      if u = next then .running else (k.thread u).status :=
  k.setStatus_status next u .running

@[simp] theorem switchTo_stack (next : ThreadId) (rest : List ThreadId) :
    ((k.switchTo next rest).thread u).stack = (k.thread u).stack :=
  k.setStatus_stack next u .running

@[simp] theorem switchTo_priority (next : ThreadId) (rest : List ThreadId) :
    ((k.switchTo next rest).thread u).priority = (k.thread u).priority :=
  k.setStatus_priority next u .running

@[simp] theorem readied_status (t : ThreadId) :
    ((k.readied t).thread u).status = if u = t then .ready else (k.thread u).status :=
  k.setStatus_status t u .ready

@[simp] theorem readied_stack (t : ThreadId) :
    ((k.readied t).thread u).stack = (k.thread u).stack :=
  k.setStatus_stack t u .ready

@[simp] theorem readied_priority (t : ThreadId) :
    ((k.readied t).thread u).priority = (k.thread u).priority :=
  k.setStatus_priority t u .ready

@[simp] theorem yielded_status :
    (k.yielded.thread u).status = if u = k.cur then .ready else (k.thread u).status :=
  (push_status (k.setStatus k.cur .ready) _ u).trans (k.setStatus_status k.cur u .ready)

@[simp] theorem yielded_stack :
    (k.yielded.thread u).stack =
      if u = k.cur then .intrSetLevel k.intrLevel :: (k.thread u).stack
      else (k.thread u).stack := by
  refine (push_stack (k.setStatus k.cur .ready) _ u).trans ?_
  rw [setStatus_stack]
  rfl

@[simp] theorem yielded_priority : (k.yielded.thread u).priority = (k.thread u).priority :=
  (push_priority (k.setStatus k.cur .ready) _ u).trans (k.setStatus_priority k.cur u .ready)

@[simp] theorem exited_status :
    (k.exited.thread u).status = if u = k.cur then .dying else (k.thread u).status :=
  k.setStatus_status k.cur u .dying

@[simp] theorem exited_stack : (k.exited.thread u).stack = (k.thread u).stack :=
  k.setStatus_stack k.cur u .dying

@[simp] theorem exited_priority : (k.exited.thread u).priority = (k.thread u).priority :=
  k.setStatus_priority k.cur u .dying

theorem waiting_eq (c : Code) : ∃ sema sleepList, k.waiting c =
    { (k.push [c]).setStatus k.cur .blocked with sema := sema, sleepList := sleepList } := by
  unfold waiting
  cases c.queue? with
  | none => exact ⟨_, _, rfl⟩
  | some q => cases q <;> exact ⟨_, _, rfl⟩

theorem waiting_thread (c : Code) :
    (k.waiting c).thread = ((k.push [c]).setStatus k.cur .blocked).thread := by
  obtain ⟨_, _, he⟩ := k.waiting_eq c
  rw [he]

@[simp] theorem waiting_status (c : Code) :
    ((k.waiting c).thread u).status = if u = k.cur then .blocked else (k.thread u).status := by
  rw [waiting_thread, setStatus_status, push_status]

@[simp] theorem waiting_stack (c : Code) :
    ((k.waiting c).thread u).stack =
      if u = k.cur then c :: (k.thread u).stack else (k.thread u).stack := by
  rw [waiting_thread, setStatus_stack, push_stack]
  rfl

@[simp] theorem waiting_priority (c : Code) :
    ((k.waiting c).thread u).priority = (k.thread u).priority := by
  rw [waiting_thread, setStatus_priority, push_priority]

theorem waiting_queue (c : Code) (q : Queue) :
    (c.queue? ≠ some q → (k.waiting c).queue q = k.queue q) ∧
    (c.queue? = some q → ((k.waiting c).queue q).Perm (k.cur :: k.queue q)) := by
  unfold waiting
  cases hc : c.queue? with
  | none => exact ⟨fun _ => rfl, fun h => nomatch h⟩
  | some q' =>
    refine ⟨fun hne => ?_, fun he => ?_⟩
    · have hq : q' ≠ q := fun he => hne (by rw [he])
      cases q' with
      | sleep =>
        cases q with
        | sleep => exact absurd rfl hq
        | sema s => rfl
      | sema s' =>
        cases q with
        | sleep => rfl
        | sema s =>
          have hs : s ≠ s' := fun he => hq (by rw [he])
          exact congrArg Semaphore.waiters (Function.update_of_ne hs _ k.sema)
    · obtain rfl : q' = q := Option.some.inj he
      cases q' with
      | sleep => exact listInsertOrdered_perm _ _ _
      | sema s =>
        refine (List.Perm.of_eq ?_).trans (listInsertOrdered_perm k.cmpPriority k.cur _)
        exact congrArg Semaphore.waiters (Function.update_self s _ k.sema)

@[simp] theorem waiting_readyList (c : Code) : (k.waiting c).readyList = k.readyList := by
  obtain ⟨_, _, he⟩ := k.waiting_eq c
  rw [he]
  rfl

@[simp] theorem waiting_idleThread (c : Code) : (k.waiting c).idleThread = k.idleThread := by
  obtain ⟨_, _, he⟩ := k.waiting_eq c
  rw [he]
  rfl

@[simp] theorem waiting_nextThread (c : Code) : (k.waiting c).nextThread = k.nextThread := by
  obtain ⟨_, _, he⟩ := k.waiting_eq c
  rw [he]
  rfl

@[simp] theorem waiting_intrLevel (c : Code) : (k.waiting c).intrLevel = k.intrLevel := by
  obtain ⟨_, _, he⟩ := k.waiting_eq c
  rw [he]
  rfl

end Fields

end Kernel

/-! ## 割り込みの level -/

theorem intrEnable_ok (h : intrEnable k = .ok k') :
    k.inExternalIntr = false ∧ k' = { k with intrLevel := .on } := by
  unfold intrEnable at h
  obtain ⟨hc, hk⟩ := guard_eq_ok.mp h
  exact ⟨by simpa using hc, (Except.ok.inj hk).symm⟩

theorem intrSetLevel_ok {level : IntrLevel} (h : intrSetLevel level k = .ok k') :
    k' = { k with intrLevel := level } := by
  cases level with
  | on => exact (intrEnable_ok h).2
  | off => exact (Except.ok.inj h).symm

theorem intrYieldOnReturn_ok (h : intrYieldOnReturn k = .ok k') :
    k' = { k with yieldOnReturn := true } := by
  unfold intrYieldOnReturn at h
  split at h
  · exact (Except.ok.inj h).symm
  · cases h

/-! ## 切り替え -/

theorem nextThreadToRun_nil (h : k.readyList = []) : nextThreadToRun k = (k.idleThread, k) := by
  unfold nextThreadToRun
  rw [h]

theorem nextThreadToRun_cons {ts : List ThreadId} (h : k.readyList = t :: ts) :
    nextThreadToRun k = (some t, { k with readyList := ts }) := by
  unfold nextThreadToRun
  rw [h]

theorem schedule_ok (h : schedule k = .ok k') :
    ∃ next rest, k.NextIs next rest ∧ k.intrLevel = .off ∧ k' = k.switchTo next rest := by
  unfold schedule at h
  obtain ⟨hlevel, h⟩ := guard_eq_ok.mp h
  obtain ⟨-, h⟩ := guard_eq_ok.mp h
  have hoff : k.intrLevel = .off := by simpa using hlevel
  cases hr : k.readyList with
  | nil =>
    rw [nextThreadToRun_nil hr] at h
    cases hi : k.idleThread with
    | none => rw [hi] at h; cases h
    | some next =>
      rw [hi] at h
      refine ⟨next, [], .inr ⟨hr, rfl, hi⟩, hoff, ?_⟩
      rw [← Except.ok.inj h, ← hr]
      rfl
  | cons next rest =>
    rw [nextThreadToRun_cons hr] at h
    exact ⟨next, rest, .inl hr, hoff, (Except.ok.inj h).symm⟩

theorem threadYield_ok (h : threadYield k = .ok k') :
    k.curThread.status = .running ∧ k.inExternalIntr = false ∧ schedule k.yielded = .ok k' := by
  unfold threadYield at h
  obtain ⟨hrun, h⟩ := guard_eq_ok.mp h
  obtain ⟨hctx, h⟩ := guard_eq_ok.mp h
  exact ⟨by simpa using hrun, by simpa using hctx, h⟩

theorem threadExit_ok (h : threadExit k = .ok k') :
    k.curThread.status = .running ∧ schedule k.exited = .ok k' := by
  unfold threadExit at h
  obtain ⟨-, h⟩ := guard_eq_ok.mp h
  obtain ⟨hrun, h⟩ := guard_eq_ok.mp h
  exact ⟨by simpa using hrun, h⟩

theorem threadBlock_ok (h : threadBlock k = .ok k') :
    k.curThread.status = .running ∧ schedule (k.setStatus k.cur .blocked) = .ok k' := by
  unfold threadBlock at h
  obtain ⟨-, h⟩ := guard_eq_ok.mp h
  obtain ⟨-, h⟩ := guard_eq_ok.mp h
  obtain ⟨hrun, h⟩ := guard_eq_ok.mp h
  exact ⟨by simpa using hrun, h⟩

theorem threadUnblock_ok (h : threadUnblock t k = .ok k') :
    (k.thread t).status = .blocked ∧ k' = k.readied t := by
  unfold threadUnblock at h
  obtain ⟨hb, h⟩ := guard_eq_ok.mp h
  exact ⟨by simpa using hb, (Except.ok.inj h).symm⟩

theorem threadUnblock_of_blocked
    (h : (k.thread t).status = .blocked) : threadUnblock t k = .ok (k.readied t) := by
  unfold threadUnblock
  rw [if_neg (by simp [h])]
  rfl

theorem threadYield_context (hrun : k.curThread.status = .running)
    (hctx : k.inExternalIntr = true) : threadYield k = .error .threadYieldContext := by
  unfold threadYield
  rw [if_neg (by simp [hrun]), if_pos hctx]

theorem semaWake_ok {s : SemaId} (h : semaWake s k = .ok k') : ((k.sema s).waiters = [] ∧ k' = k) ∨
      ∃ t ts, (k.sema s).waiters = t :: ts ∧ (k.thread t).status = .blocked ∧
        k' = (k.setSema s { k.sema s with waiters := ts }).readied t := by
  unfold semaWake at h
  cases hw : (k.sema s).waiters with
  | nil =>
    rw [hw] at h
    exact .inl ⟨rfl, (Except.ok.inj h).symm⟩
  | cons t ts =>
    rw [hw] at h
    obtain ⟨hb, rfl⟩ := threadUnblock_ok h
    exact .inr ⟨t, ts, rfl, hb, rfl⟩

theorem semaDown_ok {s : SemaId} (h : semaDown s k = .ok k') :
    semaDownLoop s k.intrLevel (intrDisable k) = .ok k' := (guard_eq_ok.mp h).2

theorem lockAcquire_ok (h : lockAcquire l k = .ok k') : semaDown (.lock l) k = .ok k' :=
  (guard_eq_ok.mp (guard_eq_ok.mp h).2).2

theorem lockTryAcquire_ok (h : lockTryAcquire l k = .ok k') : semaTryDown (.lock l) k = .ok k' :=
  (guard_eq_ok.mp h).2

theorem lockRelease_ok (h : lockRelease l k = .ok k') : k.holder l = some k.cur ∧
      k' = { k with holder := Function.update k.holder l none }.push [.semaUp (.lock l)] := by
  unfold lockRelease lockHeldByCurrentThread at h
  split at h
  · next hh => exact ⟨by simpa using hh, (Except.ok.inj h).symm⟩
  · cases h

/-! ## 譲るかどうかの検査 -/

theorem testMaxPriority_of_le
    (h : ∀ t, k.readyList.head? = some t → (k.thread t).priority ≤ k.curThread.priority) :
    testMaxPriority old k = intrSetLevel old k := by
  unfold testMaxPriority
  cases hr : k.readyList with
  | nil => rfl
  | cons t ts =>
    have hle := h t (by simp [hr])
    simp only []
    rw [if_neg (by omega)]

theorem testMaxPriority_of_lt
    (ht : k.readyList.head? = some t) (hlt : k.curThread.priority < (k.thread t).priority) :
    testMaxPriority old k = threadYield (k.push [.intrSetLevel old]) := by
  unfold testMaxPriority
  cases hr : k.readyList with
  | nil => rw [hr] at ht; cases ht
  | cons u us =>
    rw [hr] at ht
    obtain rfl : u = t := Option.some.inj ht
    simp only []
    rw [if_pos hlt]

theorem testMaxPriority_ok (h : testMaxPriority old k = .ok k') :
    ((∀ t, k.readyList.head? = some t → (k.thread t).priority ≤ k.curThread.priority) ∧
      k' = { k with intrLevel := old }) ∨
    threadYield (k.push [.intrSetLevel old]) = .ok k' := by
  by_cases hle : ∀ t, k.readyList.head? = some t → (k.thread t).priority ≤ k.curThread.priority
  · rw [testMaxPriority_of_le hle] at h
    exact .inl ⟨hle, intrSetLevel_ok h⟩
  · obtain ⟨t, hle⟩ := not_forall.mp hle
    obtain ⟨ht, hlt⟩ := Classical.not_imp.mp hle
    rw [testMaxPriority_of_lt ht (Int.not_le.mp hlt)] at h
    exact .inr h

theorem createTest_ok (h : createTest t k = .ok k') : threadYield k = .ok k' ∨ k' = k := by
  unfold createTest at h
  split at h
  · exact .inl h
  · exact .inr (Except.ok.inj h).symm

theorem threadCreate_ok {page : Bool} {p : Int} (h : threadCreate page p k = .ok k') :
    k' = k ∨ (priMin ≤ p ∧ p ≤ priMax) ∧ k' = k.created p [.kernelThread] := by
  unfold threadCreate threadCreateWith at h
  split at h
  · split at h
    · next hp => exact .inr ⟨hp, (Except.ok.inj h).symm⟩
    · cases h
  · exact .inl (Except.ok.inj h).symm

/-- `thread_sleep` が `thread_block` を呼ぶところ。 -/
def Kernel.sleeping (k : Kernel) (ticks : Int) : Kernel :=
  let k₁ := k.modify k.cur fun th => { th with wakeUpTime := ticks }
  { k₁.push [.sleepReturn k.intrLevel] with
    intrLevel := .off
    sleepList := listInsertOrdered k₁.cmpWakeUpTime k.cur k₁.sleepList }

theorem threadSleep_ok {ticks : Int} (h : threadSleep ticks k = .ok k') :
    k.curThread.status = .running ∧ k.intrLevel = .on ∧
      (ticks ≤ 0 ∧ k' = k ∨ 0 < ticks ∧ threadBlock (k.sleeping ticks) = .ok k') := by
  unfold threadSleep at h
  obtain ⟨hrun, h⟩ := guard_eq_ok.mp h
  obtain ⟨-, h⟩ := guard_eq_ok.mp h
  obtain ⟨hon, h⟩ := guard_eq_ok.mp h
  refine ⟨not_not.mp hrun, not_not.mp hon, ?_⟩
  split at h
  · next hle => exact .inl ⟨hle, (Except.ok.inj h).symm⟩
  · next hlt => exact .inr ⟨Int.not_le.mp hlt, h⟩

theorem threadSetPriority_ok {p : Int} (h : threadSetPriority p k = .ok k') :
    k.schedulingMode = .mlfqs ∧ k' = k ∨ k.schedulingMode = .priority ∧
      (testMaxPriority k.intrLevel
          (intrDisable (k.modify k.cur fun th => { th with priority := p })) = .ok k' ∨
        k.curThread.priority ≤ p ∧ intrSetLevel k.intrLevel
          (intrDisable (k.modify k.cur fun th => { th with priority := p })) = .ok k') := by
  unfold threadSetPriority at h
  split at h
  · next hmode => exact .inl ⟨hmode, (Except.ok.inj h).symm⟩
  · next hmode =>
    refine .inr ⟨hmode, ?_⟩
    simp only [] at h
    split at h
    · exact .inl h
    · next hle => exact .inr ⟨Int.not_lt.mp hle, h⟩

/-! ## 割り込み -/

def Kernel.inHandler (k : Kernel) : Kernel :=
  { k with intrLevel := .off, inExternalIntr := true, yieldOnReturn := false }

theorem intrHandler_ok {handler : Kernel → Except Panic Kernel}
    (h : intrHandler handler k = .ok k') :
    ∃ k₁, handler k.inHandler = .ok k₁ ∧
      (k₁.yieldOnReturn = true ∧
        threadYield ({ k₁ with inExternalIntr := false }.push [.iret]) = .ok k' ∨
      k₁.yieldOnReturn = false ∧ k' = { k₁ with inExternalIntr := false, intrLevel := .on }) := by
  unfold intrHandler at h
  obtain ⟨-, h⟩ := guard_eq_ok.mp h
  obtain ⟨k₁, hrun, h⟩ := bind_eq_ok.mp h
  obtain ⟨-, h⟩ := guard_eq_ok.mp h
  obtain ⟨-, h⟩ := guard_eq_ok.mp h
  refine ⟨k₁, hrun, ?_⟩
  simp only [] at h
  split at h
  · next hy => exact .inl ⟨hy, h⟩
  · next hy => exact .inr ⟨Bool.eq_false_iff.mpr hy, (Except.ok.inj h).symm⟩

end Pintos
