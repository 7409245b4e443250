import Pintos.Properties.ReadyOrder

/-!
# 高い thread を待たせない操作

priority scheduler で、実行中の thread より高い thread が `ready_list` で待っていないこと（`Top`）を、
どの操作が保ち、どの操作が作るかを調べる。

* 切り替えた直後と、譲る検査（`test_max_priority`）の後は、前がどうであっても `Top` である
* `thread_unblock` のほかの code は `Top` を保つ（`exec_top`）
-/

namespace Pintos

open Infra Function

variable {k k' : Kernel} {s : SemaId} {tr : List Obs} {old : IntrLevel} {cs : List Code}

/-- `ready_list` に、実行中の thread より高い thread は無い。 -/
def Top (k : Kernel) : Prop := ∀ r ∈ k.readyList, (k.thread r).priority ≤ k.curThread.priority

/-! ## 切り替えた直後 -/

theorem top_switchTo {k₀ : Kernel} (hs : ReadySorted k₀) {next : ThreadId} {rest : List ThreadId}
    (hn : k₀.NextIs next rest) : Top (k₀.switchTo next rest) := by
  intro r hr
  show ((k₀.switchTo next rest).thread r).priority ≤
    ((k₀.switchTo next rest).thread next).priority
  rw [Kernel.switchTo_priority, Kernel.switchTo_priority]
  have hr' : r ∈ rest := hr
  rcases hn with hl | ⟨-, rfl, -⟩
  · exact hs.le_head (by rw [hl]; rfl) (by rw [hl]; exact List.mem_cons_of_mem _ hr')
  · cases hr'

theorem schedule_top (hs : ReadySorted k) (h : schedule k = .ok k') : Top k' := by
  obtain ⟨next, rest, hn, -, rfl⟩ := schedule_ok h
  exact top_switchTo hs hn

theorem threadYield_top (hs : ReadySorted k) (h : threadYield k = .ok k') : Top k' := by
  obtain ⟨-, -, hsch⟩ := threadYield_ok h
  exact schedule_top hs.yielded hsch

theorem threadExit_top (hs : ReadySorted k) (h : threadExit k = .ok k') : Top k' := by
  obtain ⟨-, hsch⟩ := threadExit_ok h
  exact schedule_top hs.exited hsch

theorem threadBlock_top (hs : ReadySorted k) (h : threadBlock k = .ok k') : Top k' := by
  obtain ⟨-, hsch⟩ := threadBlock_ok h
  have hb : ReadySorted (k.setStatus k.cur .blocked) :=
    hs.congr rfl fun t _ => k.setStatus_priority k.cur t .blocked
  exact schedule_top hb hsch

theorem ReadySorted.push (hs : ReadySorted k) (cs : List Code) : ReadySorted (k.push cs) :=
  hs.congr rfl fun t _ => k.push_priority cs t

theorem ReadySorted.top (hs : ReadySorted k)
    (h : ∀ t, k.readyList.head? = some t → (k.thread t).priority ≤ k.curThread.priority) :
    Top k := by
  intro r hr
  cases hl : k.readyList with
  | nil => rw [hl] at hr; cases hr
  | cons t ts =>
    have ht : k.readyList.head? = some t := by rw [hl]; rfl
    exact Int.le_trans (hs.le_head ht hr) (h t ht)

theorem testMaxPriority_top (hs : ReadySorted k) (h : testMaxPriority old k = .ok k') : Top k' := by
  rcases testMaxPriority_ok h with ⟨hle, rfl⟩ | hy
  · exact hs.top hle
  · exact threadYield_top (hs.push _) hy

/-! ## 変えない操作 -/

/-- 実行中の thread も、`ready_list` も、その priority も変えない。 -/
structure Calm (k k' : Kernel) : Prop where
  cur : k'.cur = k.cur
  ready : k'.readyList = k.readyList
  curPriority : (k'.thread k.cur).priority = (k.thread k.cur).priority
  priority : ∀ r ∈ k.readyList, (k'.thread r).priority = (k.thread r).priority

theorem Top.calm (ht : Top k) (hc : Calm k k') : Top k' := by
  intro r hr
  rw [hc.ready] at hr
  unfold Kernel.curThread
  rw [hc.priority r hr, hc.cur, hc.curPriority]
  exact ht r hr

theorem Calm.top_iff (hc : Calm k k') : Top k' ↔ Top k := by
  refine ⟨fun ht r hr => ?_, fun ht => ht.calm hc⟩
  have hle := ht r (by rw [hc.ready]; exact hr)
  unfold Kernel.curThread at hle
  rw [hc.priority r hr, hc.cur, hc.curPriority] at hle
  exact hle

theorem calm_of_eq (hcur : k'.cur = k.cur) (hready : k'.readyList = k.readyList)
    (hp : ∀ t, (k'.thread t).priority = (k.thread t).priority) : Calm k k' :=
  ⟨hcur, hready, hp _, fun r _ => hp r⟩

theorem intrSetLevel_calm {l : IntrLevel} (h : intrSetLevel l k = .ok k') : Calm k k' := by
  rw [intrSetLevel_ok h]
  exact calm_of_eq rfl rfl fun _ => rfl

theorem intrEnable_calm (h : intrEnable k = .ok k') : Calm k k' := by
  rw [(intrEnable_ok h).2]
  exact calm_of_eq rfl rfl fun _ => rfl

theorem created_calm (h : WellFormed k) (p : Int) : Calm k (k.created p [.kernelThread]) := by
  have hp : ∀ t, t < k.nextThread →
      ((k.created p [.kernelThread]).thread t).priority = (k.thread t).priority := by
    intro t ht
    refine (Kernel.push_priority (k.allocated p [.kernelThread]) _ t).trans ?_
    rw [allocated_of_ne (Nat.ne_of_lt ht)]
  refine ⟨rfl, rfl, hp _ h.cur_created, fun r hr => hp r (h.framesOk.created_of_status ?_)⟩
  rw [((h.placed.mem_ready r).mp hr).1]
  simp

theorem threadCreate_calm {page : Bool} {p : Int} (h : WellFormed k)
    (hx : threadCreate page p k = .ok k') : Calm k k' := by
  rcases threadCreate_ok hx with rfl | ⟨-, rfl⟩
  · exact calm_of_eq rfl rfl fun _ => rfl
  · exact created_calm h p

/-! ## semaphore と lock -/

theorem semaDecrement_calm (h : semaDecrement s old k = .ok k') : Calm k k' := by
  rw [intrSetLevel_ok h]
  exact calm_of_eq rfl rfl fun t => Kernel.push_priority (k.setSema s _) _ t

theorem semaDownLoop_top (hs : ReadySorted k) (ht : Top k)
    (h : semaDownLoop s old k = .ok k') : Top k' := by
  unfold semaDownLoop at h
  split at h
  · refine threadBlock_top ?_ h
    exact (hs.push [.semaDownLoop s old]).congr rfl fun _ _ => rfl
  · exact ht.calm (semaDecrement_calm h)

theorem semaDown_top (hs : ReadySorted k) (ht : Top k) (h : semaDown s k = .ok k') : Top k' := by
  exact semaDownLoop_top (k := intrDisable k) hs ht (semaDown_ok h)

theorem semaTryDown_top (ht : Top k) (h : semaTryDown s k = .ok k') : Top k' := by
  unfold semaTryDown at h
  split at h
  · exact Top.calm (k := intrDisable k) ht (semaDecrement_calm h)
  · exact Top.calm (k := intrDisable k) ht (intrSetLevel_calm h)

theorem semaUp_top (hs : ReadySorted k) (h : semaUp s k = .ok k') : Top k' := by
  obtain ⟨k₁, hw, ht⟩ := bind_eq_ok.mp h
  have hs₁ : ReadySorted k₁ := by
    rcases semaWake_ok hw with ⟨-, rfl⟩ | ⟨t, ts, -, -, rfl⟩
    · exact hs
    · exact ReadySorted.readied (k := (intrDisable k).setSema s _) hs t
  have hs₂ : ReadySorted (semaIncrement s k₁) := hs₁.congr rfl fun _ _ => rfl
  exact testMaxPriority_top hs₂ ht

/-! ## priority の変更 -/

theorem ReadySorted.setPriority (hs : ReadySorted k) (h : WellFormed k) (p : Int) :
    ReadySorted (intrDisable (k.modify k.cur fun th => { th with priority := p })) :=
  have hact : Action k [] (k.modify k.cur fun th => { th with priority := p }) := .setPriority p
  hact.readySorted h hs

theorem threadSetPriority_top {p : Int} (h : WellFormed k) (hs : ReadySorted k) (ht : Top k)
    (hmode : k.schedulingMode = .priority) (hx : threadSetPriority p k = .ok k') : Top k' := by
  rcases threadSetPriority_ok hx with ⟨hm, -⟩ | ⟨-, hx | ⟨hge, hx⟩⟩
  · rw [hmode] at hm
    cases hm
  · exact testMaxPriority_top (hs.setPriority h p) hx
  · -- 上げる場合は検査しないが、ほかの thread が高くなることはない
    rw [intrSetLevel_ok hx]
    intro r hr
    have hne : r ≠ k.cur := by
      rintro rfl
      exact h.cur_not_mem_ready hr
    show ((k.modify k.cur fun th => { th with priority := p }).thread r).priority ≤
      ((k.modify k.cur fun th => { th with priority := p }).thread k.cur).priority
    rw [Kernel.modify_thread_of_ne hne, Kernel.modify_thread_self]
    exact Int.le_trans (ht r hr) hge

theorem threadSetNice_top {n : Int} (hx : threadSetNice n k = .ok k') : Top k' := by
  unfold threadSetNice at hx
  exact testMaxPriority_top (readySorted_sort _) hx

theorem threadSleep_top {ticks : Int} (hs : ReadySorted k) (ht : Top k)
    (hx : threadSleep ticks k = .ok k') : Top k' := by
  obtain ⟨-, -, ⟨-, rfl⟩ | ⟨-, hx⟩⟩ := threadSleep_ok hx
  · exact ht
  · refine threadBlock_top ?_ hx
    have hs₁ : ReadySorted (k.modify k.cur fun th => { th with wakeUpTime := ticks }) :=
      hs.congr rfl fun t _ => Kernel.modify_field Thread.priority fun _ => rfl
    exact (hs₁.push [.sleepReturn k.intrLevel]).congr rfl fun _ _ => rfl

/-! ## 新しい thread -/

/-- `thread_unblock` の次は、その thread についての検査である。 -/
def Paired : List Code → Prop
  | [] => True
  | c :: cs => (∀ t, c = .createUnblock t → cs.head? = some (.createTest t)) ∧ Paired cs

theorem Paired.append (hcs : ∀ c ∈ cs, ∀ t, c ≠ .createUnblock t)
    {st : List Code} (hp : Paired st) : Paired (cs ++ st) := by
  induction cs with
  | nil => exact hp
  | cons c cs ih =>
    exact ⟨fun t he => absurd he (hcs c (by simp) t), ih fun d hd => hcs d (by simp [hd])⟩

theorem Paired.create {st : List Code} (t : ThreadId) (hp : Paired st) :
    Paired ([.lockAcquire .tid, .allocateTid t, .lockRelease .tid, .createUnblock t,
      .createTest t] ++ st) := by
  refine ⟨by simp, by simp, by simp, ?_, by simp, hp⟩
  intro u hu
  cases hu
  rfl

/-- どの `stack` でも、`thread_create` の最後の二つは続いている。 -/
def AllPaired (k : Kernel) : Prop := ∀ t, Paired (k.thread t).stack

theorem AllPaired.congr (h : AllPaired k)
    (hstack : ∀ t, (k'.thread t).stack = (k.thread t).stack) : AllPaired k' := by
  intro t
  rw [hstack]
  exact h t

theorem AllPaired.push (h : AllPaired k)
    (hcs : ∀ c ∈ cs, ∀ t, c ≠ .createUnblock t) : AllPaired (k.push cs) := by
  intro t
  rw [Kernel.push_stack]
  split
  · exact (h t).append hcs
  · exact h t

theorem Action.allPaired (ha : Action k tr k') (h : AllPaired k) : AllPaired k' := by
  cases ha with
  | flags | counters | startIdle | acquired => exact h
  | records th _ hstack _ | resort th _ hstack => exact h.congr hstack
  | setPriority p => exact h.congr fun _ => Kernel.modify_field Thread.stack fun _ => rfl
  | aging => exact h.congr (threadAging_recalculated k).stack
  | push cs hcs =>
    refine h.push fun c hc t he => ?_
    have := hcs c hc
    rw [he] at this
    cases this
  | unblock t _ _ => exact h.congr fun u => k.readied_stack u t
  | awake t ts _ _ => exact h.congr fun u => Kernel.readied_stack { k with sleepList := ts } u t
  | up s k₁ hw =>
    rcases semaWake_ok hw with ⟨-, rfl⟩ | ⟨t, ts, -, -, rfl⟩
    · exact h
    · exact h.congr fun u => Kernel.readied_stack (k.setSema s _) u t
  | down s _ _ =>
    refine AllPaired.push (k := k.setSema s _) h ?_
    cases s <;> simp [afterDown]
  | create p _ =>
    intro t
    show Paired (((k.allocated p [.kernelThread]).push _).thread t).stack
    have hbase : Paired ((k.allocated p [.kernelThread]).thread t).stack := by
      rw [show ((k.allocated p [.kernelThread]).thread t) =
        if t = k.nextThread then initThread k p [.kernelThread] else k.thread t from
          update_apply ..]
      split
      · rw [initThread_stack]
        exact ⟨by simp, trivial⟩
      · exact h t
    rw [Kernel.push_stack]
    split
    · exact hbase.create k.nextThread
    · exact hbase
  | released l _ _ =>
    exact AllPaired.push (k := { k with holder := update k.holder l none }) h (by simp)

theorem Switch.allPaired (hs : Switch k k') (h : AllPaired k) : AllPaired k' := by
  cases hs with
  | yield _ _ =>
    intro t
    rw [Kernel.switchTo_stack, Kernel.yielded_stack]
    split
    · exact ⟨by simp, h t⟩
    · exact h t
  | @block c _ _ _ hw _ _ _ _ =>
    intro t
    rw [Kernel.switchTo_stack, Kernel.waiting_stack]
    split
    · refine ⟨fun u he => ?_, h t⟩
      rw [he] at hw
      cases hw
    · exact h t
  | exit _ _ =>
    intro t
    rw [Kernel.switchTo_stack, Kernel.exited_stack]
    exact h t

theorem AllPaired.pop (h : AllPaired k) {c : Code}
    (hst : k.curThread.stack = c :: cs) : AllPaired k.pop := by
  intro t
  rw [Kernel.pop_stack]
  split
  · next he =>
    have hc := h k.cur
    rw [show (k.thread k.cur).stack = c :: cs from hst] at hc
    rw [he, show (k.thread k.cur).stack = c :: cs from hst]
    exact hc.2
  · exact h t

theorem allPaired_stepRule : StepRule AllPaired where
  action ha _ h := ha.allPaired h
  switch hs _ h := hs.allPaired h
  pop hst h := h.pop hst

theorem reachable_allPaired (h : Reachable scheduler k) : AllPaired k := by
  refine allPaired_stepRule.reachable (fun mode aging values t => ?_) h
  rw [boot_stack]
  split
  · refine Paired.create 1 ?_
    exact ⟨by simp, by simp, by simp, trivial⟩
  · split
    · exact ⟨by simp, by simp, trivial⟩
    · exact trivial

/-! ## code の実行 -/

theorem createTest_top {t : ThreadId} (hs : ReadySorted k)
    (ht : ∀ r ∈ k.readyList, (k.thread r).priority ≤ k.curThread.priority ∨ r = t)
    (hx : createTest t k = .ok k') : Top k' := by
  unfold createTest at hx
  split at hx
  · exact threadYield_top hs hx
  · next hle =>
    rw [← Except.ok.inj hx]
    intro r hr
    rcases ht r hr with hr | rfl
    · exact hr
    · exact Int.not_lt.mp hle

/-- `thread_unblock` と検査のほかの code は、譲る検査まで済ませる。 -/
theorem exec_top {c : Code} (h : WellFormed k) (hs : ReadySorted k)
    (hmode : k.schedulingMode = .priority) (ht : Top k) (hu : ∀ t, c ≠ .threadUnblock t)
    (hcu : ∀ t, c ≠ .createUnblock t) (hx : exec c k = .ok k') : Top k' := by
  have hsame : ∀ {k₁ : Kernel}, (Except.ok k₁ : Except Panic Kernel) = .ok k' → Calm k k₁ →
      Top k' := by
    intro k₁ he hc
    rw [← Except.ok.inj he]
    exact ht.calm hc
  cases c with
  | intrDisable | iret | blockReturn | lockSetHolder | idleHlt | startLoadAvg =>
    exact hsame hx (calm_of_eq rfl rfl fun _ => rfl)
  | intrEnable | kernelThread => exact ht.calm (intrEnable_calm hx)
  | threadCreate page p => exact ht.calm (threadCreate_calm h hx)
  | threadBlock => exact threadBlock_top (hs.push _) hx
  | threadUnblock t => exact absurd rfl (hu t)
  | threadYield => exact threadYield_top hs hx
  | threadExit => exact threadExit_top hs hx
  | threadSleep n => exact threadSleep_top hs ht hx
  | threadSetPriority p => exact threadSetPriority_top h hs ht hmode hx
  | threadSetNice n => exact threadSetNice_top hx
  | semaDown s => exact semaDown_top hs ht hx
  | semaTryDown s => exact semaTryDown_top ht hx
  | semaUp s => exact semaUp_top hs hx
  | lockAcquire l => exact semaDown_top hs ht (lockAcquire_ok hx)
  | lockTryAcquire l => exact semaTryDown_top ht (lockTryAcquire_ok hx)
  | lockRelease l =>
    obtain ⟨-, rfl⟩ := lockRelease_ok hx
    exact ht.calm (calm_of_eq rfl rfl fun t =>
      Kernel.push_priority { k with holder := update k.holder l none } _ t)
  | intrSetLevel | sleepReturn => exact ht.calm (intrSetLevel_calm hx)
  | semaDownLoop s old => exact semaDownLoop_top hs ht hx
  | allocateTid t =>
    exact hsame hx (calm_of_eq rfl rfl fun u =>
      k.modify_field (f := fun th => { th with tid := k.nextTid }) Thread.priority fun _ => rfl)
  | createUnblock t => exact absurd rfl (hcu t)
  | createTest t => exact createTest_top (t := t) hs (fun r hr => .inl (ht r hr)) hx
  | idleStart => exact semaUp_top (k := { k with idleThread := some k.cur }) hs hx
  | idleLoop => exact threadBlock_top (k := intrDisable (k.push [.idleHlt])) (hs.push _) hx

end Pintos
