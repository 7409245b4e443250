import Pintos.Properties.Preemption

/-!
# 即時の横取り

priority scheduler で、割り込みを許可して走る thread より高い thread が待つのはいつか。

`sema_up`、`thread_set_priority`、`thread_set_nice` は、高い thread ができたときにその場で譲る。
譲らずに戻るのは次の場合である。

* timer 割り込みで眠りから覚めた thread（`thread_awake`）が高い
* timer 割り込みで上がった thread（`thread_aging`）が高い
* 直に `thread_unblock` された thread が高い
* `thread_create` が新しい thread を `ready_list` に入れてから、譲る検査をするまでの間
* 割り込みを禁じて起こした高い thread を待たせたまま、割り込みを許可する

どれにも当たらない一歩を `Prompt` と呼ぶ。
`Prompt` な一歩だけからなる実行では高い thread は待たず、`Prompt` でない一歩の直後には必ず待っている。
-/

namespace Pintos

open Infra

variable {k k' : Kernel} {c : Code} {s : SemaId} {t : ThreadId} {old : IntrLevel}

/-! ## 割り込みを許可する code -/

theorem IntrLevel.eq_off {l : IntrLevel} (h : l ≠ .on) : l = .off := by
  cases l with
  | on => exact absurd rfl h
  | off => rfl

/-- 実行すると割り込みが許可される code。 -/
def Code.enables : Code → Bool
  | .intrEnable | .kernelThread | .idleHlt | .iret => true
  | .intrSetLevel .on | .sleepReturn .on | .semaDownLoop _ .on => true
  | _ => false

/-- 割り込みが禁じられていて、戻る途中で許可されることもない。thread が自分で禁じた場合である。 -/
def Quiet (k : Kernel) : Prop :=
  k.intrLevel = .off ∧ ∀ c ∈ k.curThread.stack, c.enables = false

theorem Quiet.congr (h : Quiet k) (hl : k'.intrLevel = k.intrLevel)
    (hst : k'.curThread.stack = k.curThread.stack) : Quiet k' := by
  refine ⟨hl.trans h.1, fun c hc => ?_⟩
  rw [hst] at hc
  exact h.2 c hc

theorem Quiet.push (h : Quiet k) {cs : List Code} (hcs : ∀ c ∈ cs, c.enables = false) :
    Quiet (k.push cs) := by
  refine ⟨h.1, fun c hc => ?_⟩
  rw [Kernel.push_curStack] at hc
  rcases List.mem_append.mp hc with hc | hc
  · exact hcs c hc
  · exact h.2 c hc

theorem Quiet.pop (h : Quiet k) : Quiet k.pop := by
  refine ⟨h.1, fun c hc => ?_⟩
  rw [Kernel.pop_curStack] at hc
  exact h.2 c (List.mem_of_mem_tail hc)

theorem Quiet.readied (h : Quiet k) (t : ThreadId) : Quiet (k.readied t) :=
  h.congr rfl (k.readied_stack k.cur t)

theorem Quiet.intrSetLevel (h : Quiet k) (hold : old = .off)
    (hx : intrSetLevel old k = .ok k') : Quiet k' := by
  rw [intrSetLevel_ok hx]
  exact ⟨hold, h.2⟩

theorem semaDecrement_quiet (h : Quiet k) (hold : old = .off)
    (hx : semaDecrement s old k = .ok k') : Quiet k' := by
  refine Quiet.intrSetLevel (Quiet.push (k := k.setSema s _) h ?_) hold hx
  cases s <;> simp [afterDown, Code.enables]

/-! ## 割り込みを禁じた thread の code

別の thread に切り替わるか（`Top`）、禁じたままである（`Quiet`）。
-/

theorem semaDownLoop_quiet (hs : ReadySorted k) (h : Quiet k)
    (hold : old = .off) (hx : semaDownLoop s old k = .ok k') : Top k' ∨ Quiet k' := by
  unfold semaDownLoop at hx
  split at hx
  · refine .inl (threadBlock_top ?_ hx)
    exact (hs.push [.semaDownLoop s old]).congr rfl fun _ _ => rfl
  · exact .inr (semaDecrement_quiet h hold hx)

theorem semaDown_quiet (hs : ReadySorted k) (h : Quiet k)
    (hx : semaDown s k = .ok k') : Top k' ∨ Quiet k' := by
  exact semaDownLoop_quiet (k := intrDisable k) hs ⟨rfl, h.2⟩ h.1 (semaDown_ok hx)

theorem semaTryDown_quiet (h : Quiet k) (hx : semaTryDown s k = .ok k') : Quiet k' := by
  have hq : Quiet (intrDisable k) := ⟨rfl, h.2⟩
  unfold semaTryDown at hx
  split at hx
  · exact semaDecrement_quiet hq h.1 hx
  · exact hq.intrSetLevel h.1 hx

theorem lockRelease_quiet {l : LockId} (h : Quiet k) (hx : lockRelease l k = .ok k') :
    Quiet k' := by
  obtain ⟨-, rfl⟩ := lockRelease_ok hx
  refine Quiet.push (k := { k with holder := Function.update k.holder l none }) h ?_
  simp [Code.enables]

theorem threadSleep_quiet {ticks : Int} (h : Quiet k) : threadSleep ticks k ≠ .ok k' := by
  intro hx
  have hoff := h.1
  rw [(threadSleep_ok hx).2.1] at hoff
  cases hoff

theorem threadSetPriority_quiet {p : Int} (hw : WellFormed k) (hs : ReadySorted k) (h : Quiet k)
    (hx : threadSetPriority p k = .ok k') : Top k' ∨ Quiet k' := by
  have hq : Quiet (intrDisable (k.modify k.cur fun th => { th with priority := p })) :=
    Quiet.congr (k := intrDisable k) ⟨rfl, h.2⟩ rfl
      (k.modify_field (f := fun th => { th with priority := p }) Thread.stack fun _ => rfl)
  rcases threadSetPriority_ok hx with ⟨-, rfl⟩ | ⟨-, hx | ⟨-, hx⟩⟩
  · exact .inr h
  · exact .inl (testMaxPriority_top (hs.setPriority hw p) hx)
  · exact .inr (hq.intrSetLevel h.1 hx)

theorem threadCreate_quiet {page : Bool} {p : Int} (hw : WellFormed k) (h : Quiet k)
    (hx : threadCreate page p k = .ok k') : Quiet k' := by
  have hcreated : Quiet (k.created p [.kernelThread]) := by
    refine Quiet.push (k := k.allocated p [.kernelThread]) ?_ ?_
    · refine h.congr rfl ?_
      exact congrArg Thread.stack (allocated_of_ne (Nat.ne_of_lt hw.cur_created))
    · simp [Code.enables]
  rcases threadCreate_ok hx with rfl | ⟨-, rfl⟩
  · exact h
  · exact hcreated

theorem createTest_quiet (hs : ReadySorted k) (h : Quiet k)
    (hx : createTest t k = .ok k') : Top k' ∨ Quiet k' := by
  rcases createTest_ok hx with hx | rfl
  · exact .inl (threadYield_top hs hx)
  · exact .inr h

/-- 割り込みを許可しない code を実行した後も、禁じたままか、切り替わっている。 -/
theorem exec_quiet (hw : WellFormed k) (hs : ReadySorted k) (h : Quiet k)
    (hc : c.enables = false) (hx : exec c k = .ok k') : Top k' ∨ Quiet k' := by
  have hsame : ∀ {k₁ : Kernel}, (Except.ok k₁ : Except Panic Kernel) = .ok k' →
      k₁.intrLevel = k.intrLevel → k₁.curThread.stack = k.curThread.stack →
      Top k' ∨ Quiet k' := by
    intro k₁ he hl hst
    rw [← Except.ok.inj he]
    exact .inr (h.congr hl hst)
  cases c with
  | intrDisable => exact hsame hx h.1.symm rfl
  | intrEnable | iret | kernelThread | idleHlt => cases hc
  | threadCreate page p => exact .inr (threadCreate_quiet hw h hx)
  | threadBlock => exact .inl (threadBlock_top (hs.push _) hx)
  | threadUnblock t | createUnblock t =>
    obtain ⟨-, rfl⟩ := threadUnblock_ok hx
    exact .inr (h.readied t)
  | threadYield => exact .inl (threadYield_top hs hx)
  | threadExit => exact .inl (threadExit_top hs hx)
  | threadSleep n => exact absurd hx (threadSleep_quiet h)
  | threadSetPriority p => exact threadSetPriority_quiet hw hs h hx
  | threadSetNice n => exact .inl (threadSetNice_top hx)
  | semaDown s => exact semaDown_quiet hs h hx
  | semaTryDown s => exact .inr (semaTryDown_quiet h hx)
  | semaUp s => exact .inl (semaUp_top hs hx)
  | lockAcquire l => exact semaDown_quiet hs h (lockAcquire_ok hx)
  | lockTryAcquire l => exact .inr (semaTryDown_quiet h (lockTryAcquire_ok hx))
  | lockRelease l => exact .inr (lockRelease_quiet h hx)
  | intrSetLevel | sleepReturn =>
    exact .inr (h.intrSetLevel (IntrLevel.eq_off fun he => by rw [he] at hc; cases hc) hx)
  | blockReturn | lockSetHolder | startLoadAvg => exact hsame hx rfl rfl
  | semaDownLoop s old =>
    exact semaDownLoop_quiet hs h (IntrLevel.eq_off fun he => by rw [he] at hc; cases hc) hx
  | allocateTid t =>
    exact hsame hx rfl
      (k.modify_field (f := fun th => { th with tid := k.nextTid }) Thread.stack fun _ => rfl)
  | createTest t => exact createTest_quiet hs h hx
  | idleStart => exact .inl (semaUp_top (k := { k with idleThread := some k.cur }) hs hx)
  | idleLoop =>
    exact .inl (threadBlock_top (k := intrDisable (k.push [.idleHlt])) (hs.push _) hx)

/-! ## 横取りの不変量 -/

/-- 待っている高い thread は作られたばかりで、実行中の thread が譲る検査をこれからする。 -/
def Settling (k : Kernel) : Prop :=
  ∀ r ∈ k.readyList, (k.thread r).priority ≤ k.curThread.priority ∨
    k.curThread.stack.head? = some (.createTest r)

/-- 割り込みを許可して走っているなら、高い thread は待っていない。 -/
def Immediate (k : Kernel) : Prop := k.intrLevel = .on → Top k

/-- 一歩で保たれる形。禁じた間のことは、許可に戻るときに効く。 -/
structure Preempted (k : Kernel) : Prop where
  immediate : Immediate k
  pending : Quiet k ∨ Settling k

theorem Top.preempted (h : Top k) : Preempted k := ⟨fun _ => h, .inr fun r hr => .inl (h r hr)⟩

theorem Quiet.immediate (h : Quiet k) : Immediate k := by
  intro hon
  have hoff := h.1
  rw [hon] at hoff
  cases hoff

theorem Quiet.preempted (h : Quiet k) : Preempted k := ⟨h.immediate, .inl h⟩

theorem Settling.top (h : Settling k)
    (hno : ∀ t, k.curThread.stack.head? ≠ some (.createTest t)) : Top k :=
  fun r hr => (h r hr).resolve_right (hno r)

theorem top_readied_iff (h : Top k) (t : ThreadId) :
    Top (k.readied t) ↔ (k.thread t).priority ≤ k.curThread.priority := by
  have hmem : ∀ r, r ∈ (k.readied t).readyList ↔ r = t ∨ r ∈ k.readyList :=
    fun r => mem_listInsertOrdered
  have hcur : (k.readied t).curThread.priority = k.curThread.priority := k.readied_priority k.cur t
  unfold Top
  simp only [hcur, Kernel.readied_priority]
  constructor
  · intro hp
    exact hp t ((hmem t).mpr (.inl rfl))
  · intro ht r hr
    rcases (hmem r).mp hr with rfl | hr
    · exact ht
    · exact h r hr

def Kernel.due (k : Kernel) : List ThreadId :=
  k.sleepList.takeWhile fun t => (k.thread t).wakeUpTime ≤ k.ticks + 1

/-- `thread_create` がこれから `thread_unblock` する thread。 -/
def Kernel.creating (k : Kernel) : Option ThreadId :=
  match k.curThread.stack.head? with
  | some (.createUnblock t) => some t
  | _ => none

/-- 高い thread を待たせない一歩。 -/
def Prompt (k : Kernel) : Event → Prop
  | .interrupt .timer =>
    -- 時間切れで譲るか、起こされる thread も上がった thread も高くない
    timeSlice ≤ k.threadTicks + 1 ∨
      (∀ t ∈ k.due, (k.thread t).priority ≤ k.curThread.priority) ∧
      (k.threadPriorAging = true →
        ∀ r ∈ k.readyList, ageOne (k.thread r).priority ≤ k.curThread.priority)
  | .interrupt (.unblock t) => (k.thread t).priority ≤ k.curThread.priority
  | .call (.threadUnblock t) =>
    k.intrLevel = .on → (k.thread t).priority ≤ k.curThread.priority
  | .call .intrEnable => Top k
  | .resume =>
    k.intrLevel = .on → ∀ t ∈ k.creating, (k.thread t).priority ≤ k.curThread.priority
  | _ => True

instance (k : Kernel) : (e : Event) → Decidable (Prompt k e)
  | .interrupt .timer => inferInstanceAs (Decidable (_ ∨ _))
  | .interrupt (.unblock _) => inferInstanceAs (Decidable (_ ≤ _))
  | .interrupt (.semaUp _) | .interrupt .other => isTrue trivial
  | .resume => inferInstanceAs (Decidable (_ → ∀ t ∈ k.creating, _))
  | .call c => by
    cases c with
    | threadUnblock t => exact inferInstanceAs (Decidable (_ → _))
    | intrEnable => exact inferInstanceAs (Decidable (∀ r ∈ k.readyList, _))
    | _ => exact isTrue trivial

/-! ## thread の一歩 -/

theorem Code.isFrame_ne_threadUnblock (h : c.isFrame = true) (t : ThreadId) : c ≠ .threadUnblock t := by
  rintro rfl
  cases h

theorem Code.callable_ne_createUnblock (h : c.callable k = true) (t : ThreadId) :
    c ≠ .createUnblock t := by
  rintro rfl
  unfold Code.callable at h
  split at h
  · simp at h
  · cases h

theorem Code.enables_of_callable (h : c.callable k = true) (hne : c ≠ .intrEnable) :
    c.enables = false := by
  unfold Code.callable at h
  split at h
  · rw [of_decide_eq_true h]
    rfl
  · cases c <;> first | rfl | exact absurd rfl hne | cases h

/-- 起こす code の一歩。割り込みを禁じていれば、禁じたままか、譲る検査が続く。 -/
theorem unblock_preempted (hi : Immediate k) (hoff : k.intrLevel = .off →
      Quiet k ∨ Top k ∧ k.curThread.stack.head? = some (.createTest t))
    (hx : threadUnblock t k = .ok k') :
    (Immediate k' ↔ (k.intrLevel = .on → (k.thread t).priority ≤ k.curThread.priority)) ∧
    (Immediate k' → Preempted k') := by
  obtain ⟨-, rfl⟩ := threadUnblock_ok hx
  by_cases hon : k.intrLevel = .on
  · have hiff := top_readied_iff (hi hon) t
    refine ⟨⟨fun h _ => hiff.mp (h hon), fun h _ => hiff.mpr (h hon)⟩, fun h => ?_⟩
    exact (h hon).preempted
  · have himm : Immediate (k.readied t) := fun h => absurd h hon
    refine ⟨⟨fun _ h => absurd h hon, fun _ => himm⟩, fun _ => ⟨himm, ?_⟩⟩
    rcases hoff (IntrLevel.eq_off hon) with hq | ⟨ht, hhead⟩
    · exact .inl (hq.readied t)
    · refine .inr fun r hr => ?_
      have hst : (k.readied t).curThread.stack = k.curThread.stack := k.readied_stack k.cur t
      have hcur : (k.readied t).curThread.priority = k.curThread.priority :=
        k.readied_priority k.cur t
      rw [hst, hcur, k.readied_priority]
      rcases mem_listInsertOrdered.mp hr with rfl | hr
      · exact .inr hhead
      · exact .inl (ht r hr)

theorem call_preempted (hw : WellFormed k) (hs : ReadySorted k)
    (hmode : k.schedulingMode = .priority) (hp : Preempted k) (hst : k.curThread.stack = [])
    (hcall : c.callable k = true) (hx : exec c k = .ok k') :
    (Immediate k' ↔ Prompt k (.call c)) ∧ (Immediate k' → Preempted k') := by
  have hoff : k.intrLevel = .off → Quiet k := fun hoff => ⟨hoff, by rw [hst]; simp⟩
  have hrest : (∀ t, c ≠ .threadUnblock t) → c.enables = false → Preempted k' := by
    intro hu hen
    by_cases hon : k.intrLevel = .on
    · exact (exec_top hw hs hmode (hp.immediate hon) hu
        (Code.callable_ne_createUnblock hcall) hx).preempted
    · exact (exec_quiet hw hs (hoff (IntrLevel.eq_off hon)) hen hx).elim Top.preempted
        Quiet.preempted
  have htrue : Preempted k' → (Immediate k' ↔ True) ∧ (Immediate k' → Preempted k') :=
    fun h => ⟨iff_true_intro h.immediate, fun _ => h⟩
  cases c with
  | threadUnblock t => exact unblock_preempted hp.immediate (fun h => .inl (hoff h)) hx
  | intrEnable =>
    have hcalm : Calm k k' := intrEnable_calm hx
    have hon : k'.intrLevel = .on := by
      rw [(intrEnable_ok hx).2]
    refine ⟨⟨fun h => hcalm.top_iff.mp (h hon), fun h _ => hcalm.top_iff.mpr h⟩, fun h => ?_⟩
    exact (h hon).preempted
  | _ =>
    exact htrue (hrest (fun _ he => nomatch he)
      (Code.enables_of_callable hcall fun he => nomatch he))

theorem resume_preempted {cs : List Code} (hw : WellFormed k) (hs : ReadySorted k)
    (hpair : AllPaired k) (hmode : k.schedulingMode = .priority) (hp : Preempted k)
    (hst : k.curThread.stack = c :: cs) (hx : exec c k.pop = .ok k') :
    (Immediate k' ↔ Prompt k .resume) ∧ (Immediate k' → Preempted k') := by
  have hhead : k.curThread.stack.head? = some c := by rw [hst]; rfl
  have hcalm : Calm k k.pop := calm_of_eq rfl rfl k.pop_priority
  have hsettled : Settling k → (∀ t, c ≠ .createTest t) → Top k.pop := by
    intro hset hne
    refine hcalm.top_iff.mpr (hset.top fun t he => hne t ?_)
    rw [hhead] at he
    exact Option.some.inj he
  by_cases hu : ∃ t, c = .createUnblock t
  · obtain ⟨t, rfl⟩ := hu
    have hprompt : Prompt k .resume ↔
        (k.intrLevel = .on → (k.thread t).priority ≤ k.curThread.priority) := by
      simp [Prompt, Kernel.creating, hhead]
    have hnext : k.pop.curThread.stack.head? = some (.createTest t) := by
      have hpc := hpair k.cur
      rw [show (k.thread k.cur).stack = .createUnblock t :: cs from hst] at hpc
      rw [Kernel.pop_curStack, hst]
      exact hpc.1 t rfl
    have hkey := unblock_preempted (k := k.pop) (t := t)
      (fun hon => hcalm.top_iff.mpr (hp.immediate hon))
      (fun _ => hp.pending.imp Quiet.pop fun hset =>
        ⟨hsettled hset (fun _ he => nomatch he), hnext⟩) hx
    rw [k.pop_priority t, show k.pop.curThread.priority = k.curThread.priority from
      k.pop_priority k.cur] at hkey
    rw [hprompt]
    exact hkey
  · have hprompt : Prompt k .resume := by
      intro _ t ht
      unfold Kernel.creating at ht
      split at ht
      · next u he =>
        rw [hhead] at he
        exact absurd ⟨u, Option.some.inj he⟩ hu
      · cases ht
    have hp' : Preempted k' := by
      rcases hp.pending with hq | hset
      · have hen : c.enables = false := hq.2 c (by rw [hst]; simp)
        exact (exec_quiet (hw.pop hst) hs.pop hq.pop hen hx).elim Top.preempted Quiet.preempted
      · by_cases hct : ∃ t, c = .createTest t
        · obtain ⟨t, rfl⟩ := hct
          refine (createTest_top (t := t) hs.pop (fun r hr => ?_) hx).preempted
          rw [k.pop_priority r, show k.pop.curThread.priority = k.curThread.priority from
            k.pop_priority k.cur]
          refine (hset r hr).imp_right fun he => ?_
          rw [hhead] at he
          cases he
          rfl
        · refine (exec_top (hw.pop hst) hs.pop hmode
            (hsettled hset fun t he => hct ⟨t, he⟩) ?_ (fun t he => hu ⟨t, he⟩) hx).preempted
          exact Code.isFrame_ne_threadUnblock
            (hw.framesOk.isFrame k.cur c (by
              rw [show (k.thread k.cur).stack = c :: cs from hst]; simp))
    exact ⟨⟨fun _ => hprompt, fun _ => hp'.immediate⟩, fun _ => hp'⟩

/-! ## 割り込みの一歩 -/

/-- `k` から `ts` の thread を起こした状態。 -/
structure Awoken (k : Kernel) (ts : List ThreadId) (k' : Kernel) : Prop where
  cur : k'.cur = k.cur
  yieldOnReturn : k'.yieldOnReturn = k.yieldOnReturn
  priority : ∀ u, (k'.thread u).priority = (k.thread u).priority
  mem_ready : ∀ r, r ∈ k'.readyList ↔ r ∈ ts ∨ r ∈ k.readyList

theorem Kernel.readied_wakeUpTime (k : Kernel) (u t : ThreadId) :
    ((k.readied t).thread u).wakeUpTime = (k.thread u).wakeUpTime :=
  k.modify_field (f := fun th => { th with status := .ready }) Thread.wakeUpTime fun _ => rfl

theorem awakeLoop_awoken {now : Int} :
    ∀ (ts : List ThreadId) {k k' : Kernel}, awakeLoop now ts k = .ok k' →
      Awoken k (ts.takeWhile fun t => (k.thread t).wakeUpTime ≤ now) k'
  | [], k, k', h => by
    rw [awakeLoop] at h
    rw [← Except.ok.inj h]
    exact ⟨rfl, rfl, fun _ => rfl, fun r => by simp⟩
  | t :: ts, k, k', h => by
    rw [awakeLoop] at h
    split at h
    · next hdue =>
      obtain ⟨k₁, hu, hrest⟩ := bind_eq_ok.mp h
      obtain ⟨-, rfl⟩ := threadUnblock_ok hu
      have ih := awakeLoop_awoken ts hrest
      simp only [Kernel.readied_wakeUpTime] at ih
      rw [List.takeWhile_cons_of_pos (by simpa using hdue)]
      refine ⟨ih.cur, ih.yieldOnReturn, fun u => (ih.priority u).trans ?_, fun r => ?_⟩
      · exact Kernel.readied_priority { k with sleepList := ts } u t
      · have hmem : r ∈ (Kernel.readied { k with sleepList := ts } t).readyList ↔
            r = t ∨ r ∈ k.readyList := mem_listInsertOrdered
        rw [ih.mem_ready r, hmem, List.mem_cons]
        tauto
    · next hdue =>
      rw [← Except.ok.inj h, List.takeWhile_cons_of_neg (by simpa using hdue)]
      exact ⟨rfl, rfl, fun _ => rfl, fun r => by simp⟩

theorem threadAging_wakeUpTime (k : Kernel) (u : ThreadId) :
    ((threadAging k).thread u).wakeUpTime = (k.thread u).wakeUpTime := by
  unfold threadAging
  generalize k.readyList = ts
  induction ts generalizing k with
  | nil => rfl
  | cons t ts ih =>
    rw [List.foldl_cons, ih]
    exact Kernel.modify_field Thread.wakeUpTime fun th => by split <;> rfl

theorem timeSliceTick_ok (h : timeSliceTick k = .ok k') :
    k' = { k with
      threadTicks := k.threadTicks + 1
      yieldOnReturn := if timeSlice ≤ k.threadTicks + 1 then true else k.yieldOnReturn } := by
  unfold timeSliceTick at h
  split at h
  · next hge =>
    rw [intrYieldOnReturn_ok h, if_pos hge]
  · next hlt =>
    rw [← Except.ok.inj h, if_neg hlt]

theorem agingTick_eq (k : Kernel) : agingTick k = { k with thread := (agingTick k).thread } := by
  unfold agingTick
  split
  · exact (threadAging_recalculated k).eq
  · rfl

theorem agingTick_wakeUpTime (k : Kernel) (u : ThreadId) :
    ((agingTick k).thread u).wakeUpTime = (k.thread u).wakeUpTime := by
  unfold agingTick
  split
  · exact threadAging_wakeUpTime k u
  · rfl

theorem agingTick_priority (hnd : k.readyList.Nodup) (u : ThreadId) :
    ((agingTick k).thread u).priority =
      if k.threadPriorAging = true ∧ u ∈ k.readyList then ageOne (k.thread u).priority
      else (k.thread u).priority := by
  unfold agingTick
  split
  · next ha =>
    refine (foldl_aging_priority k.readyList k hnd u).trans ?_
    simp [ha]
  · next ha => simp [ha]

/-- priority scheduler の timer 割り込みがすること。 -/
structure Ticked (k k' : Kernel) : Prop where
  cur : k'.cur = k.cur
  yieldOnReturn : k'.yieldOnReturn = if timeSlice ≤ k.threadTicks + 1 then true else k.yieldOnReturn
  priority : ∀ u, (k'.thread u).priority =
    if k.threadPriorAging = true ∧ u ∈ k.readyList then ageOne (k.thread u).priority
    else (k.thread u).priority
  mem_ready : ∀ r, r ∈ k'.readyList ↔ r ∈ k.due ∨ r ∈ k.readyList

theorem timerInterrupt_ticked (hnd : k.readyList.Nodup) (hmode : k.schedulingMode = .priority)
    (h : timerInterrupt k = .ok k') : Ticked k k' := by
  obtain ⟨k₁, htick, hawake⟩ := bind_eq_ok.mp h
  obtain ⟨k₂, hslice, htick⟩ := bind_eq_ok.mp htick
  obtain ⟨k₃, hmt, htick⟩ := bind_eq_ok.mp htick
  have h₂ := timeSliceTick_ok hslice
  have h₃ : k₃ = k₂ := by
    unfold modeTick at hmt
    rw [show k₂.schedulingMode = .priority by rw [h₂]; exact hmode] at hmt
    exact (Except.ok.inj hmt).symm
  rw [h₃] at htick
  have h₁ : k₁ = agingTick k₂ := (Except.ok.inj htick).symm
  have hready : k₁.readyList = k.readyList := by rw [h₁, agingTick_eq, h₂]
  have hsleep : k₁.sleepList = k.sleepList := by rw [h₁, agingTick_eq, h₂]
  have hticks : k₁.ticks = k.ticks + 1 := by rw [h₁, agingTick_eq, h₂]
  have hwake : ∀ t, (k₁.thread t).wakeUpTime = (k.thread t).wakeUpTime := by
    intro t
    rw [h₁, agingTick_wakeUpTime, h₂]
  have haw := awakeLoop_awoken _ hawake
  simp only [hwake, hticks, hsleep] at haw
  refine ⟨haw.cur.trans ?_, haw.yieldOnReturn.trans ?_, fun u => (haw.priority u).trans ?_,
    fun r => ?_⟩
  · rw [h₁, agingTick_eq, h₂]
  · rw [h₁, agingTick_eq, h₂]
  · rw [h₁, agingTick_priority (by rw [h₂]; exact hnd), h₂]
  · rw [haw.mem_ready r, hready]
    rfl

theorem WellFormed.due_not_mem_ready (h : WellFormed k) (ht : t ∈ k.due) : t ∉ k.readyList := by
  have hsleep : t ∈ k.queue .sleep := (List.takeWhile_prefix _).subset ht
  refine h.not_mem_ready ?_
  rw [((h.placed.mem_queue .sleep t).mp hsleep).1]
  simp

/-- timer 割り込みの後に高い thread が待っていないのは、起こした thread も上げた thread も高くないとき。 -/
theorem Ticked.top_iff (hw : WellFormed k) (ht : Top k) (htick : Ticked k k') :
    Top k' ↔ (∀ t ∈ k.due, (k.thread t).priority ≤ k.curThread.priority) ∧
      (k.threadPriorAging = true →
        ∀ r ∈ k.readyList, ageOne (k.thread r).priority ≤ k.curThread.priority) := by
  have hcur : k'.curThread.priority = k.curThread.priority := by
    unfold Kernel.curThread
    rw [htick.cur, htick.priority, if_neg fun h => hw.cur_not_mem_ready h.2]
  have hdue : ∀ t ∈ k.due, (k'.thread t).priority = (k.thread t).priority := by
    intro t hmem
    rw [htick.priority, if_neg fun h => hw.due_not_mem_ready hmem h.2]
  unfold Top
  rw [hcur]
  constructor
  · intro h
    refine ⟨fun t hmem => ?_, fun ha r hr => ?_⟩
    · rw [← hdue t hmem]
      exact h t ((htick.mem_ready t).mpr (.inl hmem))
    · have hle := h r ((htick.mem_ready r).mpr (.inr hr))
      rwa [htick.priority, if_pos ⟨ha, hr⟩] at hle
  · rintro ⟨hd, ha⟩ r hr
    rcases (htick.mem_ready r).mp hr with hmem | hr
    · rw [hdue r hmem]
      exact hd r hmem
    · rw [htick.priority]
      split
      · next hag => exact ha hag.1 r hr
      · exact ht r hr

theorem handler_top_iff {hd : Handler} (hw : WellFormed k) (hs : ReadySorted k)
    (hmode : k.schedulingMode = .priority) (ht : Top k) (hx : hd.run k.inHandler = .ok k') :
    (k'.yieldOnReturn = true → Prompt k (.interrupt hd)) ∧
    (k'.yieldOnReturn = false → (Top k' ↔ Prompt k (.interrupt hd))) := by
  cases hd with
  | timer =>
    have htick : Ticked k.inHandler k' := timerInterrupt_ticked hw.placed.ready_nodup hmode hx
    have hyield : k'.yieldOnReturn = if timeSlice ≤ k.threadTicks + 1 then true else false :=
      htick.yieldOnReturn
    refine ⟨fun hy => .inl ?_, fun hy => ?_⟩
    · by_contra hlt
      rw [if_neg hlt, hy] at hyield
      cases hyield
    · have hlt : ¬ timeSlice ≤ k.threadTicks + 1 := by
        intro hge
        rw [if_pos hge, hy] at hyield
        cases hyield
      have hw' : WellFormed k.inHandler := (Action.flags .off true false).wellFormed hw
      exact (htick.top_iff hw' ht).trans (or_iff_right hlt).symm
  | semaUp s => exact ⟨fun _ => trivial, fun _ => iff_true_intro (semaUp_top (k := k.inHandler) hs hx)⟩
  | unblock t =>
    obtain ⟨-, rfl⟩ := threadUnblock_ok hx
    exact ⟨(fun hy => nomatch hy), fun _ => top_readied_iff (k := k.inHandler) ht t⟩
  | other =>
    rw [← Except.ok.inj hx]
    exact ⟨fun _ => trivial, fun _ => iff_true_intro ht⟩

theorem interrupt_preempted {hd : Handler} (hw : WellFormed k) (hs : ReadySorted k)
    (hmode : k.schedulingMode = .priority) (hp : Preempted k) (hon : k.intrLevel = .on)
    (hposs : hd.possible k = true) (hx : intrHandler hd.run k = .ok k') :
    (Immediate k' ↔ Prompt k (.interrupt hd)) ∧ (Immediate k' → Preempted k') := by
  obtain ⟨k₁, hrun, hafter⟩ := intrHandler_ok hx
  obtain ⟨hyield, hstay⟩ := handler_top_iff hw hs hmode (hp.immediate hon) hrun
  rcases hafter with ⟨hy, hx⟩ | ⟨hy, rfl⟩
  · have hloose : ∀ t, hd = .unblock t → k.inHandler.Loose t := by
      rintro t rfl
      exact hw.loose_of_selfBlocked hposs
    have hw' : WellFormed k.inHandler := (Action.flags .off true false).wellFormed hw
    have hs₁ : ReadySorted k₁ := (Handler.run_actions rfl hloose hrun).readySorted hw' hs
    have htop : Top k' :=
      threadYield_top (ReadySorted.push (k := { k₁ with inExternalIntr := false }) hs₁ _) hx
    exact ⟨⟨fun _ => hyield hy, fun _ => htop.preempted.immediate⟩, fun _ => htop.preempted⟩
  · refine ⟨⟨fun h => (hstay hy).mp (h rfl), fun h _ => (hstay hy).mpr h⟩, fun h => ?_⟩
    exact Top.preempted (h rfl)

/-! ## 実行全体 -/

theorem Action.schedulingMode {tr : List Obs} (ha : Action k tr k') :
    k'.schedulingMode = k.schedulingMode := by
  cases ha with
  | aging => rw [(threadAging_recalculated k).eq]
  | up s k₁ hw =>
    rcases semaWake_ok hw with ⟨-, rfl⟩ | ⟨t, ts, -, -, rfl⟩ <;> rfl
  | _ => rfl

theorem Switch.schedulingMode (hs : Switch k k') : k'.schedulingMode = k.schedulingMode := by
  cases hs with
  | @block c _ _ _ _ _ _ _ _ =>
    obtain ⟨_, _, he⟩ := k.waiting_eq c
    rw [he]
    rfl
  | _ => rfl

theorem schedulingMode_stepRule (mode : SchedulingMode) :
    StepRule fun k => k.schedulingMode = mode where
  action ha _ h := ha.schedulingMode.trans h
  switch hs _ h := hs.schedulingMode.trans h
  pop _ h := h

theorem step_schedulingMode (h : WellFormed k) {e : Event} (hs : step k e = some k') :
    k'.schedulingMode = k.schedulingMode := (schedulingMode_stepRule _).step h hs rfl

/-- 一歩の後に高い thread が待っていないのは、`Prompt` な一歩のときである。 -/
theorem step_preempted (hw : WellFormed k) (hs : ReadySorted k) (hpair : AllPaired k)
    (hmode : k.schedulingMode = .priority) (hp : Preempted k) {e : Event}
    (hstep : step k e = some k') :
    (Immediate k' ↔ Prompt k e) ∧ (Immediate k' → Preempted k') := by
  rcases step_cases hstep with ⟨c, rfl, hst, hc, hx⟩ | ⟨c, cs, rfl, hst, hx⟩ |
    ⟨hd, rfl, hon, hposs, hx⟩
  · exact call_preempted hw hs hmode hp hst hc hx
  · exact resume_preempted hw hs hpair hmode hp hst hx
  · exact interrupt_preempted hw hs hmode hp hon hposs hx

theorem reachableIf_preempted (h : ReachableIf scheduler Prompt k)
    (hmode : k.schedulingMode = .priority) : Preempted k := by
  refine reachable_of_boot (P := fun k => k.schedulingMode = .priority → Preempted k)
    (J := fun k => WellFormed k ∧ ReadySorted k ∧ AllPaired k)
    (fun _ hr => ⟨reachable_wellFormed hr, reachable_readySorted hr, reachable_allPaired hr⟩)
    (fun _ _ _ _ => ⟨(fun h => nomatch h), .inr fun _ hr => nomatch hr⟩) ?_ h hmode
  rintro k₁ e k₂ ⟨hw, hs, hpair⟩ ih hprompt hstep hm
  have hm₁ : k₁.schedulingMode = .priority := (step_schedulingMode hw hstep).symm.trans hm
  obtain ⟨hiff, hnext⟩ := step_preempted hw hs hpair hm₁ (ih hm₁) hstep
  exact hnext (hiff.mpr hprompt)

/--
**`Prompt` な一歩だけからなる priority scheduler の実行では、
割り込みを許可して走る thread より高い thread は `ready_list` で待っていない。**

その実行の次の一歩が `Prompt` でなければ、一歩の直後に待っている。
handler は一歩の中で終わるので、どの状態も割り込みの外にある。
-/
theorem reachableIf_prompt_iff (h : ReachableIf scheduler Prompt k)
    (hmode : k.schedulingMode = .priority) :
    (k.intrLevel = .on → ∀ r ∈ k.readyList, (k.thread r).priority ≤ k.curThread.priority) ∧
    ∀ e k', step k e = some k' →
      ((k'.intrLevel = .on →
          ∀ r ∈ k'.readyList, (k'.thread r).priority ≤ k'.curThread.priority) ↔
        Prompt k e) := by
  have hp := reachableIf_preempted h hmode
  have hr := h.reachable
  refine ⟨hp.immediate, fun e k' hstep => ?_⟩
  exact (step_preempted (reachable_wellFormed hr) (reachable_readySorted hr)
    (reachable_allPaired hr) hmode hp hstep).1

theorem reachableIf_prompt_iff_create : ∃ k, ReachableIf scheduler Prompt k ∧
    k.schedulingMode = .priority ∧ k.intrLevel = .on ∧ k.readyList = [2] ∧
    ∀ r ∈ k.readyList, (k.thread r).priority ≤ k.curThread.priority := by
  have hboot : ReachableIf scheduler Prompt (boot .priority true fun _ => 0) :=
    .init (isBoot_iff.mpr ⟨.priority, true, fun _ => 0, rfl⟩)
  obtain ⟨k, hr, hk⟩ := exists_reachableIf_of_run
    (startEvents ++ createEvents 10 ++ [.interrupt .timer]) hboot
    (p := fun k => k.schedulingMode = .priority && k.intrLevel = .on && k.readyList = [2])
    (by decide +kernel)
  simp only [Bool.and_eq_true, decide_eq_true_eq] at hk
  exact ⟨k, hr, hk.1.1, hk.1.2, hk.2, (reachableIf_prompt_iff hr hk.1.1).1 hk.1.2⟩

/--
**眠りから覚めた高い thread が待たされる実行がある。**

main（31）が priority 40 の thread を作り、その thread が 1 tick 眠る。
次の timer 割り込みが起こしても、main は time slice の終わりまで走り続ける。
-/
theorem exists_reachable_not_immediate : ∃ k, Reachable scheduler k ∧
    k.schedulingMode = .priority ∧ k.threadPriorAging = false ∧
    k.intrLevel = .on ∧ k.inExternalIntr = false ∧ k.curThread.stack = [] ∧
    ∃ r ∈ k.readyList, k.curThread.priority < (k.thread r).priority := by
  obtain ⟨k, hr, hk⟩ := exists_reachable_of_run
    (startEvents ++ createEvents 40 ++
      [.resume, .call (.threadSleep 1), .resume, .interrupt .timer])
    (reachable_boot .priority false fun _ => 0)
    (p := fun k => k.schedulingMode = .priority && !k.threadPriorAging && k.intrLevel = .on &&
      !k.inExternalIntr && k.curThread.stack = [] &&
      k.readyList.any fun r => k.curThread.priority < (k.thread r).priority)
    (by decide +kernel)
  simp only [Bool.and_eq_true, decide_eq_true_eq, Bool.not_eq_true', List.any_eq_true] at hk
  obtain ⟨⟨⟨⟨⟨hmode, haging⟩, hon⟩, hctx⟩, hst⟩, hhigh⟩ := hk
  exact ⟨k, hr, hmode, haging, hon, hctx, hst, hhigh⟩

end Pintos
