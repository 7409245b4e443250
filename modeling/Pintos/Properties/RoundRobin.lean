import Pintos.Properties.ReadyOrder
import Pintos.Properties.Vitals

/-!
# 同じ priority の中の round-robin

`ready_list` は一本の整列した列だが、priority `p` の thread だけを見れば待ち行列になっている。
入るのは `thread_unblock` と `thread_yield`、出るのは `next_thread_to_run` だけなので、
実行をこれらの呼び出しに分け、出入りの記録 `ReadyEvent` を取る。

aging の無い priority scheduler では、一歩はいつもこの形に分かれる（`step_composed`）。
`p` で入った順は、`p` で選ばれた順に、まだ待っている thread を続けたものである。
-/

namespace Pintos

open Infra

variable {k k₁ k' : Kernel} {evs : List ReadyEvent}

/-! ## 出入りの記録 -/

/-- `ready_list` への出入りと、そのときの priority。 -/
inductive ReadyEvent
  | enter (t : ThreadId) (priority : Int)
  | dispatch (t : ThreadId) (priority : Int)
deriving DecidableEq

/-- `p` で入った thread を、入った順に並べる。 -/
def enteredAt (p : Int) (log : List ReadyEvent) : List ThreadId :=
  log.filterMap fun
    | .enter t q => if q = p then some t else none
    | .dispatch _ _ => none

/-- `p` で選ばれた thread を、選ばれた順に並べる。 -/
def dispatchedAt (p : Int) (log : List ReadyEvent) : List ThreadId :=
  log.filterMap fun
    | .enter _ _ => none
    | .dispatch t q => if q = p then some t else none

/-- `ready_list` で待っている priority `p` の thread。 -/
def Kernel.waitingAt (k : Kernel) (p : Int) : List ThreadId :=
  k.readyList.filter fun t => (k.thread t).priority = p

/-- `thread_yield` で入る thread。idle thread は入らない。 -/
def Kernel.yieldEnters (k : Kernel) : List ReadyEvent :=
  if k.idleThread = some k.cur then [] else [.enter k.cur k.curThread.priority]

/-- `next_thread_to_run` が `ready_list` から取る thread。空なら idle thread なので記録しない。 -/
def Kernel.dispatches (k : Kernel) : List ReadyEvent :=
  k.readyList.head?.toList.map fun t => .dispatch t (k.thread t).priority

/-- `ready_list` と、その中の thread の priority が変わらない。 -/
structure ReadyKept (k k' : Kernel) : Prop where
  ready : k'.readyList = k.readyList
  priority : ∀ t ∈ k.readyList, (k'.thread t).priority = (k.thread t).priority
  mode : k'.schedulingMode = k.schedulingMode
  aging : k'.threadPriorAging = k.threadPriorAging

/-- `ready_list` に触る呼び出しと、その間の code。 -/
inductive ReadyCall (k : Kernel) : List ReadyEvent → Kernel → Prop
  | unblock {t : ThreadId} {k' : Kernel} :
      threadUnblock t k = .ok k' → ReadyCall k [.enter t (k.thread t).priority] k'
  | yield {k' : Kernel} :
      threadYield k = .ok k' → ReadyCall k (k.yieldEnters ++ k.yielded.dispatches) k'
  | block {k' : Kernel} : threadBlock k = .ok k' → ReadyCall k k.dispatches k'
  | exit {k' : Kernel} : threadExit k = .ok k' → ReadyCall k k.dispatches k'
  | quiet {k' : Kernel} : ReadyKept k k' → ReadyCall k [] k'

/-- 一歩の中の呼び出しの列。 -/
inductive Calls : Kernel → List ReadyEvent → Kernel → Prop
  | nil (k : Kernel) : Calls k [] k
  | cons {k k₁ k₂ : Kernel} {evs evs' : List ReadyEvent} :
      ReadyCall k evs k₁ → Calls k₁ evs' k₂ → Calls k (evs ++ evs') k₂

inductive ReadyLog : Kernel → List Event → List ReadyEvent → Kernel → Prop
  | nil (k : Kernel) : ReadyLog k [] [] k
  | cons {k k₁ k' : Kernel} {e : Event} {es : List Event} {evs log : List ReadyEvent} :
      step k e = some k₁ → Calls k evs k₁ → ReadyLog k₁ es log k' →
      ReadyLog k (e :: es) (evs ++ log) k'

/-! ## 呼び出しと待ち行列 -/

section

variable (p : Int) (log log' : List ReadyEvent)

@[simp] theorem enteredAt_append :
    enteredAt p (log ++ log') = enteredAt p log ++ enteredAt p log' :=
  List.filterMap_append ..

@[simp] theorem dispatchedAt_append :
    dispatchedAt p (log ++ log') = dispatchedAt p log ++ dispatchedAt p log' :=
  List.filterMap_append ..

end

theorem waitingAt_congr (p : Int) (hready : k'.readyList = k.readyList)
    (hp : ∀ t ∈ k.readyList, (k'.thread t).priority = (k.thread t).priority) :
    k'.waitingAt p = k.waitingAt p := by
  unfold Kernel.waitingAt
  rw [hready]
  exact List.filter_congr fun t ht => by rw [hp t ht]

theorem ReadySorted.insert_filter (hs : ReadySorted k) (t : ThreadId) (p : Int) :
    (listInsertOrdered k.cmpPriority t k.readyList).filter (fun u => (k.thread u).priority = p) =
      k.waitingAt p ++ enteredAt p [.enter t (k.thread t).priority] := by
  rw [listInsertOrdered_filter (cmpPriority_strictWeakOrder k) _ t hs]
  · rw [Kernel.waitingAt, enteredAt]
    by_cases ht : (k.thread t).priority = p <;> simp [ht]
  · intro x y hx hy
    simp only [decide_eq_true_eq, Kernel.cmpPriority, decide_eq_false_iff_not] at hx hy ⊢
    omega

theorem schedule_waitingAt (h : schedule k = .ok k') (p : Int) :
    k.waitingAt p = dispatchedAt p k.dispatches ++ k'.waitingAt p := by
  obtain ⟨next, rest, hn, -, rfl⟩ := schedule_ok h
  unfold Kernel.waitingAt Kernel.dispatches dispatchedAt
  simp only [Kernel.switchTo_priority]
  show _ = _ ++ rest.filter _
  rcases hn with hr | ⟨hr, rfl, -⟩
  · rw [hr]
    by_cases hp : (k.thread next).priority = p <;> simp [hp]
  · rw [hr]
    rfl

theorem ReadyKept.waitingAt (h : ReadyKept k k') (p : Int) : k'.waitingAt p = k.waitingAt p :=
  waitingAt_congr p h.ready h.priority

theorem ReadyKept.readySorted (h : ReadyKept k k') (hs : ReadySorted k) : ReadySorted k' :=
  hs.congr h.ready h.priority

theorem ReadyCall.waitingAt (h : ReadyCall k evs k') (hs : ReadySorted k) (p : Int) :
    k.waitingAt p ++ enteredAt p evs = dispatchedAt p evs ++ k'.waitingAt p := by
  have hnone : ∀ k₁ : Kernel, enteredAt p k₁.dispatches = [] := by
    intro k₁
    unfold enteredAt Kernel.dispatches
    cases k₁.readyList <;> rfl
  cases h with
  | @unblock t _ hu =>
    obtain ⟨-, rfl⟩ := threadUnblock_ok hu
    unfold Kernel.waitingAt
    simp only [Kernel.readied_priority]
    exact (hs.insert_filter t p).symm
  | yield hy =>
    obtain ⟨-, -, hsch⟩ := threadYield_ok hy
    have hin : k.yielded.waitingAt p = k.waitingAt p ++ enteredAt p k.yieldEnters := by
      unfold Kernel.yieldEnters
      rw [Kernel.waitingAt]
      simp only [Kernel.yielded_priority]
      show (if _ then _ else _ : List ThreadId).filter _ = _
      split
      · exact (List.append_nil _).symm
      · exact hs.insert_filter k.cur p
    have hout : dispatchedAt p k.yieldEnters = [] := by
      unfold Kernel.yieldEnters
      split <;> rfl
    rw [enteredAt_append, hnone, List.append_nil, ← hin, schedule_waitingAt hsch p,
      dispatchedAt_append, hout, List.nil_append]
  | block hb =>
    obtain ⟨-, hsch⟩ := threadBlock_ok hb
    have hsame : (k.setStatus k.cur .blocked).waitingAt p = k.waitingAt p :=
      waitingAt_congr p rfl fun t _ => k.setStatus_priority k.cur t .blocked
    have hdis : (k.setStatus k.cur .blocked).dispatches = k.dispatches := by
      simp [Kernel.dispatches]
    rw [hnone, List.append_nil, ← hsame, schedule_waitingAt hsch p, hdis]
  | exit he =>
    obtain ⟨-, hsch⟩ := threadExit_ok he
    have hsame : k.exited.waitingAt p = k.waitingAt p :=
      waitingAt_congr p rfl fun t _ => k.exited_priority t
    have hdis : k.exited.dispatches = k.dispatches := by
      simp only [Kernel.dispatches, Kernel.exited_priority]
      rfl
    rw [hnone, List.append_nil, ← hsame, schedule_waitingAt hsch p, hdis]
  | quiet hq =>
    rw [hq.waitingAt p]
    exact List.append_nil _

theorem ReadyCall.readySorted (h : ReadyCall k evs k') (hs : ReadySorted k) : ReadySorted k' := by
  cases h with
  | unblock hu =>
    obtain ⟨-, rfl⟩ := threadUnblock_ok hu
    exact hs.readied _
  | yield hy =>
    obtain ⟨-, -, hsch⟩ := threadYield_ok hy
    obtain ⟨next, rest, hn, -, rfl⟩ := schedule_ok hsch
    exact hs.yielded.switchTo hn
  | block hb =>
    obtain ⟨-, hsch⟩ := threadBlock_ok hb
    obtain ⟨next, rest, hn, -, rfl⟩ := schedule_ok hsch
    have hsame : ReadySorted (k.setStatus k.cur .blocked) :=
      hs.congr rfl fun t _ => k.setStatus_priority k.cur t .blocked
    exact hsame.switchTo hn
  | exit he =>
    obtain ⟨-, hsch⟩ := threadExit_ok he
    obtain ⟨next, rest, hn, -, rfl⟩ := schedule_ok hsch
    exact hs.exited.switchTo hn
  | quiet hq => exact hq.readySorted hs

theorem Calls.waitingAt (h : Calls k evs k') (hs : ReadySorted k) (p : Int) :
    k.waitingAt p ++ enteredAt p evs = dispatchedAt p evs ++ k'.waitingAt p ∧ ReadySorted k' := by
  induction h with
  | nil k => exact ⟨List.append_nil _, hs⟩
  | cons hc _ ih =>
    obtain ⟨hrest, hs'⟩ := ih (hc.readySorted hs)
    refine ⟨?_, hs'⟩
    rw [enteredAt_append, ← List.append_assoc, hc.waitingAt hs p, List.append_assoc, hrest,
      dispatchedAt_append, List.append_assoc]

theorem ReadyLog.waitingAt {es : List Event} {log : List ReadyEvent} (h : ReadyLog k es log k')
    (hs : ReadySorted k) (p : Int) :
    k.waitingAt p ++ enteredAt p log = dispatchedAt p log ++ k'.waitingAt p := by
  induction h with
  | nil k => exact List.append_nil _
  | cons _ hcalls _ ih =>
    obtain ⟨hfirst, hs'⟩ := hcalls.waitingAt hs p
    rw [enteredAt_append, ← List.append_assoc, hfirst, List.append_assoc, ih hs',
      dispatchedAt_append, List.append_assoc]

/-! ## 一歩を呼び出しに分ける -/

def Composed (k k' : Kernel) : Prop := ∃ evs, Calls k evs k'

theorem ReadyCall.composed (h : ReadyCall k evs k') : Composed k k' :=
  ⟨_, .cons h (.nil k')⟩

theorem Composed.trans (h : Composed k k₁) (h' : Composed k₁ k') : Composed k k' := by
  obtain ⟨evs, hc⟩ := h
  obtain ⟨evs', hc'⟩ := h'
  induction hc with
  | nil => exact ⟨evs', hc'⟩
  | cons hcall _ ih =>
    obtain ⟨evs₁, h₁⟩ := ih hc'
    exact ⟨_, .cons hcall h₁⟩

theorem ReadyKept.composed (h : ReadyKept k k') : Composed k k' := (ReadyCall.quiet h).composed

theorem Composed.refl (k : Kernel) : Composed k k := ⟨[], .nil k⟩

theorem kept_of_priority (hready : k'.readyList = k.readyList)
    (hp : ∀ t, (k'.thread t).priority = (k.thread t).priority)
    (hmode : k'.schedulingMode = k.schedulingMode)
    (haging : k'.threadPriorAging = k.threadPriorAging) : Composed k k' :=
  ReadyKept.composed ⟨hready, fun t _ => hp t, hmode, haging⟩

theorem kept_of_thread (hready : k'.readyList = k.readyList) (hthread : k'.thread = k.thread)
    (hmode : k'.schedulingMode = k.schedulingMode)
    (haging : k'.threadPriorAging = k.threadPriorAging) : Composed k k' :=
  kept_of_priority hready (fun t => by rw [hthread]) hmode haging

theorem composed_callRule : CallRule Composed where
  trans := Composed.trans
  flags h := by
    unfold OnlyFlags at h
    rw [h]
    exact kept_of_thread rfl rfl rfl rfl
  record _ _ _ hf :=
    kept_of_priority rfl (fun _ => Kernel.modify_field Thread.priority fun th =>
      congrArg Vitals.priority (hf th)) rfl rfl
  value _ _ _ := kept_of_thread rfl rfl rfl rfl
  enqueue _ _ := kept_of_thread rfl rfl rfl rfl
  dequeue _ := kept_of_thread rfl rfl rfl rfl
  yield h := (ReadyCall.yield h).composed
  block h := (ReadyCall.block h).composed
  unblock h := (ReadyCall.unblock h).composed

/-! ### thread の関数 -/

theorem threadSleep_composed {ticks : Int} (h : threadSleep ticks k = .ok k') : Composed k k' := by
  obtain ⟨-, -, ⟨-, rfl⟩ | ⟨-, h⟩⟩ := threadSleep_ok h
  · exact .refl k'
  · have htime : Composed k (k.modify k.cur fun th => { th with wakeUpTime := ticks }) :=
      kept_of_priority rfl (fun t => Kernel.modify_field Thread.priority fun _ => rfl) rfl rfl
    refine htime.trans ((composed_callRule.push _ [.sleepReturn k.intrLevel]).trans ?_)
    refine Composed.trans ?_ (ReadyCall.block h).composed
    exact kept_of_thread rfl rfl rfl rfl

/-- 実行中の thread の priority は、`ready_list` に無いので変えてよい。 -/
theorem modify_cur_composed (hw : WellFormed k) (f : Thread → Thread) :
    Composed k (k.modify k.cur f) := by
  refine ReadyKept.composed ⟨rfl, fun t ht => ?_, rfl, rfl⟩
  have hne : t ≠ k.cur := fun he => hw.cur_not_mem_ready (he ▸ ht)
  rw [Kernel.modify_thread_of_ne hne]

theorem threadSetPriority_composed (hw : WellFormed k) {p : Int}
    (h : threadSetPriority p k = .ok k') : Composed k k' := by
  rcases threadSetPriority_ok h with ⟨-, rfl⟩ | ⟨-, h⟩
  · exact .refl k'
  · refine (modify_cur_composed hw fun th => { th with priority := p }).trans
      ((composed_callRule.level _ .off).trans ?_)
    rcases h with h | ⟨-, h⟩
    · exact composed_callRule.testMaxPriority h
    · exact composed_callRule.intrSetLevel h

theorem threadSetNice_composed (hw : WellFormed k) (hs : ReadySorted k) {n : Int}
    (h : threadSetNice n k = .ok k') : Composed k k' := by
  let k₂ := calculatePriority k.cur (intrDisable (k.modify k.cur fun th => { th with nice := n }))
  have hthread : ∀ t ≠ k.cur, k₂.thread t = k.thread t := by
    intro t hne
    have hnice : (k.modify k.cur fun th => { th with nice := n }).thread t = k.thread t :=
      Kernel.modify_thread_of_ne hne
    show (calculatePriority k.cur _).thread t = _
    unfold calculatePriority
    split
    · exact hnice
    · exact (Kernel.modify_thread_of_ne hne).trans hnice
  have hready : k₂.readyList = k.readyList := by
    show (calculatePriority k.cur _).readyList = _
    unfold calculatePriority
    split <;> rfl
  have hpriority : ∀ t ∈ k.readyList, (k₂.thread t).priority = (k.thread t).priority :=
    fun t ht => by rw [hthread t fun he => hw.cur_not_mem_ready (he ▸ ht)]
  have hsorted : ReadySorted k₂ := hs.congr hready hpriority
  have hquiet : ReadyKept k (sortReadyList k₂) := by
    refine ⟨(listSort_of_sorted hsorted).trans hready, hpriority, ?_, ?_⟩
    · show (calculatePriority k.cur _).schedulingMode = _
      unfold calculatePriority
      split <;> rfl
    · show (calculatePriority k.cur _).threadPriorAging = _
      unfold calculatePriority
      split <;> rfl
  exact hquiet.composed.trans (composed_callRule.testMaxPriority h)

theorem created_composed (hw : WellFormed k) (p : Int) (stack : List Code) :
    Composed k (k.created p stack) := by
  have hnew : ReadyKept k (k.allocated p stack) := by
    refine ⟨rfl, fun t ht => ?_, rfl, rfl⟩
    have hcreated : t < k.nextThread := by
      refine hw.framesOk.created_of_status ?_
      rw [((hw.placed.mem_ready t).mp ht).1]
      simp
    rw [allocated_of_ne (Nat.ne_of_lt hcreated)]
  exact hnew.composed.trans (composed_callRule.push _ _)

theorem threadCreate_composed (hw : WellFormed k) {page : Bool} {p : Int}
    (h : threadCreate page p k = .ok k') : Composed k k' := by
  rcases threadCreate_ok h with rfl | ⟨-, rfl⟩
  · exact .refl k'
  · exact created_composed hw p _

theorem exec_composed (hw : WellFormed k) (hs : ReadySorted k) {c : Code}
    (h : exec c k = .ok k') : Composed k k' := by
  cases hc : c.rewrites with
  | false => exact composed_callRule.exec hc h
  | true =>
    cases c with
    | threadCreate page p => exact threadCreate_composed hw h
    | threadExit => exact (ReadyCall.exit h).composed
    | threadSleep n => exact threadSleep_composed h
    | threadSetPriority p => exact threadSetPriority_composed hw h
    | threadSetNice n => exact threadSetNice_composed hw hs h
    | startLoadAvg =>
      rw [← Except.ok.inj h]
      exact kept_of_thread rfl rfl rfl rfl
    | _ => cases hc

/-! ### 割り込み -/

theorem awakeLoop_composed {now : Int} :
    ∀ (ts : List ThreadId) {k k' : Kernel}, awakeLoop now ts k = .ok k' → Composed k k'
  | [], k, k', h => by
    rw [awakeLoop] at h
    rw [← Except.ok.inj h]
    exact .refl k
  | t :: ts, k, k', h => by
    rw [awakeLoop] at h
    split at h
    · obtain ⟨k₁, hu, hrest⟩ := bind_eq_ok.mp h
      have hlist : Composed k { k with sleepList := ts } := kept_of_thread rfl rfl rfl rfl
      exact hlist.trans ((ReadyCall.unblock hu).composed.trans (awakeLoop_composed ts hrest))
    · rw [← Except.ok.inj h]
      exact .refl k

theorem intrYieldOnReturn_composed (h : intrYieldOnReturn k = .ok k') : Composed k k' := by
  rw [intrYieldOnReturn_ok h]
  exact kept_of_thread rfl rfl rfl rfl

section

variable (hmode : k.schedulingMode = .priority) (haging : k.threadPriorAging = false)
include hmode haging

theorem threadTick_composed (h : threadTick k = .ok k') : Composed k k' := by
  obtain ⟨k₁, hslice, h⟩ := bind_eq_ok.mp h
  obtain ⟨k₂, hm, h⟩ := bind_eq_ok.mp h
  have hcount : Composed k { k with threadTicks := k.threadTicks + 1 } :=
    kept_of_thread rfl rfl rfl rfl
  have hk₁ : Composed k k₁ ∧ k₁.schedulingMode = .priority ∧ k₁.threadPriorAging = false := by
    unfold timeSliceTick at hslice
    split at hslice
    · refine ⟨hcount.trans (intrYieldOnReturn_composed hslice), ?_⟩
      rw [intrYieldOnReturn_ok hslice]
      exact ⟨hmode, haging⟩
    · rw [← Except.ok.inj hslice]
      exact ⟨hcount, hmode, haging⟩
  obtain ⟨hc, hmode₁, haging₁⟩ := hk₁
  have hk₂ : k₂ = k₁ := by
    unfold modeTick at hm
    rw [hmode₁] at hm
    exact (Except.ok.inj hm).symm
  rw [← Except.ok.inj h, hk₂, agingTick, if_neg (by simp [haging₁])]
  exact hc

theorem Handler.run_composed {hd : Handler} (h : hd.run k = .ok k') : Composed k k' := by
  cases hd with
  | timer =>
    obtain ⟨k₁, ht, ha⟩ := bind_eq_ok.mp h
    have hticks : Composed k { k with ticks := k.ticks + 1 } := kept_of_thread rfl rfl rfl rfl
    have htick : Composed { k with ticks := k.ticks + 1 } k₁ :=
      threadTick_composed (k := { k with ticks := k.ticks + 1 }) hmode haging ht
    exact hticks.trans (htick.trans (awakeLoop_composed _ ha))
  | semaUp s => exact composed_callRule.semaUp h
  | unblock t => exact (ReadyCall.unblock h).composed
  | other =>
    rw [← Except.ok.inj h]
    exact .refl k

theorem intrHandler_composed {hd : Handler} (h : intrHandler hd.run k = .ok k') :
    Composed k k' := by
  obtain ⟨k₁, hrun, hafter⟩ := intrHandler_ok h
  have henter : Composed k k.inHandler := kept_of_thread rfl rfl rfl rfl
  refine henter.trans ((Handler.run_composed (k := k.inHandler) hmode haging hrun).trans ?_)
  rcases hafter with ⟨-, hy⟩ | ⟨-, rfl⟩
  · have hctx : Composed k₁ { k₁ with inExternalIntr := false } := kept_of_thread rfl rfl rfl rfl
    exact hctx.trans ((composed_callRule.push _ _).trans (ReadyCall.yield hy).composed)
  · exact kept_of_thread rfl rfl rfl rfl

end

theorem step_composed (hw : WellFormed k) (hs : ReadySorted k)
    (hmode : k.schedulingMode = .priority) (haging : k.threadPriorAging = false) {e : Event}
    (h : step k e = some k') : Composed k k' := by
  rcases step_cases h with ⟨c, rfl, -, -, hx⟩ | ⟨c, cs, rfl, hst, hx⟩ | ⟨hd, rfl, -, -, hx⟩
  · exact exec_composed hw hs hx
  · exact (composed_callRule.pop k).trans (exec_composed (hw.pop hst) hs.pop hx)
  · exact intrHandler_composed hmode haging hx

/-! ## 実行全体 -/

theorem ReadyCall.config (h : ReadyCall k evs k') :
    k'.schedulingMode = k.schedulingMode ∧ k'.threadPriorAging = k.threadPriorAging := by
  cases h with
  | unblock hu =>
    obtain ⟨-, rfl⟩ := threadUnblock_ok hu
    exact ⟨rfl, rfl⟩
  | yield hy =>
    obtain ⟨next, rest, -, -, rfl⟩ := schedule_ok (threadYield_ok hy).2.2
    exact ⟨rfl, rfl⟩
  | block hb =>
    obtain ⟨next, rest, -, -, rfl⟩ := schedule_ok (threadBlock_ok hb).2
    exact ⟨rfl, rfl⟩
  | exit he =>
    obtain ⟨next, rest, -, -, rfl⟩ := schedule_ok (threadExit_ok he).2
    exact ⟨rfl, rfl⟩
  | quiet hq => exact ⟨hq.mode, hq.aging⟩

theorem Composed.config (h : Composed k k') :
    k'.schedulingMode = k.schedulingMode ∧ k'.threadPriorAging = k.threadPriorAging := by
  obtain ⟨evs, hc⟩ := h
  induction hc with
  | nil => exact ⟨rfl, rfl⟩
  | cons hcall _ ih => exact ⟨ih.1.trans hcall.config.1, ih.2.trans hcall.config.2⟩

theorem exists_readyLog (es : List Event) (hr : Reachable scheduler k)
    (hmode : k.schedulingMode = .priority) (haging : k.threadPriorAging = false)
    (h : runEvents step k es = some k') : ∃ log, ReadyLog k es log k' := by
  induction es generalizing k with
  | nil =>
    rw [← Option.some.inj h]
    exact ⟨[], .nil k⟩
  | cons e es ih =>
    obtain ⟨k₁, hstep, hrest⟩ := Option.bind_eq_some_iff.mp h
    have hc : Composed k k₁ :=
      step_composed (reachable_wellFormed hr) (reachable_readySorted hr) hmode haging hstep
    obtain ⟨evs, hcalls⟩ := hc
    obtain ⟨log, hlog⟩ := ih (hr.next hstep) ((Composed.config ⟨evs, hcalls⟩).1.trans hmode)
      ((Composed.config ⟨evs, hcalls⟩).2.trans haging) hrest
    exact ⟨evs ++ log, .cons hstep hcalls hlog⟩

/--
**aging の無い priority scheduler では、同じ priority の thread は、
`ready_list` に入った順に選ばれる。**

起動からのどの実行も記録を持ち、どの priority `p` でも、`p` で入った thread の列は、
`p` で選ばれた thread の列に、まだ待っている thread を続けたものになる。
ほかの priority の thread が間に何をしても変わらない。
-/
theorem ready_list_fifo (values : Nat → BitVec 32) (es : List Event) {k : Kernel}
    (h : runEvents step (boot .priority false values) es = some k) :
    (∃ log, ReadyLog (boot .priority false values) es log k) ∧
    ∀ log, ReadyLog (boot .priority false values) es log k → ∀ p,
      enteredAt p log = dispatchedAt p log ++ k.waitingAt p := by
  have hboot := reachable_boot .priority false values
  refine ⟨exists_readyLog es hboot rfl rfl h, fun log hlog p => ?_⟩
  exact hlog.waitingAt (reachable_readySorted hboot) p

/-- main と同じ priority の thread を二つ作り、main が譲る。 -/
theorem ready_list_fifo_create :
    ∃ k, runEvents step (boot .priority false fun _ => 0)
        (startEvents ++ createEvents 31 ++ createEvents 31 ++ [.call .threadYield]) = some k ∧
      k.cur = 2 ∧ k.waitingAt 31 = [3, 0] ∧
      (∃ log, ReadyLog (boot .priority false fun _ => 0)
        (startEvents ++ createEvents 31 ++ createEvents 31 ++ [.call .threadYield]) log k) ∧
      ∀ log, ReadyLog (boot .priority false fun _ => 0)
        (startEvents ++ createEvents 31 ++ createEvents 31 ++ [.call .threadYield]) log k →
        ∀ p, enteredAt p log = dispatchedAt p log ++ k.waitingAt p := by
  have hrun : (runEvents step (boot .priority false fun _ => 0)
      (startEvents ++ createEvents 31 ++ createEvents 31 ++ [.call .threadYield])).any
        (fun k => k.cur = 2 && k.waitingAt 31 = [3, 0]) = true := by
    decide +kernel
  obtain ⟨k, hk, hstate⟩ := (Option.any_eq_true _ _).mp hrun
  have hstate : k.cur = 2 ∧ k.waitingAt 31 = [3, 0] := by simpa using hstate
  exact ⟨k, hk, hstate.1, hstate.2, ready_list_fifo _ _ hk⟩

end Pintos
