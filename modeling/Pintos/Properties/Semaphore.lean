import Pintos.Properties.ListDiscipline

/-!
# semaphore の数

実行に沿って集めた出来事の列と semaphore の値を比べる。

`sema_up` は値を上げた後に譲ることがある。
上げた回数は、値を上げた時点で数える。
-/

namespace Pintos

open Infra Function

variable {k k' : Kernel}
  {k₁ : Kernel} {s : SemaId} {t : ThreadId} {tr : List Obs} {e : Event} {c : Code} {cs : List Code}

/-! ## 値と回数 -/

/--
`N` を余りを取る前の値としたとき、出来事 `tr` の後の値が `N + up − down` になること。

下げた回数が足りない、ということは起きない。
-/
def ValueTracks (k : Kernel) (tr : List Obs) (k' : Kernel) : Prop :=
  ∀ s N, (k.sema s).value = N % 2 ^ 32 →
    tr.count (.down s) ≤ N + tr.count (.up s) ∧
      (k'.sema s).value = (N + tr.count (.up s) - tr.count (.down s)) % 2 ^ 32

theorem ValueTracks.of_eq (h : ∀ s, (k'.sema s).value = (k.sema s).value) :
    ValueTracks k [] k' := by
  intro s N hN
  simp [h, hN]

theorem ValueTracks.trans {tr' : List Obs} (h : ValueTracks k tr k₁)
    (h' : ValueTracks k₁ tr' k') : ValueTracks k (tr ++ tr') k' := by
  intro s N hN
  obtain ⟨hle, heq⟩ := h s N hN
  obtain ⟨hle', heq'⟩ := h' s _ heq
  rw [List.count_append, List.count_append]
  refine ⟨by omega, ?_⟩
  rw [heq']
  congr 1
  omega

theorem setSema_apply (k : Kernel) (s s' : SemaId) (v : Semaphore) :
    (k.setSema s v).sema s' = if s' = s then v else k.sema s' := update_apply ..

theorem setSema_value (k : Kernel) (s s' : SemaId) (ts : List ThreadId) :
    ((k.setSema s { k.sema s with waiters := ts }).sema s').value = (k.sema s').value := by
  rw [setSema_apply]
  split
  · next he => rw [he]
  · rfl

theorem semaWake_value (h : semaWake s k = .ok k') (s' : SemaId) :
    (k'.sema s').value = (k.sema s').value := by
  rcases semaWake_ok h with ⟨-, rfl⟩ | ⟨t, ts, -, -, rfl⟩
  · rfl
  · exact setSema_value k s s' ts

theorem valueTracks_up (hw : semaWake s k = .ok k₁) : ValueTracks k [.up s] (semaIncrement s k₁) := by
  intro s' N hN
  have hv := semaWake_value hw
  show _ ∧ (update k₁.sema s _ s').value = _
  by_cases hs : s' = s
  · subst hs
    rw [update_self, hv, hN]
    simp
  · rw [update_of_ne hs, hv, hN]
    simp [Ne.symm hs]

theorem valueTracks_down (hval : (k.sema s).value ≠ 0) : ValueTracks k [.down s]
      ((k.setSema s { k.sema s with value := (k.sema s).value - 1 }).push (afterDown s)) := by
  intro s' N hN
  show _ ∧ (update k.sema s _ s').value = _
  by_cases hs : s' = s
  · subst hs
    rw [update_self]
    simp only [List.count_singleton, beq_iff_eq, reduceCtorEq, if_true, if_false,
      hN] at hval ⊢
    omega
  · rw [update_of_ne hs, hN]
    simp [Ne.symm hs]

theorem Recalculated.sema (hr : Recalculated k k') : k'.sema = k.sema := by rw [hr.eq]

theorem Action.valueTracks (ha : Action k tr k') : ValueTracks k tr k' := by
  cases ha with
  | up s k₁ hw => exact valueTracks_up hw
  | down s hval _ => exact valueTracks_down hval
  | aging => exact .of_eq fun s => by rw [(threadAging_recalculated k).sema]
  | acquired l =>
    intro s N hN
    have hv : ((lockSetHolder l k).sema s).value = N % 2 ^ 32 := hN
    simpa using hv
  | released l _ _ =>
    intro s N hN
    simpa using hN
  | _ => exact .of_eq fun _ => rfl

theorem Actions.valueTracks (ha : Actions k tr k') : ValueTracks k tr k' := by
  induction ha with
  | nil => exact .of_eq fun _ => rfl
  | cons ha _ ih => exact ha.valueTracks.trans ih

theorem waiting_value (k : Kernel) (c : Code) (s : SemaId) :
    ((k.waiting c).sema s).value = (k.sema s).value := by
  unfold Kernel.waiting
  cases c.queue? with
  | none => rfl
  | some q =>
    cases q with
    | sleep => rfl
    | sema s' => exact setSema_value k s' s _

theorem Switch.value (hs : Switch k k') (s : SemaId) : (k'.sema s).value = (k.sema s).value := by
  cases hs with
  | yield _ _ => rfl
  | block _ _ _ _ _ _ => exact waiting_value k _ s
  | exit _ _ => rfl

theorem Atomic.valueTracks (ha : Atomic k tr k') : ValueTracks k tr k' := by
  obtain ⟨k₁, hacts, rfl | hs⟩ := ha
  · exact hacts.valueTracks
  · have h := hacts.valueTracks.trans (.of_eq hs.value)
    rwa [List.append_nil] at h

theorem Kernel.obs_resume (hst : k.curThread.stack = c :: cs) : k.obs .resume = c.emits k.pop := by
  simp only [Kernel.obs, hst]

theorem step_value (h : WellFormed k) (hs : step k e = some k') : ValueTracks k (k.obs e) k' := by
  rcases step_atomic h hs with ⟨ha, -⟩ | ⟨c, cs, rfl, hst, ha⟩
  · exact ha.valueTracks
  · rw [Kernel.obs_resume hst]
    exact ha.valueTracks

/-! ## while の先頭の frame

`sema_down` の while に戻る frame は `stack` の先頭にしか現れない。
それを先頭に持つ thread が動いている間、割り込みは禁じられている。
-/

/-- `sema_down` の while の先頭に戻る frame。 -/
def Code.isRetest : Code → Bool
  | .semaDownLoop _ _ => true
  | _ => false

/-- 止まっている thread も含めて、先頭より下に while の frame は無い。 -/
def TailClear (k : Kernel) : Prop :=
  ∀ t, ∀ c ∈ (k.thread t).stack.tail, c.isRetest = false

/-- 実行中の thread の `stack` に while の frame が無い。 -/
def CurClear (k : Kernel) : Prop := ∀ c ∈ k.curThread.stack, c.isRetest = false

theorem Code.isRetest_of_isIdleFrame (h : c.isIdleFrame = true) : c.isRetest = false := by
  cases c <;> first | rfl | cases h

theorem afterDown_clear (s : SemaId) : ∀ c ∈ afterDown s, c.isRetest = false := by
  cases s <;> simp [afterDown, Code.isRetest]

structure RetestOk (k : Kernel) : Prop where
  tail : TailClear k
  cur : k.intrLevel = .on → CurClear k

/-- 基本操作の間の状態。while の frame は実行中の thread のどこにも無い。 -/
structure Clear (k : Kernel) : Prop where
  tail : TailClear k
  cur : CurClear k

section Retest

theorem TailClear.congr (h : TailClear k)
    (hstack : ∀ t, (k'.thread t).stack = (k.thread t).stack) : TailClear k' := by
  intro t
  rw [hstack]
  exact h t

theorem Clear.congr (h : Clear k) (hcur : k'.cur = k.cur)
    (hstack : ∀ t, (k'.thread t).stack = (k.thread t).stack) : Clear k' := by
  refine ⟨h.tail.congr hstack, ?_⟩
  unfold CurClear Kernel.curThread
  rw [hcur, hstack]
  exact h.cur

theorem Clear.push (h : Clear k) (hcs : ∀ c ∈ cs, c.isRetest = false) : Clear (k.push cs) := by
  have hcur : ∀ c ∈ cs ++ (k.thread k.cur).stack, c.isRetest = false := by
    intro c hm
    rcases List.mem_append.mp hm with hm | hm
    · exact hcs c hm
    · exact h.cur c hm
  constructor
  · intro t c hm
    rw [Kernel.push_stack] at hm
    split at hm
    · next he =>
      subst he
      exact hcur c (List.mem_of_mem_tail hm)
    · exact h.tail t c hm
  · intro c hm
    rw [Kernel.push_curStack] at hm
    exact hcur c hm

theorem allocated_stack (k : Kernel) (p : Int) (stack : List Code) (t : ThreadId) :
    ((k.allocated p stack).thread t).stack =
      if t = k.nextThread then stack else (k.thread t).stack := by
  split
  · next he => subst he; rw [allocated_self, initThread_stack]
  · next hne => rw [allocated_of_ne hne]

theorem Clear.allocated (hc : Clear k) (h : WellFormed k) (p : Int) :
    Clear (k.allocated p [.kernelThread]) := by
  constructor
  · intro t
    rw [allocated_stack]
    split
    · simp
    · exact hc.tail t
  · unfold CurClear Kernel.curThread
    rw [show (k.allocated p [.kernelThread]).cur = k.cur from rfl,
      allocated_of_ne (Nat.ne_of_lt h.cur_created)]
    exact hc.cur

theorem Action.clear (ha : Action k tr k') (h : WellFormed k) (hc : Clear k) : Clear k' := by
  cases ha with
  | flags | counters | startIdle | acquired => exact hc.congr rfl fun _ => rfl
  | records th _ hstack _ | resort th _ hstack => exact hc.congr rfl hstack
  | setPriority p => exact hc.congr rfl fun _ => Kernel.modify_field Thread.stack fun _ => rfl
  | aging =>
    exact hc.congr (threadAging_recalculated k).cur (threadAging_recalculated k).stack
  | push cs hcs =>
    exact hc.push fun c hm =>
      Code.isRetest_of_isIdleFrame (Code.isIdleFrame_of_isControl (hcs c hm))
  | unblock t _ _ => exact hc.congr rfl fun u => k.readied_stack u t
  | awake t ts _ _ =>
    exact hc.congr rfl fun u => Kernel.readied_stack { k with sleepList := ts } u t
  | up s k₁ hw =>
    rcases semaWake_ok hw with ⟨-, rfl⟩ | ⟨t, ts, -, -, rfl⟩
    · exact hc.congr rfl fun _ => rfl
    · exact hc.congr rfl fun u => Kernel.readied_stack (k.setSema s _) u t
  | down s _ _ =>
    exact Clear.push (k := k.setSema s _) (hc.congr rfl fun _ => rfl) (afterDown_clear s)
  | create p _ => exact (hc.allocated h p).push (by simp [Code.isRetest])
  | released l _ _ =>
    exact Clear.push (k := { k with holder := update k.holder l none })
      (hc.congr rfl fun _ => rfl) (by simp [Code.isRetest])

theorem Actions.clear (ha : Actions k tr k') (h : WellFormed k) (hc : Clear k) : Clear k' := by
  induction ha with
  | nil => exact hc
  | cons ha _ ih => exact ih (ha.wellFormed h) (ha.clear h hc)

theorem Switch.retestOk (hs : Switch k k') (hc : Clear k) : RetestOk k' := by
  have hcur : ∀ c ∈ (k.thread k.cur).stack, c.isRetest = false := hc.cur
  -- 離れる thread には高々一つの frame を積む
  have htail : ∀ {k₀ : Kernel} (fs : List Code), fs.length ≤ 1 →
      (∀ u, (k₀.thread u).stack =
        if u = k.cur then fs ++ (k.thread u).stack else (k.thread u).stack) → TailClear k₀ := by
    intro k₀ fs hlen hall t c hm
    rw [hall] at hm
    split at hm
    · next he =>
      subst he
      match fs, hlen with
      | [], _ => exact hcur c (List.mem_of_mem_tail hm)
      | [f], _ => exact hcur c hm
    · exact hc.tail t c hm
  have hoff : ∀ {k₀ : Kernel} {next : ThreadId} {rest : List ThreadId}, TailClear k₀ →
      k₀.intrLevel = .off → RetestOk (k₀.switchTo next rest) := by
    intro k₀ next rest ht₀ hlevel
    refine ⟨ht₀.congr fun u => k₀.switchTo_stack u next rest, fun hon => ?_⟩
    rw [show (k₀.switchTo next rest).intrLevel = k₀.intrLevel from rfl, hlevel] at hon
    cases hon
  cases hs with
  | yield _ _ => exact hoff (htail [.intrSetLevel k.intrLevel] (by simp) k.yielded_stack) rfl
  | @block c _ _ _ _ _ _ hlevel _ =>
    refine hoff (htail [c] (by simp) fun u => k.waiting_stack u c) ?_
    rw [Kernel.waiting_intrLevel, hlevel]
  | exit _ _ => exact hoff (htail [] (by simp) fun u => by simp) rfl

theorem Atomic.retestOk (ha : Atomic k tr k') (h : WellFormed k) (hc : Clear k) : RetestOk k' := by
  obtain ⟨k₁, hacts, hlast⟩ := ha
  have hc₁ := hacts.clear h hc
  rcases hlast with rfl | hs
  · exact ⟨hc₁.tail, fun _ => hc₁.cur⟩
  · exact hs.retestOk hc₁

theorem clear_pop (ht : TailClear k) : Clear k.pop := by
  constructor
  · intro t c hm
    rw [Kernel.pop_stack] at hm
    split at hm
    · exact ht t c (List.mem_of_mem_tail hm)
    · exact ht t c hm
  · intro c hm
    rw [Kernel.pop_curStack] at hm
    exact ht k.cur c hm

theorem clear_of_step (hr : RetestOk k) (hs : step k e = some k') (he : e ≠ .resume) :
    Clear k := by
  refine ⟨hr.tail, ?_⟩
  rcases step_cases hs with ⟨c, rfl, hst, -, -⟩ | ⟨c, cs, rfl, -, -⟩ | ⟨hd, rfl, hon, -, -⟩
  · unfold CurClear
    rw [hst]
    simp
  · exact absurd rfl he
  · exact hr.cur hon

theorem step_retestOk (h : WellFormed k) (hr : RetestOk k) (hs : step k e = some k') :
    RetestOk k' := by
  rcases step_atomic h hs with ⟨ha, he⟩ | ⟨c, cs, rfl, hst, ha⟩
  · exact ha.retestOk h (clear_of_step hr hs he)
  · exact ha.retestOk (h.pop hst) (clear_pop hr.tail)

end Retest

/-! ## 起こされて、まだ値を見直していない thread -/

/-- semaphore `s` の while の先頭に戻る frame。 -/
def Code.retests (s : SemaId) : Code → Bool
  | .semaDownLoop s' _ => s' = s
  | _ => false

namespace Kernel

/-- `s` から起こされて、まだ値を見直していない。 -/
def retesting (k : Kernel) (s : SemaId) (t : ThreadId) : Bool :=
  (k.thread t).status ≠ .blocked ∧ (k.thread t).stack.head?.any (Code.retests s) = true

/-- `s` から起こされて、まだ値を見直していない thread の数。 -/
def woken (k : Kernel) (s : SemaId) : Nat :=
  ∑ t ∈ Finset.range k.nextThread, if k.retesting s t then 1 else 0

end Kernel

/-- 待つ thread があれば、値は `woken` を `d` より多くは超えない。 -/
def NoLostWakeup (d : SemaId → Nat) (k : Kernel) : Prop :=
  ∀ s, (k.sema s).waiters ≠ [] → (k.sema s).value ≤ k.woken s + d s

section Woken

variable {d : SemaId → Nat}

theorem Code.isRetest_of_retests (h : c.retests s = true) : c.isRetest = true := by
  cases c <;> first | rfl | cases h

theorem retesting_congr (hstatus : (k'.thread t).status = .blocked ↔ (k.thread t).status = .blocked)
    (hstack : (k'.thread t).stack = (k.thread t).stack) :
    k'.retesting s t = k.retesting s t := by
  unfold Kernel.retesting
  rw [hstack]
  simp only [ne_eq, hstatus]

theorem not_retesting_of_blocked (hb : (k.thread t).status = .blocked) : k.retesting s t = false := by
  simp [Kernel.retesting, hb]

theorem not_retesting_of_clear
    (h : ∀ c ∈ (k.thread t).stack, c.isRetest = false) : k.retesting s t = false := by
  unfold Kernel.retesting
  cases hst : (k.thread t).stack with
  | nil => simp
  | cons c cs =>
    have hc := h c (by rw [hst]; simp)
    have hno : c.retests s = false := by
      by_contra hyes
      rw [Code.isRetest_of_retests (by simpa using hyes)] at hc
      cases hc
    simp [hno]

theorem woken_congr (hn : k'.nextThread = k.nextThread)
    (h : ∀ t, k'.retesting s t = k.retesting s t) : k'.woken s = k.woken s := by
  unfold Kernel.woken
  rw [hn]
  exact Finset.sum_congr rfl fun t _ => by rw [h t]

theorem NoLostWakeup.congr (h : NoLostWakeup d k) (hsema : ∀ s, k'.sema s = k.sema s)
    (hwoken : ∀ s, k'.woken s = k.woken s) : NoLostWakeup d k' := by
  intro s hne
  rw [hsema] at hne ⊢
  rw [hwoken]
  exact h s hne

theorem woken_push (hc : Clear k) (hc' : Clear (k.push cs)) (s : SemaId) :
    (k.push cs).woken s = k.woken s := by
  refine woken_congr (Kernel.push_nextThread k cs) fun t => ?_
  by_cases ht : t = k.cur
  · subst ht
    exact (not_retesting_of_clear (k := k.push cs) (t := k.cur) hc'.cur).trans
      (not_retesting_of_clear hc.cur).symm
  · exact retesting_congr (by simp) (by simp [ht])

theorem woken_readied (h : WellFormed k) (k₀ : Kernel)
    (hthread : k₀.thread = k.thread) (hn : k₀.nextThread = k.nextThread)
    (hb : (k.thread t).status = .blocked) (s : SemaId) :
    (k₀.readied t).woken s =
      k.woken s + if (k.thread t).stack.head?.any (Code.retests s) then 1 else 0 := by
  have hcreated : t < k.nextThread := h.framesOk.created_of_status (by rw [hb]; simp)
  unfold Kernel.woken
  rw [show (k₀.readied t).nextThread = k.nextThread from hn]
  have hsum := sum_range_eq_of_ne hcreated
    (f := fun u => if (k₀.readied t).retesting s u then 1 else 0)
    (g := fun u => if k.retesting s u then 1 else 0) (fun u hu => by
      have hr : (k₀.readied t).retesting s u = k.retesting s u :=
        retesting_congr (by rw [Kernel.readied_status, if_neg hu, hthread])
          (by rw [Kernel.readied_stack, hthread])
      simp only [hr])
  have hself : (k₀.readied t).retesting s t =
      (k.thread t).stack.head?.any (Code.retests s) := by
    unfold Kernel.retesting
    rw [Kernel.readied_status, if_pos rfl, Kernel.readied_stack, hthread]
    simp
  have hold : k.retesting s t = false := not_retesting_of_blocked hb
  simp only [hself, hold] at hsum
  simpa using hsum

theorem NoLostWakeup.mono {d' : SemaId → Nat} (h : NoLostWakeup d k) (hd : ∀ s, d s ≤ d' s) :
    NoLostWakeup d' k :=
  fun s hne => Nat.le_trans (h s hne) (Nat.add_le_add_left (hd s) _)

theorem noLostWakeup_down (h : NoLostWakeup d k) (hc : Clear k) :
    NoLostWakeup (fun s' => if s' = s then d s' - 1 else d s')
      ((k.setSema s { k.sema s with value := (k.sema s).value - 1 }).push (afterDown s)) := by
  have hc₀ : Clear (k.setSema s { k.sema s with value := (k.sema s).value - 1 }) :=
    hc.congr rfl fun _ => rfl
  intro s' hne
  rw [(woken_push hc₀ (hc₀.push (afterDown_clear s)) s').trans (woken_congr rfl fun _ => rfl)]
  rw [Kernel.push_sema, setSema_apply] at hne ⊢
  split
  · next he =>
    subst he
    rw [if_pos rfl] at hne
    have hle := h s' hne
    show (k.sema s').value - 1 ≤ k.woken s' + if s' = s' then d s' - 1 else d s'
    rw [if_pos rfl]
    omega
  · next hs =>
    rw [if_neg hs] at hne
    show (k.sema s').value ≤ k.woken s' + if s' = s then d s' - 1 else d s'
    rw [if_neg hs]
    exact h s' hne

theorem noLostWakeup_up (h : WellFormed k) (hw : semaWake s k = .ok k₁) (hl : NoLostWakeup d k) :
    NoLostWakeup d (semaIncrement s k₁) := by
  intro s' hne
  have hwoken : (semaIncrement s k₁).woken s' = k₁.woken s' := woken_congr rfl fun _ => rfl
  rw [hwoken]
  rw [semaIncrement, setSema_apply] at hne ⊢
  rcases semaWake_ok hw with ⟨hnil, rfl⟩ | ⟨t, ts, hq, hb, rfl⟩
  · split
    · next he =>
      rw [if_pos he] at hne
      exact absurd hnil hne
    · next hs =>
      rw [if_neg hs] at hne
      exact hl s' hne
  · obtain ⟨-, c, hc, hcq⟩ := h.placed.waitsIn_head (q := .sema s) hq
    have hcount := woken_readied h (k.setSema s { k.sema s with waiters := ts })
      (t := t) rfl rfl hb s'
    rw [hcount, hc]
    split
    · next he =>
      subst he
      have hret : c.retests s' = true := by
        obtain ⟨old, rfl⟩ := Code.eq_of_queue_sema hcq
        simp [Code.retests]
      have hle := hl s' (by rw [hq]; simp)
      have hv : (((k.setSema s' { k.sema s' with waiters := ts }).readied t).sema s').value =
          (k.sema s').value := setSema_value k s' s' ts
      simp only [Option.any_some, hret, if_true, hv]
      omega
    · next hs =>
      rw [if_neg hs] at hne
      have hv : ((k.setSema s { k.sema s with waiters := ts }).readied t).sema s' = k.sema s' :=
        update_of_ne hs _ k.sema
      rw [hv] at hne ⊢
      have hle := hl s' hne
      omega

theorem woken_allocated (k : Kernel) (p : Int) (s : SemaId) :
    (k.allocated p [.kernelThread]).woken s = k.woken s := by
  show ∑ t ∈ Finset.range (k.nextThread + 1), _ = _
  have hnew : (k.allocated p [.kernelThread]).retesting s k.nextThread = false :=
    not_retesting_of_blocked (by rw [allocated_self, initThread_status])
  rw [Finset.sum_range_succ, hnew, if_neg (by simp), Nat.add_zero]
  refine Finset.sum_congr rfl fun t ht => ?_
  have hr : (k.allocated p [.kernelThread]).retesting s t = k.retesting s t := by
    have hne := Nat.ne_of_lt (Finset.mem_range.mp ht)
    exact retesting_congr (by rw [allocated_of_ne hne]) (by rw [allocated_of_ne hne])
  rw [hr]

theorem Recalculated.woken (hr : Recalculated k k') (s : SemaId) : k'.woken s = k.woken s :=
  woken_congr (by rw [hr.eq]) fun t => retesting_congr (by rw [hr.status]) (hr.stack t)

theorem Action.noLostWakeup (ha : Action k tr k') (h : WellFormed k) (hc : Clear k)
    (hl : NoLostWakeup d k) : NoLostWakeup d k' := by
  have hclear := ha.clear h hc
  have hsame : k'.nextThread = k.nextThread → (∀ s, k'.sema s = k.sema s) →
      (∀ t, (k'.thread t).status = (k.thread t).status) →
      (∀ t, (k'.thread t).stack = (k.thread t).stack) → NoLostWakeup d k' :=
    fun hn hsema hstatus hstack => hl.congr hsema fun s =>
      woken_congr hn fun t => retesting_congr (by rw [hstatus]) (hstack t)
  -- 列にいない thread、または `sleep_list` の thread を起こす
  have hready : ∀ (k₀ : Kernel) {t : ThreadId}, k₀.thread = k.thread →
      k₀.nextThread = k.nextThread → k₀.sema = k.sema → (k.thread t).status = .blocked →
      (∀ s, (k.thread t).stack.head?.any (Code.retests s) = false) →
      NoLostWakeup d (k₀.readied t) := by
    intro k₀ t hthread hn hsema hb hno
    refine hl.congr (fun s => by rw [← hsema]; rfl) fun s => ?_
    rw [woken_readied h k₀ hthread hn hb, hno s]
    simp
  cases ha with
  | flags | counters | startIdle | acquired =>
    exact hsame rfl (fun _ => rfl) (fun _ => rfl) fun _ => rfl
  | records th hstatus hstack _ | resort th hstatus hstack =>
    exact hsame rfl (fun _ => rfl) hstatus hstack
  | setPriority p =>
    exact hsame rfl (fun _ => rfl) (fun _ => Kernel.modify_field Thread.status fun _ => rfl)
      fun _ => Kernel.modify_field Thread.stack fun _ => rfl
  | aging =>
    have hr := threadAging_recalculated k
    exact hl.congr (fun s => by rw [hr.sema]) hr.woken
  | push cs _ => exact hl.congr (fun _ => rfl) (woken_push hc hclear)
  | unblock t hb hloose =>
    refine hready k rfl rfl rfl hb fun s => ?_
    rcases hloose.1 with hh | hh <;> rw [hh] <;> rfl
  | awake t ts hq hb =>
    obtain ⟨-, c, hhead, hcq⟩ := h.placed.waitsIn_head (q := .sleep) hq
    refine hready { k with sleepList := ts } rfl rfl rfl hb fun s => ?_
    obtain ⟨old, rfl⟩ := Code.eq_of_queue_sleep hcq
    rw [hhead]
    rfl
  | up s k₁ hw => exact noLostWakeup_up h hw hl
  | down s _ _ =>
    refine (noLostWakeup_down hl hc).mono fun s' => ?_
    split
    · exact Nat.sub_le ..
    · exact Nat.le_refl _
  | create p _ =>
    exact hl.congr (fun _ => rfl) fun s =>
      (woken_push (hc.allocated h p) hclear s).trans (woken_allocated k p s)
  | released l _ _ =>
    refine hl.congr (fun _ => rfl) fun s => ?_
    exact (woken_push (k := { k with holder := update k.holder l none })
      (hc.congr rfl fun _ => rfl) hclear s).trans (woken_congr rfl fun _ => rfl)

theorem Actions.noLostWakeup (ha : Actions k tr k') (h : WellFormed k) (hc : Clear k)
    (hl : NoLostWakeup d k) : NoLostWakeup d k' := by
  induction ha with
  | nil => exact hl
  | cons ha _ ih => exact ih (ha.wellFormed h) (ha.clear h hc) (ha.noLostWakeup h hc hl)

theorem retesting_switchTo {k₀ : Kernel} (hp : Placed k₀) (hf : FramesOk k₀) {next : ThreadId}
    {rest : List ThreadId} (hn : k₀.NextIs next rest) (s : SemaId) (t : ThreadId) :
    (k₀.switchTo next rest).retesting s t = k₀.retesting s t := by
  by_cases ht : t = next
  · subst ht
    rcases hn with hr | ⟨-, -, hi⟩
    · have hready : (k₀.thread t).status = .ready :=
        ((hp.mem_ready t).mp (by rw [hr]; simp)).1
      exact retesting_congr (by simp [hready]) (k₀.switchTo_stack t t rest)
    · have hclear : ∀ c ∈ (k₀.thread t).stack, c.isRetest = false := by
        intro c hc
        exact Code.isRetest_of_isIdleFrame (hf.idle_frames t (.inl hi) c hc)
      rw [not_retesting_of_clear hclear]
      exact not_retesting_of_clear (k := k₀.switchTo t rest) (by
        rw [Kernel.switchTo_stack]
        exact hclear)
  · exact retesting_congr (by simp [ht]) (k₀.switchTo_stack t next rest)

theorem Switch.noLostWakeup (hs : Switch k k') (h : WellFormed k) (hc : Clear k)
    (hl : NoLostWakeup d k) : NoLostWakeup d k' := by
  have hcur : ∀ s, k.retesting s k.cur = false := fun s => not_retesting_of_clear hc.cur
  -- 離れた thread も、ほかの thread も、見直しの有無は変わらない
  have hleft : ∀ {k₀ : Kernel} {next : ThreadId} {rest : List ThreadId},
      k₀.nextThread = k.nextThread → Placed k₀ → FramesOk k₀ → k₀.NextIs next rest →
      (∀ s, k₀.retesting s k.cur = false) →
      (∀ t, t ≠ k.cur → (k₀.thread t).status = (k.thread t).status ∧
        (k₀.thread t).stack = (k.thread t).stack) →
      ∀ s, (k₀.switchTo next rest).woken s = k.woken s := by
    intro k₀ next rest hnt hp hf hn hcur₀ hother s
    have hn' : (k₀.switchTo next rest).nextThread = k.nextThread := hnt
    refine woken_congr hn' fun t => ?_
    rw [retesting_switchTo hp hf hn]
    by_cases ht : t = k.cur
    · subst ht
      rw [hcur₀, hcur]
    · exact retesting_congr (by rw [(hother t ht).1]) (hother t ht).2
  cases hs with
  | yield hrun hn =>
    refine hl.congr (fun _ => rfl) (hleft rfl (h.placed.yielded hrun) (FramesOk.yielded h) hn ?_ ?_)
    · intro s
      simp [Kernel.retesting, Code.retests]
    · intro t ht
      simp [ht]
  | @block c next rest hrun hw hidle hval _ hn =>
    have hwoken := hleft (k.waiting_nextThread c) (h.placed.waiting hrun hidle)
      (FramesOk.waiting h hw hidle) hn (fun s => not_retesting_of_blocked (by simp))
      (fun t ht => by simp [ht])
    intro s hne
    rw [hwoken]
    have hv : (((k.waiting c).switchTo next rest).sema s).value = (k.sema s).value :=
      waiting_value k c s
    rw [hv]
    by_cases hq : c.queue? = some (.sema s)
    · obtain ⟨old, rfl⟩ := Code.eq_of_queue_sema hq
      rw [hval s old rfl]
      exact Nat.zero_le _
    · have hwaiters : (((k.waiting c).switchTo next rest).sema s).waiters =
          (k.sema s).waiters := (k.waiting_queue c (.sema s)).1 hq
      rw [hwaiters] at hne
      exact hl s hne
  | exit hrun hn =>
    refine hl.congr (fun _ => rfl) (hleft rfl (h.placed.exited hrun) (FramesOk.exited h) hn ?_ ?_)
    · intro s
      refine not_retesting_of_clear ?_
      rw [Kernel.exited_stack]
      exact hc.cur
    · intro t ht
      simp [ht]

theorem Atomic.noLostWakeup (ha : Atomic k tr k') (h : WellFormed k) (hc : Clear k)
    (hl : NoLostWakeup d k) : NoLostWakeup d k' := by
  obtain ⟨k₁, hacts, rfl | hs⟩ := ha
  · exact hacts.noLostWakeup h hc hl
  · exact hs.noLostWakeup (hacts.wellFormed h) (hacts.clear h hc) (hacts.noLostWakeup h hc hl)

/-- while の frame を取り出すと、その thread の分だけ余裕ができる。 -/
theorem noLostWakeup_pop (h : WellFormed k) (ht : TailClear k)
    (hst : k.curThread.stack = c :: cs) (hl : NoLostWakeup (fun _ => 0) k) :
    NoLostWakeup (fun s => if c.retests s then 1 else 0) k.pop := by
  intro s hne
  have hle := hl s hne
  have hsum := sum_range_eq_of_ne h.cur_created
    (f := fun t => if k.pop.retesting s t then 1 else 0)
    (g := fun t => if k.retesting s t then 1 else 0) (fun t hne => by
      have hr : k.pop.retesting s t = k.retesting s t :=
        retesting_congr (by simp) (by simp [hne])
      simp only [hr])
  have hafter : k.pop.retesting s k.cur = false :=
    not_retesting_of_clear (k := k.pop) (clear_pop ht).cur
  have hbefore : k.retesting s k.cur = c.retests s := by
    unfold Kernel.retesting
    rw [show (k.thread k.cur).stack = c :: cs from hst,
      show (k.thread k.cur).status = .running from h.cur_running]
    simp
  simp only [hafter, hbefore] at hsum
  show (k.sema s).value ≤ (∑ t ∈ Finset.range k.nextThread, if k.pop.retesting s t then 1 else 0) +
    if c.retests s then 1 else 0
  have hw : k.woken s = ∑ t ∈ Finset.range k.nextThread, if k.retesting s t then 1 else 0 := rfl
  rw [hw] at hle
  simp only [Bool.false_eq_true, if_false, Nat.add_zero] at hsum hle
  rw [hsum]
  exact hle

theorem semaDownLoop_noLostWakeup {old : IntrLevel} (h : WellFormed k)
    (hidle : ¬ k.IdleLike k.cur) (hc : Clear k)
    (hl : NoLostWakeup (fun s' => if (Code.semaDownLoop s old).retests s' then 1 else 0) k)
    (hx : semaDownLoop s old k = .ok k') : NoLostWakeup (fun _ => 0) k' := by
  have hd : ∀ s', (Code.semaDownLoop s old).retests s' = true ↔ s' = s := by
    intro s'
    simp [Code.retests, eq_comm]
  by_cases hz : (k.sema s).value = 0
  · have ha := semaDownLoop_atomic hidle hx
    rw [if_pos hz] at ha
    intro s' hne
    have hle := ha.noLostWakeup h hc hl s' hne
    by_cases hs : s' = s
    · subst hs
      obtain ⟨-, hv⟩ := ha.valueTracks s' 0 (by rw [hz, Nat.zero_mod])
      simp only [List.count_nil] at hv
      omega
    · simpa [hd, hs] using hle
  · have hdown := noLostWakeup_down (s := s) hl hc
    unfold semaDownLoop at hx
    rw [if_neg hz] at hx
    rw [intrSetLevel_ok hx]
    refine (hdown.congr (fun _ => rfl) fun _ => woken_congr rfl fun _ => rfl).mono fun s' => ?_
    by_cases hs : s' = s
    · simp [hs, hd]
    · simp [hs, hd]

theorem step_noLostWakeup (h : WellFormed k) (hr : RetestOk k)
    (hs : step k e = some k') (hl : NoLostWakeup (fun _ => 0) k) :
    NoLostWakeup (fun _ => 0) k' := by
  rcases step_atomic h hs with ⟨ha, he⟩ | ⟨c, cs, rfl, hst, ha⟩
  · exact ha.noLostWakeup h (clear_of_step hr hs he) hl
  · have hc := clear_pop hr.tail
    have hpop := noLostWakeup_pop h hr.tail hst hl
    by_cases hret : c.isRetest = true
    · cases c with
      | semaDownLoop s old =>
        have hidle : ¬ k.pop.IdleLike k.pop.cur := by
          intro hi
          rcases (inHand_resume h hst).idle hi with hf | hf <;> cases hf
        rcases step_cases hs with ⟨_, he, _⟩ | ⟨c', cs', -, hst', hx⟩ | ⟨_, he, _⟩
        · cases he
        · rw [hst] at hst'
          cases hst'
          exact semaDownLoop_noLostWakeup (h.pop hst) hidle hc hpop hx
        · cases he
      | _ => cases hret
    · refine (ha.noLostWakeup (h.pop hst) hc hpop).mono fun s => ?_
      rw [if_neg fun hs => hret (Code.isRetest_of_retests hs)]

end Woken

/-! ## 到達可能な状態 -/

theorem boot_retestOk (mode : SchedulingMode) (aging : Bool) (values : Nat → BitVec 32) :
    RetestOk (boot mode aging values) := by
  refine ⟨fun t c hc => ?_, fun hon => nomatch hon⟩
  rw [boot_stack] at hc
  split at hc
  · revert c; decide
  · split at hc
    · revert c; decide
    · cases hc

theorem reachable_retestOk (h : Reachable scheduler k) : RetestOk k :=
  reachable_of_boot (fun _ => reachable_wellFormed) boot_retestOk
    (fun _ _ _ hw hr _ hs => step_retestOk hw hr hs) h

theorem reachable_noLostWakeup (h : Reachable scheduler k) : NoLostWakeup (fun _ => 0) k := by
  refine reachable_of_boot (J := fun k => WellFormed k ∧ RetestOk k)
    (fun _ hr => ⟨reachable_wellFormed hr, reachable_retestOk hr⟩)
    (fun mode aging values s hne => ?_)
    (fun _ _ _ hj hl _ hs => step_noLostWakeup hj.1 hj.2 hs hl) h
  have hnil := boot_queue mode aging values (.sema s)
  exact absurd hnil hne

end Pintos
