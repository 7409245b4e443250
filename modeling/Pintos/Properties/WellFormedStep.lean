import Pintos.Properties.WellFormed

/-!
# 一歩は整形式を保つ

基本操作 `Action` と切り替え `Switch` が `WellFormed` を保つことを示し、
一歩（`step_atomic`）と到達可能な状態（`reachable_wellFormed`）に広げる。
-/

namespace Pintos

open Infra Function

variable {k k' : Kernel}

/-! ## thread を作る -/

/-- `thread_create` が page を用意したところ。 -/
def Kernel.allocated (k : Kernel) (priority : Int) (stack : List Code) : Kernel :=
  { k with
    thread := update k.thread k.nextThread (initThread k priority stack)
    nextThread := k.nextThread + 1
    allList := k.allList ++ [k.nextThread] }

theorem initThread_status (k : Kernel) (p : Int) (stack : List Code) :
    (initThread k p stack).status = .blocked := by
  unfold initThread
  split <;> rfl

theorem initThread_stack (k : Kernel) (p : Int) (stack : List Code) :
    (initThread k p stack).stack = stack := by
  unfold initThread
  split <;> rfl

theorem allocated_self (k : Kernel) (p : Int) (stack : List Code) :
    (k.allocated p stack).thread k.nextThread = initThread k p stack :=
  update_self ..

theorem allocated_of_ne {p : Int} {stack : List Code} {t : ThreadId} (h : t ≠ k.nextThread) :
    (k.allocated p stack).thread t = k.thread t :=
  update_of_ne h ..

theorem frames_allocated (k : Kernel) (p : Int) (stack : List Code) (c : Code) :
    (k.allocated p stack).frames c = k.frames c + stack.count c := by
  show ∑ u ∈ Finset.range (k.nextThread + 1), ((k.allocated p stack).thread u).stack.count c = _
  rw [Finset.sum_range_succ, allocated_self, initThread_stack]
  congr 1
  refine Finset.sum_congr rfl fun u hu => ?_
  rw [allocated_of_ne (Nat.ne_of_lt (Finset.mem_range.mp hu))]

theorem WellFormed.uncreated_status (h : WellFormed k) :
    (k.thread k.nextThread).status = .dying :=
  (h.framesOk.uncreated k.nextThread (Nat.le_refl _)).1

theorem Placed.allocated (h : WellFormed k) (p : Int) :
    Placed (k.allocated p [.kernelThread]) := by
  have hdying := h.uncreated_status
  have hidle : k.idleThread ≠ some k.nextThread := fun hi =>
    Nat.lt_irrefl _ (h.framesOk.idle_created _ hi)
  refine ⟨h.placed.ready_nodup, ?_, h.placed.queue_nodup, ?_, ?_⟩
  · intro t
    show t ∈ k.readyList ↔ _ ∧ k.idleThread ≠ some t
    rw [h.placed.mem_ready]
    by_cases ht : t = k.nextThread
    · subst ht
      rw [allocated_self, initThread_status, hdying]
      simp
    · rw [allocated_of_ne ht]
  · intro q t
    show t ∈ k.queue q ↔ _
    rw [h.placed.mem_queue]
    unfold Kernel.WaitsIn
    by_cases ht : t = k.nextThread
    · subst ht
      rw [allocated_self, initThread_status, initThread_stack, hdying]
      simp [Code.queue?]
    · rw [allocated_of_ne ht]
  · intro t ht hb
    have hne : t ≠ k.nextThread := fun he => hidle (he ▸ ht)
    rw [allocated_of_ne hne] at hb ⊢
    exact h.placed.idle_blocked t ht hb

theorem FramesOk.allocated (h : WellFormed k) (p : Int) :
    FramesOk (k.allocated p [.kernelThread]) := by
  have hf : ∀ c, c ≠ .kernelThread → (k.allocated p [.kernelThread]).frames c = k.frames c := by
    intro c hc
    rw [frames_allocated, List.count_eq_zero.mpr (by simpa using hc), Nat.add_zero]
  have hnew : k.frames (.createUnblock k.nextThread) = 0 := by
    by_contra hne
    have hb := (h.framesOk.fresh _ (Nat.pos_of_ne_zero hne)).1
    rw [h.uncreated_status] at hb
    cases hb
  refine ⟨?_, ?_, ?_, ?_, ?_, ?_, ?_, ?_⟩
  · intro t ht
    rw [allocated_of_ne (Nat.ne_of_gt (Nat.lt_of_succ_le ht))]
    exact h.framesOk.uncreated t (Nat.le_of_succ_le ht)
  · intro t c hc
    by_cases ht : t = k.nextThread
    · subst ht
      rw [allocated_self, initThread_stack, List.mem_singleton] at hc
      rw [hc]
      rfl
    · rw [allocated_of_ne ht] at hc
      exact h.framesOk.isFrame t c hc
  · intro t ht
    exact Nat.lt_succ_of_lt (h.framesOk.idle_created t ht)
  · intro t hl c hc
    by_cases ht : t = k.nextThread
    · subst ht
      rw [allocated_self, initThread_stack, List.mem_singleton] at hc
      rw [hc]
      rfl
    · unfold Kernel.IdleLike at hl
      rw [allocated_of_ne ht] at hl hc
      exact h.framesOk.idle_frames t hl c hc
  · rw [hf _ (by simp)]; exact h.framesOk.idle_none
  · rw [hf _ (by simp)]; exact h.framesOk.idle_once
  · intro t ht
    rw [hf _ (by simp)] at ht
    have hne : t ≠ k.nextThread := by
      rintro rfl
      omega
    rw [allocated_of_ne hne]
    exact h.framesOk.fresh t ht
  · intro t
    rw [hf _ (by simp)]
    exact h.framesOk.fresh_once t

theorem WellFormed.allocated (h : WellFormed k) (p : Int) :
    WellFormed (k.allocated p [.kernelThread]) where
  placed := Placed.allocated h p
  framesOk := FramesOk.allocated h p
  running t := by
    show _ ↔ t = k.cur
    by_cases ht : t = k.nextThread
    · subst ht
      rw [allocated_self, initThread_status]
      simp [Nat.ne_of_gt h.cur_created]
    · rw [allocated_of_ne ht]
      exact h.running t

theorem WellFormed.created (h : WellFormed k) (p : Int) (hidle : ¬ k.IdleLike k.cur) :
    WellFormed (k.created p [.kernelThread]) := by
  have ha := h.allocated p
  have hcur : (k.allocated p [.kernelThread]).thread k.cur = k.thread k.cur :=
    allocated_of_ne (Nat.ne_of_lt h.cur_created)
  refine ha.push (k := k.allocated p [.kernelThread]) (by simp [Code.isFrame]) (by simp) ?_ ?_
  · intro t ht
    have htn : t = k.nextThread := by simpa using ht
    subst htn
    refine ⟨by simp, ?_, ?_, ?_⟩
    · rw [frames_allocated]
      by_contra hne
      have hb := (h.framesOk.fresh k.nextThread (by simp at hne; omega)).1
      rw [h.uncreated_status] at hb
      cases hb
    · rw [allocated_self, initThread_status]
    · rw [allocated_self, initThread_stack]
      rfl
  · intro hi
    refine absurd ?_ hidle
    unfold Kernel.IdleLike at hi
    rw [show (k.allocated p [.kernelThread]).cur = k.cur from rfl, hcur] at hi
    exact hi

/-! ## 基本操作 -/

theorem WellFormed.startIdle (h : WellFormed k) (hnone : k.idleThread = none)
    (hstart : ∀ u, .idleStart ∉ (k.thread u).stack)
    (hframes : ∀ c ∈ k.curThread.stack, c.isIdleFrame = true) :
    WellFormed { k with idleThread := some k.cur } := by
  have hrun : (k.thread k.cur).status = .running := h.cur_running
  refine ⟨⟨h.placed.ready_nodup, ?_, fun q => h.placed.queue_nodup q, h.placed.mem_queue, ?_⟩,
    ⟨h.framesOk.uncreated, h.framesOk.isFrame, ?_, ?_, ?_, h.framesOk.idle_once, h.framesOk.fresh,
      h.framesOk.fresh_once⟩, h.running⟩
  · intro t
    show t ∈ k.readyList ↔ _ ∧ some k.cur ≠ some t
    rw [h.placed.mem_ready, hnone]
    constructor
    · rintro ⟨hr, -⟩
      refine ⟨hr, fun he => ?_⟩
      rw [← Option.some.inj he, hrun] at hr
      cases hr
    · rintro ⟨hr, -⟩
      exact ⟨hr, by simp⟩
  · intro t ht hb
    obtain rfl : k.cur = t := Option.some.inj ht
    rw [hrun] at hb
    cases hb
  · intro t ht
    obtain rfl : k.cur = t := Option.some.inj ht
    exact h.cur_created
  · intro t ht
    rcases ht with ht | ht
    · obtain rfl : k.cur = t := Option.some.inj ht
      exact hframes
    · exact absurd ht (hstart t)
  · intro hpos
    obtain ⟨u, hu⟩ := exists_mem_of_frames_pos (k := k) hpos
    exact absurd hu (hstart u)

theorem Recalculated.wellFormed (hr : Recalculated k k') (h : WellFormed k) : WellFormed k' := by
  have he := hr.eq
  refine h.congr ⟨by rw [he], by rw [he], hr.status, hr.stack⟩ (by rw [he])
    (List.Perm.of_eq (by rw [he])) (fun q => ?_)
  rw [he]
  cases q <;> rfl

theorem WellFormed.semaWake (h : WellFormed k) {s : SemaId} (hw : semaWake s k = .ok k') :
    WellFormed k' := by
  rcases semaWake_ok hw with ⟨-, rfl⟩ | ⟨t, ts, hq, hb, rfl⟩
  · exact h
  · have hwait : k.WaitsIn t (.sema s) := h.placed.waitsIn_head hq
    refine h.readied hb (h.placed.ne_idle_of_waitsIn hwait) (h.not_fresh_of_waitsIn hwait)
      rfl rfl rfl rfl rfl (fun q => ?_)
    rw [h.queue_erase_head (show k.queue (.sema s) = t :: ts from hq)]
    cases q with
    | sleep => simp [Kernel.queue]
    | sema s' =>
      simp only [Kernel.queue, Queue.sema.injEq]
      split
      · next he => subst he; simp
      · next hne => simp [hne]

theorem WellFormed.setValue (h : WellFormed k) (s : SemaId) (v : Nat) :
    WellFormed (k.setSema s { k.sema s with value := v }) := by
  refine h.congr ⟨rfl, rfl, fun _ => rfl, fun _ => rfl⟩ rfl (.refl _) (fun q => ?_)
  cases q with
  | sleep => rfl
  | sema s' =>
    by_cases hs : s' = s
    · subst hs; simp [Kernel.queue]
    · simp [Kernel.queue, hs]

variable {tr : List Obs}

theorem Action.wellFormed (ha : Action k tr k') (h : WellFormed k) : WellFormed k' := by
  cases ha with
  | flags | counters | acquired =>
    exact h.congr ⟨rfl, rfl, fun _ => rfl, fun _ => rfl⟩ rfl (.refl _)
  | records th hstatus hstack _ => exact h.congr ⟨rfl, rfl, hstatus, hstack⟩ rfl (.refl _)
  | resort th hstatus hstack => exact h.congr ⟨rfl, rfl, hstatus, hstack⟩ rfl (listSort_perm _ _)
  | setPriority p =>
    have hr : Recalculated k (k.modify k.cur fun th => { th with priority := p }) :=
      recalculated_modify (fun _ => rfl) fun _ => rfl
    exact hr.wellFormed h
  | aging => exact (threadAging_recalculated k).wellFormed h
  | push cs hcs =>
    refine h.push (fun c hc => Code.isFrame_of_isControl (hcs c hc)) (fun hc => ?_)
      (fun t ht => ?_) (fun _ c hc => Code.isIdleFrame_of_isControl (hcs c hc))
    · cases hcs _ hc
    · cases hcs _ ht
  | startIdle hnone hstart hframes => exact h.startIdle hnone hstart hframes
  | unblock t hb hl =>
    have hnot : ∀ q, ¬ k.WaitsIn t q := by
      rintro q ⟨-, c, hc, hq⟩
      rcases hl.1 with hh | hh <;> rw [hh] at hc <;> cases hc <;> cases hq
    refine h.readied hb ?_ hl.2 rfl rfl rfl rfl rfl (fun q => ?_)
    · intro hi
      have hhlt := h.placed.idle_blocked t hi hb
      rcases hl.1 with hh | hh <;> rw [hh] at hhlt <;> cases hhlt
    · rw [List.erase_of_not_mem]
      rw [h.placed.mem_queue]
      exact hnot q
  | awake t ts hq hb =>
    have hwait : k.WaitsIn t .sleep := h.placed.waitsIn_head hq
    refine h.readied hb (h.placed.ne_idle_of_waitsIn hwait) (h.not_fresh_of_waitsIn hwait)
      rfl rfl rfl rfl rfl (fun q => ?_)
    rw [h.queue_erase_head (show k.queue .sleep = t :: ts from hq)]
    cases q with
    | sleep | sema => simp [Kernel.queue]
  | up s k₁ hw => exact (h.semaWake hw).setValue s _
  | down s hval hidle =>
    refine (h.setValue s _).push ?_ ?_ (fun t ht => ?_) (fun hi => absurd hi hidle)
    · cases s <;> simp [afterDown, Code.isFrame]
    · cases s <;> simp [afterDown]
    · cases s <;> simp [afterDown] at ht
  | create p hidle => exact h.created p hidle
  | released l hh hidle =>
    have hheld : WellFormed { k with holder := update k.holder l none } :=
      h.congr ⟨rfl, rfl, fun _ => rfl, fun _ => rfl⟩ rfl (.refl _)
    exact hheld.push (by simp [Code.isFrame]) (by simp) (fun t ht => by simp at ht)
      (fun hi => absurd hi hidle)

theorem Actions.wellFormed (ha : Actions k tr k') (h : WellFormed k) : WellFormed k' := by
  induction ha with
  | nil => exact h
  | cons ha _ ih => exact ih (ha.wellFormed h)

/-! ## 切り替え -/

theorem WellFormed.cur_not_fresh (h : WellFormed k) (u : ThreadId) :
    .createUnblock k.cur ∉ (k.thread u).stack := by
  intro hm
  have hb := (h.framesOk.fresh k.cur (h.framesOk.frames_pos hm)).1
  exact h.ne_cur_of_blocked hb rfl

/-- 実行中の thread が離れた状態 `k₀` から切り替える。 -/
theorem WellFormed.switchTo {k₀ : Kernel} (hp : Placed k₀) (hf : FramesOk k₀)
    (hnone : ∀ t, (k₀.thread t).status ≠ .running) {next : ThreadId} {rest : List ThreadId}
    (hn : k₀.NextIs next rest) : WellFormed (k₀.switchTo next rest) where
  placed := hp.switchTo hn
  framesOk := by
    have hready : ∀ t ts, k₀.readyList = t :: ts → (k₀.thread t).status = .ready := by
      intro t ts hr
      exact ((hp.mem_ready t).mp (by rw [hr]; simp)).1
    have hcreated : next < k₀.nextThread := by
      rcases hn with hr | ⟨-, -, hi⟩
      · exact hf.created_of_status (by rw [hready _ _ hr]; simp)
      · exact hf.idle_created next hi
    have hfresh : ∀ u, .createUnblock next ∉ (k₀.thread u).stack := by
      intro u hm
      obtain ⟨hb, hhead⟩ := hf.fresh next (hf.frames_pos hm)
      rcases hn with hr | ⟨-, -, hi⟩
      · rw [hready _ _ hr] at hb
        cases hb
      · rw [hp.idle_blocked next hi hb] at hhead
        cases hhead
    exact (hf.setStatus .running hcreated hfresh).congr
      ⟨rfl, rfl, fun _ => rfl, fun _ => rfl⟩
  running t := by
    rw [Kernel.switchTo_status]
    show _ ↔ t = next
    split
    · next he => simp [he]
    · next hne => simp [hne, hnone t]

theorem FramesOk.yielded (h : WellFormed k) : FramesOk k.yielded := by
  have hs : FramesOk (k.setStatus k.cur .ready) :=
    h.framesOk.setStatus .ready h.cur_created h.cur_not_fresh
  have hst : ((k.setStatus k.cur .ready).thread k.cur).status ≠ .blocked := by simp
  have hp : FramesOk ((k.setStatus k.cur .ready).push [.intrSetLevel k.intrLevel]) :=
    hs.push (by simp [Code.isFrame]) (by simp) (by simp) (by simp [Code.isIdleFrame])
      h.cur_created hst
  exact hp.congr ⟨rfl, rfl, fun _ => rfl, fun _ => rfl⟩

theorem FramesOk.exited (h : WellFormed k) : FramesOk k.exited :=
  (h.framesOk.setStatus .dying h.cur_created h.cur_not_fresh).congr
    ⟨rfl, rfl, fun _ => rfl, fun _ => rfl⟩

variable {c : Code}

theorem FramesOk.waiting (h : WellFormed k) (hc : c.isWait = true)
    (hidle : k.IdleLike k.cur → c = .idleHlt) : FramesOk (k.waiting c) := by
  have hp : WellFormed (k.push [c]) := by
    refine h.push ?_ ?_ ?_ ?_
    · simpa using Code.isFrame_of_isWait hc
    · intro hm
      rw [← List.mem_singleton.mp hm] at hc
      cases hc
    · intro t ht
      rw [← List.mem_singleton.mp ht] at hc
      cases hc
    · intro hi d hd
      rw [List.mem_singleton.mp hd, hidle hi]
      rfl
  have hs : FramesOk ((k.push [c]).setStatus k.cur .blocked) :=
    hp.framesOk.setStatus .blocked hp.cur_created hp.cur_not_fresh
  refine hs.congr ⟨by simp, by simp, fun t => ?_, fun t => ?_⟩
  · rw [Kernel.waiting_thread]
  · rw [Kernel.waiting_thread]

theorem Switch.wellFormed (hs : Switch k k') (h : WellFormed k) : WellFormed k' := by
  -- 離れた後は、どの thread も実行中でない
  have hleft : ∀ {k₀ : Kernel} (st : ThreadStatus), st ≠ .running →
      (∀ u, (k₀.thread u).status = if u = k.cur then st else (k.thread u).status) →
      ∀ t, (k₀.thread t).status ≠ .running := by
    intro k₀ st hst hall t
    rw [hall]
    split
    · exact hst
    · next hne => exact fun hr => hne ((h.running t).mp hr)
  cases hs with
  | yield hrun hn =>
    exact WellFormed.switchTo (h.placed.yielded hrun) (FramesOk.yielded h)
      (hleft .ready (by simp) k.yielded_status) hn
  | block hrun hc hidle _ _ hn =>
    exact WellFormed.switchTo (h.placed.waiting hrun hidle) (FramesOk.waiting h hc hidle)
      (hleft .blocked (by simp) fun u => k.waiting_status u _) hn
  | exit hrun hn =>
    exact WellFormed.switchTo (h.placed.exited hrun) (FramesOk.exited h)
      (hleft .dying (by simp) k.exited_status) hn

theorem Atomic.wellFormed (ha : Atomic k tr k') (h : WellFormed k) : WellFormed k' := by
  obtain ⟨k₁, hacts, rfl | hs⟩ := ha
  · exact hacts.wellFormed h
  · exact hs.wellFormed (hacts.wellFormed h)

/-! ## 一歩 -/

theorem WellFormed.pop (h : WellFormed k) {cs : List Code} (hst : k.curThread.stack = c :: cs)
    : WellFormed k.pop := by
  have hf := frames_pop h.cur_created hst
  have hle : ∀ d, k.pop.frames d ≤ k.frames d := fun d => by rw [← hf d]; exact Nat.le_add_right ..
  have hsub : ∀ t, ∀ d ∈ (k.pop.thread t).stack, d ∈ (k.thread t).stack := by
    intro t d hd
    rw [Kernel.pop_stack] at hd
    split at hd
    · exact List.mem_of_mem_tail hd
    · exact hd
  have hblocked : ∀ t, (k.thread t).status = .blocked →
      (k.pop.thread t).stack = (k.thread t).stack := by
    intro t hb
    rw [Kernel.pop_stack, if_neg (h.ne_cur_of_blocked hb)]
  refine ⟨?_, ⟨?_, ?_, h.framesOk.idle_created, ?_, ?_, ?_, ?_, ?_⟩, ?_⟩
  · exact h.placed.congr (fun t => Kernel.pop_status ..) (fun t hb => by rw [hblocked t hb])
      (List.Perm.refl _) (fun q => by cases q <;> rfl) rfl
  · intro t ht
    obtain ⟨hdying, hnil⟩ := h.framesOk.uncreated t ht
    rw [Kernel.pop_status, Kernel.pop_stack, hnil, hdying]
    simp
  · intro t d hd
    exact h.framesOk.isFrame t d (hsub t d hd)
  · intro t ht d hd
    refine h.framesOk.idle_frames t ?_ d (hsub t d hd)
    rcases ht with hi | hm
    · exact .inl hi
    · exact .inr (hsub t _ hm)
  · intro hpos
    exact h.framesOk.idle_none (Nat.lt_of_lt_of_le hpos (hle _))
  · exact Nat.le_trans (hle _) h.framesOk.idle_once
  · intro t ht
    obtain ⟨hb, hhead⟩ := h.framesOk.fresh t (Nat.lt_of_lt_of_le ht (hle _))
    rw [Kernel.pop_status, hblocked t hb]
    exact ⟨hb, hhead⟩
  · intro t
    exact Nat.le_trans (hle _) (h.framesOk.fresh_once t)
  · intro t
    rw [Kernel.pop_status]
    exact h.running t

theorem WellFormed.loose_of_selfBlocked (h : WellFormed k) {t : ThreadId}
    (hs : k.selfBlocked t = true) : k.Loose t := by
  have hself : (k.thread t).status = .blocked ∧ (k.thread t).stack.head? = some .blockReturn := by
    simpa [Kernel.selfBlocked] using hs
  refine ⟨.inl hself.2, fun u hm => ?_⟩
  have hhead := (h.framesOk.fresh t (h.framesOk.frames_pos hm)).2
  rw [hself.2] at hhead
  cases hhead

theorem inHand_call (h : WellFormed k) (hst : k.curThread.stack = []) (hc : c.callable k = true)
    : InHand k c := by
  have hst' : (k.thread k.cur).stack = [] := hst
  unfold Code.callable at hc
  refine ⟨?_, ?_, ?_⟩
  · rintro (hi | hm)
    · rw [if_pos hi] at hc
      exact .inr (by simpa using hc)
    · rw [hst'] at hm
      cases hm
  · rintro rfl
    split at hc <;> simp [Code.isCall] at hc
  · rintro t (rfl | rfl)
    · split at hc
      · simp at hc
      · exact h.loose_of_selfBlocked hc
    · split at hc <;> simp [Code.isCall] at hc

theorem inHand_resume (h : WellFormed k) {cs : List Code} (hst : k.curThread.stack = c :: cs)
    : InHand k.pop c := by
  have hpop := h.pop hst
  have hmem : c ∈ (k.thread k.cur).stack := by
    rw [show (k.thread k.cur).stack = c :: cs from hst]
    simp
  have htail : (k.pop.thread k.cur).stack = cs := by
    rw [Kernel.pop_stack, if_pos rfl, show (k.thread k.cur).stack = c :: cs from hst]
    rfl
  have hf := frames_pop h.cur_created hst
  refine ⟨?_, ?_, ?_⟩
  · intro hi
    refine .inl (h.framesOk.idle_frames k.cur ?_ c hmem)
    rcases hi with hi | hm
    · exact .inl hi
    · refine .inr ?_
      rw [show (k.thread k.cur).stack = c :: cs from hst]
      rw [show k.pop.cur = k.cur from rfl, htail] at hm
      exact List.mem_cons_of_mem _ hm
  · rintro rfl
    have hpos := h.framesOk.frames_pos hmem
    have hone := h.framesOk.idle_once
    have hzero : k.pop.frames .idleStart = 0 := by
      have := hf .idleStart
      rw [if_pos rfl] at this
      omega
    refine ⟨h.framesOk.idle_none hpos, hpop.framesOk.not_mem_of_frames hzero, ?_⟩
    intro d hd
    refine h.framesOk.idle_frames k.cur (.inr hmem) d ?_
    rw [show (k.thread k.cur).stack = .idleStart :: cs from hst]
    rw [Kernel.curThread, show k.pop.cur = k.cur from rfl, htail] at hd
    exact List.mem_cons_of_mem _ hd
  · rintro t (rfl | rfl)
    · have := h.framesOk.isFrame _ _ hmem
      cases this
    · have hzero : k.pop.frames (.createUnblock t) = 0 := by
        have := hf (.createUnblock t)
        have := h.framesOk.fresh_once t
        simp only [if_true] at *
        omega
      obtain ⟨hb, hhead⟩ := h.framesOk.fresh t (h.framesOk.frames_pos hmem)
      refine ⟨.inr ?_, hpop.framesOk.not_mem_of_frames hzero⟩
      rw [Kernel.pop_stack, if_neg (h.ne_cur_of_blocked hb)]
      exact hhead

def Kernel.obs (k : Kernel) : Event → List Obs
  | .call c => c.emits k
  | .resume =>
    match k.curThread.stack with
    | [] => []
    | c :: _ => c.emits k.pop
  | .interrupt hd => hd.emits

/-- **一歩は、`stack` の先頭を取り出すかもしれない `Atomic` である。** -/
theorem step_atomic (h : WellFormed k) {e : Event} (hs : step k e = some k') :
    (Atomic k (k.obs e) k' ∧ e ≠ .resume) ∨
      ∃ c cs, e = .resume ∧ k.curThread.stack = c :: cs ∧ Atomic k.pop (c.emits k.pop) k' := by
  rcases step_cases hs with ⟨c, rfl, hst, hc, hx⟩ | ⟨c, cs, rfl, hst, hx⟩ |
    ⟨hd, rfl, -, hp, hx⟩
  · exact .inl ⟨exec_atomic (inHand_call h hst hc) hx, by simp⟩
  · exact .inr ⟨c, cs, rfl, hst, exec_atomic (inHand_resume h hst) hx⟩
  · refine .inl ⟨intrHandler_atomic ?_ hx, by simp⟩
    rintro t rfl
    exact h.loose_of_selfBlocked hp

theorem step_wellFormed (h : WellFormed k) {e : Event} (hs : step k e = some k') :
    WellFormed k' := by
  rcases step_atomic h hs with ⟨ha, -⟩ | ⟨c, cs, -, hst, ha⟩
  · exact ha.wellFormed h
  · exact ha.wellFormed (h.pop hst)

/-! ## 起動した状態 -/

def bootStack : List Code :=
  [.lockAcquire .tid, .allocateTid 1, .lockRelease .tid, .createUnblock 1, .createTest 1,
    .intrEnable, .semaDown .idleStarted, .startLoadAvg]

section Boot

variable (mode : SchedulingMode) (aging : Bool) (values : Nat → BitVec 32)

theorem boot_status (t : ThreadId) : ((boot mode aging values).thread t).status =
    if t = 0 then .running else if t = 1 then .blocked else .dying := by
  by_cases h0 : t = 0
  · subst h0; rfl
  · by_cases h1 : t = 1
    · subst h1; cases mode <;> rfl
    · simp [boot, Kernel.created, h0, h1, threadInit, noThread, Kernel.push, Kernel.modify]

theorem boot_stack (t : ThreadId) : ((boot mode aging values).thread t).stack =
    if t = 0 then bootStack else if t = 1 then [.kernelThread, .idleStart] else [] := by
  by_cases h0 : t = 0
  · subst h0; rfl
  · by_cases h1 : t = 1
    · subst h1; cases mode <;> rfl
    · simp [boot, Kernel.created, h0, h1, threadInit, noThread, Kernel.push, Kernel.modify]

theorem boot_frames (c : Code) : (boot mode aging values).frames c =
    bootStack.count c + [Code.kernelThread, .idleStart].count c := by
  show ∑ u ∈ Finset.range 2, _ = _
  rw [Finset.sum_range_succ, Finset.sum_range_succ, Finset.sum_range_zero, boot_stack, boot_stack]
  simp

theorem boot_queue (q : Queue) : (boot mode aging values).queue q = [] := by
  cases q with
  | sleep => rfl
  | sema s => cases s <;> rfl

theorem boot_placed : Placed (boot mode aging values) := by
  refine ⟨List.nodup_nil, ?_, fun q => by rw [boot_queue]; exact List.nodup_nil, ?_, ?_⟩
  · intro t
    show t ∈ [] ↔ _
    rw [boot_status]
    split
    · simp
    · split <;> simp
  · intro q t
    rw [boot_queue]
    unfold Kernel.WaitsIn
    rw [boot_status, boot_stack]
    split
    · simp
    · split <;> simp [Code.queue?]
  · intro t ht
    cases ht

theorem boot_framesOk : FramesOk (boot mode aging values) := by
  have hcreate : ∀ t, (boot mode aging values).frames (.createUnblock t) =
      if t = 1 then 1 else 0 := by
    intro t
    rw [boot_frames]
    by_cases ht : t = 1
    · subst ht; rfl
    · rw [List.count_eq_zero.mpr (by simp [bootStack, ht]), if_neg ht]
      rfl
  refine ⟨?_, ?_, ?_, ?_, fun _ => rfl, ?_, ?_, ?_⟩
  · intro t ht
    have ht2 : 2 ≤ t := ht
    rw [boot_status, boot_stack]
    simp [show t ≠ 0 by rintro rfl; simp at ht2, show t ≠ 1 by rintro rfl; simp at ht2]
  · intro t c hc
    rw [boot_stack] at hc
    split at hc
    · revert c; decide
    · split at hc
      · revert c; decide
      · cases hc
  · intro t ht
    cases ht
  · intro t ht c hc
    rcases ht with ht | ht
    · cases ht
    · rw [boot_stack] at ht hc
      split at ht
      · exact absurd ht (by decide)
      · next h0 =>
        rw [if_neg h0] at hc
        split at ht
        · next h1 =>
          rw [if_pos h1] at hc
          revert c; decide
        · cases ht
  · rw [boot_frames]
    decide
  · intro t ht
    rw [hcreate] at ht
    have h1 : t = 1 := by
      by_contra hne
      rw [if_neg hne] at ht
      exact Nat.lt_irrefl 0 ht
    subst h1
    rw [boot_status, boot_stack]
    exact ⟨rfl, rfl⟩
  · intro t
    rw [hcreate]
    split <;> simp

theorem boot_wellFormed : WellFormed (boot mode aging values) where
  placed := boot_placed mode aging values
  framesOk := boot_framesOk mode aging values
  running t := by
    show _ ↔ t = 0
    rw [boot_status]
    by_cases h0 : t = 0
    · simp [h0]
    · by_cases h1 : t = 1 <;> simp [h0, h1]

end Boot

theorem reachable_wellFormed (h : Reachable scheduler k) : WellFormed k := by
  refine Reachable.invariant ?_ ?_ h
  · intro k₀ h0
    obtain ⟨mode, aging, values, rfl⟩ := isBoot_iff.mp h0
    exact boot_wellFormed mode aging values
  · intro k₁ e k₂ hw hs
    exact step_wellFormed hw hs

/-! ## 一歩の規則 -/

/-- 基本操作と切り替えで保たれる性質。 -/
structure StepRule (P : Kernel → Prop) : Prop where
  action {k k' : Kernel} {tr : List Obs} : Action k tr k' → WellFormed k → P k → P k'
  switch {k k' : Kernel} : Switch k k' → WellFormed k → P k → P k'
  pop {k : Kernel} {c : Code} {cs : List Code} : k.curThread.stack = c :: cs → P k → P k.pop

variable {P : Kernel → Prop}

theorem StepRule.actions (r : StepRule P) (ha : Actions k tr k') (hw : WellFormed k) (h : P k)
    : P k' := by
  induction ha with
  | nil => exact h
  | cons ha _ ih => exact ih (ha.wellFormed hw) (r.action ha hw h)

theorem StepRule.step (r : StepRule P) {e : Event} (hw : WellFormed k)
    (hs : Pintos.step k e = some k') (h : P k) : P k' := by
  have hatomic : ∀ {k₀ tr}, Atomic k₀ tr k' → WellFormed k₀ → P k₀ → P k' := by
    rintro k₀ tr ⟨k₁, hacts, rfl | hsw⟩ hw₀ h₀
    · exact r.actions hacts hw₀ h₀
    · exact r.switch hsw (hacts.wellFormed hw₀) (r.actions hacts hw₀ h₀)
  rcases step_atomic hw hs with ⟨ha, -⟩ | ⟨c, cs, -, hst, ha⟩
  · exact hatomic ha hw h
  · exact hatomic ha (hw.pop hst) (r.pop hst h)

theorem reachable_of_boot {J : Kernel → Prop} {C : Kernel → Event → Prop}
    (hj : ∀ k, Reachable scheduler k → J k)
    (hboot : ∀ mode aging values, P (boot mode aging values))
    (hstep : ∀ k e k', J k → P k → C k e → step k e = some k' → P k')
    (h : ReachableIf scheduler C k) : P k := by
  refine ReachableIf.invariant_of hj (fun k₀ h0 => ?_) hstep h
  obtain ⟨mode, aging, values, rfl⟩ := isBoot_iff.mp h0
  exact hboot mode aging values

theorem StepRule.reachable (r : StepRule P) (hboot : ∀ mode aging values, P (boot mode aging values))
    (h : Reachable scheduler k) : P k :=
  reachable_of_boot (fun _ => reachable_wellFormed) hboot (fun _ _ _ hw hp _ hs => r.step hw hs hp) h

end Pintos
