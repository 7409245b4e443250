import Pintos.Infra.Sum
import Pintos.Properties.Atomic

/-!
# 整形式の scheduler

`struct list_elem elem` は一つしか無いので、thread は同時に二つの列に入れない。
それを保つ不変量を `WellFormed` にまとめる。

中心になるのは `Placed` の `mem_queue` である。
block した thread の続きの code が、その thread の入っている列をちょうど決める。

* 続きが `sema_down` の while なら、その semaphore の `waiters`
* 続きが `thread_sleep` の後半なら、`sleep_list`
* ほかなら、どこにも入っていない

残りの `FramesOk` は、直に `thread_unblock` される thread が列に入っていないこと、
idle thread が `idle` の外で block しないことを言うためのものである。
-/

namespace Pintos

open Infra

variable {k k' : Kernel} {t : ThreadId} {q : Queue} {c : Code} {cs : List Code}

namespace Kernel

/-- thread `t` は列 `q` で待っている。 -/
def WaitsIn (k : Kernel) (t : ThreadId) (q : Queue) : Prop :=
  (k.thread t).status = .blocked ∧ ∃ c, (k.thread t).stack.head? = some c ∧ c.queue? = some q

/-- すべての thread の `stack` にある frame `c` の数。 -/
def frames (k : Kernel) (c : Code) : Nat :=
  ∑ u ∈ Finset.range k.nextThread, (k.thread u).stack.count c

end Kernel

/-- thread の状態と列の対応。 -/
structure Placed (k : Kernel) : Prop where
  ready_nodup : k.readyList.Nodup
  mem_ready : ∀ t, t ∈ k.readyList ↔ (k.thread t).status = .ready ∧ k.idleThread ≠ some t
  queue_nodup : ∀ q, (k.queue q).Nodup
  mem_queue : ∀ q t, t ∈ k.queue q ↔ k.WaitsIn t q
  /-- idle thread は `idle` の loop でだけ block する。 -/
  idle_blocked : ∀ t, k.idleThread = some t → (k.thread t).status = .blocked →
    (k.thread t).stack.head? = some .idleHlt

/-- `stack` に残っている code についての不変量。 -/
structure FramesOk (k : Kernel) : Prop where
  uncreated : ∀ t, k.nextThread ≤ t →
    (k.thread t).status = .dying ∧ (k.thread t).stack = []
  isFrame : ∀ t, ∀ c ∈ (k.thread t).stack, c.isFrame = true
  idle_created : ∀ t, k.idleThread = some t → t < k.nextThread
  idle_frames : ∀ t, k.IdleLike t → ∀ c ∈ (k.thread t).stack, c.isIdleFrame = true
  idle_none : 0 < k.frames .idleStart → k.idleThread = none
  idle_once : k.frames .idleStart ≤ 1
  /-- 作りかけの thread は、まだ一度も動いていない。 -/
  fresh : ∀ t, 0 < k.frames (.createUnblock t) →
    (k.thread t).status = .blocked ∧ (k.thread t).stack.head? = some .kernelThread
  fresh_once : ∀ t, k.frames (.createUnblock t) ≤ 1

structure WellFormed (k : Kernel) : Prop where
  placed : Placed k
  framesOk : FramesOk k
  running : ∀ t, (k.thread t).status = .running ↔ t = k.cur

/-! ## frame の数 -/

theorem FramesOk.created_of_status (h : FramesOk k)
    (ht : (k.thread t).status ≠ .dying) : t < k.nextThread := by
  by_contra hge
  exact ht (h.uncreated t (Nat.le_of_not_lt hge)).1

theorem FramesOk.created_of_mem (h : FramesOk k) (hc : c ∈ (k.thread t).stack) : t < k.nextThread := by
  by_contra hge
  rw [(h.uncreated t (Nat.le_of_not_lt hge)).2] at hc
  cases hc

theorem WellFormed.cur_created (h : WellFormed k) : k.cur < k.nextThread := by
  refine h.framesOk.created_of_status ?_
  rw [(h.running k.cur).mpr rfl]
  simp

theorem frames_congr (hn : k'.nextThread = k.nextThread)
    (hs : ∀ u, (k'.thread u).stack = (k.thread u).stack) (c : Code) :
    k'.frames c = k.frames c := by
  unfold Kernel.frames
  rw [hn]
  exact Finset.sum_congr rfl fun u _ => by rw [hs u]

theorem frames_push (hcur : k.cur < k.nextThread) (cs : List Code) (c : Code) :
    (k.push cs).frames c = k.frames c + cs.count c := by
  unfold Kernel.frames
  have h := sum_range_eq_of_ne hcur (f := fun u => ((k.push cs).thread u).stack.count c)
    (g := fun u => (k.thread u).stack.count c)
    (fun u hu => by simp only [Kernel.push_stack, if_neg hu])
  simp only [Kernel.push_stack, if_true, List.count_append] at h
  simp only [Kernel.push_nextThread, Kernel.push_stack]
  omega

theorem frames_pop (hcur : k.cur < k.nextThread) {d : Code}
    (hst : k.curThread.stack = d :: cs) (c : Code) :
    k.pop.frames c + (if d = c then 1 else 0) = k.frames c := by
  unfold Kernel.frames
  have h := sum_range_eq_of_ne hcur (f := fun u => (k.pop.thread u).stack.count c)
    (g := fun u => (k.thread u).stack.count c)
    (fun u hu => by simp only [Kernel.pop_stack, if_neg hu])
  have hst' : (k.thread k.cur).stack = d :: cs := hst
  simp only [Kernel.pop_stack, if_true, hst', List.tail_cons, List.count_cons, beq_iff_eq] at h
  simp only [Kernel.pop_nextThread, Kernel.pop_stack]
  omega

theorem FramesOk.frames_pos (h : FramesOk k) {u : ThreadId}
    (hc : c ∈ (k.thread u).stack) : 0 < k.frames c :=
  Nat.lt_of_lt_of_le (List.count_pos_iff.mpr hc)
    (Finset.single_le_sum (f := fun u => (k.thread u).stack.count c) (fun _ _ => Nat.zero_le _)
      (Finset.mem_range.mpr (h.created_of_mem hc)))

theorem FramesOk.not_mem_of_frames (h : FramesOk k) (hc : k.frames c = 0)
    (u : ThreadId) : c ∉ (k.thread u).stack := by
  intro hm
  have := h.frames_pos hm
  omega

/-! ## 列への出し入れ -/

theorem waitsIn_congr (hstatus : (k'.thread t).status = (k.thread t).status)
    (hhead : (k.thread t).status = .blocked →
      (k'.thread t).stack.head? = (k.thread t).stack.head?) :
    k'.WaitsIn t q ↔ k.WaitsIn t q := by
  unfold Kernel.WaitsIn
  rw [hstatus]
  constructor
  · rintro ⟨hb, c, hc, hq⟩
    exact ⟨hb, c, hhead hb ▸ hc, hq⟩
  · rintro ⟨hb, c, hc, hq⟩
    exact ⟨hb, c, (hhead hb).symm ▸ hc, hq⟩

section

variable (h : Placed k)
include h

theorem Placed.congr (hstatus : ∀ t, (k'.thread t).status = (k.thread t).status)
    (hhead : ∀ t, (k.thread t).status = .blocked →
      (k'.thread t).stack.head? = (k.thread t).stack.head?) (hready : k'.readyList.Perm k.readyList)
    (hqueue : ∀ q, k'.queue q = k.queue q) (hidle : k'.idleThread = k.idleThread) : Placed k' where
  ready_nodup := hready.nodup_iff.mpr h.ready_nodup
  mem_ready t := by rw [hready.mem_iff, h.mem_ready, hstatus, hidle]
  queue_nodup q := by rw [hqueue]; exact h.queue_nodup q
  mem_queue q t := by rw [hqueue, h.mem_queue, waitsIn_congr (hstatus t) (hhead t)]
  idle_blocked t ht hb := by
    rw [hidle] at ht
    rw [hstatus] at hb
    rw [hhead t hb]
    exact h.idle_blocked t ht hb

theorem Placed.ne_idle_of_waitsIn (hw : k.WaitsIn t q) : k.idleThread ≠ some t := by
  intro hi
  obtain ⟨hb, c, hc, hq⟩ := hw
  rw [h.idle_blocked t hi hb] at hc
  cases hc
  cases hq

theorem Placed.waitsIn_head {ts : List ThreadId} (hq : k.queue q = t :: ts) : k.WaitsIn t q := by
  rw [← h.mem_queue, hq]
  simp

/-- `t` をどの列からも外し、`t` のほかの thread には触れない操作。`t` は止まっていない。 -/
theorem Placed.leave (hafter : (k'.thread t).status ≠ .blocked)
    (hother : ∀ u, u ≠ t → (k'.thread u).status = (k.thread u).status ∧
      (k'.thread u).stack = (k.thread u).stack) (hidle : k'.idleThread = k.idleThread)
    (hqueue : ∀ q, k'.queue q = (k.queue q).erase t) (hnd : k'.readyList.Nodup)
    (hready : ∀ u, u ∈ k'.readyList ↔
      (k'.thread u).status = .ready ∧ k.idleThread ≠ some u) : Placed k' := by
  refine ⟨hnd, by rw [hidle]; exact hready, fun q => ?_, fun q u => ?_, fun u hu hb => ?_⟩
  · rw [hqueue]
    exact (h.queue_nodup q).erase t
  · rw [hqueue, (h.queue_nodup q).mem_erase_iff, h.mem_queue]
    by_cases hu : u = t
    · subst hu
      simp [Kernel.WaitsIn, hafter]
    · rw [waitsIn_congr (hother u hu).1 fun _ => by rw [(hother u hu).2]]
      simp [hu]
  · have hne : u ≠ t := by
      rintro rfl
      exact hafter hb
    rw [(hother u hne).1] at hb
    rw [(hother u hne).2]
    exact h.idle_blocked u (hidle ▸ hu) hb

theorem Placed.erase_queue (hw : ∀ q, ¬ k.WaitsIn t q) (q : Queue) :
    k.queue q = (k.queue q).erase t :=
  (List.erase_of_not_mem fun hm => hw q ((h.mem_queue q t).mp hm)).symm

theorem Placed.readied {k₀ : Kernel} (hb : (k.thread t).status = .blocked)
    (hidle : k.idleThread ≠ some t) (hthread : k₀.thread = k.thread)
    (hready : k₀.readyList = k.readyList) (hi : k₀.idleThread = k.idleThread)
    (hqueue : ∀ q, k₀.queue q = (k.queue q).erase t) : Placed (k₀.readied t) := by
  have hnot : t ∉ k₀.readyList := by
    rw [hready, h.mem_ready, hb]
    simp
  refine h.leave (t := t) ?_ (fun u hu => ⟨?_, ?_⟩) hi (fun q => ?_)
    (nodup_listInsertOrdered hnot (by rw [hready]; exact h.ready_nodup)) fun u => ?_
  · simp
  · rw [Kernel.readied_status, hthread, if_neg hu]
  · rw [Kernel.readied_stack, hthread]
  · rw [← hqueue q]
    cases q <;> rfl
  · show u ∈ listInsertOrdered _ t k₀.readyList ↔ _
    rw [mem_listInsertOrdered, hready, h.mem_ready, Kernel.readied_status, hthread]
    by_cases hu : u = t
    · subst hu; simp [hidle]
    · simp [hu]

theorem Placed.not_waitsIn_of_nextIs {next : ThreadId} {rest : List ThreadId}
    (hn : k.NextIs next rest) (q : Queue) : ¬ k.WaitsIn next q := by
  intro hw
  rcases hn with hr | ⟨-, -, hi⟩
  · have hready := ((h.mem_ready next).mp (by rw [hr]; simp)).1
    rw [hw.1] at hready
    cases hready
  · exact h.ne_idle_of_waitsIn hw hi

theorem Placed.switchTo {next : ThreadId} {rest : List ThreadId} (hn : k.NextIs next rest) :
    Placed (k.switchTo next rest) := by
  have hrest : rest.Nodup ∧ ∀ u, u ∈ rest ↔ u ∈ k.readyList ∧ u ≠ next := by
    rcases hn with hr | ⟨hr, rfl, hi⟩
    · have hnd := h.ready_nodup
      rw [hr] at hnd
      refine ⟨(List.nodup_cons.mp hnd).2, fun u => ?_⟩
      rw [hr, List.mem_cons]
      constructor
      · intro hu
        exact ⟨.inr hu, fun he => (List.nodup_cons.mp hnd).1 (he ▸ hu)⟩
      · rintro ⟨he | hu, hne⟩
        · exact absurd he hne
        · exact hu
    · exact ⟨List.nodup_nil, fun u => by simp [hr]⟩
  refine h.leave (t := next) ?_ (fun u hu => ⟨?_, ?_⟩) rfl
    (h.erase_queue (h.not_waitsIn_of_nextIs hn)) hrest.1 fun u => ?_
  · simp
  · simp [hu]
  · simp
  · show u ∈ rest ↔ _
    rw [hrest.2, h.mem_ready, Kernel.switchTo_status]
    by_cases hu : u = next
    · simp [hu]
    · simp [hu]

/-! ## 実行中の thread が離れるとき -/

omit h in
theorem not_waitsIn_of_running (hrun : (k.thread t).status = .running) (q : Queue) :
    ¬ k.WaitsIn t q := by
  rintro ⟨hb, -⟩
  rw [hrun] at hb
  cases hb

theorem Placed.yielded (hrun : k.curThread.status = .running) : Placed k.yielded := by
  have hcur : (k.thread k.cur).status = .running := hrun
  have hnot : k.cur ∉ k.readyList := by
    rw [h.mem_ready, hcur]
    simp
  have hmem : ∀ u, u ∈ k.yielded.readyList ↔
      u ∈ k.readyList ∨ u = k.cur ∧ k.idleThread ≠ some k.cur := by
    intro u
    show u ∈ (if _ then _ else _) ↔ _
    split
    · next hi => simp [hi]
    · next hi => simp [hi, or_comm]
  refine h.leave (t := k.cur) ?_ (fun u hu => ⟨?_, ?_⟩) rfl
    (h.erase_queue (not_waitsIn_of_running hcur)) ?_ fun u => ?_
  · simp
  · simp [hu]
  · simp [hu]
  · show (if _ then _ else _ : List ThreadId).Nodup
    split
    · exact h.ready_nodup
    · exact nodup_listInsertOrdered hnot h.ready_nodup
  · rw [hmem, h.mem_ready, Kernel.yielded_status]
    by_cases hu : u = k.cur
    · subst hu; simp [hcur]
    · simp [hu]

theorem Placed.exited (hrun : k.curThread.status = .running) : Placed k.exited := by
  have hcur : (k.thread k.cur).status = .running := hrun
  refine h.leave (t := k.cur) ?_ (fun u hu => ⟨?_, ?_⟩) rfl
    (h.erase_queue (not_waitsIn_of_running hcur)) h.ready_nodup fun u => ?_
  · simp
  · simp [hu]
  · simp
  · show u ∈ k.readyList ↔ _
    rw [h.mem_ready, Kernel.exited_status]
    by_cases hu : u = k.cur
    · subst hu; simp [hcur]
    · simp [hu]

theorem Placed.waiting (hrun : k.curThread.status = .running)
    (hidle : k.IdleLike k.cur → c = .idleHlt) : Placed (k.waiting c) := by
  have hcur : (k.thread k.cur).status = .running := hrun
  have hnot : ∀ q, k.cur ∉ k.queue q := fun q hm =>
    not_waitsIn_of_running hcur q ((h.mem_queue q _).mp hm)
  have hself : ∀ q, (k.waiting c).WaitsIn k.cur q ↔ c.queue? = some q := by
    intro q
    simp [Kernel.WaitsIn]
  have hother : ∀ q u, u ≠ k.cur → ((k.waiting c).WaitsIn u q ↔ k.WaitsIn u q) := by
    intro q u hu
    exact waitsIn_congr (by simp [hu]) (fun _ => by simp [hu])
  refine ⟨?_, ?_, ?_, ?_, ?_⟩
  · rw [Kernel.waiting_readyList]
    exact h.ready_nodup
  · intro u
    rw [Kernel.waiting_readyList, Kernel.waiting_status, Kernel.waiting_idleThread, h.mem_ready]
    by_cases hu : u = k.cur
    · subst hu; simp [hcur]
    · simp [hu]
  · intro q
    obtain ⟨hne, heq⟩ := k.waiting_queue c q
    by_cases hq : c.queue? = some q
    · rw [(heq hq).nodup_iff, List.nodup_cons]
      exact ⟨hnot q, h.queue_nodup q⟩
    · rw [hne hq]
      exact h.queue_nodup q
  · intro q u
    obtain ⟨hne, heq⟩ := k.waiting_queue c q
    have hmem : u ∈ (k.waiting c).queue q ↔ c.queue? = some q ∧ u = k.cur ∨ u ∈ k.queue q := by
      by_cases hq : c.queue? = some q
      · rw [(heq hq).mem_iff, List.mem_cons]
        simp [hq]
      · rw [hne hq]
        simp [hq]
    rw [hmem]
    by_cases hu : u = k.cur
    · subst hu
      simp [hself, hnot]
    · rw [hother q u hu, h.mem_queue]
      simp [hu]
  · intro u hu hb
    rw [Kernel.waiting_idleThread] at hu
    rw [Kernel.waiting_stack]
    by_cases hc : u = k.cur
    · subst hc
      rw [if_pos rfl, hidle (.inl hu)]
      rfl
    · rw [Kernel.waiting_status, if_neg hc] at hb
      rw [if_neg hc]
      exact h.idle_blocked u hu hb

end

/-! ## 基本操作と不変量 -/

/-- status と `stack` を変えない操作。 -/
structure SameFrames (k k' : Kernel) : Prop where
  next : k'.nextThread = k.nextThread
  idle : k'.idleThread = k.idleThread
  status : ∀ t, (k'.thread t).status = (k.thread t).status
  stack : ∀ t, (k'.thread t).stack = (k.thread t).stack

theorem FramesOk.congr (h : FramesOk k) (hs : SameFrames k k') : FramesOk k' where
  uncreated t ht := by
    rw [hs.status, hs.stack]
    exact h.uncreated t (hs.next ▸ ht)
  isFrame t := by rw [hs.stack]; exact h.isFrame t
  idle_created t := by rw [hs.idle, hs.next]; exact h.idle_created t
  idle_frames t ht := by
    unfold Kernel.IdleLike at ht
    rw [hs.idle, hs.stack] at ht
    rw [hs.stack]
    exact h.idle_frames t ht
  idle_none := by
    rw [frames_congr hs.next hs.stack, hs.idle]
    exact h.idle_none
  idle_once := by
    rw [frames_congr hs.next hs.stack]
    exact h.idle_once
  fresh t ht := by
    rw [frames_congr hs.next hs.stack] at ht
    rw [hs.status, hs.stack]
    exact h.fresh t ht
  fresh_once t := by
    rw [frames_congr hs.next hs.stack]
    exact h.fresh_once t

theorem WellFormed.congr (h : WellFormed k) (hs : SameFrames k k') (hcur : k'.cur = k.cur)
    (hready : k'.readyList.Perm k.readyList)
    (hqueue : ∀ q, k'.queue q = k.queue q := by intro q; cases q <;> rfl) : WellFormed k' where
  placed := h.placed.congr hs.status (fun t _ => by rw [hs.stack]) hready hqueue hs.idle
  framesOk := h.framesOk.congr hs
  running t := by rw [hs.status, hcur]; exact h.running t

theorem exists_mem_of_frames_pos (h : 0 < k.frames c) : ∃ u, c ∈ (k.thread u).stack := by
  obtain ⟨u, -, hu⟩ := Finset.exists_ne_zero_of_sum_ne_zero (Nat.pos_iff_ne_zero.mp h)
  exact ⟨u, List.count_pos_iff.mp (Nat.pos_of_ne_zero hu)⟩

theorem FramesOk.setStatus (h : FramesOk k) (st : ThreadStatus)
    (hcreated : t < k.nextThread) (hfresh : ∀ u, .createUnblock t ∉ (k.thread u).stack) :
    FramesOk (k.setStatus t st) := by
  have hf : ∀ c, (k.setStatus t st).frames c = k.frames c :=
    frames_congr rfl fun u => Kernel.setStatus_stack ..
  refine ⟨?_, ?_, h.idle_created, ?_, ?_, ?_, ?_, ?_⟩
  · intro u hu
    have hne : u ≠ t := by
      rintro rfl
      exact absurd hcreated (Nat.not_lt.mpr hu)
    rw [Kernel.setStatus_status, if_neg hne, Kernel.setStatus_stack]
    exact h.uncreated u hu
  · intro u
    rw [Kernel.setStatus_stack]
    exact h.isFrame u
  · intro u hu
    unfold Kernel.IdleLike at hu
    rw [Kernel.setStatus_stack] at hu ⊢
    exact h.idle_frames u hu
  · rw [hf]; exact h.idle_none
  · rw [hf]; exact h.idle_once
  · intro u hu
    rw [hf] at hu
    have hne : u ≠ t := by
      rintro rfl
      obtain ⟨v, hv⟩ := exists_mem_of_frames_pos hu
      exact hfresh v hv
    rw [Kernel.setStatus_status, if_neg hne, Kernel.setStatus_stack]
    exact h.fresh u hu
  · intro u
    rw [hf]; exact h.fresh_once u

theorem WellFormed.cur_running (h : WellFormed k) : k.curThread.status = .running :=
  (h.running k.cur).mpr rfl

theorem WellFormed.ne_cur_of_blocked (h : WellFormed k) (hb : (k.thread t).status = .blocked) :
    t ≠ k.cur := by
  rintro rfl
  have hrun := h.cur_running
  rw [Kernel.curThread, hb] at hrun
  cases hrun

section push

variable (hframe : ∀ c ∈ cs, c.isFrame = true) (hstart : .idleStart ∉ cs)
  (hnew : ∀ t, .createUnblock t ∈ cs → cs.count (.createUnblock t) = 1 ∧
    k.frames (.createUnblock t) = 0 ∧ (k.thread t).status = .blocked ∧
    (k.thread t).stack.head? = some .kernelThread)
  (hidle : k.IdleLike k.cur → ∀ c ∈ cs, c.isIdleFrame = true)
include hframe hstart hnew hidle

/-- 実行中の thread に frame を積む。作りかけの thread を起こす frame は、新しいものだけである。 -/
theorem FramesOk.push (h : FramesOk k) (hcur : k.cur < k.nextThread)
    (hrun : k.curThread.status ≠ .blocked) : FramesOk (k.push cs) := by
  have hf : ∀ c, (k.push cs).frames c = k.frames c + cs.count c := frames_push hcur cs
  have hcount : ∀ {c : Code}, c ∉ cs → cs.count c = 0 := fun hc => List.count_eq_zero.mpr hc
  have hzero : cs.count .idleStart = 0 := hcount hstart
  refine ⟨?_, ?_, h.idle_created, ?_, ?_, ?_, ?_, ?_⟩
  · intro t ht
    have hne : t ≠ k.cur := by
      rintro rfl
      exact absurd hcur (Nat.not_lt.mpr ht)
    rw [Kernel.push_status, Kernel.push_stack, if_neg hne]
    exact h.uncreated t ht
  · intro t c hc
    rw [Kernel.push_stack] at hc
    split at hc
    · rcases List.mem_append.mp hc with hc | hc
      · exact hframe c hc
      · exact h.isFrame t c hc
    · exact h.isFrame t c hc
  · intro t ht c hc
    have ht' : k.IdleLike t := by
      rcases ht with hi | hm
      · exact .inl hi
      · rw [Kernel.push_stack] at hm
        split at hm
        · exact .inr ((List.mem_append.mp hm).resolve_left hstart)
        · exact .inr hm
    rw [Kernel.push_stack] at hc
    split at hc
    · next he =>
      subst he
      rcases List.mem_append.mp hc with hc | hc
      · exact hidle ht' c hc
      · exact h.idle_frames _ ht' c hc
    · exact h.idle_frames t ht' c hc
  · rw [hf, hzero]; exact h.idle_none
  · rw [hf, hzero]; exact h.idle_once
  · intro t ht
    have hb : (k.thread t).status = .blocked ∧
        (k.thread t).stack.head? = some .kernelThread := by
      by_cases hm : .createUnblock t ∈ cs
      · exact (hnew t hm).2.2
      · rw [hf, hcount hm] at ht
        exact h.fresh t ht
    have hne : t ≠ k.cur := by
      rintro rfl
      exact hrun hb.1
    rw [Kernel.push_status, Kernel.push_stack, if_neg hne]
    exact hb
  · intro t
    rw [hf]
    by_cases hm : .createUnblock t ∈ cs
    · rw [(hnew t hm).1, (hnew t hm).2.1]
    · rw [hcount hm]
      exact h.fresh_once t

theorem WellFormed.push (h : WellFormed k) : WellFormed (k.push cs) where
  placed := by
    refine h.placed.congr (fun t => Kernel.push_status ..) ?_ (List.Perm.refl _) (fun q => ?_) rfl
    · intro t hb
      rw [Kernel.push_stack, if_neg (h.ne_cur_of_blocked hb)]
    · cases q <;> rfl
  framesOk :=
    h.framesOk.push hframe hstart hnew hidle h.cur_created (by rw [h.cur_running]; simp)
  running t := by rw [Kernel.push_status]; exact h.running t

end push

variable (h : WellFormed k)
include h

theorem WellFormed.readied {k₀ : Kernel} (hb : (k.thread t).status = .blocked)
    (hidle : k.idleThread ≠ some t) (hfresh : ∀ u, .createUnblock t ∉ (k.thread u).stack)
    (hthread : k₀.thread = k.thread) (hready : k₀.readyList = k.readyList)
    (hi : k₀.idleThread = k.idleThread) (hn : k₀.nextThread = k.nextThread) (hcur : k₀.cur = k.cur)
    (hqueue : ∀ q, k₀.queue q = (k.queue q).erase t) : WellFormed (k₀.readied t) where
  placed := h.placed.readied hb hidle hthread hready hi hqueue
  framesOk := by
    have hs : FramesOk (k.setStatus t .ready) :=
      h.framesOk.setStatus .ready (h.framesOk.created_of_status (by rw [hb]; simp)) hfresh
    refine hs.congr ⟨hn, hi, ?_, ?_⟩
    · intro u
      rw [Kernel.readied_status, Kernel.setStatus_status, hthread]
    · intro u
      rw [Kernel.readied_stack, Kernel.setStatus_stack, hthread]
  running u := by
    show _ ↔ u = k₀.cur
    rw [Kernel.readied_status, hthread, hcur]
    split
    · next hu =>
      subst hu
      simp [h.ne_cur_of_blocked hb]
    · exact h.running u

theorem WellFormed.not_fresh_of_waitsIn (hw : k.WaitsIn t q) (u : ThreadId) :
    .createUnblock t ∉ (k.thread u).stack := by
  intro hm
  obtain ⟨-, hhead⟩ := h.framesOk.fresh t (h.framesOk.frames_pos hm)
  obtain ⟨-, c, hc, hq⟩ := hw
  rw [hhead] at hc
  cases hc
  cases hq

theorem WellFormed.queue_unique {q' : Queue} (hq : t ∈ k.queue q) (hq' : t ∈ k.queue q') :
    q = q' := by
  obtain ⟨-, c, hc, hcq⟩ := (h.placed.mem_queue q t).mp hq
  obtain ⟨-, c', hc', hcq'⟩ := (h.placed.mem_queue q' t).mp hq'
  rw [hc] at hc'
  cases hc'
  rw [hcq] at hcq'
  exact Option.some.inj hcq'

theorem WellFormed.queue_erase_head {ts : List ThreadId} {q' : Queue} (hq : k.queue q = t :: ts) :
    (k.queue q').erase t = if q' = q then ts else k.queue q' := by
  split
  · next he =>
    subst he
    rw [hq, List.erase_cons_head]
  · next hne =>
    refine List.erase_of_not_mem fun hm => hne ?_
    exact h.queue_unique hm (by rw [hq]; simp)

end Pintos
