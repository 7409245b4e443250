import Pintos.Properties.WellFormedStep

/-!
# 列の規律

`ready_list`、`sleep_list`、semaphore の `waiters` は、thread の同じ `elem` を使う。
到達可能な状態で、thread の status がどの列に入っているかを決めることを示す。
-/

namespace Pintos

open Infra

/-- `calculate_load_avg` が数えたい thread。idle thread を除く READY と RUNNING である。 -/
def Kernel.countsReady (k : Kernel) (t : ThreadId) : Bool :=
  ((k.thread t).status = .ready ∨ (k.thread t).status = .running) ∧ k.idleThread ≠ some t

/-- thread の status と列の対応。 -/
structure ListDiscipline (k : Kernel) : Prop where
  /-- RUNNING はちょうど一つで、どの列にも無い。 -/
  running : ∃! t, (k.thread t).status = .running
  running_unlisted : ∀ t, (k.thread t).status = .running →
    t ∉ k.readyList ∧ ∀ q, t ∉ k.queue q
  /-- idle 以外の READY は `ready_list` にちょうど一度現れ、ほかの列には無い。 -/
  ready_listed : ∀ t, (k.thread t).status = .ready → k.idleThread ≠ some t →
    k.readyList.count t = 1 ∧ ∀ q, t ∉ k.queue q
  /-- BLOCKED は `ready_list` に無く、待つ列は高々一つで、そこに一度だけ現れる。 -/
  blocked_listed : ∀ t, (k.thread t).status = .blocked →
    t ∉ k.readyList ∧ (∀ q, (k.queue q).count t ≤ 1) ∧
    ∀ q q', t ∈ k.queue q → t ∈ k.queue q' → q = q'
  dying_unlisted : ∀ t, (k.thread t).status = .dying →
    t ∉ k.readyList ∧ ∀ q, t ∉ k.queue q
  /-- `ready_threads` は、idle 以外の READY と RUNNING の数である。 -/
  readyThreads : readyThreads k = ((List.range k.nextThread).filter k.countsReady).length

variable {k : Kernel}

theorem WellFormed.not_mem_ready (h : WellFormed k) {t : ThreadId}
    (ht : (k.thread t).status ≠ .ready) : t ∉ k.readyList :=
  fun hm => ht ((h.placed.mem_ready t).mp hm).1

theorem WellFormed.cur_not_mem_ready (h : WellFormed k) : k.cur ∉ k.readyList := by
  refine h.not_mem_ready ?_
  rw [show (k.thread k.cur).status = .running from h.cur_running]
  simp

theorem WellFormed.not_mem_queue (h : WellFormed k) {t : ThreadId}
    (ht : (k.thread t).status ≠ .blocked) (q : Queue) : t ∉ k.queue q :=
  fun hm => ht ((h.placed.mem_queue q t).mp hm).1

theorem WellFormed.mem_filter_countsReady (h : WellFormed k) (t : ThreadId) :
    t ∈ (List.range k.nextThread).filter k.countsReady ↔
      t ∈ k.readyList ∨ t = k.cur ∧ k.idleThread ≠ some k.cur := by
  simp only [List.mem_filter, List.mem_range, Kernel.countsReady, decide_eq_true_eq,
    h.placed.mem_ready, h.running]
  constructor
  · rintro ⟨-, hr | hc, hi⟩
    · exact .inl ⟨hr, hi⟩
    · exact .inr ⟨hc, hc ▸ hi⟩
  · rintro (⟨hr, hi⟩ | ⟨hc, hi⟩)
    · exact ⟨h.framesOk.created_of_status (by rw [hr]; simp), .inl hr, hi⟩
    · exact ⟨hc ▸ h.cur_created, .inr hc, hc ▸ hi⟩

theorem WellFormed.readyThreads_eq (h : WellFormed k) :
    readyThreads k = ((List.range k.nextThread).filter k.countsReady).length := by
  have hnodup : ((List.range k.nextThread).filter k.countsReady).Nodup :=
    List.nodup_range.filter _
  have hcur : k.cur ∉ k.readyList := h.cur_not_mem_ready
  unfold readyThreads
  split
  · next hi =>
    refine List.Perm.length_eq ((List.perm_ext_iff_of_nodup h.placed.ready_nodup hnodup).mpr ?_)
    intro t
    rw [h.mem_filter_countsReady]
    simp [hi]
  · next hi =>
    have hcons : (k.cur :: k.readyList).Nodup := List.nodup_cons.mpr ⟨hcur, h.placed.ready_nodup⟩
    show (k.cur :: k.readyList).length = _
    refine List.Perm.length_eq ((List.perm_ext_iff_of_nodup hcons hnodup).mpr ?_)
    intro t
    rw [h.mem_filter_countsReady, List.mem_cons]
    simp [hi, or_comm]

theorem WellFormed.listDiscipline (h : WellFormed k) : ListDiscipline k where
  running := ⟨k.cur, h.cur_running, fun t ht => (h.running t).mp ht⟩
  running_unlisted t ht :=
    ⟨h.not_mem_ready (by rw [ht]; simp), h.not_mem_queue (by rw [ht]; simp)⟩
  ready_listed t ht hi := by
    refine ⟨List.count_eq_one_of_mem h.placed.ready_nodup ?_, h.not_mem_queue (by rw [ht]; simp)⟩
    exact (h.placed.mem_ready t).mpr ⟨ht, hi⟩
  blocked_listed t ht := by
    refine ⟨h.not_mem_ready (by rw [ht]; simp), fun q => ?_, fun q q' => h.queue_unique⟩
    exact List.nodup_iff_count_le_one.mp (h.placed.queue_nodup q) t
  dying_unlisted t ht :=
    ⟨h.not_mem_ready (by rw [ht]; simp), h.not_mem_queue (by rw [ht]; simp)⟩
  readyThreads := h.readyThreads_eq

/-- **どの到達可能な状態でも、列の規律が成り立つ。** -/
theorem reachable_listDiscipline (h : Reachable scheduler k) : ListDiscipline k :=
  (reachable_wellFormed h).listDiscipline

/-- `thread_start` の後、READY の thread と眠っている thread がある状態。 -/
theorem reachable_listDiscipline_start : ∃ k, Reachable scheduler k ∧ k.cur = 0 ∧
    k.readyList = [3] ∧ k.sleepList = [2] ∧ ListDiscipline k := by
  obtain ⟨k, hr, hk⟩ := exists_reachable_of_run
    (startEvents ++ createEvents 40 ++ [.resume, .call (.threadSleep 100), .resume] ++
      createEvents 10)
    (reachable_boot .priority false fun _ => 0)
    (p := fun k => k.cur = 0 && k.readyList = [3] && k.sleepList = [2]) (by decide +kernel)
  simp only [Bool.and_eq_true, decide_eq_true_eq] at hk
  exact ⟨k, hr, hk.1.1, hk.1.2, hk.2, reachable_listDiscipline hr⟩

end Pintos
