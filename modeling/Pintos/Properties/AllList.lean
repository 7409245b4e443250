import Pintos.Properties.ListDiscipline

/-!
# `all_list`

`all_list` は、終わっていない thread を一度ずつ並べている。
`thread_foreach` が止まっている thread も含めて全員を回るのは、このためである。

idle thread は数に入れない。`load_avg` なども idle thread を除いて計算する。
-/

namespace Pintos

open Infra

variable {k k' : Kernel}

structure Listed (k : Kernel) : Prop where
  nodup : k.allList.Nodup
  created : ∀ t ∈ k.allList, t < k.nextThread
  mem : ∀ t, (k.thread t).status ≠ .dying → k.idleThread ≠ some t → t ∈ k.allList

section

variable (h : Listed k) (hall : k'.allList = k.allList) (hn : k'.nextThread = k.nextThread)
include h hall hn

theorem Listed.congr (hlive : ∀ t, (k'.thread t).status ≠ .dying → k'.idleThread ≠ some t →
      (k.thread t).status ≠ .dying ∧ k.idleThread ≠ some t) : Listed k' where
  nodup := by rw [hall]; exact h.nodup
  created t ht := by
    rw [hall] at ht
    rw [hn]
    exact h.created t ht
  mem t hst hi := by
    obtain ⟨hst, hi⟩ := hlive t hst hi
    rw [hall]
    exact h.mem t hst hi

theorem Listed.of_status (hi : k'.idleThread = k.idleThread)
    (hstatus : ∀ t, (k'.thread t).status = (k.thread t).status) : Listed k' :=
  h.congr hall hn fun t hst hidle => ⟨hstatus t ▸ hst, hi ▸ hidle⟩

theorem Listed.of_one {t : ThreadId} {st : ThreadStatus} (hi : k'.idleThread = k.idleThread)
    (hstatus : ∀ u, (k'.thread u).status = if u = t then st else (k.thread u).status)
    (ht : k.idleThread ≠ some t → (k.thread t).status ≠ .dying) : Listed k' := by
  refine h.congr hall hn fun u hst hidle => ?_
  rw [hi] at hidle
  rw [hstatus] at hst
  refine ⟨?_, hidle⟩
  split at hst
  · next hu => subst hu; exact ht hidle
  · exact hst

end

theorem Listed.push (h : Listed k) (cs : List Code) : Listed (k.push cs) :=
  h.of_status rfl rfl rfl (k.push_status cs)

theorem Listed.readied (h : Listed k) {t : ThreadId} (ht : (k.thread t).status = .blocked) :
    Listed (k.readied t) :=
  h.of_one rfl rfl rfl (fun u => k.readied_status u t) fun _ => by rw [ht]; simp

theorem Listed.allocated (h : Listed k) (p : Int) : Listed (k.allocated p [.kernelThread]) where
  nodup := by
    refine List.nodup_append.mpr ⟨h.nodup, by simp, ?_⟩
    rintro a ha b hb rfl
    exact Nat.lt_irrefl _ (List.mem_singleton.mp hb ▸ h.created a ha)
  created t ht := by
    rcases List.mem_append.mp ht with ht | ht
    · exact Nat.lt_succ_of_lt (h.created t ht)
    · rw [List.mem_singleton.mp ht]
      exact Nat.lt_succ_self _
  mem t hst hi := by
    by_cases ht : t = k.nextThread
    · exact List.mem_append_right _ (List.mem_singleton.mpr ht)
    · rw [allocated_of_ne ht] at hst
      exact List.mem_append_left _ (h.mem t hst hi)

theorem Action.listed {tr : List Obs} (ha : Action k tr k') (h : Listed k) : Listed k' := by
  have hsame : ∀ {k₁ : Kernel}, k₁.allList = k.allList → k₁.nextThread = k.nextThread →
      k₁.idleThread = k.idleThread → (∀ t, (k₁.thread t).status = (k.thread t).status) →
      Listed k₁ := h.of_status
  cases ha with
  | flags | counters | acquired => exact hsame rfl rfl rfl fun _ => rfl
  | records th hstatus _ _ | resort th hstatus _ => exact hsame rfl rfl rfl hstatus
  | setPriority p => exact hsame rfl rfl rfl fun _ => Kernel.modify_field Thread.status fun _ => rfl
  | aging =>
    have hr := threadAging_recalculated k
    exact hsame (by rw [hr.eq]) (by rw [hr.eq]) (by rw [hr.eq]) hr.status
  | push cs _ => exact h.push cs
  | startIdle hnone _ _ =>
    exact h.congr rfl rfl fun t hst _ => ⟨hst, by rw [hnone]; exact nofun⟩
  | unblock t hb _ => exact h.readied hb
  | awake t ts _ hb =>
    exact (hsame rfl rfl rfl fun _ => rfl : Listed { k with sleepList := ts }).readied hb
  | up s k₁ hwake =>
    have h₁ : Listed k₁ := by
      rcases semaWake_ok hwake with ⟨-, rfl⟩ | ⟨t, ts, -, hb, rfl⟩
      · exact h
      · exact (hsame rfl rfl rfl fun _ => rfl : Listed (k.setSema s _)).readied hb
    exact h₁.of_status rfl rfl rfl fun _ => rfl
  | down s _ _ => exact (hsame rfl rfl rfl fun _ => rfl : Listed (k.setSema s _)).push _
  | create p _ => exact (h.allocated p).push _
  | released l _ _ =>
    exact (hsame rfl rfl rfl fun _ => rfl :
      Listed { k with holder := Function.update k.holder l none }).push _

/-! ## 切り替え -/

theorem Listed.exited (h : Listed k) : Listed k.exited where
  nodup := h.nodup.erase k.cur
  created t ht := h.created t (List.mem_of_mem_erase ht)
  mem t hst hi := by
    rw [k.exited_status] at hst
    split at hst
    · exact absurd rfl hst
    · next hne => exact (List.mem_erase_of_ne hne).mpr (h.mem t hst hi)

theorem Listed.switchTo (h : Listed k) (hp : Placed k) {next : ThreadId} {rest : List ThreadId}
    (hn : k.NextIs next rest) : Listed (k.switchTo next rest) := by
  refine h.of_one rfl rfl rfl (k.switchTo_status · next rest) fun hi => ?_
  rcases hn with hr | ⟨-, -, hidle⟩
  · rw [((hp.mem_ready next).mp (by rw [hr]; simp)).1]
    simp
  · exact absurd hidle hi

theorem Switch.listed (hs : Switch k k') (hw : WellFormed k) (h : Listed k) : Listed k' := by
  have hcur : k.idleThread ≠ some k.cur → (k.thread k.cur).status ≠ .dying := by
    intro _
    rw [show (k.thread k.cur).status = .running from hw.cur_running]
    simp
  cases hs with
  | yield hrun hn =>
    have hleft : Listed k.yielded := h.of_one rfl rfl rfl k.yielded_status hcur
    exact hleft.switchTo (hw.placed.yielded hrun) hn
  | @block c _ _ hrun _ hidle _ _ hn =>
    have hall : (k.waiting c).allList = k.allList := by
      obtain ⟨_, _, he⟩ := k.waiting_eq c
      rw [he]
      rfl
    have hleft : Listed (k.waiting c) :=
      h.of_one hall (by simp) (by simp) (k.waiting_status · c) hcur
    exact hleft.switchTo (hw.placed.waiting hrun hidle) hn
  | exit hrun hn => exact h.exited.switchTo (hw.placed.exited hrun) hn

/-! ## 到達可能な状態 -/

theorem listed_stepRule : StepRule Listed where
  action ha _ h := ha.listed h
  switch hs hw h := hs.listed hw h
  pop _ h := h.of_status rfl rfl rfl (Kernel.pop_status _)

theorem boot_listed (mode : SchedulingMode) (aging : Bool) (values : Nat → BitVec 32) :
    Listed (boot mode aging values) := by
  have hall : (boot mode aging values).allList = [0, 1] := rfl
  refine ⟨?_, fun t ht => ?_, fun t hst _ => ?_⟩
  · rw [hall]
    decide
  · rw [hall] at ht
    show t < 2
    revert t
    decide
  · rw [hall]
    rw [boot_status] at hst
    by_cases h0 : t = 0
    · simp [h0]
    · by_cases h1 : t = 1
      · simp [h1]
      · rw [if_neg h0, if_neg h1] at hst
        exact absurd rfl hst

/-- **どの到達可能な状態でも、idle thread を除いて、終わっていない thread は `all_list` にある。** -/
theorem reachable_listed (h : Reachable scheduler k) : Listed k :=
  listed_stepRule.reachable boot_listed h

/-! ## idle でない thread の数 -/

/-- `idle_thread` でない、終わっていない thread の数。 -/
def Kernel.nonIdle (k : Kernel) : Nat :=
  (k.allList.filter fun t => decide (k.idleThread ≠ some t)).length

theorem readyThreads_le_nonIdle (hw : WellFormed k) (h : Listed k) : readyThreads k ≤ k.nonIdle := by
  rw [hw.readyThreads_eq]
  refine (List.nodup_range.filter _).subperm ?_ |>.length_le
  intro t ht
  obtain ⟨-, ht⟩ := List.mem_filter.mp ht
  obtain ⟨hst, hi⟩ := of_decide_eq_true ht
  refine List.mem_filter.mpr ⟨h.mem t ?_ hi, decide_eq_true hi⟩
  rcases hst with hst | hst <;> rw [hst] <;> simp

end Pintos
