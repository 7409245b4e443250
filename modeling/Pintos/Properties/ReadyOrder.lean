import Pintos.Properties.ListDiscipline

/-!
# `ready_list` の順序

`ready_list` はいつも priority の高い順に並んでいる。
並んだ列の中の thread の priority が変わるのは次の二つの場合だけである。

* `thread_aging` — 全員を一つ上げる。上限で止まっても、順序は逆転しない
* `calculate_priority` — 計算し直した後に `list_sort` する

実行中の thread の priority は変わってよい。列に入っていないからである。
-/

namespace Pintos

open Infra

variable {k k' : Kernel}

def ReadySorted (k : Kernel) : Prop := ListSorted k.cmpPriority k.readyList

theorem cmpPriority_strictWeakOrder (k : Kernel) : StrictWeakOrder k.cmpPriority where
  asymm a b h := by
    simp only [Kernel.cmpPriority, decide_eq_true_eq, decide_eq_false_iff_not] at h ⊢
    omega
  trans a b c h h' := by
    simp only [Kernel.cmpPriority, decide_eq_false_iff_not] at h h' ⊢
    omega

theorem readySorted_iff : ReadySorted k ↔
    k.readyList.Pairwise fun a b => (k.thread b).priority ≤ (k.thread a).priority := by
  unfold ReadySorted ListSorted
  simp only [Kernel.cmpPriority, decide_eq_false_iff_not, gt_iff_lt, Int.not_lt]

theorem ReadySorted.congr (h : ReadySorted k) (hready : k'.readyList = k.readyList)
    (hp : ∀ t ∈ k.readyList, (k'.thread t).priority = (k.thread t).priority) :
    ReadySorted k' := by
  rw [readySorted_iff] at h ⊢
  rw [hready]
  refine h.imp_of_mem fun ha hb hab => ?_
  rw [hp _ ha, hp _ hb]
  exact hab

theorem ReadySorted.readied (h : ReadySorted k) (t : ThreadId) : ReadySorted (k.readied t) := by
  have hs : ListSorted k.cmpPriority (k.readied t).readyList :=
    listInsertOrdered_sorted (cmpPriority_strictWeakOrder k) t h
  have hcmp : (k.readied t).cmpPriority = k.cmpPriority := by
    funext a b
    simp only [Kernel.cmpPriority, Kernel.readied_priority]
  unfold ReadySorted
  rw [hcmp]
  exact hs

theorem readySorted_sort (k : Kernel) : ReadySorted (sortReadyList k) :=
  listSort_sorted (cmpPriority_strictWeakOrder k) k.readyList

/-! ## aging -/

/-- `thread_aging` が一つの thread にすること。 -/
def ageOne (p : Int) : Int := if p < priMax then p + 1 else p

theorem ageOne_mono {p q : Int} (h : p ≤ q) : ageOne p ≤ ageOne q := by
  unfold ageOne
  split <;> split <;> omega

theorem foldl_aging_priority :
    ∀ (ts : List ThreadId) (k : Kernel), ts.Nodup → ∀ u,
      ((ts.foldl (fun k t => k.modify t fun th =>
        if th.priority < priMax then { th with priority := th.priority + 1 } else th) k).thread
          u).priority =
        if u ∈ ts then ageOne (k.thread u).priority else (k.thread u).priority
  | [], _, _, _ => by simp
  | t :: ts, k, hnd, u => by
    obtain ⟨ht, hnd'⟩ := List.nodup_cons.mp hnd
    rw [List.foldl_cons, foldl_aging_priority ts _ hnd' u]
    by_cases hu : u = t
    · subst hu
      rw [if_neg ht, if_pos (by simp), Kernel.modify_thread_self]
      unfold ageOne
      split <;> rfl
    · rw [Kernel.modify_thread_of_ne hu]
      simp [hu]

theorem threadAging_priority (h : WellFormed k) (u : ThreadId) :
    ((threadAging k).thread u).priority =
      if u ∈ k.readyList then ageOne (k.thread u).priority else (k.thread u).priority :=
  foldl_aging_priority k.readyList k h.placed.ready_nodup u

theorem ReadySorted.aging (hs : ReadySorted k) (h : WellFormed k) :
    ReadySorted (threadAging k) := by
  have hready : (threadAging k).readyList = k.readyList := by
    rw [(threadAging_recalculated k).eq]
  rw [readySorted_iff] at hs ⊢
  rw [hready]
  refine hs.imp_of_mem fun ha hb hab => ?_
  rw [threadAging_priority h, threadAging_priority h, if_pos ha, if_pos hb]
  exact ageOne_mono hab

/-! ## 基本操作と切り替え -/

theorem Action.readySorted {tr : List Obs} (ha : Action k tr k') (h : WellFormed k)
    (hs : ReadySorted k) : ReadySorted k' := by
  have hsame : k'.readyList = k.readyList → (∀ t, (k'.thread t).priority = (k.thread t).priority) →
      ReadySorted k' := fun hready hp => hs.congr hready fun t _ => hp t
  cases ha with
  | flags | counters | startIdle | acquired => exact hsame rfl fun _ => rfl
  | records th _ _ hp => exact hsame rfl hp
  | resort th _ _ => exact readySorted_sort _
  | setPriority p =>
    refine hs.congr rfl fun t ht => ?_
    have hne : t ≠ k.cur := by
      rintro rfl
      exact h.cur_not_mem_ready ht
    rw [Kernel.modify_thread_of_ne hne]
  | aging => exact hs.aging h
  | push cs _ => exact hsame rfl fun t => k.push_priority cs t
  | unblock t _ _ => exact hs.readied t
  | awake t ts _ _ => exact ReadySorted.readied (k := { k with sleepList := ts }) hs t
  | up s k₁ hw =>
    have hk₁ : ReadySorted k₁ := by
      rcases semaWake_ok hw with ⟨-, rfl⟩ | ⟨t, ts, -, -, rfl⟩
      · exact hs
      · exact ReadySorted.readied (k := k.setSema s _) hs t
    exact hk₁.congr rfl fun _ _ => rfl
  | down s _ _ => exact hsame rfl fun t => Kernel.push_priority (k.setSema s _) _ t
  | create p _ =>
    refine hs.congr rfl fun t ht => ?_
    have hcreated : t < k.nextThread := by
      refine h.framesOk.created_of_status ?_
      rw [((h.placed.mem_ready t).mp ht).1]
      simp
    refine (Kernel.push_priority (k.allocated p [.kernelThread]) _ t).trans ?_
    rw [allocated_of_ne (Nat.ne_of_lt hcreated)]
  | released l _ _ =>
    exact hsame rfl fun t =>
      Kernel.push_priority { k with holder := Function.update k.holder l none } _ t

theorem ReadySorted.yielded (hs : ReadySorted k) : ReadySorted k.yielded := by
  have hcmp : k.yielded.cmpPriority = k.cmpPriority := by
    funext a b
    simp only [Kernel.cmpPriority, Kernel.yielded_priority]
  unfold ReadySorted
  rw [hcmp]
  show ListSorted _ (if _ then _ else _)
  split
  · exact hs
  · exact listInsertOrdered_sorted (cmpPriority_strictWeakOrder k) k.cur hs

theorem ReadySorted.waiting (hs : ReadySorted k) (c : Code) : ReadySorted (k.waiting c) :=
  hs.congr (k.waiting_readyList c) fun t _ => k.waiting_priority t c

theorem ReadySorted.exited (hs : ReadySorted k) : ReadySorted k.exited :=
  hs.congr rfl fun t _ => k.exited_priority t

theorem ReadySorted.switchTo (hs : ReadySorted k) {next : ThreadId} {rest : List ThreadId}
    (hn : k.NextIs next rest) : ReadySorted (k.switchTo next rest) := by
  have hrest : rest.Pairwise fun a b => (k.thread b).priority ≤ (k.thread a).priority := by
    rw [readySorted_iff] at hs
    rcases hn with hr | ⟨-, rfl, -⟩
    · rw [hr] at hs
      exact (List.pairwise_cons.mp hs).2
    · exact List.Pairwise.nil
  rw [readySorted_iff]
  simp only [Kernel.switchTo_priority]
  exact hrest

theorem Switch.readySorted (hsw : Switch k k') (hs : ReadySorted k) : ReadySorted k' := by
  cases hsw with
  | yield _ hn => exact hs.yielded.switchTo hn
  | block _ _ _ _ _ hn => exact (hs.waiting _).switchTo hn
  | exit _ hn => exact hs.exited.switchTo hn

theorem ReadySorted.pop (hs : ReadySorted k) : ReadySorted k.pop :=
  hs.congr rfl fun t _ => k.pop_priority t

theorem readySorted_stepRule : StepRule ReadySorted where
  action := Action.readySorted
  switch hsw _ hs := hsw.readySorted hs
  pop _ hs := hs.pop

theorem Actions.readySorted {tr : List Obs} (ha : Actions k tr k') (h : WellFormed k)
    (hs : ReadySorted k) : ReadySorted k' := readySorted_stepRule.actions ha h hs

theorem reachable_readySorted (h : Reachable scheduler k) : ReadySorted k :=
  readySorted_stepRule.reachable (fun _ _ _ => List.Pairwise.nil) h

theorem ReadySorted.le_head (hs : ReadySorted k) {t u : ThreadId}
    (ht : k.readyList.head? = some t) (hu : u ∈ k.readyList) :
    (k.thread u).priority ≤ (k.thread t).priority := by
  rw [readySorted_iff] at hs
  cases hr : k.readyList with
  | nil => rw [hr] at hu; cases hu
  | cons t' ts =>
    rw [hr] at hs ht hu
    obtain rfl : t' = t := Option.some.inj ht
    rcases List.mem_cons.mp hu with rfl | hu
    · exact Int.le_refl _
    · exact (List.pairwise_cons.mp hs).1 u hu

/--
**到達可能な状態では、`ready_list` は priority の高い順に並んでいて、
`next_thread_to_run` はその中で最大の priority の thread を返す。**

どちらの scheduling mode でも、aging の有無にもよらない。
-/
theorem reachable_ready_order (h : Reachable scheduler k) :
    k.readyList.Pairwise (fun a b => (k.thread b).priority ≤ (k.thread a).priority) ∧
    (k.readyList ≠ [] → ∃ next, (nextThreadToRun k).1 = some next ∧ next ∈ k.readyList ∧
      ∀ t ∈ k.readyList, (k.thread t).priority ≤ (k.thread next).priority) := by
  have hs := reachable_readySorted h
  refine ⟨readySorted_iff.mp hs, fun hne => ?_⟩
  cases hr : k.readyList with
  | nil => exact absurd hr hne
  | cons next ts =>
    refine ⟨next, by rw [nextThreadToRun_cons hr], by simp, fun t ht => ?_⟩
    exact hs.le_head (by rw [hr]; rfl) (hr ▸ ht)

theorem reachable_ready_order_create : ∃ k, Reachable scheduler k ∧ k.readyList = [3, 2] ∧
    ∃ next, (nextThreadToRun k).1 = some next ∧ next ∈ k.readyList ∧
      ∀ t ∈ k.readyList, (k.thread t).priority ≤ (k.thread next).priority := by
  obtain ⟨k, hr, hk⟩ := exists_reachable_of_run
    (startEvents ++ createEvents 10 ++ createEvents 20 ++ [.interrupt .timer])
    (reachable_boot .priority true fun _ => 0)
    (p := fun k => k.readyList = [3, 2]) (by decide +kernel)
  have hl : k.readyList = [3, 2] := of_decide_eq_true hk
  exact ⟨k, hr, hl, (reachable_ready_order hr).2 (by rw [hl]; simp)⟩

end Pintos
