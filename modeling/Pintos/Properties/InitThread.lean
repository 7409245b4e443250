import Pintos.Properties.AllList
import Pintos.Properties.PreemptionStep
import Pintos.Properties.Sleep

/-!
# `init_thread` の途中に割り込みが入る実行
-/

namespace Pintos

open Infra

variable {k k' : Kernel} {m m' : Creation} {e : CreationEvent} {th : Thread}

/-! ## 一歩の場合分け -/

theorem Creation.inCode_iff : m.inCode = true ↔
    m.kernel.curThread.stack = [] ∧ m.kernel.idleThread ≠ some m.kernel.cur := decide_eq_true_iff

theorem Creation.next_cases (h : m.next e = some m') :
    (∃ ev k', e = .step ev ∧ step m.kernel ev = some k' ∧ m' = { m with kernel := k' }) ∨
    (∃ p, e = .copy p ∧ m.inCode = true ∧ m' = { m with
      making := (m.kernel.cur, initThread m.kernel p [.kernelThread]) :: m.making }) ∨
    (∃ th, e = .insert ∧ m.inCode = true ∧ (m.kernel.cur, th) ∈ m.making ∧
      m' = ⟨m.kernel.inserted th, m.making.filter fun e => e.1 ≠ m.kernel.cur⟩) := by
  cases e with
  | step ev =>
    obtain ⟨-, h⟩ := Option.ite_none_right_eq_some.mp h
    obtain ⟨k', hk, rfl⟩ := Option.map_eq_some_iff.mp h
    exact .inl ⟨ev, k', rfl, hk, rfl⟩
  | copy p =>
    obtain ⟨⟨hcode, -⟩, h⟩ := Option.ite_none_right_eq_some.mp h
    exact .inr (.inl ⟨p, rfl, hcode, (Option.some.inj h).symm⟩)
  | insert =>
    cases hm : m.made with
    | none => simp [next, hm] at h
    | some th =>
      simp only [next, hm, Option.ite_none_right_eq_some, Option.some.injEq] at h
      have hmem : (m.kernel.cur, th) ∈ m.making := by
        obtain ⟨l₁, l₂, he, -⟩ := List.lookup_eq_some_iff.mp hm
        rw [he]
        simp
      exact .inr (.inr ⟨th, rfl, h.1, hmem, h.2.symm⟩)

/-! ## 一歩の `thread_create` との関係 -/

theorem ne_idle_of_create {page : Bool} {p : Int}
    (h : (Code.threadCreate page p).callable k = true) : k.idleThread ≠ some k.cur := by
  intro hi
  rw [Code.callable, if_pos hi] at h
  cases of_decide_eq_true h

/-- 間に何も入らなければ、写して入れるのは一歩の `thread_create` である。 -/
theorem copy_insert {p : Int} (hstack : k.curThread.stack = [])
    (hidle : k.idleThread ≠ some k.cur) (hp : priMin ≤ p ∧ p ≤ priMax) :
    runEvents Creation.next ⟨k, []⟩ [.copy p, .insert] =
      some ⟨k.created p [.kernelThread], []⟩ := by
  have hcode : ∀ ms, Creation.inCode ⟨k, ms⟩ = true := fun _ =>
    Creation.inCode_iff.mpr ⟨hstack, hidle⟩
  simp [runEvents, Creation.next, Creation.made, hcode, hp, Kernel.created_eq]

/-- **`thread_create` を一歩にした実行は、すべて `creation` の実行である。** -/
theorem reachable_creation (h : Reachable scheduler k) : Reachable creation ⟨k, []⟩ := by
  refine h.invariant (I := fun k => Reachable creation ⟨k, []⟩) (fun k h0 => .init ⟨h0, rfl⟩) ?_
  intro k ev k' hr (hstep : step k ev = some k')
  by_cases hatomic : Creation.allows ⟨k, []⟩ ev = true
  · refine hr.next (e := .step ev) ?_
    show (if _ then _ else none) = _
    rw [if_pos hatomic, hstep]
    rfl
  · obtain ⟨p, rfl⟩ : ∃ p, ev = .call (.threadCreate true p) := by
      unfold Creation.allows at hatomic
      split at hatomic
      · exact ⟨_, rfl⟩
      · exact absurd rfl hatomic
      · exact absurd rfl hatomic
    rcases step_cases hstep with ⟨c, hc, hstack, hcall, hx⟩ | ⟨c, cs, hc, -⟩ | ⟨hd, hc, -⟩
    · obtain rfl := Event.call.inj hc
      rcases threadCreate_ok hx with rfl | ⟨hp, rfl⟩
      · exact hr
      · exact runEvents_preserves (fun _ _ _ hs hr => Reachable.next hr hs) _ hr
          (copy_insert hstack (ne_idle_of_create hcall) hp)
    · cases hc
    · cases hc

/-! ## 基本の不変量 -/

/-- 記録の値の違いは、status と `stack` に現れない。 -/
theorem inserted_recalculated (hstatus : th.status = .blocked) (hstack : th.stack = [.kernelThread]) :
    Recalculated (k.created 0 [.kernelThread]) (k.inserted th) := by
  have hsame : ∀ {β : Type} (f : Thread → β), f th = f (initThread k 0 [.kernelThread]) → ∀ t,
      f ((k.enlisted th).thread t) = f ((k.enlisted (initThread k 0 [.kernelThread])).thread t) := by
    intro β f hf t
    by_cases ht : t = k.nextThread
    · subst ht
      simpa [Kernel.enlisted] using hf
    · rw [enlisted_of_ne ht, enlisted_of_ne ht]
  rw [Kernel.created_eq]
  refine ⟨rfl, fun t => ?_, fun t => ?_⟩
  · unfold Kernel.inserted
    rw [Kernel.push_status, Kernel.push_status]
    exact hsame Thread.status (hstatus.trans (initThread_status ..).symm) t
  · unfold Kernel.inserted
    rw [Kernel.push_stack, Kernel.push_stack]
    rw [hsame Thread.stack (hstack.trans (initThread_stack ..).symm) t]
    rfl

/-- scheduler の基本の不変量と、途中の thread の記録。 -/
structure CreationSound (m : Creation) : Prop where
  wellFormed : WellFormed m.kernel
  listed : Listed m.kernel
  sleepSorted : SleepSorted m.kernel
  making : ∀ e ∈ m.making, e.2.status = .blocked ∧ e.2.stack = [.kernelThread]

theorem CreationSound.next (h : CreationSound m) (hs : m.next e = some m') : CreationSound m' := by
  obtain ⟨hw, hl, hsleep, hmaking⟩ := h
  rcases Creation.next_cases hs with ⟨ev, k', rfl, hstep, rfl⟩ | ⟨p, rfl, -, rfl⟩ |
    ⟨th, rfl, hcode, hmem, rfl⟩
  · exact ⟨step_wellFormed hw hstep, listed_stepRule.step hw hstep hl,
      (step_sleepStep hw hsleep hstep).sorted hw hsleep, hmaking⟩
  · refine ⟨hw, hl, hsleep, ?_⟩
    rintro e (_ | ⟨_, he⟩)
    · exact ⟨initThread_status .., initThread_stack ..⟩
    · exact hmaking e he
  · obtain ⟨hstack, hidle⟩ := Creation.inCode_iff.mp hcode
    obtain ⟨hstatus, hframes⟩ := hmaking _ hmem
    have hr := inserted_recalculated (k := m.kernel) hstatus hframes
    have hlike : ¬ m.kernel.IdleLike m.kernel.cur := by
      rintro (hi | hi)
      · exact hidle hi
      · rw [show (m.kernel.thread m.kernel.cur).stack = [] from hstack] at hi
        cases hi
    have hcreate : Action m.kernel [] (m.kernel.created 0 [.kernelThread]) := .create 0 hlike
    exact ⟨hr.wellFormed (hw.created 0 hlike), (hcreate.listed hl).of_status rfl rfl rfl hr.status,
      hsleep.kept (inserted_sleepKept hw.nextThread_not_sleeping th),
      fun e he => hmaking e (List.mem_filter.mp he).1⟩

/-- **`init_thread` の途中に割り込みが入っても、scheduler の基本の不変量は保たれる。** -/
theorem reachable_creationSound (h : Reachable creation m) : CreationSound m := by
  refine h.invariant (fun m₀ h0 => ?_) fun _ _ _ hm hs => hm.next hs
  obtain ⟨hboot, hnone⟩ : IsBoot m₀.kernel ∧ m₀.making = [] := h0
  have hk : Reachable scheduler m₀.kernel := .init hboot
  exact ⟨reachable_wellFormed hk, reachable_listed hk, reachable_sleepSorted hk,
    by rw [hnone]; exact nofun⟩

/-! ## 一歩で変わらないもの -/

theorem CreationSound.schedulingMode (h : CreationSound m) (hs : m.next e = some m') :
    m'.kernel.schedulingMode = m.kernel.schedulingMode := by
  rcases Creation.next_cases hs with ⟨ev, k', rfl, hstep, rfl⟩ | ⟨p, rfl, -, rfl⟩ |
    ⟨th, rfl, -, -, rfl⟩
  · exact step_schedulingMode h.wellFormed hstep
  · rfl
  · rfl

theorem step_ticks {ev : Event} (hw : WellFormed k) (hs : SleepSorted k)
    (h : step k ev = some k') :
    ev = .interrupt .timer ∧ k'.ticks = k.ticks + 1 ∨ k'.ticks = k.ticks := by
  cases step_sleepStep hw hs h with
  | timer k₁ he _ hwoken hkept => exact .inl ⟨he, hkept.ticks.trans hwoken.ticks⟩
  | slept w _ hslept => exact .inr hslept.ticks
  | kept _ hkept => exact .inr hkept.ticks

end Pintos
