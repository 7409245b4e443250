import Pintos.Properties.Userprog.Descriptor
import Pintos.Properties.Userprog.Wait

/-!
# `exit` の後

`exit` に入った process は戻らない。`exit_sema` を上げ、親が居れば `wait_sema` を待ち、
それから `thread_exit` する。`wait_sema` を上げるのは親の `process_wait` だけである。

そこで `exit` に入った process が `all_list` から消えるのは、親が無いか、
親の `wait` がその process の値を持って戻ったときに限る。
待たない親の子は、`exit` の中で止まったまま残る。
-/

namespace Pintos.Userprog

open Infra Procs

variable {s s' : Procs} {t d p : Tid} {a : Act} {tr : List Obs}

/-- `wait_sema` を上げるのは、その子を片付けた親だけである。 -/
theorem Move.waitSema (hm : Move s t a s') (hne : d ≠ t) (hd : d < s.nextTid)
    (hup : ∀ v, (s.proc t).pc ≠ .waitUp d v) : (s'.proc d).waitSema = (s.proc d).waitSema := by
  cases hm with
  | runTaskFail | execFail | waitNone | threadExit => rfl
  | runTask | exec => rw [created_of_ne (Nat.ne_of_lt hd) hne]
  | execDown c | waitDown c => rw [modify_field _ Proc.waitSema rfl, Procs.setPc, modify_of_ne hne]
  | waitUp c status hpc =>
    have hdc : d ≠ c := by
      rintro rfl
      exact hup status hpc
    rw [Procs.setPc, modify_of_ne hne, modify_of_ne hdc]
  | _ => exact congrArg Proc.waitSema (modify_of_ne hne _)

theorem Move.waitSema_pos {v : Int} (hm : Move s t a s') (hne : d ≠ t)
    (hpc : (s.proc t).pc = .waitUp d v) : 0 < (s'.proc d).waitSema := by
  cases hm with
  | waitUp c status hpc' =>
    obtain ⟨rfl, -⟩ := Pc.waitUp.inj (hpc.symm.trans hpc')
    rw [Procs.setPc, modify_of_ne hne, modify_self]
    exact Nat.succ_pos _
  | _ =>
    rw [‹(s.proc t).pc = _›] at hpc
    cases hpc

/-- `exit` を呼んだ thread `d` と親の間。`all_list` から消えた thread は `thread_exit` を済ませている。 -/
structure Parting (tr : List Obs) (s : Procs) (d : Tid) : Prop where
  gone : d ∉ s.allList → (s.proc d).pc = .threadExit
  down : (s.proc d).pc = .exitDown → (s.proc d).parent ≠ none
  met : firstExit d tr ≠ none → (s.proc d).parent ≠ none →
    (handshakes d tr ≠ [] ↔ 0 < (s.proc d).waitSema ∨ (s.proc d).pc = .threadExit)

namespace Parting

theorem handshakes_same (ho : ∀ v, (s.proc t).pc ≠ .waitUp d v) :
    handshakes d (tr ++ obs s (t, a)) = handshakes d tr := by
  rw [handshakes_append, handshakes_obs ho, List.append_nil]

theorem firstExit_same (ho : ∀ status, d = t → (s.proc t).pc ≠ .exitEnter status) :
    firstExit d (tr ++ obs s (t, a)) = firstExit d tr := by
  rw [firstExit_append, firstExit_obs ho, Option.or_none]

/-- `exit` の外に居る thread の、`exit` に入らない一歩。 -/
theorem of_quiet (hl : Account tr s d) (hx : ¬ (s.proc d).pc.exiting)
    (henter : ∀ status, (s.proc d).pc ≠ .exitEnter status) (hd : d ∈ s'.allList)
    (hdown : (s'.proc d).pc ≠ .exitDown) : Parting (tr ++ obs s (d, a)) s' d := by
  refine ⟨fun hgone => absurd hd hgone, fun hpc => absurd hpc hdown, fun hfirst => ?_⟩
  rw [firstExit_same fun status _ => henter status] at hfirst
  exact absurd (hl.fresh hx) hfirst

variable (h : Parting tr s d)
include h

theorem other (hm : Move s t a s') (hd : d < s.nextTid) (hne : d ≠ t) :
    Parting (tr ++ obs s (t, a)) s' d := by
  obtain ⟨_, _, _, hsame⟩ := hm.frame hne hd
  have hpc : (s'.proc d).pc = (s.proc d).pc := by rw [hsame]
  have hparent : (s'.proc d).parent = (s.proc d).parent := by rw [hsame]
  refine ⟨fun hgone => ?_, fun hdown => ?_, fun hfirst hp => ?_⟩
  · exact hpc.trans (h.gone fun hmem => hgone (hm.mem_allList hne hmem))
  · rw [hparent]
    exact h.down (hpc.symm.trans hdown)
  · rw [firstExit_same fun _ hdt => absurd hdt hne] at hfirst
    rw [hparent] at hp
    by_cases hup : ∃ v, (s.proc t).pc = .waitUp d v
    · obtain ⟨v, hup⟩ := hup
      refine iff_of_true ?_ (.inl (hm.waitSema_pos hne hup))
      rw [handshakes_append, (hm.waitUp_cases hup).1]
      simp [handshakes, Obs.handshakeOf]
    · have hup : ∀ v, (s.proc t).pc ≠ .waitUp d v := fun v hv => hup ⟨v, hv⟩
      rw [handshakes_same hup, hm.waitSema hne hd hup, hpc]
      exact h.met hfirst hp

theorem self (hinv : Inv s) (hl : Account tr s d) (hd : d ∈ s.allList) (hm : Move s d a s') :
    Parting (tr ++ obs s (d, a)) s' d := by
  have hup : ∀ v, (s.proc d).pc ≠ .waitUp d v := fun v hv =>
    Nat.lt_irrefl d (hinv.parent_lt d d (hinv.reap d d (by rw [hv]; rfl)).1)
  -- まだ親に知らせていなければ、待ち合わせの跡は無い
  have hnone : (s.proc d).pc.done = false → handshakes d (tr ++ obs s (d, a)) = [] ∧
      (s.proc d).waitSema = 0 := by
    intro hdone
    rw [handshakes_same hup]
    refine ⟨hl.handshakes_eq_nil hdone, ?_⟩
    by_contra hw
    exact nomatch hdone.symm.trans (hinv.done_of_sema (.inr (Nat.pos_of_ne_zero hw)))
  cases hm with
  | exitEnter status hpc =>
    obtain ⟨hhand, hzero⟩ := hnone (by rw [hpc]; rfl)
    refine ⟨fun hgone => absurd hd hgone, ?_, fun _ _ => ?_⟩ <;> rw [modify_self]
    · exact nofun
    · rw [hhand]
      simp [hzero]
  | exitUp hpc =>
    obtain ⟨hhand, hzero⟩ := hnone (by rw [hpc]; rfl)
    refine ⟨fun hgone => absurd hd hgone, ?_, ?_⟩ <;> rw [modify_self]
    · intro hdown hp
      rw [show (s.proc d).parent = none from hp] at hdown
      cases hdown
    · intro _ hp
      rw [hhand]
      simp [hzero, show (s.proc d).parent ≠ none from hp]
  | exitDown hpc hpos =>
    refine ⟨fun hgone => absurd hd hgone, ?_, ?_⟩ <;> rw [modify_self]
    · exact nofun
    · intro hfirst hp
      rw [firstExit_same fun status _ hs => nomatch hpc.symm.trans hs] at hfirst
      rw [handshakes_same hup]
      exact iff_of_true ((h.met hfirst hp).mpr (.inl hpos)) (.inr rfl)
  | threadExit hpc =>
    refine ⟨fun _ => hpc, h.down, fun hfirst hp => ?_⟩
    rw [firstExit_same fun status _ hs => nomatch hpc.symm.trans hs] at hfirst
    rw [handshakes_same hup]
    exact h.met hfirst hp
  | runTaskFail hpc | execFail hpc | waitNone _ hpc =>
    exact of_quiet hl (by rw [hpc]; exact id) (by rw [hpc]; exact nofun) hd
      (by rw [hpc]; exact nofun)
  | runTask hpc | exec hpc =>
    refine of_quiet hl (by rw [hpc]; exact id) (by rw [hpc]; exact nofun)
      (List.mem_append_left _ hd) ?_
    rw [created_self (Nat.ne_of_lt (hinv.lt d hd))]
    exact nofun
  | execDown c hpc | waitDown c hpc =>
    refine of_quiet hl (by rw [hpc]; exact id) (by rw [hpc]; exact nofun) hd ?_
    rw [modify_field _ Proc.pc rfl, setPc_self]
    exact nofun
  | waitMiss c hpc | waitUp c _ hpc =>
    refine of_quiet hl (by rw [hpc]; exact id) (by rw [hpc]; exact nofun) hd ?_
    rw [setPc_self]
    unfold Proc.home
    split <;> exact nofun
  | loadFailed hpc | loadFailedUp hpc | loadUp hpc | waitReap _ hpc =>
    refine of_quiet hl (by rw [hpc]; exact id) (by rw [hpc]; exact nofun) hd ?_
    rw [modify_self]
    exact nofun
  | _ =>
    have hpc := ‹(s.proc d).pc = _›
    refine of_quiet hl (by rw [hpc]; exact id) (by rw [hpc]; exact nofun) hd ?_
    rw [setPc_self]
    exact nofun

end Parting

/-- 親 `p` が居なくなり、`exit` の中で待ち続ける。 -/
structure Abandoned (s : Procs) (t p : Tid) : Prop where
  live : t ∈ s.allList
  pc : (s.proc t).pc = .exitDown
  waitSema : (s.proc t).waitSema = 0
  parent : (s.proc t).parent = some p
  gone : p ∉ s.allList ∧ p < s.nextTid

instance (s : Procs) (t p : Tid) : Decidable (Abandoned s t p) :=
  decidable_of_iff (t ∈ s.allList ∧ (s.proc t).pc = .exitDown ∧ (s.proc t).waitSema = 0 ∧
      (s.proc t).parent = some p ∧ p ∉ s.allList ∧ p < s.nextTid)
    ⟨fun h => ⟨h.1, h.2.1, h.2.2.1, h.2.2.2.1, h.2.2.2.2⟩,
      fun h => ⟨h.live, h.pc, h.waitSema, h.parent, h.gone⟩⟩

theorem Abandoned.step (h : Abandoned s t p) (hinv : Inv s) (he : d ∈ s.allList)
    (hm : Move s d a s') : Abandoned s' t p := by
  have hep : d ≠ p := fun hep => h.gone.1 (hep ▸ he)
  by_cases het : t = d
  · -- `wait_sema` は 0 なので、自分では進めない
    subst het
    have hpc := h.pc
    cases hm with
    | exitDown hpc hpos =>
      rw [h.waitSema] at hpos
      cases hpos
    | _ =>
      rw [‹(s.proc t).pc = _›] at hpc
      cases hpc
  · have hlt := hinv.lt t h.live
    obtain ⟨_, _, _, hsame⟩ := hm.frame het hlt
    refine ⟨hm.mem_allList het h.live, by rw [hsame]; exact h.pc, ?_, by rw [hsame]; exact h.parent,
      ?_, Nat.lt_of_lt_of_le h.gone.2 hm.nextTid_le⟩
    · rw [hm.waitSema het hlt fun v hv => hep ?_]
      · exact h.waitSema
      · exact Option.some.inj ((hinv.reap d t (by rw [hv]; rfl)).1.symm.trans h.parent)
    · rcases hm.nextTid with ⟨-, hsub⟩ | ⟨-, hall, -⟩
      · exact fun hp => h.gone.1 (hsub hp)
      · rw [hall]
        intro hp
        refine (List.mem_append.mp hp).elim h.gone.1 fun hn => ?_
        exact Nat.ne_of_lt h.gone.2 (List.mem_singleton.mp hn)

end Pintos.Userprog
