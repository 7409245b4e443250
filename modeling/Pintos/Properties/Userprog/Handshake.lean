import Pintos.Properties.Userprog.Process

/-!
# 待ち合わせの相手

待ち合わせの semaphore で止まっている thread は、それを上げる相手がまだ居るときだけ先に進める。
`kill` や `setup_user_stack` の `thread_exit` は semaphore を上げず、親の列からも外さないので、
親は壊れた子を待ち続けることがある。

壊す thread と、`exit` で親を待ち始める thread についての条件（`Orderly`）を守る実行では、
待つ相手は必ず居る。条件を破る一歩は、必ず相手の居ない待ちを作る。
-/

namespace Pintos.Userprog

open Infra Procs

variable {s s' : Procs} {t u c : Tid} {a : Act}

/-- **待つ相手が居る。** 生きている thread の子の列には、壊れた thread が無い。 -/
structure Sane (s : Procs) : Prop where
  children : ∀ t ∈ s.allList, ∀ c ∈ (s.proc t).childList, c ∈ s.allList
  /-- `exec` で `load_sema` を待つ親の子は居る。 -/
  load : ∀ t ∈ s.allList, ∀ c, (s.proc t).pc = .execDown c → (s.proc c).loadSema = 0 → c ∈ s.allList
  /-- `process_wait` で `exit_sema` を待つ親の子は居る。 -/
  exit : ∀ t ∈ s.allList, ∀ c, (s.proc t).pc = .waitDown c → (s.proc c).exitSema = 0 → c ∈ s.allList
  /-- `exit` で `wait_sema` を待つ子の親は居る。 -/
  wait : ∀ t ∈ s.allList, ∀ p, (s.proc t).pc = .exitDown → (s.proc t).waitSema = 0 →
    (s.proc t).parent = some p → p ∈ s.allList

def Proc.awaitsParent (p : Proc) : Bool := p.pc = .exitDown ∧ p.waitSema = 0

/--
相手の居ない待ちを作らない一歩。

* 壊す thread は、生きている thread の子の列に無く、その子は `exit` で止まっていない
* `exit_sema` を上げて親を待ち始める thread の親は、まだ居る
-/
def Orderly (s : Procs) (e : Tid × Act) : Prop :=
  match (s.proc e.1).pc, e.2 with
  | .threadExit, .go => ∀ u ∈ s.allList, u ≠ e.1 → e.1 ∉ (s.proc u).childList ∧
      ¬ ((s.proc u).parent = some e.1 ∧ (s.proc u).awaitsParent = true)
  | .exitUp, .go => ∀ p ∈ (s.proc e.1).parent, p ∈ s.allList
  | _, _ => True

instance (s : Procs) (e : Tid × Act) : Decidable (Orderly s e) := by
  unfold Orderly
  split <;> infer_instance

/-! ## 二つの条件に分ける -/

/-- 待つ子は子の列にあるので、列と `wait_sema` だけを見ればよい。 -/
structure Tidy (s : Procs) : Prop where
  children : ∀ t ∈ s.allList, ∀ c ∈ (s.proc t).childList, c ∈ s.allList
  wait : ∀ t ∈ s.allList, (s.proc t).awaitsParent = true → ∀ p ∈ (s.proc t).parent, p ∈ s.allList

theorem awaitsParent_iff {p : Proc} : p.awaitsParent = true ↔ p.pc = .exitDown ∧ p.waitSema = 0 :=
  decide_eq_true_iff

theorem Inv.sane_iff (h : Inv s) : Sane s ↔ Tidy s := by
  constructor
  · intro hs
    refine ⟨hs.children, fun t ht hw p hp => ?_⟩
    obtain ⟨hpc, hzero⟩ := awaitsParent_iff.mp hw
    exact hs.wait t ht p hpc hzero hp
  · intro hs
    refine ⟨hs.children, fun t ht c hpc _ => ?_, fun t ht c hpc _ => ?_, fun t ht p hpc hz hp => ?_⟩
    · exact hs.children t ht c (h.target t c (by rw [hpc]; rfl))
    · exact hs.children t ht c (h.target t c (by rw [hpc]; rfl))
    · exact hs.wait t ht (awaitsParent_iff.mpr ⟨hpc, hz⟩) p hp

namespace Tidy

theorem modify (h : Tidy s) {f : Proc → Proc}
    (hlist : (f (s.proc t)).childList.Sublist (s.proc t).childList)
    (hparent : (f (s.proc t)).parent = (s.proc t).parent)
    (hwait : (f (s.proc t)).awaitsParent = true →
      (s.proc t).awaitsParent = true ∨ ∀ p ∈ (s.proc t).parent, p ∈ s.allList) :
    Tidy (s.modify t f) := by
  refine ⟨modify_rule (P := fun u p => u ∈ s.allList → ∀ c ∈ p.childList, c ∈ s.allList)
      (fun ht c hc => h.children t ht c (hlist.subset hc)) fun u _ => h.children u,
    modify_rule (P := fun u p => u ∈ s.allList → p.awaitsParent = true →
      ∀ q ∈ p.parent, q ∈ s.allList) (fun ht hw => ?_) fun u _ => h.wait u⟩
  rw [hparent]
  exact (hwait hw).elim (h.wait t ht) id

theorem setPc (h : Tidy s) {pc : Pc} (hpc : pc ≠ .exitDown) : Tidy (s.setPc t pc) :=
  h.modify (List.Sublist.refl _) rfl fun hw => absurd (awaitsParent_iff.mp hw).1 hpc

theorem returnHome (h : Tidy s) (p : Proc) : Tidy (s.setPc t p.home) := by
  unfold Proc.home
  split <;> exact h.setPc nofun

theorem created (h : Tidy s) (hinv : Inv s) (ht : t ∈ s.allList) {pc : Pc}
    (hpc : pc ≠ .exitDown) : Tidy (s.created t pc) := by
  have hne : t ≠ s.nextTid := Nat.ne_of_lt (hinv.lt t ht)
  have hmem : ∀ {u}, u ∈ s.allList → u ∈ (s.created t pc).allList := List.mem_append_left _
  have hold : ∀ {u}, u ∈ (s.created t pc).allList → u ≠ s.nextTid → u ∈ s.allList := fun hu hn =>
    (List.mem_append.mp hu).resolve_right fun hl => hn (List.mem_singleton.mp hl)
  refine ⟨created_rule (P := fun u p => u ∈ (s.created t pc).allList → ∀ c ∈ p.childList,
      c ∈ (s.created t pc).allList) hne nofun (fun _ c hc => ?_)
      fun u hun _ hu c hc => hmem (h.children u (hold hu hun) c hc),
    created_rule (P := fun u p => u ∈ (s.created t pc).allList → p.awaitsParent = true →
      ∀ q ∈ p.parent, q ∈ (s.created t pc).allList) hne nofun (fun _ hw => ?_)
      fun u hun _ hu hw q hq => hmem (h.wait u (hold hu hun) hw q hq)⟩
  · rcases List.mem_append.mp hc with hc | hc
    · exact hmem (h.children t ht c hc)
    · exact List.mem_append_right _ hc
  · exact absurd (awaitsParent_iff.mp hw).1 hpc

/-- 壊れた thread を列に持つ thread も、それを待つ子も残っていない。 -/
theorem destroy (h : Tidy s)
    (hfree : ∀ u ∈ s.allList, u ≠ t → t ∉ (s.proc u).childList ∧
      ¬ ((s.proc u).parent = some t ∧ (s.proc u).awaitsParent = true)) (hnd : s.allList.Nodup) :
    Tidy (s.destroy t) := by
  refine ⟨fun u hu c hc => ?_, fun u hu hw p hp => ?_⟩
  · obtain ⟨hut, hlive⟩ := hnd.mem_erase_iff.mp hu
    refine hnd.mem_erase_iff.mpr ⟨?_, h.children u hlive c hc⟩
    rintro rfl
    exact (hfree u hlive hut).1 hc
  · obtain ⟨hut, hlive⟩ := hnd.mem_erase_iff.mp hu
    refine hnd.mem_erase_iff.mpr ⟨?_, h.wait u hlive hw p hp⟩
    rintro rfl
    exact (hfree u hlive hut).2 ⟨hp, hw⟩

theorem move (h : Tidy s) (hinv : Inv s) (ht : t ∈ s.allList) (hm : Move s t a s')
    (ho : Orderly s (t, a)) : Tidy s' := by
  cases hm with
  | runTaskFail | execFail | waitNone => exact h
  | runTask | exec => exact h.created hinv ht nofun
  | finish | loaded | failed | overflow | execFind | execAbsent | execRead | wait | waitSleep
  | waitLookup | exit | badAccess | trap | kill =>
    exact h.setPc nofun
  | waitMiss => exact h.returnHome _
  | loadFailed | loadFailedUp | loadUp | exitEnter | exitDown =>
    exact h.modify (List.Sublist.refl _) rfl nofun
  | waitReap => exact h.modify List.erase_sublist rfl nofun
  | execDown c =>
    have h₁ : Tidy (s.setPc t (.execRead c)) := h.setPc nofun
    exact h₁.modify (List.Sublist.refl _) rfl Or.inl
  | waitDown c =>
    have h₁ : Tidy (s.setPc t (.waitReap c)) := h.setPc nofun
    exact h₁.modify (List.Sublist.refl _) rfl Or.inl
  | waitUp c status hpc hc =>
    have h₁ : Tidy (s.modify c fun q => { q with waitSema := q.waitSema + 1 }) := by
      refine h.modify (List.Sublist.refl _) rfl fun hw => ?_
      exact nomatch (awaitsParent_iff.mp hw).2
    exact h₁.returnHome _
  | exitUp hpc =>
    unfold Orderly at ho
    simp only [hpc] at ho
    exact h.modify (List.Sublist.refl _) rfl fun _ => .inr ho
  | threadExit hpc =>
    unfold Orderly at ho
    simp only [hpc] at ho
    exact h.destroy ho hinv.nodup

end Tidy

/-- **一歩の後に待つ相手が居れば、一歩は `Orderly` である。** -/
theorem Tidy.orderly (h : Tidy s') (hinv : Inv s) {e : Tid × Act} (hstep : step s e = some s') :
    Orderly s e := by
  obtain ⟨t, a⟩ := e
  have hnext : next s t a = some s' := by
    unfold step at hstep
    split at hstep
    · exact hstep
    · cases hstep
  have ht : t ∈ s.allList := (step_move hstep).1
  unfold Orderly
  dsimp only
  split
  · next hpc =>
    obtain rfl : s.destroy t = s' := by simpa only [next, hpc, Option.some.injEq] using hnext
    intro u hu hut
    have hu' : u ∈ (s.destroy t).allList := hinv.nodup.mem_erase_iff.mpr ⟨hut, hu⟩
    refine ⟨fun hc => ?_, fun ⟨hp, hw⟩ => ?_⟩
    · exact hinv.nodup.not_mem_erase (h.children u hu' t hc)
    · exact hinv.nodup.not_mem_erase (h.wait u hu' hw t hp)
  · next hpc =>
    -- まだ `exit_sema` を上げていないので、`wait_sema` は 0 である
    have hzero : (s.proc t).waitSema = 0 := by
      by_contra hw
      have hdone := hinv.done_of_sema (.inr (Nat.pos_of_ne_zero hw))
      rw [hpc] at hdone
      cases hdone
    intro p hp
    have hp : (s.proc t).parent = some p := hp
    have hs' := hnext
    simp only [next, hpc, Option.some.injEq] at hs'
    subst hs'
    refine h.wait t ht (awaitsParent_iff.mpr ⟨?_, ?_⟩) p ?_
    · rw [modify_self]
      exact if_pos (by rw [hp]; exact nofun)
    · rw [modify_self]
      exact hzero
    · rw [modify_self]
      exact hp
  · trivial

theorem tidy_boot : Tidy boot := by
  refine ⟨fun t _ c hc => ?_, fun t _ hw => ?_⟩
  · rcases boot_cases t with ⟨-, h⟩ | ⟨-, h⟩ | h <;> rw [h] at hc
    · rw [List.mem_singleton.mp hc]
      decide
    · cases hc
    · cases hc
  · rcases boot_cases t with ⟨-, h⟩ | ⟨-, h⟩ | h <;> rw [h] at hw <;> cases hw

/-! ## 実行全体 -/

/--
**`Orderly` な一歩だけの実行では、待つ相手がいつも居る。**

そのような状態からの一歩は、`Orderly` であるときに限って待つ相手を残す。
-/
theorem sane_iff_orderly (h : ReachableIf processes Orderly s) :
    Sane s ∧ ∀ e s', step s e = some s' → (Sane s' ↔ Orderly s e) := by
  have hinv := reachable_inv h.reachable
  have htidy : Tidy s := by
    refine ReachableIf.invariant_of (I := Tidy) (J := Inv) (fun _ => reachable_inv) (fun s hi => ?_)
      (fun s e s' hj hi ho hs => hi.move hj (step_move hs).1 (step_move hs).2 ho) h
    obtain rfl : s = boot := hi
    exact tidy_boot
  refine ⟨hinv.sane_iff.mpr htidy, fun e s' hstep => ?_⟩
  have hmove := step_move hstep
  rw [(hinv.move hmove.1 hmove.2).sane_iff]
  exact ⟨fun h' => h'.orderly hinv hstep, fun ho => htidy.move hinv hmove.1 hmove.2 ho⟩

/-- `exit(7)` した子を親が片付け、子が `thread_exit` する。 -/
theorem sane_iff_orderly_reaped : ∃ s, ReachableIf processes Orderly s ∧
    2 ∉ s.allList ∧ (s.proc 0).pc = .main ∧
    (Sane s ∧ ∀ e s', step s e = some s' → (Sane s' ↔ Orderly s e)) := by
  obtain ⟨s, h, hp⟩ := exists_reachableIf_of_run (f := step) (C := Orderly)
    [(0, .runTask true), (2, .load .loaded), (2, .go), (0, .go), (2, .exit 7), (2, .go), (2, .go),
      (0, .go), (0, .go), (0, .go), (2, .go), (2, .go)]
    (ReachableIf.init (S := processes) (rfl : boot = boot))
    (p := fun s => 2 ∉ s.allList ∧ (s.proc 0).pc = .main) (by decide +kernel)
  have hp := of_decide_eq_true hp
  exact ⟨s, h, hp.1, hp.2, sane_iff_orderly h⟩

/-- **親は、例外で壊れた子を待ち続ける。** 子は親の列にも残る。 -/
theorem exists_reachable_lost_child : ∃ s, Reachable processes s ∧ ¬ Sane s := by
  obtain ⟨s, h, hp⟩ := exists_reachable_of_run (f := step)
    [(0, .runTask true), (2, .load .loaded), (2, .go), (0, .go), (2, .trap), (2, .go), (2, .go)]
    (ReachableIf.init (S := processes) (rfl : boot = boot))
    (p := fun s => 0 ∈ s.allList ∧ (s.proc 0).pc = .waitDown 2 ∧ (s.proc 2).exitSema = 0 ∧
      2 ∉ s.allList) (by decide +kernel)
  obtain ⟨hmem, hpc, hzero, hlost⟩ := of_decide_eq_true hp
  exact ⟨s, h, fun hs => hlost (hs.exit 0 hmem 2 hpc hzero)⟩

end Pintos.Userprog
