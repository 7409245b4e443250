import Pintos.Userprog.FilesysLock

/-!
# file system の層の排他

system call の道は、`filesys_lock` を持っている間だけ層に入り、一度だけ放す（`Legal`）。
だから system call どうしが層の中で重なることは無い。

`load` と `process_exit` は lock を持たずに入るので、層の中の thread と重なりうる。
重ならないのは、lock を持たない thread が一人で層に居る間だけである（`Alone`）。
-/

namespace Pintos.Userprog

open Infra

variable {n : Nat} {s s' : Workers n} {t u : Fin n}

/-! ## 道の規律 -/

/--
道の残りが規律を守る。

`call` は system call であること、`held` は lock を持っていること、
`inside` は層の中に居ることである。
-/
def Legal (call : Bool) : (held inside : Bool) → List Action → Prop
  | held, inside, [] => held = false ∧ inside = false
  | held, inside, .acquire :: rest =>
    call = true ∧ held = false ∧ inside = false ∧ Legal call true false rest
  | held, inside, .enter _ :: rest => inside = false ∧ held = call ∧ Legal call held true rest
  | held, inside, .leave :: rest => inside = true ∧ Legal call held false rest
  | held, inside, .release :: rest => held = true ∧ inside = false ∧ Legal call false false rest

theorem legal_visit {call : Bool} (es : List Entry) {rest : List Action}
    (h : Legal call call false rest) : Legal call call false (visit es ++ rest) := by
  induction es with
  | nil => exact h
  | cons e es ih => exact ⟨rfl, rfl, rfl, ih⟩

theorem legal_locked (es : List Entry) : Legal true false false (locked es) :=
  ⟨rfl, rfl, rfl, legal_visit es ⟨rfl, rfl, rfl, rfl⟩⟩

theorem legal_free (es : List Entry) : Legal false false false (visit es) := by
  have h : Legal false false false (visit es ++ []) := legal_visit es ⟨rfl, rfl⟩
  rwa [List.append_nil] at h

theorem legal_path (op : Op) : Legal op.isCall false false op.path := by
  cases op with
  | create | remove | filesize | seek | tell | close => exact legal_locked _
  | sysOpen found own => cases found <;> exact legal_locked _
  | read file | write file =>
    cases file with
    | false => exact ⟨rfl, rfl⟩
    | true => exact legal_locked _
  | load | processExit => exact legal_free _

theorem count_visit (es : List Entry) {a : Action} (ha : a = .acquire ∨ a = .release) :
    (visit es).count a = 0 := by
  refine List.count_eq_zero.mpr fun hm => ?_
  obtain ⟨e, -, hm⟩ := List.mem_flatMap.mp hm
  rcases ha with rfl | rfl <;> simp at hm

theorem count_locked (es : List Entry) :
    (locked es).count .acquire = 1 ∧ (locked es).count .release = 1 := by
  unfold locked
  constructor
  · simp [count_visit]
  · simp [count_visit]

/-- **lock を取る道は、ちょうど一度取って一度放す。** -/
theorem count_path (op : Op) :
    op.path.count .acquire = op.path.count .release ∧ op.path.count .acquire ≤ 1 := by
  have hlocked : ∀ es, (locked es).count .acquire = (locked es).count .release ∧
      (locked es).count .acquire ≤ 1 := by
    intro es
    rw [(count_locked es).1, (count_locked es).2]
    exact ⟨rfl, Nat.le_refl 1⟩
  have hfree : ∀ es, (visit es).count .acquire = (visit es).count .release ∧
      (visit es).count .acquire ≤ 1 := by
    intro es
    rw [count_visit es (.inl rfl), count_visit es (.inr rfl)]
    exact ⟨rfl, Nat.zero_le 1⟩
  cases op with
  | create | remove | filesize | seek | tell | close => exact hlocked _
  | sysOpen found own => cases found <;> exact hlocked _
  | read file | write file =>
    cases file with
    | false => exact ⟨rfl, Nat.zero_le 1⟩
    | true => exact hlocked _
  | load | processExit => exact hfree _

/-! ## 一歩 -/

/-- 一歩でできること。 -/
inductive WorkMove (s : Workers n) : WorkEvent n → Workers n → Prop
  | start (t : Fin n) (op : Op) (stage : Stage) (hidle : (s.worker t).path = []) :
      WorkMove s (.start t op)
        (s.setWorker t s.holder { s.worker t with stage := stage, op := op, path := op.path })
  | acquire (t : Fin n) (rest : List Action) (hpath : (s.worker t).path = .acquire :: rest)
      (hfree : s.holder = none) :
      WorkMove s (.advance t) (s.setWorker t (some t) { s.worker t with path := rest })
  | enter (t : Fin n) (e : Entry) (rest : List Action)
      (hpath : (s.worker t).path = .enter e :: rest) :
      WorkMove s (.advance t)
        (s.setWorker t s.holder { s.worker t with path := rest, inside := some e })
  | leave (t : Fin n) (rest : List Action) (hpath : (s.worker t).path = .leave :: rest) :
      WorkMove s (.advance t)
        (s.setWorker t s.holder { s.worker t with path := rest, inside := none })
  | release (t : Fin n) (rest : List Action) (hpath : (s.worker t).path = .release :: rest)
      (hheld : s.holder = some t) :
      WorkMove s (.advance t) (s.setWorker t none { s.worker t with path := rest })

variable {e : WorkEvent n}

theorem workStep_move (h : workStep s e = some s') : WorkMove s e s' := by
  cases e with
  | start t op =>
    obtain ⟨hidle, h⟩ := Option.ite_none_right_eq_some.mp (h : s.start t op = some s')
    obtain ⟨stage, -, rfl⟩ := Option.map_eq_some_iff.mp h
    exact .start t op stage hidle
  | advance t =>
    have h : s.advance t = some s' := h
    unfold Workers.advance at h
    dsimp only at h
    split at h
    · cases h
    · next rest hpath =>
      obtain ⟨hfree, h⟩ := Option.ite_none_right_eq_some.mp h
      cases h
      exact .acquire t rest hpath hfree
    · next e rest hpath =>
      cases h
      exact .enter t e rest hpath
    · next rest hpath =>
      cases h
      exact .leave t rest hpath
    · next rest hpath =>
      obtain ⟨hheld, h⟩ := Option.ite_none_right_eq_some.mp h
      cases h
      exact .release t rest hpath hheld

@[simp] theorem setWorker_holder (o : Option (Fin n)) (w : Worker) :
    (s.setWorker t o w).holder = o := rfl

@[simp] theorem setWorker_self (o : Option (Fin n)) (w : Worker) :
    (s.setWorker t o w).worker t = w := Function.update_self ..

theorem setWorker_of_ne (o : Option (Fin n)) (w : Worker) (h : u ≠ t) :
    (s.setWorker t o w).worker u = s.worker u := Function.update_of_ne h ..

/-! ## lock の規律 -/

/-- どの thread の残りの道も規律を守り、層の中で lock を持つのは system call だけである。 -/
structure Disciplined (s : Workers n) : Prop where
  legal : ∀ t, Legal (s.worker t).op.isCall (decide (s.holder = some t))
    (s.worker t).inside.isSome (s.worker t).path
  guarded : ∀ t, (s.worker t).inside.isSome → (decide (s.holder = some t) = (s.worker t).op.isCall)

theorem disciplined_boot : Disciplined (Workers.boot : Workers n) where
  legal _ := ⟨rfl, rfl⟩
  guarded _ h := nomatch h

theorem Disciplined.setWorker (h : Disciplined s) {o : Option (Fin n)} {w : Worker}
    (hother : ∀ u, u ≠ t → (o = some u ↔ s.holder = some u))
    (hlegal : Legal w.op.isCall (decide (o = some t)) w.inside.isSome w.path)
    (hguarded : w.inside.isSome → decide (o = some t) = w.op.isCall) :
    Disciplined (s.setWorker t o w) where
  legal u := by
    by_cases hu : u = t
    · subst hu
      rw [setWorker_self]
      exact hlegal
    · rw [setWorker_of_ne o w hu, setWorker_holder]
      simpa only [hother u hu] using h.legal u
  guarded u hin := by
    by_cases hu : u = t
    · subst hu
      rw [setWorker_self] at hin ⊢
      exact hguarded hin
    · rw [setWorker_of_ne o w hu] at hin ⊢
      simpa only [setWorker_holder, hother u hu] using h.guarded u hin

theorem Disciplined.step (h : Disciplined s) (hstep : workStep s e = some s') : Disciplined s' := by
  cases workStep_move hstep with
  | start t op stage hidle =>
    have hl := h.legal t
    rw [hidle] at hl
    obtain ⟨hheld, hin⟩ := hl
    refine h.setWorker (fun _ _ => Iff.rfl) ?_ fun hin' => ?_
    · simpa only [hheld, hin] using legal_path op
    · rw [hin] at hin'
      cases hin'
  | acquire t rest hpath hfree =>
    have hl := h.legal t
    rw [hpath] at hl
    obtain ⟨hcall, -, hin, hl⟩ := hl
    refine h.setWorker (fun u hu => ?_) ?_ fun _ => ?_
    · rw [hfree]
      exact iff_of_false (fun he => hu (Option.some.inj he).symm) nofun
    · simpa only [hin, decide_true] using hl
    · simp only [decide_true, hcall]
  | enter t e rest hpath =>
    have hl := h.legal t
    rw [hpath] at hl
    obtain ⟨-, hheld, hl⟩ := hl
    exact h.setWorker (fun _ _ => Iff.rfl) hl fun _ => hheld
  | leave t rest hpath =>
    have hl := h.legal t
    rw [hpath] at hl
    exact h.setWorker (fun _ _ => Iff.rfl) hl.2 nofun
  | release t rest hpath hheld =>
    have hl := h.legal t
    rw [hpath] at hl
    obtain ⟨-, hin, hl⟩ := hl
    refine h.setWorker (fun u hu => ?_) ?_ fun hin' => ?_
    · rw [hheld]
      exact iff_of_false nofun fun he => hu (Option.some.inj he).symm
    · rw [hin, decide_eq_false (nofun : none ≠ some t)]
      exact hl
    · rw [hin] at hin'
      cases hin'

theorem reachable_disciplined (h : Reachable (workers n) s) : Disciplined s := by
  refine Reachable.invariant (I := Disciplined) (fun s hs => ?_) (fun s e s' hs hstep => ?_) h
  · rw [show s = Workers.boot from hs]
    exact disciplined_boot
  · exact hs.step hstep

/-! ## 排他 -/

def AtMostOne (s : Workers n) : Prop :=
  ∀ t u, (s.worker t).inside.isSome → (s.worker u).inside.isSome → t = u

def Action.isEnter : Action → Bool
  | .enter _ => true
  | _ => false

/--
lock を持たない thread は、一人で層に居る。

* lock を持たずに層に入るのは、層に誰も居ないときである
* 層に入るとき、層に居る thread は lock を持っている
-/
def Alone (s : Workers n) : WorkEvent n → Prop
  | .start _ _ => True
  | .advance t => (s.worker t).path.head?.any Action.isEnter = true →
      (s.holder = some t ∨ ∀ u, (s.worker u).inside = none) ∧
      ∀ u, (s.worker u).inside.isSome → s.holder = some u

instance (s : Workers n) : DecidablePred (Alone s)
  | .start _ _ => isTrue trivial
  | .advance _ => inferInstanceAs (Decidable (_ → _))

theorem AtMostOne.mono (h : AtMostOne s)
    (hmono : ∀ u, (s'.worker u).inside.isSome → (s.worker u).inside.isSome) : AtMostOne s' :=
  fun t u ht hu => h t u (hmono t ht) (hmono u hu)

theorem inside_setWorker {o : Option (Fin n)} {w : Worker}
    (hw : w.inside.isSome → (s.worker t).inside.isSome) (u : Fin n)
    (hu : ((s.setWorker t o w).worker u).inside.isSome) : (s.worker u).inside.isSome := by
  by_cases hut : u = t
  · subst hut
    exact hw (by simpa using hu)
  · rwa [setWorker_of_ne o w hut] at hu

/-- **次の一歩で重ならないことは、`Alone` と同じである。** -/
theorem atMostOne_step_iff (hd : Disciplined s) (h : AtMostOne s) (hstep : workStep s e = some s')
    : AtMostOne s' ↔ Alone s e := by
  -- 層に入らない一歩では、どちらも成り立つ
  have hother : ∀ {t a rest w o}, (s.worker t).path = a :: rest → Action.isEnter a = false →
      (w.inside.isSome → (s.worker t).inside.isSome) →
      (AtMostOne (s.setWorker t o w) ↔ Alone s (.advance t)) := by
    intro t a rest w o hpath ha hw
    refine iff_of_true (h.mono (inside_setWorker hw)) fun hen => ?_
    rw [hpath] at hen
    exact nomatch ha.symm.trans hen
  cases workStep_move hstep with
  | start t op stage hidle => exact iff_of_true (h.mono (inside_setWorker id)) trivial
  | acquire t rest hpath hfree | release t rest hpath hheld => exact hother hpath rfl id
  | leave t rest hpath => exact hother hpath rfl nofun
  | enter t e rest hpath =>
    have hl := hd.legal t
    rw [hpath] at hl
    have hout : (s.worker t).inside.isSome = false := hl.1
    constructor
    · -- 入った後は `t` だけが中に居るので、入る前は誰も居ない
      intro hone _
      have hnone : ∀ u, (s.worker u).inside = none := by
        intro u
        by_cases hu : u = t
        · rw [hu]
          exact Option.isNone_iff_eq_none.mp (by simpa using hout)
        · cases hin : (s.worker u).inside with
          | none => rfl
          | some e' =>
            refine absurd (hone u t ?_ ?_) hu
            · rw [setWorker_of_ne _ _ hu, hin]
              rfl
            · rw [setWorker_self]
              rfl
      refine ⟨.inr hnone, fun u hu => ?_⟩
      rw [hnone u] at hu
      cases hu
    · intro halone
      obtain ⟨hheld, hinside⟩ := halone (by rw [hpath]; rfl)
      have hnone : ∀ u, (s.worker u).inside.isSome = false := by
        intro u
        rcases hheld with hheld | hnone
        · -- 中に居る thread も `t` も lock を持つなら、同じ thread である
          cases hin : (s.worker u).inside.isSome with
          | false => rfl
          | true =>
            have hu : t = u := Option.some.inj (hheld.symm.trans (hinside u hin))
            rw [← hu, hout] at hin
            cases hin
        · rw [hnone u]
          rfl
      have hself : ∀ u, ((s.setWorker t s.holder
          { s.worker t with path := rest, inside := some e }).worker u).inside.isSome → u = t := by
        intro u hu
        by_contra hne
        rw [setWorker_of_ne _ _ hne, hnone u] at hu
        cases hu
      exact fun u v hu hv => (hself u hu).trans (hself v hv).symm

/--
**層の中に二つの thread が居ないのは、lock を持たない thread が一人で居るときに限る。**

* どの一歩も `Alone` を満たす実行では、層の中に居る thread は高々一つであり、
  次の一歩で重ならないことは `Alone` と同じである
* どの実行でも、層の中で lock を持っているのは system call の thread だけであり、
  `lock_acquire` と `lock_release` の `ASSERT` は落ちず、道の終わりで lock を持っていない
* lock を取る道は、ちょうど一度取って一度放す
-/
theorem filesys_exclusion (n : Nat) :
    (∀ s, ReachableIf (workers n) Alone s →
      AtMostOne s ∧ ∀ e s', workStep s e = some s' → (AtMostOne s' ↔ Alone s e)) ∧
    (∀ s, Reachable (workers n) s → ∀ t,
      ((s.worker t).inside.isSome → (s.holder = some t ↔ (s.worker t).op.isCall = true)) ∧
      (∀ rest, (s.worker t).path = .acquire :: rest → s.holder ≠ some t) ∧
      (∀ rest, (s.worker t).path = .release :: rest → s.holder = some t) ∧
      ((s.worker t).path = [] → s.holder ≠ some t)) ∧
    ∀ op : Op, op.path.count .acquire = op.path.count .release ∧ op.path.count .acquire ≤ 1 := by
  refine ⟨fun s h => ?_, fun s h t => ?_, count_path⟩
  · have hone : AtMostOne s := by
      refine ReachableIf.invariant_of (I := AtMostOne) (J := Disciplined)
        (fun _ => reachable_disciplined) (fun s hs => ?_) (fun s e s' hd hone halone hstep => ?_) h
      · rw [show s = Workers.boot from hs]
        exact fun _ _ hin => nomatch hin
      · exact (atMostOne_step_iff hd hone hstep).mpr halone
    exact ⟨hone, fun e s' => atMostOne_step_iff (reachable_disciplined h.reachable) hone⟩
  · have hd := reachable_disciplined h
    refine ⟨fun hin => ?_, fun rest hpath => ?_, fun rest hpath => ?_, fun hpath => ?_⟩
    · rw [← hd.guarded t hin, decide_eq_true_eq]
    all_goals
      have hl := hd.legal t
      rw [hpath] at hl
    · exact of_decide_eq_false hl.2.1
    · exact of_decide_eq_true hl.1
    · exact of_decide_eq_false hl.1

def loaded (t : Fin n) : List (WorkEvent n) :=
  .start t (.load (.phdrs [])) :: List.replicate 4 (.advance t)

/-- thread 0 が lock を持って層の中に居る間、thread 1 は lock を待つ。 -/
theorem filesys_exclusion_waiting : ∃ s, ReachableIf (workers 2) Alone s ∧ AtMostOne s ∧
    (s.worker 0).inside = some .fileWrite ∧ workStep s (.advance 1) = none := by
  obtain ⟨s, h, hp⟩ := exists_reachableIf_of_run (f := workStep) (C := Alone)
    (loaded 0 ++ loaded 1 ++
      [.start 0 (.write true), .advance 0, .start 1 (.read true), .advance 0])
    (ReachableIf.init (S := workers 2) (rfl : Workers.boot = Workers.boot))
    (p := fun s => decide ((s.worker 0).inside = some .fileWrite) &&
      (workStep s (.advance 1)).isNone) (by decide +kernel)
  simp only [Bool.and_eq_true, decide_eq_true_eq, Option.isNone_iff_eq_none] at hp
  exact ⟨s, h, (filesys_exclusion 2).1 s h |>.1, hp.1, hp.2⟩

/-- **`file_write` の途中で、別の thread の `load` が `filesys_open` に入る。** -/
theorem exists_two_inside : ∃ s, Reachable (workers 2) s ∧
    (s.worker 0).inside = some .fileWrite ∧ (s.worker 1).inside = some .filesysOpen ∧
    ¬ AtMostOne s := by
  obtain ⟨s, h, hp⟩ := exists_reachable_of_run (f := workStep)
    (loaded 0 ++ [.start 0 (.write true), .advance 0, .advance 0,
      .start 1 (.load (.phdrs [])), .advance 1])
    (ReachableIf.init (S := workers 2) (rfl : Workers.boot = Workers.boot))
    (p := fun s => decide ((s.worker 0).inside = some .fileWrite ∧
      (s.worker 1).inside = some .filesysOpen)) (by decide +kernel)
  obtain ⟨hw, ho⟩ := of_decide_eq_true hp
  refine ⟨s, h, hw, ho, fun hone => ?_⟩
  exact absurd (hone 0 1 (by rw [hw]; rfl) (by rw [ho]; rfl)) (by decide)

end Pintos.Userprog
