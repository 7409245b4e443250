import Pintos.Properties.Condition

/-!
# 条件変数の実行

`cond_wait` を呼んだ順と、`sema_up` された順を観測の列から読み取る。
-/

namespace Pintos.Condition

open Infra Function

/-! ## 観測の列 -/

def waitedSeq (tr : List CondObs) : List Tid :=
  tr.filterMap fun
    | .waited t => some t
    | _ => none

def releasedSeq (tr : List CondObs) : List Tid :=
  tr.filterMap fun
    | .released _ w => some w
    | _ => none

/-- `t` が最後に `cond_wait` を呼んでから、`t` を上げた thread。 -/
def releasers (t : Tid) (tr : List CondObs) : List Tid :=
  tr.foldl (fun us o =>
    match o with
    | .waited u => if u = t then [] else us
    | .released u w => if w = t then us ++ [u] else us
    | _ => us) []

def atCall (t : Tid) (tr : List CondObs) : List Tid :=
  tr.foldl (fun ws o =>
    match o with
    | .called u vs => if u = t then vs else ws
    | _ => ws) []

/-- `t` が最後に呼んでから、`t` が上げた thread。 -/
def picked (t : Tid) (tr : List CondObs) : List Tid :=
  tr.foldl (fun ws o =>
    match o with
    | .called u _ => if u = t then [] else ws
    | .released u w => if u = t then ws ++ [w] else ws
    | _ => ws) []

/-! ## 一歩の働き -/

namespace Pc

/--
lock を持つ thread `t` の位置から見た、`cond_wait` を呼んでまだ上げられていない thread。
`cond->waiters` から取り出した waiter と、まだ入れていない自分を足す。
-/
def pending (t : Tid) (ws : List Tid) : Pc → List Tid
  | .signalUp _ w => w :: ws
  | .waitInit | .waitPush => ws ++ [t]
  | _ => ws

def inWait : Pc → Bool
  | .waitInit | .waitPush | .waitRelease | .lockUp true | .waitDown | .waitBlocked | .waitAcquire
  | .lockDown true | .lockBlocked true | .lockSetHolder true => true
  | _ => false

/-- `cond_signal` か `cond_broadcast` の中。値は `cond_broadcast` の中であることを表す。 -/
def signalling : Pc → Option Bool
  | .signalTest bc | .signalPop bc | .signalUp bc _ => some bc
  | .broadcastTest => some true
  | _ => none

end Pc

/-- `cond_wait` を呼んで、まだ上げられていない thread を、呼んだ順に並べたもの。 -/
def CondState.pending (s : CondState) : List Tid :=
  match s.holder with
  | none => s.waiters
  | some t => (s.pc t).pending t s.waiters

variable {s s' : CondState} {e : CondEvent} {k : Ticket} {tr : List CondObs} {t : Tid} {w : Option Tid}
  {u t : Tid} {p q : Pc} {bc : Bool} {l : List CondObs}

theorem pending_of_holder (h : s.holder = some t) (hpc : s.pc t = p) :
    s.pending = p.pending t s.waiters := by
  rw [CondState.pending, h, ← hpc]

theorem pending_of_free (h : s.holder = none) : s.pending = s.waiters := by
  rw [CondState.pending, h]

theorem pending_setPc (p : Pc) (h : s.holder = some t) :
    (s.setPc t p).pending = p.pending t s.waiters :=
  pending_of_holder h (update_self ..)

theorem pending_update (hpc : s.pc t = q)
    (hs : s'.pc = update s.pc t p) (hh : s'.holder = s.holder)
    (hws : s'.waiters = s.waiters) (hp : ∀ ws, p.pending t ws = q.pending t ws) :
    s'.pending = s.pending := by
  cases hu : s.holder with
  | none => rw [pending_of_free (hh.trans hu), pending_of_free hu, hws]
  | some u =>
    rw [pending_of_holder (hh.trans hu) rfl, pending_of_holder hu rfl, hws, hs]
    by_cases hut : u = t
    · rw [hut, update_self, hpc, hp]
    · rw [update_of_ne hut]

def CondObs.quiet : CondObs → Bool
  | .waited _ | .called _ _ | .released _ _ => false
  | _ => true

/--
一歩が観測に及ぼす働き。

`cond_wait` の中にいる thread は `enter` のほかでは増えず、
`cond_signal` と `cond_broadcast` の中にいる thread は `call` のほかでは増えない。
-/
inductive Effect (s : CondState) (e : CondEvent) (s' : CondState) : Prop
  | enter (t : Tid) (hobs : s.obs e = [.waited t]) (hp : s'.pending = s.pending ++ [t])
      (hin : ∀ u, u ≠ t → (s'.pc u).inWait = true → (s.pc u).inWait = true)
      (hsig : ∀ u, (s'.pc u).signalling = none)
  | call (t : Tid) (hobs : s.obs e = [.called t s.pending]) (hp : s'.pending = s.pending)
      (hin : ∀ u, (s'.pc u).inWait = true → (s.pc u).inWait = true)
      (hsig : ∀ u, u ≠ t → (s'.pc u).signalling = none)
  | up (t w : Tid) (bc : Bool) (hpc : s.pc t = .signalUp bc w)
      (hobs : s.obs e = .released t w :: if bc then [] else [.signalled t])
      (hp : s.pending = w :: s.waiters) (hp' : s'.pending = s.waiters)
      (hin : ∀ u, (s'.pc u).inWait = true → (s.pc u).inWait = true)
      (hsig : ∀ u, (s'.pc u).signalling = if u = t ∧ bc = true then some true else none)
  | quiet (hobs : ∀ o ∈ s.obs e, o.quiet = true) (hp : s'.pending = s.pending)
      (hin : ∀ u, (s'.pc u).inWait = true → (s.pc u).inWait = true)
      (hsig : ∀ u bc, (s'.pc u).signalling = some bc → (s.pc u).signalling = some bc)

theorem LockAt.free_of_carrying (h : LockAt s k) (ht : (s.pc t).role = .carrying) :
    s.holder = none := by
  refine Option.eq_none_iff_forall_not_mem.mpr fun u hu => ?_
  cases ((h.holder u).mp hu).symm.trans ((h.carrying t).mp ht)

theorem role_of_signalling (h : p.signalling = some bc) : p.role = .working := by
  cases p <;> first | rfl | cases h

theorem LockAt.signalling_none (h : LockAt s k) (ht : s.holder = some t) (hu : u ≠ t) :
    (s.pc u).signalling = none := by
  refine Option.eq_none_iff_forall_not_mem.mpr fun bc hbc => hu (Ticket.held.inj ?_)
  exact (h.working u (role_of_signalling hbc)).symm.trans ((h.holder t).mp ht)

theorem LockAt.signalling_update (h : LockAt s k) (ht : s.holder = some t) (p : Pc)
    (u : Tid) : (update s.pc t p u).signalling = if u = t then p.signalling else none := by
  by_cases hu : u = t
  · rw [hu, update_self, if_pos rfl]
  · rw [update_of_ne hu, if_neg hu]
    exact h.signalling_none ht hu

theorem imp_update {f : Pc → Bool} {pc : Tid → Pc} (h : f p = true → f (pc t) = true) (u : Tid) :
    f (update pc t p u) = true → f (pc u) = true := by
  by_cases hu : u = t
  · rw [hu, update_self]
    exact h
  · rw [update_of_ne hu]
    exact id

theorem Effect.of_pc (hpc : s.pc t = q)
    (hs : s'.pc = update s.pc t p) (hobs : ∀ o ∈ s.obs e, o.quiet = true)
    (hp : s'.pending = s.pending) (hin : p.inWait = true → q.inWait = true)
    (hsig : p.signalling = none ∨ p.signalling = q.signalling) : Effect s e s' := by
  refine .quiet hobs hp ?_ ?_
  · rw [hs]
    exact imp_update (by rw [hpc]; exact hin)
  · intro u bc hu
    rw [hs] at hu
    by_cases hut : u = t
    · rw [hut, update_self] at hu
      rcases hsig with hnone | hsame
      · rw [hnone] at hu
        cases hu
      · rw [hut, hpc, ← hsame, hu]
    · rwa [update_of_ne hut] at hu

theorem Effect.wake (h : Effect s e s') (hu : s'.pc u = q)
    (hpend : ∀ ws, p.pending u ws = q.pending u ws) (hin : p.inWait = true → q.inWait = true)
    (hsig : p.signalling = q.signalling) : Effect s e (s'.setPc u p) := by
  have hp' : (s'.setPc u p).pending = s'.pending := pending_update hu rfl rfl rfl hpend
  have hin' : ∀ v, ((s'.setPc u p).pc v).inWait = true → (s'.pc v).inWait = true :=
    imp_update (by rw [hu]; exact hin)
  have hsig' : ∀ v, ((s'.setPc u p).pc v).signalling = (s'.pc v).signalling :=
    apply_update Pc.signalling (hsig.trans (congrArg Pc.signalling hu).symm)
  cases h with
  | enter t hobs hp h₁ h₂ =>
    exact .enter t hobs (hp'.trans hp) (fun v hv h => h₁ v hv (hin' v h))
      fun v => (hsig' v).trans (h₂ v)
  | call t hobs hp h₁ h₂ =>
    exact .call t hobs (hp'.trans hp) (fun v h => h₁ v (hin' v h))
      fun v hv => (hsig' v).trans (h₂ v hv)
  | up t w bc hpc hobs hp hw h₁ h₂ =>
    exact .up t w bc hpc hobs hp (hp'.trans hw) (fun v h => h₁ v (hin' v h))
      fun v => (hsig' v).trans (h₂ v)
  | quiet hobs hp h₁ h₂ =>
    exact .quiet hobs (hp'.trans hp) (fun v h => h₁ v (hin' v h))
      fun v bc h => h₂ v bc ((hsig' v).symm.trans h)

theorem LockAt.signalUp_effect (h : LockAt s k)
    (hpc : s.pc t = .signalUp bc u) (w : Option Tid) (m : Sema) :
    Effect s (.run t w) ((s.setSema u m).setPc t (CondState.afterSignal bc)) := by
  have hh : s.holder = some t := (h.holder t).mpr (h.working t (congrArg Pc.role hpc))
  refine .up t u bc hpc (by cases bc <;> simp [CondState.obs, hpc]) (pending_of_holder hh hpc)
    ((pending_setPc (s := s.setSema u m) _ hh).trans (by cases bc <;> rfl))
    (imp_update (by cases bc <;> exact nofun)) fun v => ?_
  refine (h.signalling_update hh _ v).trans ?_
  cases bc <;> simp [CondState.afterSignal, Pc.signalling]

theorem lockUp_effect {cw : Bool} (hpc : s.pc t = .lockUp cw) (w : Option Tid) : Effect s (.run t w)
      ({ s with lockSema := s.lockSema.up w }.setPc t (CondState.afterUp cw)) :=
  .of_pc hpc rfl (by simp [CondState.obs, hpc])
    (pending_update hpc rfl rfl rfl fun _ => by cases cw <;> rfl)
    (by cases cw <;> exact id) (.inl (by cases cw <;> rfl))

theorem LockAt.call_effect (h : LockAt s k) (hpc : s.pc t = .idle)
    (hh : s.holder = some t) (hobs : s.obs e = [.called t s.waiters])
    (hp : p.pending t s.waiters = s.waiters) (hin : p.inWait = false) :
    Effect s e (s.setPc t p) := by
  have hpend : s.pending = s.waiters := pending_of_holder hh hpc
  refine .call t (by rw [hobs, hpend]) ((pending_setPc p hh).trans (hp.trans hpend.symm))
    (imp_update (by rw [hin]; exact nofun)) fun u hu => ?_
  exact (h.signalling_update hh _ u).trans (if_neg hu)

theorem CondMove.effect (hm : CondMove s e s') (hk : LockAt s k) : Effect s e s' := by
  have hholder : ∀ {t p}, s.pc t = p → p.role = .working → s.holder = some t := by
    rintro t p rfl hp
    exact (hk.holder t).mpr (hk.working t hp)
  cases hm with
  | acquire t hpc _ | tryTake t hpc _ =>
    exact .of_pc hpc rfl (by simp [CondState.obs]) (pending_update hpc rfl rfl rfl fun _ => rfl)
      nofun (.inl rfl)
  | tryFail t => exact .quiet (by simp [CondState.obs]) rfl (fun _ => id) fun _ _ => id
  | release t hpc hh =>
    exact .of_pc hpc rfl (by simp [CondState.obs]) (pending_of_holder hh hpc).symm nofun (.inl rfl)
  | wait t hpc hh =>
    refine .enter t rfl ?_ (fun u hu hin => ?_) fun u => ?_
    · rw [pending_setPc _ hh, pending_of_holder hh hpc]
      rfl
    · rwa [CondState.setPc_pc, update_of_ne hu] at hin
    · refine (hk.signalling_update hh _ u).trans ?_
      split <;> rfl
  | signal t hpc hh | broadcast t hpc hh => exact hk.call_effect hpc hh rfl rfl rfl
  | lockBlock t w cw hpc _ | lockTake t w cw hpc _ =>
    exact .of_pc hpc rfl (by simp [CondState.obs, hpc])
      (pending_update hpc rfl rfl rfl fun _ => rfl) (by cases cw <;> exact id) (.inl rfl)
  | setHolder t w cw hpc =>
    refine .of_pc hpc rfl ?_ ?_ nofun (.inl rfl)
    · cases cw <;> simp [CondState.obs, hpc, CondObs.quiet]
    · rw [pending_of_free (hk.free_of_carrying (congrArg Pc.role hpc))]
      exact pending_setPc (s := { s with holder := some t }) _ rfl
  | lockUp t cw hpc _ => exact lockUp_effect hpc none
  | lockUpWake t u cw cw' hpc hu =>
    have hu' := update_pc_of_ne (r := CondState.afterUp cw) hpc hu nofun
    exact (lockUp_effect hpc (some u)).wake hu' (fun _ => rfl) (by cases cw' <;> exact id) rfl
  | waitInit t w hpc | waitBlock t w hpc _ | waitTake t w hpc _ | waitAcquire t w hpc =>
    exact .of_pc hpc rfl (by simp [CondState.obs, hpc])
      (pending_update hpc rfl rfl rfl fun _ => rfl) (fun _ => rfl) (.inl rfl)
  | waitPush t w hpc =>
    have hh := hholder hpc rfl
    refine .of_pc hpc rfl (by simp [CondState.obs, hpc]) ?_ (fun _ => rfl) (.inl rfl)
    rw [pending_of_holder hh hpc]
    exact pending_setPc (s := { s with waiters := s.waiters ++ [t] }) _ hh
  | waitRelease t w hpc =>
    have hh := hholder hpc rfl
    exact .of_pc hpc rfl (by simp [CondState.obs, hpc]) (pending_of_holder hh hpc).symm
      (fun _ => rfl) (.inl rfl)
  | signalEmpty t w bc hpc hws =>
    refine .of_pc hpc rfl ?_ (pending_update hpc rfl rfl rfl fun _ => by cases bc <;> rfl)
      (by cases bc <;> exact nofun) ?_
    · cases bc <;> simp [CondState.obs, hpc, hws, CondObs.quiet]
    · cases bc
      · exact .inl rfl
      · exact .inr rfl
  | signalFound t w bc hpc hws =>
    exact .of_pc hpc rfl (by cases bc <;> simp [CondState.obs, hpc, hws])
      (pending_update hpc rfl rfl rfl fun _ => rfl) nofun (.inr rfl)
  | signalPop t w bc u ws hpc hws =>
    have hh := hholder hpc rfl
    refine .of_pc hpc rfl (by cases bc <;> simp [CondState.obs, hpc]) ?_ nofun (.inr rfl)
    rw [pending_of_holder hh hpc, hws]
    exact pending_setPc (s := { s with waiters := ws }) _ hh
  | signalUp t bc u hpc hu => exact hk.signalUp_effect hpc none _
  | signalUpWake t bc u hpc hu =>
    have hu' := update_pc_of_ne (r := CondState.afterSignal bc) hpc hu nofun
    exact (hk.signalUp_effect hpc (some u) _).wake hu' (fun _ => rfl) (fun _ => rfl) rfl
  | broadcastDone t w hpc hws =>
    exact .of_pc hpc rfl (by simp [CondState.obs, hpc, hws, CondObs.quiet])
      (pending_update hpc rfl rfl rfl fun _ => rfl) nofun (.inl rfl)
  | broadcastNext t w hpc hws =>
    exact .of_pc hpc rfl (by simp [CondState.obs, hpc, hws])
      (pending_update hpc rfl rfl rfl fun _ => rfl) nofun (.inr rfl)

/-! ## 順序 -/

/-- **`cond_wait` を呼んだ列は、上げられた列に、まだ上げられていない thread をつないだものである。** -/
def InOrder (tr : List CondObs) (s : CondState) : Prop :=
  waitedSeq tr = releasedSeq tr ++ s.pending

theorem seqs_of_quiet (h : ∀ o ∈ l, o.quiet = true) : waitedSeq l = [] ∧ releasedSeq l = [] := by
  constructor
  all_goals
    refine List.filterMap_eq_nil_iff.mpr fun o ho => ?_
    have := h o ho
    cases o <;> first | rfl | cases this

theorem waitedSeq_append (tr tr' : List CondObs) :
    waitedSeq (tr ++ tr') = waitedSeq tr ++ waitedSeq tr' := List.filterMap_append

theorem releasedSeq_append (tr tr' : List CondObs) :
    releasedSeq (tr ++ tr') = releasedSeq tr ++ releasedSeq tr' := List.filterMap_append

theorem Effect.inOrder (hf : Effect s e s') (h : InOrder tr s) : InOrder (tr ++ s.obs e) s' := by
  unfold InOrder at *
  rw [waitedSeq_append, releasedSeq_append, h]
  cases hf with
  | enter t hobs hp | call t hobs hp => simp [hobs, hp, waitedSeq, releasedSeq]
  | up t w bc _ hobs hp hp' => cases bc <;> simp [hobs, hp, hp', waitedSeq, releasedSeq]
  | quiet hobs hp =>
    obtain ⟨hw, hr⟩ := seqs_of_quiet hobs
    rw [hw, hr, hp, List.append_nil, List.append_nil]

/-! ## 上げられたこと -/

theorem foldl_same {β : Type} {f : β → CondObs → β} {b : β}
    (h : ∀ o ∈ l, f b o = b) : l.foldl f b = b := by
  induction l with
  | nil => rfl
  | cons o l ih =>
    rw [List.foldl_cons, h o (List.mem_cons_self ..)]
    exact ih fun o' ho' => h o' (List.mem_cons_of_mem _ ho')

/-- 順序に関わらない観測は、`releasers` も `atCall` も `picked` も変えない。 -/
theorem folds_of_quiet (h : ∀ o ∈ l, o.quiet = true) (t : Tid) (tr : List CondObs) :
    releasers t (tr ++ l) = releasers t tr ∧ atCall t (tr ++ l) = atCall t tr ∧
    picked t (tr ++ l) = picked t tr := by
  unfold releasers atCall picked
  simp only [List.foldl_append]
  refine ⟨foldl_same fun o ho => ?_, foldl_same fun o ho => ?_, foldl_same fun o ho => ?_⟩
  all_goals
    have := h o ho
    cases o <;> first | rfl | cases this

/--
**`cond_wait` の中にいる thread は、待っている間は誰にも上げられておらず、
待ち終えていればちょうど一度上げられている。**
-/
def ReleasedOnce (tr : List CondObs) (s : CondState) : Prop :=
  ∀ t, (s.pc t).inWait = true →
    if t ∈ s.pending then releasers t tr = [] else ∃ u, releasers t tr = [u]

theorem Effect.releasedOnce (hf : Effect s e s') (hw : WaitInv s.sema s.waiters s.view)
    (h : ReleasedOnce tr s) : ReleasedOnce (tr ++ s.obs e) s' := by
  intro v hv
  cases hf with
  | enter t hobs hp hin hsig =>
    rw [hobs, hp]
    by_cases hvt : v = t
    · rw [if_pos (by simp [hvt])]
      simp [releasers, hvt]
    · have hold := h v (hin v hvt hv)
      have hrel : releasers v (tr ++ [.waited t]) = releasers v tr := by
        simp [releasers, Ne.symm hvt]
      simpa [hrel, hvt] using hold
  | call t hobs hp hin hsig =>
    have hrel : releasers v (tr ++ [.called t s.pending]) = releasers v tr := by simp [releasers]
    rw [hobs, hp, hrel]
    exact h v (hin v hv)
  | up t w bc hpc hobs hp hp' hin hsig =>
    have hold := h v (hin v hv)
    rw [hp] at hold
    have hwait := (hw.upping t w (congrArg Pc.view hpc)).2.2
    have hrel : releasers v (tr ++ s.obs e) =
        if w = v then releasers v tr ++ [t] else releasers v tr := by
      rw [hobs]
      cases bc <;> simp [releasers]
    rw [hrel, hp']
    by_cases hvw : v = w
    · subst hvw
      rw [if_pos (by simp)] at hold
      rw [if_neg hwait, if_pos rfl, hold]
      exact ⟨t, rfl⟩
    · rw [if_neg (Ne.symm hvw)]
      simpa [hvw] using hold
  | quiet hobs hp hin hsig =>
    rw [(folds_of_quiet hobs v tr).1, hp]
    exact h v (hin v hv)

/-! ## 呼び出しごとに上げる thread -/

/--
**`cond_signal` か `cond_broadcast` の中では、呼んだときに待っていた thread は、
もう上げた thread に、まだ上げられていない thread をつないだものである。**
`cond_signal` は途中でまだ一つも上げていない。
-/
def PicksInOrder (tr : List CondObs) (s : CondState) : Prop :=
  ∀ t bc, (s.pc t).signalling = some bc →
    atCall t tr = picked t tr ++ s.pending ∧ (bc = false → picked t tr = [])

theorem Effect.picksInOrder (hf : Effect s e s') (h : PicksInOrder tr s) :
    PicksInOrder (tr ++ s.obs e) s' := by
  intro v bc' hv
  cases hf with
  | enter t hobs hp hin hsig =>
    rw [hsig v] at hv
    cases hv
  | call t hobs hp hin hsig =>
    have hvt : v = t := by
      by_contra hne
      rw [hsig v hne] at hv
      cases hv
    subst hvt
    rw [hobs, hp]
    simp [atCall, picked]
  | up t w bc hpc hobs hp hp' hin hsig =>
    rw [hsig v] at hv
    split at hv
    · next hcond =>
      obtain ⟨rfl, rfl⟩ := hcond
      cases hv
      have hold := h v true (by rw [hpc]; rfl)
      rw [hp] at hold
      rw [hobs, hp']
      refine ⟨?_, nofun⟩
      simpa [atCall, picked] using hold.1
    · cases hv
  | quiet hobs hp hin hsig =>
    obtain ⟨-, hcall, hpick⟩ := folds_of_quiet hobs v tr
    rw [hcall, hpick, hp]
    exact h v bc' (hsig v bc' hv)

/-! ## 待つ thread -/

theorem CondInv.mem_pending (h : CondInv s) (ht : Waiting s.view t) :
    t ∈ s.pending ↔ t ∈ s.waiters ∨ ∃ u, s.view u = .upping t := by
  have hupping : ∀ {u}, s.view u = .upping t → ∃ bc, s.pc u = .signalUp bc t := by
    intro u hu
    unfold CondState.view at hu
    cases hpc : s.pc u with
    | lockUp cw => cases cw <;> simp [hpc, Pc.view] at hu
    | signalUp bc w =>
      rw [hpc] at hu
      exact ⟨bc, by rw [View.upping.inj hu]⟩
    | _ => simp [hpc, Pc.view] at hu
  constructor
  · intro hmem
    cases hh : s.holder with
    | none =>
      rw [pending_of_free hh] at hmem
      exact .inl hmem
    | some u =>
      rw [pending_of_holder hh rfl] at hmem
      cases hpc : s.pc u with
      | signalUp bc w =>
        rw [hpc] at hmem
        rcases List.mem_cons.mp hmem with rfl | hmem
        · exact .inr ⟨u, congrArg Pc.view hpc⟩
        · exact .inl hmem
      | waitInit | waitPush =>
        rw [hpc] at hmem
        rcases List.mem_append.mp hmem with hmem | hmem
        · exact .inl hmem
        · rw [List.mem_singleton.mp hmem] at ht
          rcases ht with ht | ht <;> cases (congrArg Pc.view hpc).symm.trans ht
      | _ =>
        rw [hpc] at hmem
        exact .inl hmem
  · rintro (hmem | ⟨u, hu⟩)
    · cases hh : s.holder with
      | none =>
        rw [pending_of_free hh]
        exact hmem
      | some u =>
        rw [pending_of_holder hh rfl]
        unfold Pc.pending
        split <;> simp [hmem]
    · obtain ⟨bc, hpc⟩ := hupping hu
      have hh := h.holder_of_working (congrArg Pc.role hpc)
      rw [pending_of_holder hh hpc]
      exact List.mem_cons_self ..

/-- 待つ thread の semaphore は、上げられるまで 0、上げられてからは 1 である。 -/
theorem CondInv.value_of_waiting (h : CondInv s) (ht : Waiting s.view t) :
    (s.sema t).value = if t ∈ s.pending then 0 else 1 := by
  have hmem := h.mem_pending ht
  split
  · next hp =>
    rcases hmem.mp hp with hws | ⟨u, hu⟩
    · exact (h.wait.listed t hws).2
    · exact (h.wait.upping u t hu).2.1
  · next hp =>
    have hnot := not_or.mp (mt hmem.mpr hp)
    exact (h.wait.released t ht hnot.1 (not_exists.mp hnot.2)).1

theorem CondInv.pending_of_blocked (h : CondInv s) (ht : s.pc t = .waitBlocked) : t ∈ s.pending := by
  have hv : s.view t = .blocked := congrArg Pc.view ht
  by_contra hp
  have hnot := not_or.mp (mt (h.mem_pending (.inr hv)).mpr hp)
  exact (h.wait.released t (.inr hv) hnot.1 (not_exists.mp hnot.2)).2 hv

/-- **`sema_down (&waiter.semaphore)` で block するのは、まだ上げられていないときだけである。** -/
theorem CondInv.waitDown (h : CondInv s) (ht : s.pc t = .waitDown)
    (hs : condSystem.step s (.run t w) s') :
    s'.pc t = if t ∈ s.pending then .waitBlocked else .waitAcquire := by
  have hval := h.value_of_waiting (.inl (congrArg Pc.view ht))
  have hn : s.run w t = some (.ok s') := (step_iff.mp hs).2
  rw [CondState.run, ht] at hn
  cases hn
  unfold CondState.waitDown
  by_cases hp : t ∈ s.pending
  · rw [if_pos (hval.trans (if_pos hp)), if_pos hp]
    exact update_self ..
  · rw [if_neg (by rw [hval, if_neg hp]; decide), if_neg hp]
    exact update_self ..

/-! ## 呼び出しの終わり -/

inductive Completes (s : CondState) : CondEvent → CondObs → Prop
  | signalNone (t : Tid) (w : Option Tid) (hpc : s.pc t = .signalTest false)
      (hws : s.waiters = []) : Completes s (.run t w) (.signalled t)
  | signalOne (t : Tid) (w : Option Tid) (u : Tid) (hpc : s.pc t = .signalUp false u) :
      Completes s (.run t w) (.signalled t)
  | broadcast (t : Tid) (w : Option Tid) (hpc : s.pc t = .broadcastTest) (hws : s.waiters = []) :
      Completes s (.run t w) (.broadcasted t)
  | wait (t : Tid) (w : Option Tid) (hpc : s.pc t = .lockSetHolder true) :
      Completes s (.run t w) (.returned t)

theorem completes_of_mem {o : CondObs} (ho : o ∈ s.obs e) (hq : o.quiet = true) :
    Completes s e o := by
  cases e with
  | call t op =>
    cases op with
    | wait | signal | broadcast =>
      rw [List.mem_singleton.mp ho] at hq
      cases hq
    | _ => cases ho
  | run t w =>
    simp only [CondState.obs] at ho
    split at ho
    · next hpc =>
      split at ho
      · next hws =>
        rw [List.mem_singleton.mp ho]
        exact .signalNone t w hpc hws
      · cases ho
    · next u hpc =>
      rcases List.mem_cons.mp ho with rfl | ho
      · cases hq
      · rw [List.mem_singleton.mp ho]
        exact .signalOne t w u hpc
    · next hpc =>
      rw [List.mem_singleton.mp ho] at hq
      cases hq
    · next hpc =>
      split at ho
      · next hws =>
        rw [List.mem_singleton.mp ho]
        exact .broadcast t w hpc hws
      · cases ho
    · next hpc =>
      rw [List.mem_singleton.mp ho]
      exact .wait t w hpc
    · cases ho

/-- lock を持って呼び出しの中にいる間、呼んだときに待っていた thread は分かっている。 -/
theorem CondInv.atCall_eq (h : CondInv s) (hp : PicksInOrder tr s)
    (hpc : s.pc t = p) (hbc : p.signalling = some bc) :
    atCall t tr = picked t tr ++ p.pending t s.waiters ∧ (bc = false → picked t tr = []) := by
  have hpend := pending_of_holder (h.holder_of_working (by rw [hpc, role_of_signalling hbc])) hpc
  rw [← hpend]
  exact hp t bc (by rw [hpc, hbc])

/-- **`cond_signal` は、呼んだときの先頭だけを上げて終わる。** -/
theorem CondInv.signalled (h : CondInv s) (hp : PicksInOrder tr s) (hobs : .signalled t ∈ s.obs e) :
    picked t (tr ++ s.obs e) = (atCall t (tr ++ s.obs e)).take 1 := by
  cases completes_of_mem hobs rfl with
  | signalNone _ w hpc hws =>
    obtain ⟨hcall, hnone⟩ := h.atCall_eq hp hpc rfl
    have hq : ∀ o ∈ s.obs (.run t w), o.quiet = true := by
      simp [CondState.obs, hpc, hws, CondObs.quiet]
    obtain ⟨-, hcall', hpick'⟩ := folds_of_quiet hq t tr
    rw [hcall', hpick', hcall, hnone rfl, hws]
    rfl
  | signalOne _ w u hpc =>
    obtain ⟨hcall, hnone⟩ := h.atCall_eq hp hpc rfl
    have ho : s.obs (.run t w) = [.released t u, .signalled t] := by simp [CondState.obs, hpc]
    have hcall' : atCall t (tr ++ s.obs (.run t w)) = atCall t tr := by simp [atCall, ho]
    have hpick' : picked t (tr ++ s.obs (.run t w)) = picked t tr ++ [u] := by simp [picked, ho]
    rw [hcall', hpick', hcall, hnone rfl]
    rfl

/-- **`cond_broadcast` は、呼んだときに待っていた thread をすべて順に上げて終わる。** -/
theorem CondInv.broadcasted (h : CondInv s) (hp : PicksInOrder tr s)
    (hobs : .broadcasted t ∈ s.obs e) :
    picked t (tr ++ s.obs e) = atCall t (tr ++ s.obs e) := by
  cases completes_of_mem hobs rfl with
  | broadcast _ w hpc hws =>
    obtain ⟨hcall, -⟩ := h.atCall_eq hp hpc rfl
    have hq : ∀ o ∈ s.obs (.run t w), o.quiet = true := by
      simp [CondState.obs, hpc, hws, CondObs.quiet]
    obtain ⟨-, hcall', hpick'⟩ := folds_of_quiet hq t tr
    rw [hcall', hpick', hcall, hws]
    exact (List.append_nil _).symm

/-- **`cond_wait` は、lock を持って、上げられた後に終わる。** -/
theorem CondInv.returned (h : CondInv s) (hs : condSystem.step s e s')
    (hobs : .returned t ∈ s.obs e) :
    s'.holder = some t ∧ (s.pc t).inWait = true ∧ t ∉ s.pending := by
  cases completes_of_mem hobs rfl with
  | wait _ w hpc =>
    have hn : s.run w t = some (.ok s') := (step_iff.mp hs).2
    rw [CondState.run, hpc] at hn
    cases hn
    obtain ⟨k, hk⟩ := h.lock
    refine ⟨rfl, by rw [hpc]; rfl, fun hp => ?_⟩
    rw [pending_of_free (hk.free_of_carrying (congrArg Pc.role hpc))] at hp
    rcases (h.wait.listed t hp).1 with hv | hv <;> cases (congrArg Pc.view hpc).symm.trans hv

/-! ## 終わること -/

def CondEvent.isRun (t : Tid) : CondEvent → Bool
  | .run u _ => u = t
  | .call _ _ => false

theorem CondMove.frame (hm : CondMove s e s') (hk : LockAt s k) (ht : (s.pc t).role = .working)
    (he : e.isRun t = false) : s'.pc t = s.pc t ∧ s'.waiters = s.waiters := by
  have hne : ∀ {v p}, s.pc v = p → p.role ≠ .working → t ≠ v := by
    rintro v p rfl hp rfl
    exact hp ht
  cases hm with
  | acquire u hpc _ | tryTake u hpc _ | release u hpc _ | wait u hpc _ | signal u hpc _
  | broadcast u hpc _ =>
    exact ⟨update_of_ne (hne hpc nofun) .., rfl⟩
  | tryFail u => exact ⟨rfl, rfl⟩
  | waitPush u w hpc | signalPop u w _ _ _ hpc _ =>
    exact absurd (hk.working_unique (congrArg Pc.role hpc) ht) (of_decide_eq_false he)
  | lockUpWake u v _ _ _ hv | signalUpWake u _ v _ hv =>
    exact ⟨(update_of_ne (hne hv nofun) ..).trans
      (update_of_ne (Ne.symm (of_decide_eq_false he)) ..), rfl⟩
  | _ => exact ⟨update_of_ne (Ne.symm (of_decide_eq_false he)) .., rfl⟩

/-- 一つ上げた後に残る歩数。`n` は残る waiter の数である。 -/
def stepsAfter (bc : Bool) (n : Nat) : Nat := if bc then 4 * n + 1 else 0

/-- `cond_signal` か `cond_broadcast` の中の thread が、終わるまでに進む歩数。 -/
def CondState.remaining (t : Tid) (s : CondState) : Nat :=
  match s.pc t with
  | .signalTest bc => (if s.waiters = [] then 1 else 3) + stepsAfter bc (s.waiters.length - 1)
  | .signalPop bc => 2 + stepsAfter bc (s.waiters.length - 1)
  | .signalUp bc _ => 1 + stepsAfter bc s.waiters.length
  | .broadcastTest => stepsAfter true s.waiters.length
  | _ => 0

def CondObs.completed (bc : Bool) (t : Tid) : CondObs := if bc then .broadcasted t else .signalled t

theorem remaining_afterSignal (hpc : s.pc t = .signalUp bc u)
    (hpc' : s'.pc t = CondState.afterSignal bc) (hws : s'.waiters = s.waiters) :
    .completed bc t ∈ s.obs (.run t w) ∨
    (s'.pc t).signalling = some bc ∧ s'.remaining t + 1 = s.remaining t := by
  cases bc with
  | false => exact .inl (by simp [CondState.obs, hpc, CondObs.completed])
  | true =>
    refine .inr ⟨by rw [hpc']; rfl, ?_⟩
    simp only [CondState.remaining, hpc, hpc', hws, CondState.afterSignal, if_true]
    omega

theorem CondMove.remaining_run (hm : CondMove s (.run t w) s')
    (ht : (s.pc t).signalling = some bc) :
    .completed bc t ∈ s.obs (.run t w) ∨
    (s'.pc t).signalling = some bc ∧ s'.remaining t + 1 = s.remaining t := by
  cases hm with
  | lockBlock _ _ _ hpc _ | lockTake _ _ _ hpc _ | setHolder _ _ _ hpc | lockUp _ _ hpc _
  | lockUpWake _ _ _ _ hpc _ | waitInit _ _ hpc | waitPush _ _ hpc | waitRelease _ _ hpc
  | waitBlock _ _ hpc _ | waitTake _ _ hpc _ | waitAcquire _ _ hpc =>
    rw [hpc] at ht
    cases ht
  | signalEmpty _ _ bc' hpc hws =>
    rw [hpc] at ht
    cases ht
    cases bc
    · exact .inl (by simp [CondState.obs, hpc, hws, CondObs.completed])
    · refine .inr ?_
      simp [CondState.remaining, hpc, hws, CondState.afterSignal, Pc.signalling, stepsAfter]
  | signalFound _ _ bc' hpc hws =>
    rw [hpc] at ht
    cases ht
    refine .inr ?_
    simp [CondState.remaining, hpc, hws, Pc.signalling]
    omega
  | signalPop _ _ bc' u ws hpc hws =>
    rw [hpc] at ht
    cases ht
    refine .inr ?_
    simp [CondState.remaining, hpc, hws, Pc.signalling]
    omega
  | signalUp _ bc' u hpc hu =>
    rw [hpc] at ht
    cases ht
    exact remaining_afterSignal hpc (update_self ..) rfl
  | signalUpWake _ bc' u hpc hu =>
    rw [hpc] at ht
    cases ht
    have hut : t ≠ u := by
      rintro rfl
      cases hpc.symm.trans hu
    exact remaining_afterSignal hpc
      ((update_of_ne hut ..).trans (update_self ..)) rfl
  | broadcastDone _ _ hpc hws =>
    rw [hpc] at ht
    cases ht
    exact .inl (by simp [CondState.obs, hpc, hws, CondObs.completed])
  | broadcastNext _ _ hpc hws =>
    rw [hpc] at ht
    cases ht
    refine .inr ?_
    have := List.length_pos_iff.mpr hws
    simp [CondState.remaining, hpc, hws, Pc.signalling, stepsAfter]
    omega

theorem remaining_pos (ht : (s.pc t).signalling = some bc) : 0 < s.remaining t := by
  unfold CondState.remaining
  cases hpc : s.pc t with
  | signalTest bc' =>
    dsimp only
    split <;> omega
  | signalPop bc' | signalUp bc' u =>
    dsimp only
    omega
  | broadcastTest => exact Nat.succ_pos _
  | _ =>
    rw [hpc] at ht
    cases ht

/--
**`cond_signal` と `cond_broadcast` は終わる。**
ほかの thread がどう交錯しても、呼んだ thread が残りの歩数だけ進めば終わる。
-/
theorem completed_of_remaining : ∀ (es : List CondEvent) {s s' : CondState},
    CondInv s → (s.pc t).signalling = some bc →
    runEvents CondState.disciplinedStep s es = some s' →
    s.remaining t ≤ es.countP (CondEvent.isRun t) →
    .completed bc t ∈ traceEvents CondState.disciplinedStep CondState.obs s es
  | [], s, s', h, ht, hr, hle => absurd (remaining_pos ht) (Nat.not_lt.mpr hle)
  | e :: es, s, s', h, ht, hr, hle => by
    obtain ⟨s₁, hs, hr₁⟩ := Option.bind_eq_some_iff.mp hr
    have hm := step_move h hs
    have hi := hm.inv h
    simp only [traceEvents, hs, List.mem_append]
    rw [List.countP_cons] at hle
    by_cases hrun : e.isRun t = true
    · obtain ⟨w, rfl⟩ : ∃ w, e = .run t w := by
        cases e with
        | call u op => cases hrun
        | run u w => exact ⟨w, by rw [show u = t from of_decide_eq_true hrun]⟩
      rcases hm.remaining_run ht with hdone | ⟨ht', hrem⟩
      · exact .inl hdone
      · rw [if_pos hrun] at hle
        exact .inr (completed_of_remaining es hi ht' hr₁ (by omega))
    · rw [if_neg hrun] at hle
      obtain ⟨k, hk⟩ := h.lock
      obtain ⟨hpc, hws⟩ := hm.frame hk (role_of_signalling ht) (Bool.not_eq_true _ ▸ hrun)
      refine .inr (completed_of_remaining es hi (by rw [hpc]; exact ht) hr₁ ?_)
      rw [CondState.remaining, hpc, hws]
      exact hle

theorem CondInv.exists_step (h : CondInv s) (ht : (s.pc t).signalling = some bc) :
    ∃ w s', condSystem.step s (.run t w) s' := by
  obtain ⟨w, r, hn⟩ : ∃ w r, s.next (.run t w) = some r := by
    cases hpc : s.pc t with
    | signalTest _ | signalPop _ | broadcastTest =>
      exact ⟨none, _, by rw [CondState.next, CondState.run, hpc]⟩
    | signalUp bc' u =>
      have hw : (s.sema u).canWake (s.sema u).waiters.head? = true := by
        cases hws : (s.sema u).waiters <;> simp [Sema.canWake, hws]
      exact ⟨(s.sema u).waiters.head?, Option.isSome_iff_exists.mp
        (by simp [CondState.next, CondState.run, hpc, hw])⟩
    | _ =>
      rw [hpc] at ht
      cases ht
  obtain ⟨s', rfl, -⟩ := run_outcome h hn
  exact ⟨w, s', step_iff.mpr ⟨rfl, hn⟩⟩

/-! ## 実行 -/

structure CondRunInv (tr : List CondObs) (s : CondState) : Prop where
  inOrder : InOrder tr s
  releasedOnce : ReleasedOnce tr s
  picksInOrder : PicksInOrder tr s

theorem run_condRunInv {s₀ : CondState} (h : Run condSystem CondState.obs s₀ tr s) :
    CondRunInv tr s := by
  refine Run.invariant_of (I := CondRunInv) (fun _ => reachable_condInv) ?_ ?_ h
  · rintro ⟨sema, rfl⟩
    exact ⟨rfl, nofun, nofun⟩
  · intro tr s e s' hj hi hs
    obtain ⟨k, hk⟩ := hj.lock
    have hf := (step_move hj hs).effect hk
    exact ⟨hf.inOrder hi.inOrder, hf.releasedOnce hj.wait hi.releasedOnce,
      hf.picksInOrder hi.picksInOrder⟩

/--
**条件変数の正しさ。** 約束を守る thread のどの交錯でも次が成り立つ。

* 上げられる順は、`cond_wait` を呼んだ順である
* `cond_signal` が終わったとき、上げたのは、呼んだときの先頭だけである
* `cond_broadcast` が終わったとき、上げたのは、呼んだときに待っていた thread のすべてである
* `cond_wait` が終わるのは、呼んでからちょうど一度上げられた後で、lock を持っている
* block している thread はまだ上げられておらず、lock を放してから上げられた thread は block しない
* `cond_signal` と `cond_broadcast` の中の thread は進めて、残りの歩数だけ進めば終わる
* 途中の thread が進むとき、検査はどれも通る
-/
theorem condition_variable {s₀ : CondState} (h : Run condSystem CondState.obs s₀ tr s) :
    releasedSeq tr <+: waitedSeq tr ∧
    (∀ e s', condSystem.step s e s' → ∀ t,
      (.signalled t ∈ s.obs e →
        picked t (tr ++ s.obs e) = (atCall t (tr ++ s.obs e)).take 1) ∧
      (.broadcasted t ∈ s.obs e → picked t (tr ++ s.obs e) = atCall t (tr ++ s.obs e)) ∧
      (.returned t ∈ s.obs e → s'.holder = some t ∧ ∃ u, releasers t tr = [u])) ∧
    (∀ t, s.pc t = .waitBlocked → releasers t tr = []) ∧
    (∀ t w s', s.pc t = .waitDown → condSystem.step s (.run t w) s' →
      s'.pc t = if releasers t tr = [] then .waitBlocked else .waitAcquire) ∧
    (∀ t bc, (s.pc t).signalling = some bc →
      (∃ w s', condSystem.step s (.run t w) s') ∧
      ∀ es s', runEvents CondState.disciplinedStep s es = some s' →
        s.remaining t ≤ es.countP (CondEvent.isRun t) →
        .completed bc t ∈ traceEvents CondState.disciplinedStep CondState.obs s es) ∧
    ∀ t w err, s.next (.run t w) ≠ some (.error err) := by
  have hi := reachable_condInv h.reachable
  have hr := run_condRunInv h
  refine ⟨⟨s.pending, hr.inOrder.symm⟩, fun e s' hs t => ⟨?_, ?_, ?_⟩, fun t ht => ?_,
    fun t w s' ht hs => ?_, fun t bc ht => ⟨hi.exists_step ht, fun es s' => ?_⟩,
    fun t w err herr => ?_⟩
  · exact hi.signalled hr.picksInOrder
  · exact hi.broadcasted hr.picksInOrder
  · intro hobs
    obtain ⟨hh, hin, hp⟩ := hi.returned hs hobs
    have hrel := hr.releasedOnce t hin
    rw [if_neg hp] at hrel
    exact ⟨hh, hrel⟩
  · have hrel := hr.releasedOnce t (by rw [ht]; rfl)
    rwa [if_pos (hi.pending_of_blocked ht)] at hrel
  · have hrel := hr.releasedOnce t (by rw [ht]; rfl)
    rw [hi.waitDown ht hs]
    by_cases hp : t ∈ s.pending
    · rw [if_pos hp] at hrel
      rw [if_pos hp, if_pos hrel]
    · rw [if_neg hp] at hrel
      obtain ⟨u, hu⟩ := hrel
      rw [if_neg hp, hu, if_neg nofun]
  · exact completed_of_remaining es hi ht
  · obtain ⟨s', hok, -⟩ := run_outcome hi herr
    cases hok

/-- 1 が lock を放して block する前に、2 が `cond_signal` を呼ぶ実行。 -/
def signalBeforeBlock : List CondEvent :=
  [.call 1 .acquire, .run 1 none, .run 1 none, .call 1 .wait, .run 1 none, .run 1 none,
    .run 1 none, .run 1 none, .call 2 .acquire, .run 2 none, .run 2 none, .call 2 .signal,
    .run 2 none, .run 2 none, .run 2 none]

/-- **その signal は失われない。** -/
theorem condition_variable_not_lost : ∃ s₀ tr s, Run condSystem CondState.obs s₀ tr s ∧
    s.pc 1 = .waitDown ∧ releasers 1 tr = [2] ∧
    ∀ w s', condSystem.step s (.run 1 w) s' → s'.pc 1 = .waitAcquire := by
  have hany : (runEvents CondState.disciplinedStep (.init fun _ => ⟨0, []⟩) signalBeforeBlock).any
      (fun s => s.pc 1 = .waitDown) = true := by decide +kernel
  have htr : releasers 1 (traceEvents CondState.disciplinedStep CondState.obs
      (.init fun _ => ⟨0, []⟩) signalBeforeBlock) = [2] := by decide +kernel
  obtain ⟨s, hs, hpc⟩ := (Option.any_eq_true _ _).mp hany
  have hstart : Run condSystem CondState.obs (.init fun _ => ⟨0, []⟩) [] _ := .init ⟨_, rfl⟩
  have hrun := hstart.events signalBeforeBlock hs
  refine ⟨_, _, s, hrun, of_decide_eq_true hpc, htr, fun w s' hs' => ?_⟩
  rw [(condition_variable hrun).2.2.2.1 1 w s' (of_decide_eq_true hpc) hs', List.nil_append, htr]
  rfl

end Pintos.Condition
