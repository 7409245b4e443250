import Pintos.Properties.Userprog.Process

/-!
# `wait` が返す値

`exit` に渡した値は、子の `exit_status` と `exit_sema` を通って親に届く。
子ごとに「`exit_sema` を上げた」「親が片付けている」「返した」のどれか一つの跡が高々一つだけ残ることを、
観測の列と合わせた不変量（`Account`）で示す。

壊れた子が列に残ると、列をたどる `wait` は解放した memory を読む。
`exit` と `wait` の呼び出しだけでは thread は壊れないので、
どの thread も列にあるうちは壊されない実行（`Calm`）を考える。
-/

namespace Pintos.Userprog

open Infra Procs

variable {s s' : Procs} {t u c d : Tid} {a : Act} {tr : List Obs}

/-! ## 観測の読み方 -/

def Obs.exitOf (c : Tid) : Obs → Option Int
  | .exitCall t status => if t = c then some status else none
  | _ => none

def firstExit (c : Tid) (tr : List Obs) : Option Int := tr.findSome? (Obs.exitOf c)

def Obs.handshakeOf (c : Tid) : Obs → Option Int
  | .waitReturn _ tid value true => if tid = c then some value else none
  | _ => none

def handshakes (c : Tid) (tr : List Obs) : List Int := tr.filterMap (Obs.handshakeOf c)

theorem firstExit_append (c : Tid) (tr tr' : List Obs) :
    firstExit c (tr ++ tr') = (firstExit c tr).or (firstExit c tr') := List.findSome?_append

theorem handshakes_append (c : Tid) (tr tr' : List Obs) :
    handshakes c (tr ++ tr') = handshakes c tr ++ handshakes c tr' := List.filterMap_append

variable {v : Int}

theorem exitCall_mem_obs {status : Int} (h : Obs.exitCall u status ∈ obs s (t, a)) :
    u = t ∧ (s.proc t).pc = .exitEnter status := by
  unfold obs at h
  dsimp only at h
  repeat' split at h
  all_goals
    simp only [List.mem_singleton, List.not_mem_nil, Obs.exitCall.injEq, reduceCtorEq] at h
  next hpc =>
    obtain ⟨rfl, rfl⟩ := h
    exact ⟨rfl, hpc⟩

theorem waitReturn_mem_obs {tid v : Int} (h : Obs.waitReturn u tid v true ∈ obs s (t, a)) :
    ∃ c : Tid, tid = c ∧ (s.proc t).pc = .waitUp c v := by
  unfold obs at h
  dsimp only at h
  repeat' split at h
  all_goals
    simp only [List.mem_singleton, List.not_mem_nil, Obs.waitReturn.injEq, reduceCtorEq, and_false]
      at h
  next c status hpc =>
    obtain ⟨-, rfl, rfl, -⟩ := h
    exact ⟨c, rfl, hpc⟩

theorem firstExit_obs (h : ∀ status, d = t → (s.proc t).pc ≠ .exitEnter status) :
    firstExit d (obs s (t, a)) = none := by
  refine List.findSome?_eq_none_iff.mpr fun o ho => ?_
  unfold Obs.exitOf
  split
  · refine if_neg fun hd => ?_
    obtain ⟨rfl, hpc⟩ := exitCall_mem_obs ho
    exact h _ hd.symm hpc
  · rfl

theorem handshakes_obs (h : ∀ v, (s.proc t).pc ≠ .waitUp d v) : handshakes d (obs s (t, a)) = [] := by
  refine List.filterMap_eq_nil_iff.mpr fun o ho => ?_
  unfold Obs.handshakeOf
  split
  · refine if_neg fun hd => ?_
    obtain ⟨c, htid, hpc⟩ := waitReturn_mem_obs ho
    exact h _ (Int.ofNat_inj.mp (htid.symm.trans hd) ▸ hpc)
  · rfl

/-! ## 子から見た一歩 -/

variable {f : Proc → Proc}

/-- 子 `d` の終了の知らせに関わらない一歩。 -/
structure Quiet (s s' : Procs) (d : Tid) : Prop where
  exiting : (s.proc d).pc.exiting →
    (s'.proc d).pc.exiting ∧ (s'.proc d).exitStatus = (s.proc d).exitStatus
  done : (s.proc d).pc.done = true → (s'.proc d).pc.done = true
  sema : (s'.proc d).exitSema = (s.proc d).exitSema
  up : (s'.proc d).pc = .exitUp → (s.proc d).pc = .exitUp
  reaps : ∀ u, (s'.proc u).pc.reaps d → (s'.proc u).pc = (s.proc u).pc
  list : ∀ u, d ∈ (s'.proc u).childList → d ∈ (s.proc u).childList

namespace Quiet

theorem refl (s : Procs) (d : Tid) : Quiet s s d :=
  ⟨fun h => ⟨h, rfl⟩, id, rfl, id, fun _ _ => rfl, fun _ => id⟩

/-- thread `t` だけが変わる。`own` は `t` が `d` のときだけ要る。 -/
theorem modify (own : d = t → ((s.proc t).pc.exiting → (f (s.proc t)).pc.exiting ∧
      (f (s.proc t)).exitStatus = (s.proc t).exitStatus) ∧
      ((s.proc t).pc.done = true → (f (s.proc t)).pc.done = true) ∧
      (f (s.proc t)).exitSema = (s.proc t).exitSema ∧
      ((f (s.proc t)).pc = .exitUp → (s.proc t).pc = .exitUp))
    (reaps : (f (s.proc t)).pc.reaps d → (f (s.proc t)).pc = (s.proc t).pc)
    (list : d ∈ (f (s.proc t)).childList → d ∈ (s.proc t).childList) :
    Quiet s (s.modify t f) d := by
  obtain ⟨hexiting, hdone, hsema, hup⟩ := modify_rule (f := f) (P := fun u p => d = u →
    ((s.proc u).pc.exiting → p.pc.exiting ∧ p.exitStatus = (s.proc u).exitStatus) ∧
    ((s.proc u).pc.done = true → p.pc.done = true) ∧ p.exitSema = (s.proc u).exitSema ∧
    (p.pc = .exitUp → (s.proc u).pc = .exitUp)) own
    (fun _ _ _ => ⟨fun h => ⟨h, rfl⟩, id, rfl, id⟩) d rfl
  exact ⟨hexiting, hdone, hsema, hup,
    modify_rule (P := fun u p => p.pc.reaps d → p.pc = (s.proc u).pc) reaps fun _ _ _ => rfl,
    modify_rule (P := fun u p => d ∈ p.childList → d ∈ (s.proc u).childList) list fun _ _ => id⟩

theorem own (hx : ¬ (s.proc t).pc.exiting) (hsema : (f (s.proc t)).exitSema = (s.proc t).exitSema)
    (hup : (f (s.proc t)).pc ≠ .exitUp) (hreaps : ¬ (f (s.proc t)).pc.reaps d)
    (hlist : (f (s.proc t)).childList = (s.proc t).childList) : Quiet s (s.modify t f) d :=
  modify (fun _ => ⟨fun h => absurd h hx, fun h => absurd (Pc.exiting_of_done h) hx, hsema,
    fun h => absurd h hup⟩) (fun h => absurd h hreaps) fun h => hlist ▸ h

theorem returnHome (hx : ¬ (s.proc t).pc.exiting) (p : Proc) : Quiet s (s.setPc t p.home) d := by
  obtain ⟨-, hreaps, -⟩ := Pc.plain_spec (Pc.plain_home p).1
  refine own hx rfl ?_ (hreaps d) rfl
  dsimp only
  unfold Proc.home
  split <;> exact nofun

theorem trans {s₁ : Procs} (h : Quiet s s₁ d) (h' : Quiet s₁ s' d) : Quiet s s' d where
  exiting hx := ⟨(h'.exiting (h.exiting hx).1).1,
    (h'.exiting (h.exiting hx).1).2.trans (h.exiting hx).2⟩
  done hd := h'.done (h.done hd)
  sema := h'.sema.trans h.sema
  up hk := h.up (h'.up hk)
  reaps u hr := (h'.reaps u hr).trans (h.reaps u (h'.reaps u hr ▸ hr))
  list u hd := h.list u (h'.list u hd)

theorem created (hd : d < s.nextTid) (ht : t < s.nextTid) (hx : ¬ (s.proc t).pc.exiting) {pc : Pc}
    (hup : pc ≠ .exitUp) (hreaps : ¬ pc.reaps d) : Quiet s (s.created t pc) d := by
  have hne := Nat.ne_of_lt ht
  obtain ⟨hexiting, hdone, hsema, hup'⟩ := created_rule (q := pc) (P := fun u p => d = u →
    ((s.proc u).pc.exiting → p.pc.exiting ∧ p.exitStatus = (s.proc u).exitStatus) ∧
    ((s.proc u).pc.done = true → p.pc.done = true) ∧ p.exitSema = (s.proc u).exitSema ∧
    (p.pc = .exitUp → (s.proc u).pc = .exitUp)) hne (fun h => absurd h (Nat.ne_of_lt hd))
    (fun _ => ⟨fun h => absurd h hx, fun h => absurd (Pc.exiting_of_done h) hx, rfl,
      fun h => absurd h hup⟩)
    (fun _ _ _ _ => ⟨fun h => ⟨h, rfl⟩, id, rfl, id⟩) d rfl
  refine ⟨hexiting, hdone, hsema, hup', ?_, ?_⟩
  · exact created_rule (P := fun u p => p.pc.reaps d → p.pc = (s.proc u).pc) hne
      (fun hr => nomatch hr) (fun hr => absurd hr hreaps) fun _ _ _ _ => rfl
  · refine created_rule (P := fun u p => d ∈ p.childList → d ∈ (s.proc u).childList) hne
      (fun hr => nomatch hr) (fun hm => ?_) fun _ _ _ => id
    exact (List.mem_append.mp hm).resolve_right fun hl =>
      Nat.ne_of_lt hd (List.mem_singleton.mp hl)

end Quiet

/-- 子 `d` の終了の知らせを一つ進める一歩。 -/
inductive Signal (s : Procs) (t : Tid) (d : Tid) : Procs → Prop
  | enter (status : Int) (hd : d = t) (hpc : (s.proc t).pc = .exitEnter status) :
      Signal s t d (s.modify t fun p => { p with exitStatus := status, pc := .exitUp })
  | up (hd : d = t) (hpc : (s.proc t).pc = .exitUp) :
      Signal s t d (s.modify t fun p =>
        { p with
          exitSema := p.exitSema + 1
          pc := if p.parent ≠ none then .exitDown else .threadExit })
  | down (hpc : (s.proc t).pc = .waitDown d) (hpos : 0 < (s.proc d).exitSema) :
      Signal s t d
        ((s.setPc t (.waitReap d)).modify d fun q => { q with exitSema := q.exitSema - 1 })
  | reap (hpc : (s.proc t).pc = .waitReap d) :
      Signal s t d (s.modify t fun p =>
        { p with childList := p.childList.erase d, pc := .waitUp d (s.proc d).exitStatus })

theorem Move.quiet_or_signal (hinv : Inv s) (ht : t ∈ s.allList) (hm : Move s t a s')
    (hd : d < s.nextTid) : Quiet s s' d ∨ Signal s t d s' := by
  have hx : ∀ {pc}, (s.proc t).pc = pc → ¬ pc.exiting → ¬ (s.proc t).pc.exiting :=
    fun hpc hn => hpc ▸ hn
  cases hm with
  | runTaskFail | execFail | waitNone => exact .inl (Quiet.refl s d)
  | threadExit =>
    exact .inl ⟨fun h => ⟨h, rfl⟩, id, rfl, id, fun _ _ => rfl, fun _ => id⟩
  | runTask hpc | exec hpc =>
    exact .inl (Quiet.created hd (hinv.lt t ht) (hx hpc id) nofun id)
  | exitDown hpc =>
    exact .inl (Quiet.modify (fun _ => ⟨fun _ => ⟨trivial, rfl⟩, fun _ => rfl, rfl, nofun⟩) nofun id)
  | execDown c hpc =>
    have h₁ : Quiet s (s.setPc t (.execRead c)) d := Quiet.own (hx hpc id) rfl nofun id rfl
    exact .inl (h₁.trans (Quiet.modify (fun _ => ⟨fun h => ⟨h, rfl⟩, id, rfl, id⟩) (fun _ => rfl) id))
  | waitDown c hpc hc hpos =>
    by_cases hdc : d = c
    · subst hdc
      exact .inr (.down hpc hpos)
    · have h₁ : Quiet s (s.setPc t (.waitReap c)) d :=
        Quiet.own (hx hpc id) rfl nofun (Ne.symm hdc) rfl
      exact .inl (h₁.trans (Quiet.modify (fun h => absurd h hdc) (fun _ => rfl) id))
  | waitReap c hpc =>
    by_cases hdc : d = c
    · subst hdc
      exact .inr (.reap hpc)
    · refine .inl (Quiet.modify (fun _ => ⟨fun h => absurd h (hx hpc id), fun h => ?_, rfl, nofun⟩)
        (fun hr => absurd (Eq.symm hr) hdc) List.mem_of_mem_erase)
      exact absurd (Pc.exiting_of_done h) (hx hpc id)
  | waitUp c status hpc =>
    have h₁ : Quiet s (s.modify c fun q => { q with waitSema := q.waitSema + 1 }) d :=
      Quiet.modify (fun _ => ⟨fun h => ⟨h, rfl⟩, id, rfl, id⟩) (fun _ => rfl) id
    refine .inl (h₁.trans (Quiet.returnHome ?_ _))
    rw [modify_field s Proc.pc rfl]
    exact hx hpc id
  | waitMiss c hpc => exact .inl (Quiet.returnHome (hx hpc id) _)
  | exitEnter status hpc =>
    by_cases hdt : d = t
    · exact .inr (.enter status hdt hpc)
    · exact .inl (Quiet.modify (fun h => absurd h hdt) nofun id)
  | exitUp hpc =>
    by_cases hdt : d = t
    · exact .inr (.up hdt hpc)
    · exact .inl (Quiet.modify (fun h => absurd h hdt)
        (fun hr => absurd hr ((Pc.plain_spec (Pc.plain_exitUp _).1).2.1 d)) id)
  | _ => exact .inl (Quiet.own (hx ‹(s.proc t).pc = _› id) rfl nofun id rfl)

/-! ## 知らせの帳簿 -/

/-- 子 `d` の `exit` の値がどこまで届いたか。 -/
structure Account (tr : List Obs) (s : Procs) (d : Tid) : Prop where
  fresh : ¬ (s.proc d).pc.exiting → firstExit d tr = none
  up : (s.proc d).pc = .exitUp → firstExit d tr = some (s.proc d).exitStatus
  raised : 0 < (s.proc d).exitSema → (s.proc d).exitSema = 1 ∧
    firstExit d tr = some (s.proc d).exitStatus ∧ handshakes d tr = []
  reaped : ∀ u, (s.proc u).pc.reaps d → (s.proc d).exitSema = 0 ∧ handshakes d tr = []
  waitReap : ∀ u, (s.proc u).pc = .waitReap d → firstExit d tr = some (s.proc d).exitStatus
  waitUp : ∀ u v, (s.proc u).pc = .waitUp d v →
    firstExit d tr = some v ∧ ∀ q, d ∉ (s.proc q).childList
  returned : ∀ v ∈ handshakes d tr, handshakes d tr = [v] ∧ firstExit d tr = some v ∧
    (s.proc d).pc.done = true ∧ (s.proc d).exitSema = 0 ∧ ∀ q, d ∉ (s.proc q).childList

namespace Account

variable {o : List Obs}

theorem firstExit_keep (h : firstExit d tr = some v) : firstExit d (tr ++ o) = some v := by
  rw [firstExit_append, h, Option.some_or]

theorem quiet (h : Account tr s d) (hinv : Inv s) (hq : Quiet s s' d) (ho : handshakes d o = [])
    (hexit : ¬ (s'.proc d).pc.exiting → firstExit d o = none) : Account (tr ++ o) s' d := by
  have hhand : handshakes d (tr ++ o) = handshakes d tr := by
    rw [handshakes_append, ho, List.append_nil]
  -- 片付けている子も、知らせを上げた子も、値を書き終えている
  have hstatus : (s.proc d).pc.done = true → (s'.proc d).exitStatus = (s.proc d).exitStatus :=
    fun hd => (hq.exiting (Pc.exiting_of_done hd)).2
  refine ⟨fun hx => ?_, fun hk => ?_, fun hpos => ?_, fun u hr => ?_, fun u hpc => ?_,
    fun u v hpc => ?_, fun v hv => ?_⟩
  · rw [firstExit_append, h.fresh fun hx₀ => hx (hq.exiting hx₀).1, Option.none_or]
    exact hexit hx
  · have hk₀ := hq.up hk
    rw [(hq.exiting (by rw [hk₀]; trivial)).2]
    exact firstExit_keep (h.up hk₀)
  · rw [hq.sema] at hpos ⊢
    obtain ⟨hone, hfirst, hnone⟩ := h.raised hpos
    rw [hstatus (hinv.signalled d (.inl hpos))]
    exact ⟨hone, firstExit_keep hfirst, hhand.trans hnone⟩
  · have hr₀ : (s.proc u).pc.reaps d := hq.reaps u hr ▸ hr
    rw [hq.sema, hhand]
    exact h.reaped u hr₀
  · have hpc₀ := (hq.reaps u (by rw [hpc]; rfl)).symm.trans hpc
    rw [hstatus (hinv.done_of_reaps (t := u) (by rw [hpc₀]; rfl))]
    exact firstExit_keep (h.waitReap u hpc₀)
  · have hpc₀ := (hq.reaps u (by rw [hpc]; rfl)).symm.trans hpc
    obtain ⟨hfirst, hlist⟩ := h.waitUp u v hpc₀
    exact ⟨firstExit_keep hfirst, fun q hm => hlist q (hq.list q hm)⟩
  · rw [hhand] at hv ⊢
    obtain ⟨hall, hfirst, hdone, hzero, hlist⟩ := h.returned v hv
    exact ⟨hall, firstExit_keep hfirst, hq.done hdone, hq.sema.trans hzero,
      fun q hm => hlist q (hq.list q hm)⟩

theorem handshakes_eq_nil (h : Account tr s d) (hd : (s.proc d).pc.done = false) :
    handshakes d tr = [] := by
  rw [List.eq_nil_iff_forall_not_mem]
  exact fun v hv => nomatch hd.symm.trans (h.returned v hv).2.2.1

theorem of_unreaped (hnoreap : ∀ u, ¬ (s.proc u).pc.reaps d) (hnone : handshakes d tr = [])
    (fresh : ¬ (s.proc d).pc.exiting → firstExit d tr = none)
    (up : (s.proc d).pc = .exitUp → firstExit d tr = some (s.proc d).exitStatus)
    (raised : 0 < (s.proc d).exitSema → (s.proc d).exitSema = 1 ∧
      firstExit d tr = some (s.proc d).exitStatus) : Account tr s d := by
  refine ⟨fresh, up, fun hpos => ⟨(raised hpos).1, (raised hpos).2, hnone⟩,
    fun u hr => absurd hr (hnoreap u), fun u hu => absurd (by rw [hu]; rfl) (hnoreap u),
    fun u v hu => absurd (by rw [hu]; rfl) (hnoreap u), fun v hv => ?_⟩
  rw [hnone] at hv
  cases hv

theorem of_reaped (hdone : (s.proc d).pc.done = true) (hzero : (s.proc d).exitSema = 0)
    (hnone : handshakes d tr = []) (hfirst : firstExit d tr = some (s.proc d).exitStatus)
    (waitUp : ∀ u v, (s.proc u).pc = .waitUp d v →
      firstExit d tr = some v ∧ ∀ q, d ∉ (s.proc q).childList) : Account tr s d := by
  refine ⟨fun hx => absurd (Pc.exiting_of_done hdone) hx, fun _ => hfirst, fun hpos => ?_,
    fun _ _ => ⟨hzero, hnone⟩, fun _ _ => hfirst, waitUp, fun v hv => ?_⟩
  · rw [hzero] at hpos
    cases hpos
  · rw [hnone] at hv
    cases hv

theorem exitSema_eq_zero (hinv : Inv s) (hd : (s.proc d).pc.done = false) :
    (s.proc d).exitSema = 0 := by
  by_contra hne
  exact nomatch hd.symm.trans (hinv.done_of_sema (.inl (Nat.pos_of_ne_zero hne)))

theorem not_reaps_modify (hinv : Inv s) (hd : (s.proc d).pc.done = false)
    (hf : ¬ (f (s.proc t)).pc.reaps d) (u : Tid) : ¬ ((s.modify t f).proc u).pc.reaps d :=
  modify_rule (P := fun _ p => ¬ p.pc.reaps d) hf
    (fun _ _ hr => nomatch hd.symm.trans (hinv.done_of_reaps hr)) u

theorem reaps_unique (hinv : Inv s) (ht : (s.proc t).pc.reaps d) (hu : (s.proc u).pc.reaps d) :
    u = t :=
  Option.some.inj ((hinv.reap u d hu).1.symm.trans (hinv.reap t d ht).1)

theorem signal (h : Account tr s d) (hinv : Inv s) (hs : Signal s t d s')
    (ho : handshakes d o = [])
    (hexit : ∀ status, d = t → (s.proc t).pc = .exitEnter status → firstExit d o = some status) :
    Account (tr ++ o) s' d := by
  have hhand : handshakes d (tr ++ o) = handshakes d tr := by
    rw [handshakes_append, ho, List.append_nil]
  cases hs with
  | enter status hd hpc =>
    subst hd
    have hnot : (s.proc d).pc.done = false := by rw [hpc]; rfl
    have hfirst : firstExit d (tr ++ o) = some status := by
      rw [firstExit_append, h.fresh (by rw [hpc]; exact id), Option.none_or]
      exact hexit status rfl hpc
    have hnone := hhand.trans (h.handshakes_eq_nil hnot)
    refine of_unreaped (not_reaps_modify hinv hnot id) hnone ?_ ?_ ?_ <;> rw [modify_self]
    · exact fun hx => absurd trivial hx
    · exact fun _ => hfirst
    · exact fun hpos => absurd (exitSema_eq_zero hinv hnot) (Nat.ne_of_gt hpos)
  | up hd hpc =>
    subst hd
    have hnot : (s.proc d).pc.done = false := by rw [hpc]; rfl
    have hfirst : firstExit d (tr ++ o) = some (s.proc d).exitStatus := firstExit_keep (h.up hpc)
    have hnone := hhand.trans (h.handshakes_eq_nil hnot)
    have hzero := exitSema_eq_zero hinv hnot
    obtain ⟨hplain, hdone⟩ := Pc.plain_exitUp ((s.proc d).parent ≠ none)
    refine of_unreaped (not_reaps_modify hinv hnot ((Pc.plain_spec hplain).2.1 d)) hnone ?_ ?_ ?_ <;>
      rw [modify_self]
    · exact fun hx => absurd (Pc.exiting_of_done hdone) hx
    · exact fun _ => hfirst
    · exact fun _ => ⟨by dsimp only; rw [hzero], hfirst⟩
  | down hpc hpos =>
    have hne : d ≠ t := hinv.child_ne (hinv.target t d (by rw [hpc]; rfl))
    obtain ⟨hone, hfirst, hnone⟩ := h.raised hpos
    have hdone := hinv.signalled d (.inl hpos)
    have hself : ((s.setPc t (.waitReap d)).modify d fun q =>
        { q with exitSema := q.exitSema - 1 }).proc d = { s.proc d with exitSema := 0 } := by
      rw [modify_self, Procs.setPc, modify_of_ne hne, hone]
    refine of_reaped ?_ ?_ (hhand.trans hnone) ?_ fun u v hu => ?_
    · rw [hself]
      exact hdone
    · rw [hself]
    · rw [hself]
      exact firstExit_keep hfirst
    · -- `exit_sema` が正の間は、誰も片付けていない
      rw [modify_field _ Proc.pc rfl] at hu
      refine absurd hu (modify_rule (P := fun _ p => p.pc ≠ .waitUp d v) ?_ (fun u _ hu => ?_) u)
      · intro hu
        cases hu
      rw [(h.reaped u (by rw [hu]; rfl)).1] at hpos
      cases hpos
  | reap hpc =>
    have hreap : (s.proc t).pc.reaps d := by rw [hpc]; rfl
    have hmem := hinv.target t d (by rw [hpc]; rfl)
    have hne : d ≠ t := hinv.child_ne hmem
    obtain ⟨hzero, hnone⟩ := h.reaped t hreap
    have hfirst := h.waitReap t hpc
    have hself : (s.modify t fun p => { p with
        childList := p.childList.erase d, pc := .waitUp d (s.proc d).exitStatus }).proc d =
        s.proc d := modify_of_ne hne _
    refine of_reaped ?_ ?_ (hhand.trans hnone) ?_ fun u v hu => ⟨?_, ?_⟩
    · rw [hself]
      exact hinv.done_of_reaps hreap
    · rw [hself]
      exact hzero
    · rw [hself]
      exact firstExit_keep hfirst
    · refine modify_rule (P := fun _ p => p.pc = .waitUp d v → firstExit d (tr ++ o) = some v)
        (fun hu => ?_) (fun u hut hu => ?_) u hu
      · cases hu
        exact firstExit_keep hfirst
      · exact absurd (reaps_unique hinv hreap (by rw [hu]; rfl)) hut
    · -- `d` を列に持つのは親の `t` だけで、そこから外した
      refine modify_rule (P := fun _ p => d ∉ p.childList) ?_ fun q hqt hq => ?_
      · exact (hinv.child_nodup t).not_mem_erase
      · exact hqt (Option.some.inj
          ((hinv.child_parent q d hq).symm.trans (hinv.child_parent t d hmem)))

theorem deliver (hnoreap : ∀ u, ¬ (s.proc u).pc.reaps d) (hnone : handshakes d tr = [])
    (hzero : (s.proc d).exitSema = 0) (hfirst : firstExit d tr = some v)
    (hdone : (s.proc d).pc.done = true)
    (hlist : ∀ q, d ∉ (s.proc q).childList) (ho : handshakes d o = [v])
    : Account (tr ++ o) s d := by
  refine ⟨fun hx => absurd (Pc.exiting_of_done hdone) hx, fun hk => ?_, fun hpos => ?_,
    fun u hr => absurd hr (hnoreap u), fun u hu => absurd (by rw [hu]; rfl) (hnoreap u),
    fun u w hu => absurd (by rw [hu]; rfl) (hnoreap u), fun w hw => ?_⟩
  · rw [hk] at hdone
    cases hdone
  · rw [hzero] at hpos
    cases hpos
  · rw [handshakes_append, hnone, ho, List.nil_append] at hw ⊢
    rw [List.mem_singleton.mp hw]
    exact ⟨rfl, firstExit_keep hfirst, hdone, hzero, hlist⟩

end Account

/-! ## 実行に沿った帳簿 -/

theorem Move.exitEnter_cases (hm : Move s t a s') {status : Int}
    (hpc : (s.proc t).pc = .exitEnter status) :
    obs s (t, a) = [.exitCall t status] ∧ (s'.proc t).pc = .exitUp := by
  cases hm with
  | exitEnter status' hpc' =>
    refine ⟨by simp only [obs, hpc], ?_⟩
    rw [modify_self]
  | _ =>
    rw [‹(s.proc t).pc = _›] at hpc
    cases hpc

theorem Move.waitUp_cases (hm : Move s t a s') (hpc : (s.proc t).pc = .waitUp d v) :
    obs s (t, a) = [.waitReturn t d v true] ∧ ¬ (s'.proc t).pc.reaps d := by
  cases hm with
  | waitUp =>
    refine ⟨by simp only [obs, hpc], ?_⟩
    rw [Procs.setPc, modify_self]
    unfold Proc.home
    dsimp only
    split <;> exact id
  | _ =>
    rw [‹(s.proc t).pc = _›] at hpc
    cases hpc

/-- まだ無い thread は、観測にも現れない。 -/
structure Ledger (tr : List Obs) (s : Procs) : Prop where
  account : ∀ d < s.nextTid, Account tr s d
  unborn : ∀ d, s.nextTid ≤ d → firstExit d tr = none ∧ handshakes d tr = []

namespace Ledger

theorem account_step (h : Ledger tr s) (hinv : Inv s) (ht : t ∈ s.allList)
    (hm : Move s t a s') (hd : d < s.nextTid) : Account (tr ++ obs s (t, a)) s' d := by
  have hacc := h.account d hd
  rcases hm.quiet_or_signal hinv ht hd with hq | hsig
  · by_cases hup : ∃ v, (s.proc t).pc = .waitUp d v
    · -- `wait` が `d` の値を返す
      obtain ⟨v, hpc⟩ := hup
      have hreap : (s.proc t).pc.reaps d := by rw [hpc]; rfl
      obtain ⟨hzero, hnone⟩ := hacc.reaped t hreap
      obtain ⟨hfirst, hlist⟩ := hacc.waitUp t v hpc
      have hdone := hinv.done_of_reaps hreap
      refine Account.deliver (v := v) (fun u hr => ?_) hnone (hq.sema.trans hzero) hfirst
        (hq.done hdone) (fun q hmem => hlist q (hq.list q hmem)) ?_
      · -- 片付けていたのは `t` だけで、もう終えた
        obtain rfl := Account.reaps_unique hinv hreap (hq.reaps u hr ▸ hr)
        exact (hm.waitUp_cases hpc).2 hr
      · rw [(hm.waitUp_cases hpc).1]
        simp [handshakes, Obs.handshakeOf]
    · refine hacc.quiet hinv hq (handshakes_obs fun v hpc => hup ⟨v, hpc⟩) fun _ => ?_
      refine firstExit_obs fun status hdt hpc => ?_
      subst hdt
      exact nomatch hpc.symm.trans (hq.up (hm.exitEnter_cases hpc).2)
  · refine hacc.signal hinv hsig (handshakes_obs fun v hpc => ?_) fun status hdt hpc => ?_
    · cases hsig with
      | enter status hd' hpc' | up hd' hpc' | down hpc' | reap hpc' =>
        exact nomatch hpc.symm.trans hpc'
    · subst hdt
      rw [(hm.exitEnter_cases hpc).1]
      simp [firstExit, Obs.exitOf]

theorem account_fresh (hinv : Inv s) (hx : ¬ (s.proc d).pc.exiting) (hfirst : firstExit d tr = none)
    (hnone : handshakes d tr = []) : Account tr s d := by
  have hnot : (s.proc d).pc.done = false := by
    by_contra hd
    exact hx (Pc.exiting_of_done (by simpa using hd))
  exact Account.of_unreaped (fun u hr => nomatch hnot.symm.trans (hinv.done_of_reaps hr)) hnone
    (fun _ => hfirst) (fun hk => absurd (by rw [hk]; trivial) hx)
    fun hpos => absurd (Account.exitSema_eq_zero hinv hnot) (Nat.ne_of_gt hpos)

theorem step (h : Ledger tr s) (hinv : Inv s) (ht : t ∈ s.allList) (hm : Move s t a s') :
    Ledger (tr ++ obs s (t, a)) s' := by
  -- まだ無い thread は、この一歩でも観測されない
  have hunborn : ∀ d, s.nextTid ≤ d →
      firstExit d (tr ++ obs s (t, a)) = none ∧ handshakes d (tr ++ obs s (t, a)) = [] := by
    intro d hd
    obtain ⟨hfirst, hnone⟩ := h.unborn d hd
    rw [firstExit_append, handshakes_append, hfirst, hnone, Option.none_or, List.nil_append]
    refine ⟨firstExit_obs fun _ hdt _ => ?_, handshakes_obs fun v hpc => ?_⟩
    · exact absurd (hinv.lt t ht) (Nat.not_lt.mpr (hdt ▸ hd))
    · exact absurd (hinv.reap t d (by rw [hpc]; rfl)).2 (Nat.not_lt.mpr hd)
  have hinv' := hinv.move ht hm
  refine ⟨fun d hd => ?_, fun d hd => hunborn d ?_⟩
  · by_cases hlt : d < s.nextTid
    · exact h.account_step hinv ht hm hlt
    · obtain ⟨hfirst, hnone⟩ := hunborn d (Nat.not_lt.mp hlt)
      obtain ⟨-, -, hnew⟩ := hm.of_fresh hlt hd
      exact account_fresh hinv' (by rw [hnew]; exact id) hfirst hnone
  · exact Nat.le_trans hm.nextTid_le hd

theorem start : Ledger [] boot := by
  refine ⟨fun d _ => account_fresh inv_boot ?_ rfl rfl, fun _ _ => ⟨rfl, rfl⟩⟩
  rcases boot_pc d with h | h <;> rw [h] <;> exact id

end Ledger

theorem run_ledger (h : Run processes obs boot tr s) : Ledger tr s :=
  Run.invariant_of (I := Ledger) (J := Inv) (fun _ => reachable_inv) (fun _ => Ledger.start)
    (fun _ _ _ _ hinv hl hstep => hl.step hinv (step_move hstep).1 (step_move hstep).2) h

theorem handshake_tid {p : Tid} {tid v : Int} (h : Run processes obs boot tr s)
    (hv : Obs.waitReturn p tid v true ∈ tr) : ∃ c : Tid, tid = c := by
  induction h with
  | init => cases hv
  | step _ _ ih =>
    rcases List.mem_append.mp hv with hv | hv
    · exact ih hv
    · obtain ⟨c, hc, -⟩ := waitReturn_mem_obs hv
      exact ⟨c, hc⟩

/-! ## 列にある子は壊れない -/

/-- 生きている thread の子の列にある thread を壊さない一歩。 -/
def Calm (s : Procs) (e : Tid × Act) : Prop :=
  (s.proc e.1).pc = .threadExit → ∀ u ∈ s.allList, u ≠ e.1 → e.1 ∉ (s.proc u).childList

instance (s : Procs) (e : Tid × Act) : Decidable (Calm s e) :=
  inferInstanceAs (Decidable (_ → _))

theorem Move.childList (hinv : Inv s) (ht : t ∈ s.allList) (hm : Move s t a s')
    (hd : d < s.nextTid) (h : d ∈ (s'.proc u).childList) : d ∈ (s.proc u).childList := by
  rcases hm.quiet_or_signal hinv ht hd with hq | hsig
  · exact hq.list u h
  · cases hsig with
    | enter | up =>
      rw [modify_field s Proc.childList rfl] at h
      exact h
    | down =>
      rw [modify_field _ Proc.childList rfl, Procs.setPc, modify_field s Proc.childList rfl] at h
      exact h
    | reap =>
      by_cases hu : u = t
      · subst hu
        rw [modify_self] at h
        exact List.mem_of_mem_erase h
      · rw [modify_of_ne hu] at h
        exact h

theorem Move.mem_or_threadExit (hm : Move s t a s') (h : u ∈ s.allList) :
    u ∈ s'.allList ∨ u = t ∧ (s.proc t).pc = .threadExit ∧ s' = s.destroy t := by
  by_cases hu : u = t
  · cases hm with
    | runTask | exec => exact .inl (List.mem_append_left _ h)
    | threadExit hpc => exact .inr ⟨hu, hpc, rfl⟩
    | _ => exact .inl h
  · exact .inl (hm.mem_allList hu h)

theorem children_of_calm (h : ReachableIf processes Calm s) :
    ∀ u ∈ s.allList, ∀ c ∈ (s.proc u).childList, c ∈ s.allList := by
  refine ReachableIf.invariant_of (J := Inv)
    (I := fun s => ∀ u ∈ s.allList, ∀ c ∈ (s.proc u).childList, c ∈ s.allList)
    (fun _ => reachable_inv) (fun s hi u _ c hc => ?_) (fun s e s' hinv hs hcalm hstep u hu c hc => ?_) h
  · obtain rfl : s = boot := hi
    rcases boot_cases u with ⟨-, hb⟩ | ⟨-, hb⟩ | hb <;> rw [hb] at hc
    · rw [List.mem_singleton.mp hc]
      decide
    · cases hc
    · cases hc
  · obtain ⟨ht, hm⟩ := step_move hstep
    by_cases hlt : c < s.nextTid
    · have hc₀ := hm.childList hinv ht hlt hc
      have hu₀ : u ∈ s.allList := by
        rcases hm.nextTid with ⟨-, hsub⟩ | ⟨-, hall, hnew⟩
        · exact hsub hu
        · rw [hall] at hu
          refine (List.mem_append.mp hu).resolve_right fun hn => ?_
          rw [List.mem_singleton.mp hn, hnew] at hc
          cases hc
      rcases hm.mem_or_threadExit (hs u hu₀ c hc₀) with hmem | ⟨rfl, hpc, rfl⟩
      · exact hmem
      · have hne : u ≠ e.1 := (hinv.nodup.mem_erase_iff.mp hu).1
        exact absurd hc₀ (hcalm hpc u hu₀ hne)
    · rw [(hm.of_fresh hlt ((hinv.move ht hm).child_lt u c hc)).2.1]
      exact List.mem_append_right _ (List.mem_singleton_self _)

/-! ### `exit` で終わる実行

`thread_exit` に着く道のうち、親と待ち合わせないのは、`kill` と `setup_user_stack` の二つだけである。
-/

/-- `exit` を通らずに thread を壊す一歩。 -/
def Act.kills : Act → Bool
  | .load .overflow | .trap => true
  | _ => false

/-- `exit` を通らずに thread を壊すことのない一歩。 -/
def NoKill (_ : Procs) (e : Tid × Act) : Prop := e.2.kills = false

instance (s : Procs) (e : Tid × Act) : Decidable (NoKill s e) :=
  inferInstanceAs (Decidable (_ = _))

/-- これから壊れる thread は、誰の列にも無い。 -/
structure Unlisted (s : Procs) : Prop where
  main : ∀ t, (s.proc t).pc = .main → (s.proc t).parent = none
  kill : ∀ t, (s.proc t).pc ≠ .kill
  exit : ∀ t, (s.proc t).pc = .threadExit → ∀ u, t ∉ (s.proc u).childList

theorem unlisted_boot : Unlisted boot := by
  refine ⟨fun t ht => ?_, fun t ht => ?_, fun t ht => ?_⟩
  · rcases boot_cases t with ⟨-, h⟩ | ⟨-, h⟩ | h <;> rw [h] at ht ⊢
    · rfl
    · cases ht
    · rfl
  · rcases boot_pc t with h | h <;> rw [h] at ht <;> cases ht
  · rcases boot_pc t with h | h <;> rw [h] at ht <;> cases ht

theorem Move.unlisted_self (hm : Move s t a s') (hinv : Inv s) (hne : t ≠ s.nextTid)
    (hk : a.kills = false) (h : Unlisted s) :
    ((s'.proc t).pc = .main → (s'.proc t).parent = none) ∧ (s'.proc t).pc ≠ .kill ∧
      ((s'.proc t).pc = .threadExit → ∀ u, t ∉ (s.proc u).childList) := by
  have hroot : (s.proc t).parent = none → ∀ u, t ∉ (s.proc u).childList :=
    fun hp u hu => nomatch hp.symm.trans (hinv.child_parent u t hu)
  cases hm with
  | overflow | trap => cases hk
  | runTaskFail | execFail | waitNone | threadExit => exact ⟨h.main t, h.kill t, h.exit t⟩
  | runTask | exec => rw [created_self hne]; exact ⟨nofun, nofun, nofun⟩
  | finish hpc => rw [setPc_self]; exact ⟨nofun, nofun, fun _ => hroot (h.main t hpc)⟩
  | execDown | waitDown =>
    rw [modify_field _ Proc.pc rfl, setPc_self]
    exact ⟨nofun, nofun, nofun⟩
  | waitMiss =>
    rw [setPc_self]
    unfold Proc.home
    split
    · next hp => exact ⟨fun _ => hp, nofun, nofun⟩
    · exact ⟨nofun, nofun, nofun⟩
  | waitUp c =>
    rw [setPc_self, modify_field s Proc.parent rfl]
    unfold Proc.home
    split
    · next hp => exact ⟨fun _ => hp, nofun, nofun⟩
    · exact ⟨nofun, nofun, nofun⟩
  | exitUp hpc =>
    rw [modify_self]
    dsimp only
    split
    · exact ⟨nofun, nofun, nofun⟩
    · next hp => exact ⟨nofun, nofun, fun _ => hroot (not_not.mp hp)⟩
  | exitDown hpc hpos => rw [modify_self]; exact ⟨nofun, nofun, fun _ => hinv.reaped t (.inl hpos)⟩
  | kill hpc => exact absurd hpc (h.kill t)
  | loadFailed | loadFailedUp | loadUp | waitReap | exitEnter =>
    rw [modify_self]
    exact ⟨nofun, nofun, nofun⟩
  | _ => rw [setPc_self]; exact ⟨nofun, nofun, nofun⟩

theorem Move.unlisted (hm : Move s t a s') (hinv : Inv s) (ht : t ∈ s.allList)
    (hk : a.kills = false) (h : Unlisted s) : Unlisted s' := by
  -- 一歩の後の thread は、動いた thread か、semaphore だけが変わった thread か、作ったばかりの thread
  have hself := hm.unlisted_self hinv (Nat.ne_of_lt (hinv.lt t ht)) hk h
  have hall : ∀ u, ((s'.proc u).pc = .main → (s'.proc u).parent = none) ∧ (s'.proc u).pc ≠ .kill ∧
      ((s'.proc u).pc = .threadExit → u < s.nextTid → ∀ q, u ∉ (s.proc q).childList) := by
    intro u
    by_cases hu : u = t
    · subst hu
      exact ⟨hself.1, hself.2.1, fun hpc _ => hself.2.2 hpc⟩
    · rcases hm.other hu with ⟨_, _, _, hsame⟩ | ⟨-, hnew⟩
      · rw [hsame]
        exact ⟨h.main u, h.kill u, fun hpc _ => h.exit u hpc⟩
      · rw [hnew]
        exact ⟨nofun, nofun, nofun⟩
  refine ⟨fun u => (hall u).1, fun u => (hall u).2.1, fun u hpc q hq => ?_⟩
  by_cases hlt : u < s.nextTid
  · exact (hall u).2.2 hpc hlt q (hm.childList hinv ht hlt hq)
  · rw [(hm.of_fresh hlt ((hinv.move ht hm).child_lt q u hq)).2.2] at hpc
    cases hpc

/-- **`exit` で終わる thread だけの実行は `Calm` である。** -/
theorem reachableIf_calm (h : ReachableIf processes NoKill s) :
    ReachableIf processes Calm s := by
  suffices hboth : ReachableIf processes Calm s ∧ Unlisted s from hboth.1
  induction h with
  | init hi =>
    obtain rfl := (hi : _ = boot)
    exact ⟨.init rfl, unlisted_boot⟩
  | step hr hk hstep ih =>
    obtain ⟨ht, hm⟩ := step_move hstep
    exact ⟨ih.1.step (fun hpc u _ _ => ih.2.exit _ hpc u) hstep,
      hm.unlisted (reachable_inv hr.reachable) ht hk ih.2⟩

/--
**子の列は、生きている thread の森をなす。**

`exit` を通らずに壊れる thread が無い実行では、次が成り立つ。

* 生きている thread の列にあるのは、生きている thread だけで、同じ thread は二度現れない
* 同じ thread が二つの列にあることは無く、列にある thread の親はその列を持つ thread である
* 番号は親から子へ増えるので、自分の子孫になる thread は無い
-/
theorem child_forest (h : ReachableIf processes NoKill s)
    (ht : t ∈ s.allList) :
    (s.proc t).childList.Nodup ∧
    ∀ c ∈ (s.proc t).childList, c ∈ s.allList ∧ (s.proc c).parent = some t ∧ t < c ∧
      ∀ u, c ∈ (s.proc u).childList → u = t := by
  have hinv := reachable_inv h.reachable
  refine ⟨hinv.child_nodup t, fun c hc => ⟨children_of_calm (reachableIf_calm h) t ht c hc, ?_⟩⟩
  have hp := hinv.child_parent t c hc
  exact ⟨hp, hinv.parent_lt c t hp, fun u hu =>
    Option.some.inj ((hinv.child_parent u c hu).symm.trans hp)⟩

/-- 二つの子を `exec` し、一つ目の `exit(7)` を待った process。 -/
theorem child_forest_waited : ∃ s, ReachableIf processes NoKill s ∧
    (s.proc 2).childList = [4] ∧ 4 ∈ s.allList ∧ 3 ∉ s.allList ∧
    ∀ u, 4 ∈ (s.proc u).childList → u = 2 := by
  obtain ⟨s, h, hp⟩ := exists_reachableIf_of_run (f := step)
    [(0, .runTask true), (2, .load .loaded), (2, .go), (2, .exec true), (2, .go),
      (3, .load .loaded), (3, .go), (2, .go), (2, .go), (2, .exec true), (2, .go),
      (4, .load .loaded), (4, .go), (2, .go), (2, .go), (3, .exit 7), (3, .go), (3, .go),
      (2, .wait 3), (2, .go), (2, .go), (2, .go), (2, .go), (2, .go), (3, .go), (3, .go)]
    (ReachableIf.init (S := processes) (C := NoKill) (rfl : boot = boot))
    (p := fun s => 2 ∈ s.allList ∧ (s.proc 2).childList = [4] ∧ 3 ∉ s.allList) (by decide +kernel)
  obtain ⟨hmem, hlist, hgone⟩ := of_decide_eq_true hp
  obtain ⟨hlive, -, -, hunique⟩ := (child_forest h hmem).2 4 (by rw [hlist]; exact List.mem_cons_self)
  exact ⟨s, h, hlist, hlive, hgone, hunique⟩

/-! ## 実行全体 -/

/--
**`wait` の返す値。**

* 子の終了を待って返った値は、子が初めて `exit` に渡した値である
* 一つの子について高々一度であり、返した後は子は誰の列にも無い
* 列に無い番号の `wait` は、止まらず、何も変えずに -1 を返す
-/
theorem wait_result (h : Run processes obs boot tr s) :
    (∀ p tid v, Obs.waitReturn p tid v true ∈ tr →
      ∃ c : Tid, tid = c ∧ firstExit c tr = some v ∧ ∀ q, c ∉ (s.proc q).childList) ∧
    (∀ c, (handshakes c tr).length ≤ 1) ∧
    (ReachableIf processes Calm s → ∀ p ∈ s.allList, (s.proc p).pc = .user → ∀ tid : Int,
      (∀ c ∈ (s.proc p).childList, (c : Int) ≠ tid) →
      step s (p, .wait tid) = some s ∧ obs s (p, .wait tid) = [.waitReturn p tid (-1) false]) := by
  have hl := run_ledger h
  -- 返した値のある子の帳簿
  have hreturned : ∀ c, ∀ v ∈ handshakes c tr, handshakes c tr = [v] ∧ firstExit c tr = some v ∧
      ∀ q, c ∉ (s.proc q).childList := by
    intro c v hv
    by_cases hc : c < s.nextTid
    · obtain ⟨hall, hfirst, -, -, hlist⟩ := (hl.account c hc).returned v hv
      exact ⟨hall, hfirst, hlist⟩
    · rw [(hl.unborn c (Nat.not_lt.mp hc)).2] at hv
      cases hv
  refine ⟨fun p tid v hv => ?_, fun c => ?_, fun hcalm p hp hpc tid hne => ?_⟩
  · obtain ⟨c, rfl⟩ := handshake_tid h hv
    exact ⟨c, rfl, (hreturned c v (List.mem_filterMap.mpr ⟨_, hv, if_pos rfl⟩)).2⟩
  · cases hc : handshakes c tr with
    | nil => exact Nat.zero_le _
    | cons v vs =>
      rw [← hc, (hreturned c v (hc ▸ List.mem_cons_self)).1]
      exact Nat.le_refl _
  · have hf := findChild_eq_absent (children_of_calm hcalm p hp) hne
    constructor
    · simp only [step, if_pos hp, next, hpc, hf]
    · simp only [obs, hpc, hf]

/-- `exec` した子の `exit(7)` を受け取った後、もう一度 `wait` する。 -/
def waitTwice : List (Tid × Act) :=
  [(0, .runTask true), (2, .load .loaded), (2, .go), (2, .exec true), (2, .go), (3, .load .loaded),
    (3, .go), (2, .go), (2, .go), (3, .exit 7), (3, .go), (3, .go), (2, .wait 3), (2, .go), (2, .go),
    (2, .go), (2, .go), (2, .go)]

theorem wait_result_twice : ∃ tr s, Run processes obs boot tr s ∧
    Obs.waitReturn 2 3 7 true ∈ tr ∧ firstExit 3 tr = some 7 ∧
    step s (2, .wait 3) = some s ∧ obs s (2, .wait 3) = [.waitReturn 2 3 (-1) false] := by
  have hrun : (runEvents (guarded Calm step) boot waitTwice).any (fun s => decide
      (2 ∈ s.allList ∧ (s.proc 2).pc = .user ∧ (s.proc 2).childList = [])) = true := by
    decide +kernel
  obtain ⟨s, hs, hp⟩ := (Option.any_eq_true _ _).mp hrun
  obtain ⟨hmem, hpc, hlist⟩ := of_decide_eq_true hp
  have hinit : processes.init boot := rfl
  have h := Run.events waitTwice (Run.init hinit : Run processes obs boot [] boot)
    (runEvents_of_guarded _ hs)
  have htr : Obs.waitReturn 2 3 7 true ∈ traceEvents step obs boot waitTwice := by decide +kernel
  rw [List.nil_append] at h
  obtain ⟨hvalue, -, hmiss⟩ := wait_result h
  obtain ⟨c, hc, hfirst, -⟩ := hvalue 2 3 7 htr
  obtain rfl : 3 = c := Int.ofNat_inj.mp hc
  refine ⟨_, s, h, htr, hfirst, hmiss (runEvents_guarded waitTwice (.init hinit) hs) 2 hmem hpc 3 ?_⟩
  rw [hlist]
  exact fun c hc => nomatch hc

end Pintos.Userprog
