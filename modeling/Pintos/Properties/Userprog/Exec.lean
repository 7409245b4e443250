import Pintos.Properties.Userprog.Process

/-!
# `exec` が返す値

`exec` は `load_sema` で子の load が終わるのを待ち、その後で子の `exit_status` を読む。
load に失敗した子の `exit_status` は -1 であるが、load に成功した子も `exit(-1)` で同じ値を書ける。
そこで返す値が正しいのは、load に成功した子の `exit_status` が -1 でないときに限る。

`setup_user_stack` の `thread_exit` で消えた子は `load_sema` を上げない。
そのほかの子は必ず上げるので、`exec` は返ることができる。
-/

namespace Pintos.Userprog

open Infra Procs

variable {s s' : Procs} {t u c p : Tid} {a : Act} {tr : List Obs}

theorem loadDone_mem_obs {b : Bool} (h : Obs.loadDone u b ∈ obs s (t, a)) :
    u = t ∧ (s.proc t).pc = .load ∧ a = .load (if b then .loaded else .failed) := by
  unfold obs at h
  dsimp only at h
  repeat' split at h
  all_goals simp only [List.mem_singleton, List.not_mem_nil, Obs.loadDone.injEq, reduceCtorEq] at h
  all_goals
    next hpc =>
    obtain ⟨rfl, rfl⟩ := h
    exact ⟨rfl, hpc, rfl⟩

/-! ## 子から見た一歩 -/

/-- 動いた thread の、load に関わる項目の変わり方。 -/
inductive LoadStep (p q : Proc) : Act → Prop
  | loaded (hpc : p.pc = .load) (hq : q = { p with pc := .loadUp }) : LoadStep p q (.load .loaded)
  | failed (hpc : p.pc = .load) (hq : q = { p with pc := .loadFailed }) :
      LoadStep p q (.load .failed)
  | overflow (hpc : p.pc = .load) (hq : q = { p with pc := .threadExit }) :
      LoadStep p q (.load .overflow)
  | fail (hpc : p.pc = .loadFailed) (hq : q = { p with exitStatus := -1, pc := .loadFailedUp }) :
      LoadStep p q .go
  | failUp (hpc : p.pc = .loadFailedUp)
      (hq : q = { p with loadSema := p.loadSema + 1, pc := .exitEnter (-1) }) :
      LoadStep p q .go
  | up (hpc : p.pc = .loadUp) (hq : q = { p with loadSema := p.loadSema + 1, pc := .user }) :
      LoadStep p q .go
  /-- load の後。`exit` の入り口のほかは `exit_status` を変えない。 -/
  | later (a : Act) (hp : ¬ p.pc.starting ∧ p.pc ≠ .loadUp ∧ p.pc ≠ .idle) (hq : ¬ q.pc.starting)
      (hsema : q.loadSema = p.loadSema) (hparent : q.parent = p.parent)
      (hexiting : p.pc.exiting → q.pc.exiting ∧ q.exitStatus = p.exitStatus)
      (hexit : ∀ status, p.pc = .exitEnter status → q.pc.exiting ∧ q.exitStatus = status)
      (hdead : p.pc = .threadExit → q.pc = .threadExit) : LoadStep p q a

/-- load を過ぎ、`exit` の前である。 -/
def Pc.settled : Pc → Bool
  | .idle | .load | .loadFailed | .loadFailedUp | .loadUp | .exitEnter _ | .exitUp | .exitDown
  | .threadExit => false
  | _ => true

theorem Pc.settled_spec {pc : Pc} (h : pc.settled = true) : (¬ pc.starting ∧ pc ≠ .loadUp ∧ pc ≠ .idle) ∧
    ¬ pc.exiting ∧ (∀ status, pc ≠ .exitEnter status) ∧ pc ≠ .threadExit := by
  cases pc <;> simp [settled, starting, exiting] at h ⊢

theorem LoadStep.go_on {p q : Proc} {a : Act} (hp : p.pc.settled = true) (hq : ¬ q.pc.starting)
    (hsema : q.loadSema = p.loadSema) (hparent : q.parent = p.parent) : LoadStep p q a := by
  obtain ⟨hload, hexiting, henter, hdead⟩ := Pc.settled_spec hp
  exact .later a hload hq hsema hparent (fun h => absurd h hexiting)
    (fun status h => absurd h (henter status)) fun h => absurd h hdead

theorem Move.loadStep (hinv : Inv s) (ht : t ∈ s.allList) (hm : Move s t a s') :
    LoadStep (s.proc t) (s'.proc t) a := by
  cases hm with
  | loaded hpc => exact .loaded hpc (modify_self ..)
  | failed hpc => exact .failed hpc (modify_self ..)
  | overflow hpc => exact .overflow hpc (modify_self ..)
  | loadFailed hpc => exact .fail hpc (modify_self ..)
  | loadFailedUp hpc => exact .failUp hpc (modify_self ..)
  | loadUp hpc => exact .up hpc (modify_self ..)
  | exitEnter status hpc =>
    rw [modify_self]
    refine .later _ (by rw [hpc]; exact ⟨id, nofun, nofun⟩) id rfl rfl (fun hx => ?_)
      (fun st hst => ⟨trivial, ?_⟩) fun hx => ?_
    · rw [hpc] at hx
      cases hx
    · exact Pc.exitEnter.inj (hpc.symm.trans hst)
    · exact nomatch hpc.symm.trans hx
  | exitUp hpc =>
    rw [modify_self]
    refine .later _ (by rw [hpc]; exact ⟨id, nofun, nofun⟩) ?_ rfl rfl (fun _ => ⟨?_, rfl⟩)
      (fun _ hst => (nomatch hpc.symm.trans hst)) fun hx => (nomatch hpc.symm.trans hx)
    · dsimp only
      split <;> exact id
    · dsimp only
      split <;> trivial
  | exitDown hpc =>
    rw [modify_self]
    exact .later _ (by rw [hpc]; exact ⟨id, nofun, nofun⟩) id rfl rfl (fun _ => ⟨trivial, rfl⟩)
      (fun _ hst => (nomatch hpc.symm.trans hst)) fun _ => rfl
  | threadExit hpc =>
    show LoadStep (s.proc t) (s.proc t) .go
    exact .later _ (by rw [hpc]; exact ⟨id, nofun, nofun⟩) (by rw [hpc]; exact id) rfl rfl
      (fun hx => ⟨hx, rfl⟩) (fun _ hst => (nomatch hpc.symm.trans hst)) id
  | runTaskFail hpc | execFail hpc | waitNone _ hpc =>
    exact .go_on (by rw [hpc]; rfl) (by rw [hpc]; exact id) rfl rfl
  | runTask hpc | exec hpc =>
    rw [created_self (Nat.ne_of_lt (hinv.lt t ht))]
    exact .go_on (by rw [hpc]; rfl) id rfl rfl
  | execDown c hpc | waitDown c hpc =>
    have hne : t ≠ c := (hinv.child_ne (hinv.target t c (by rw [hpc]; rfl))).symm
    rw [modify_of_ne hne, setPc_self]
    exact .go_on (by rw [hpc]; rfl) id rfl rfl
  | waitUp c status hpc =>
    have hne : t ≠ c := Nat.ne_of_lt (hinv.parent_lt c t (hinv.reap t c (by rw [hpc]; rfl)).1)
    rw [setPc_self, modify_of_ne hne]
    exact .go_on (by rw [hpc]; rfl) (Pc.plain_home _).2 rfl rfl
  | waitMiss c hpc =>
    rw [setPc_self]
    exact .go_on (by rw [hpc]; rfl) (Pc.plain_home _).2 rfl rfl
  | waitReap _ hpc =>
    rw [modify_self]
    exact .go_on (by rw [hpc]; rfl) id rfl rfl
  | _ =>
    rw [setPc_self]
    exact .go_on (by rw [‹(s.proc t).pc = _›]; rfl) id rfl rfl

/-- `exec` の中で、子 `c` に関わっている。 -/
def Pc.execs (c : Tid) : Pc → Prop
  | .execFind d | .execDown d | .execRead d => d = c
  | _ => False

theorem Move.exec_cases (hm : Move s t a s') (hne : t ≠ s.nextTid) (h : (s'.proc p).pc.execs c) :
    (s'.proc p).pc = (s.proc p).pc ∨ p = t ∧
      (c = s.nextTid ∧ (s'.proc t).pc = .execFind c ∨
        (s.proc t).pc = .execFind c ∧ (s'.proc t).pc = .execDown c ∨
        (s.proc t).pc = .execDown c ∧ (s'.proc t).pc = .execRead c ∧ 0 < (s.proc c).loadSema) := by
  by_cases hp : p = t
  · subst hp
    cases hm with
    | runTaskFail | execFail | waitNone | threadExit => exact .inl rfl
    | runTask =>
      rw [created_self hne] at h
      cases h
    | exec =>
      rw [created_self hne] at h ⊢
      obtain rfl : s.nextTid = c := h
      exact .inr ⟨rfl, .inl ⟨rfl, rfl⟩⟩
    | execFind d hpc =>
      rw [setPc_self] at h ⊢
      obtain rfl : d = c := h
      exact .inr ⟨rfl, .inr (.inl ⟨hpc, rfl⟩)⟩
    | execDown d hpc hd hpos =>
      rw [modify_field _ Proc.pc rfl, setPc_self] at h ⊢
      obtain rfl : d = c := h
      exact .inr ⟨rfl, .inr (.inr ⟨hpc, rfl, hpos⟩)⟩
    | waitDown =>
      rw [modify_field _ Proc.pc rfl, setPc_self] at h
      cases h
    | waitMiss | waitUp =>
      rw [setPc_self] at h
      unfold Proc.home at h
      dsimp only at h
      split at h <;> cases h
    | exitUp =>
      rw [modify_self] at h
      dsimp only at h
      split at h <;> cases h
    | loadFailed | loadFailedUp | loadUp | waitReap | exitEnter | exitDown =>
      rw [modify_self] at h
      cases h
    | _ =>
      rw [setPc_self] at h
      cases h
  · rcases hm.other hp with ⟨_, _, _, hsame⟩ | ⟨-, hnew⟩
    · rw [hsame]
      exact .inl rfl
    · rw [hnew] at h
      cases h

theorem Move.execRead_cases (hm : Move s t a s') (hne : t ≠ s.nextTid)
    (h : (s'.proc p).pc = .execRead c) :
    (s.proc p).pc = .execRead c ∨ p = t ∧ (s.proc t).pc = .execDown c ∧ 0 < (s.proc c).loadSema := by
  rcases hm.exec_cases (c := c) hne (by rw [h]; rfl) with
    hpc | ⟨rfl, ⟨-, hpc⟩ | ⟨-, hpc⟩ | ⟨hdown, -, hpos⟩⟩
  · exact .inl (hpc.symm.trans h)
  · exact nomatch h.symm.trans hpc
  · exact nomatch h.symm.trans hpc
  · exact .inr ⟨rfl, hdown, hpos⟩

def Pc.awaitsLoad (c : Tid) : Pc → Prop
  | .execFind d | .execDown d => d = c
  | _ => False

theorem Pc.awaitsLoad.target {pc : Pc} (h : pc.awaitsLoad c) : pc.child? = some c := by
  cases pc <;> first | cases h; rfl | cases h

theorem Move.awaitsLoad (hm : Move s t a s') (hne : t ≠ s.nextTid) (hc : c < s.nextTid)
    (h : (s'.proc p).pc.awaitsLoad c) : (s.proc p).pc.awaitsLoad c := by
  have hexecs : (s'.proc p).pc.execs c := by
    cases hpc : (s'.proc p).pc <;> rw [hpc] at h <;> first | exact h | cases h
  rcases hm.exec_cases hne hexecs with hpc | ⟨rfl, ⟨hn, -⟩ | ⟨hfind, -⟩ | ⟨hdown, -⟩⟩
  · exact hpc ▸ h
  · exact absurd hn (Nat.ne_of_lt hc)
  · rw [hfind]
    rfl
  · rw [hdown]
    rfl

theorem Move.loadSema (hm : Move s t a s') (hu : u ≠ t) (hlt : u < s.nextTid) :
    (s'.proc u).loadSema = (s.proc u).loadSema ∨
      (s.proc t).pc = .execDown u ∧ (s'.proc t).pc = .execRead u ∧ 0 < (s.proc u).loadSema := by
  cases hm with
  | runTaskFail | execFail | waitNone | threadExit => exact .inl rfl
  | runTask | exec =>
    rw [created_of_ne (Nat.ne_of_lt hlt) hu]
    exact .inl rfl
  | execDown c hpc hc hpos =>
    by_cases huc : u = c
    · subst huc
      refine .inr ⟨hpc, ?_, hpos⟩
      rw [modify_of_ne (Ne.symm hu), setPc_self]
    · rw [modify_of_ne huc, Procs.setPc, modify_of_ne hu]
      exact .inl rfl
  | waitDown =>
    rw [modify_field _ Proc.loadSema rfl, Procs.setPc, modify_of_ne hu]
    exact .inl rfl
  | waitUp =>
    rw [Procs.setPc, modify_of_ne hu, modify_field s Proc.loadSema rfl]
    exact .inl rfl
  | _ =>
    refine .inl ?_
    first
    | rw [modify_of_ne hu]
    | rw [Procs.setPc, modify_of_ne hu]

/-! ## load の帳簿 -/

/-- load に失敗した跡。`exit_status` は -1 のまま変わらない。 -/
def Proc.failing (p : Proc) : Prop :=
  p.pc = .loadFailed ∨ p.exitStatus = -1 ∧
    (p.pc.exiting ∨ p.pc = .loadFailedUp ∨ p.pc = .exitEnter (-1))

/-- load の結果をまだ知らせていない。 -/
def Silent (s : Procs) (c : Tid) : Prop :=
  ((s.proc c).pc = .load ∨ (s.proc c).pc = .idle ∨ (s.proc c).pc = .threadExit) ∧
    (s.proc c).loadSema = 0 ∧ ∀ p, (s.proc p).pc ≠ .execRead c

def Pc.loading : Pc → Prop
  | .load | .loadFailed | .loadFailedUp | .loadUp => True
  | _ => False

/-- 子 `c` の load の結果がどこまで届いたか。 -/
structure LoadAccount (tr : List Obs) (s : Procs) (c : Tid) : Prop where
  fresh : (s.proc c).pc = .load → ∀ b, Obs.loadDone c b ∉ tr
  early : (s.proc c).pc.starting → (s.proc c).loadSema = 0 ∧ ∀ p, (s.proc p).pc ≠ .execRead c
  known : (s.proc c).parent ≠ none → (∃ b, Obs.loadDone c b ∈ tr) ∨ Silent s c
  unique : Obs.loadDone c true ∈ tr → Obs.loadDone c false ∉ tr
  status : Obs.loadDone c false ∈ tr → (s.proc c).failing
  waiting : ∀ p, (s.proc p).pc.awaitsLoad c → 0 < (s.proc c).loadSema ∨ (s.proc c).pc.loading ∨
    (s.proc c).pc = .threadExit ∧ ∀ b, Obs.loadDone c b ∉ tr

namespace LoadAccount

theorem other (h : LoadAccount tr s c) (hinv : Inv s) (ht : t ∈ s.allList) (hm : Move s t a s')
    (hc : c < s.nextTid) (hct : c ≠ t) : LoadAccount (tr ++ obs s (t, a)) s' c := by
  have hne : t ≠ s.nextTid := Nat.ne_of_lt (hinv.lt t ht)
  have htr : ∀ b, Obs.loadDone c b ∈ tr ++ obs s (t, a) ↔ Obs.loadDone c b ∈ tr := fun b =>
    ⟨fun hb => (List.mem_append.mp hb).resolve_right fun hb => hct (loadDone_mem_obs hb).1,
      List.mem_append_left _⟩
  obtain ⟨_, _, _, hsame⟩ := hm.frame hct hc
  have hpc : (s'.proc c).pc = (s.proc c).pc := by rw [hsame]
  have hquiet : (s.proc c).loadSema = 0 → (∀ p, (s.proc p).pc ≠ .execRead c) →
      (s'.proc c).loadSema = 0 ∧ ∀ p, (s'.proc p).pc ≠ .execRead c := by
    intro hzero hread
    refine ⟨?_, fun p hp => ?_⟩
    · rcases hm.loadSema hct hc with hsema | ⟨-, -, hpos⟩
      · exact hsema.trans hzero
      · exact absurd hzero (Nat.ne_of_gt hpos)
    · rcases hm.execRead_cases hne hp with hp | ⟨-, -, hpos⟩
      · exact hread p hp
      · exact absurd hzero (Nat.ne_of_gt hpos)
  refine ⟨fun hl b => ?_, fun hs => ?_, fun hp => ?_, fun hb => ?_, fun hb => ?_, fun p hp => ?_⟩
  · rw [htr]
    exact h.fresh (hpc ▸ hl) b
  · rw [hpc] at hs
    exact hquiet (h.early hs).1 (h.early hs).2
  · simp only [htr]
    rw [hsame] at hp
    refine (h.known hp).imp_right fun ⟨hpc₀, hzero, hread⟩ => ?_
    exact ⟨hpc.symm ▸ hpc₀, hquiet hzero hread⟩
  · rw [htr] at hb ⊢
    exact h.unique hb
  · rw [htr] at hb
    rw [hsame]
    exact h.status hb
  · have hp₀ := hm.awaitsLoad hne hc hp
    simp only [htr, hpc]
    refine (h.waiting p hp₀).imp_left fun hpos => ?_
    rcases hm.loadSema hct hc with hsema | ⟨hdown, hread, -⟩
    · exact hsema ▸ hpos
    · -- 下げたのは待っていた親自身であり、もう待っていない
      have hpt : p = t := Option.some.inj
        ((hinv.child_parent p c (hinv.target p c hp₀.target)).symm.trans
          (hinv.child_parent t c (hinv.target t c (by rw [hdown]; rfl))))
      rw [hpt, hread] at hp
      cases hp

/-- `start_process` の初めを過ぎた子では、結果の知らせだけが要る。 -/
theorem past (hs : ¬ (s.proc c).pc.starting)
    (known : (s.proc c).parent ≠ none → (∃ b, Obs.loadDone c b ∈ tr) ∨ Silent s c)
    (unique : Obs.loadDone c true ∈ tr → Obs.loadDone c false ∉ tr)
    (status : Obs.loadDone c false ∈ tr → (s.proc c).failing)
    (waiting : ∀ p, (s.proc p).pc.awaitsLoad c → 0 < (s.proc c).loadSema ∨ (s.proc c).pc.loading ∨
      (s.proc c).pc = .threadExit ∧ ∀ b, Obs.loadDone c b ∉ tr) : LoadAccount tr s c :=
  ⟨fun hl => absurd (by rw [hl]; trivial) hs, fun h => absurd h hs, known, unique, status, waiting⟩

theorem loadDone_iff (hpc : (s.proc c).pc ≠ .load) (b : Bool) :
    Obs.loadDone c b ∈ tr ++ obs s (c, a) ↔ Obs.loadDone c b ∈ tr :=
  ⟨fun hb => (List.mem_append.mp hb).resolve_right fun hb => hpc (loadDone_mem_obs hb).2.1,
    List.mem_append_left _⟩

theorem loadDone_of_load (h : LoadAccount tr s c) (hpc : (s.proc c).pc = .load) {b : Bool}
    (hb : Obs.loadDone c b ∈ tr ++ obs s (c, a)) : a = .load (if b then .loaded else .failed) :=
  (loadDone_mem_obs ((List.mem_append.mp hb).resolve_left (h.fresh hpc b))).2.2

theorem known_of_ne (h : LoadAccount tr s c) (hp : (s.proc c).parent ≠ none)
    (hpc : (s.proc c).pc ≠ .load ∧ (s.proc c).pc ≠ .idle ∧ (s.proc c).pc ≠ .threadExit) :
    ∃ b, Obs.loadDone c b ∈ tr := by
  refine (h.known hp).resolve_right ?_
  rintro ⟨hl | hl | hl, -⟩
  · exact hpc.1 hl
  · exact hpc.2.1 hl
  · exact hpc.2.2 hl

theorem load (h : LoadAccount tr s c) (hpc : (s.proc c).pc = .load) {pc : Pc} {r : LoadResult}
    (hq : s'.proc c = { s.proc c with pc := pc })
    (hread : ∀ p, (s'.proc p).pc ≠ .execRead c)
    (hr : r = .loaded ∧ pc = .loadUp ∨ r = .failed ∧ pc = .loadFailed ∨
      r = .overflow ∧ pc = .threadExit) : LoadAccount (tr ++ obs s (c, .load r)) s' c := by
  have hzero : (s'.proc c).loadSema = 0 := by
    rw [hq]
    exact (h.early (by rw [hpc]; trivial)).1
  have hpc' : (s'.proc c).pc = pc := by rw [hq]
  rcases hr with ⟨rfl, rfl⟩ | ⟨rfl, rfl⟩ | ⟨rfl, rfl⟩
  · have hdone : Obs.loadDone c true ∈ tr ++ obs s (c, .load .loaded) := by
      simp only [obs, hpc, List.mem_append, List.mem_singleton, or_true]
    have hfalse : Obs.loadDone c false ∉ tr ++ obs s (c, .load .loaded) := fun hb =>
      nomatch h.loadDone_of_load hpc hb
    refine past ?_ (fun _ => .inl ⟨true, hdone⟩) (fun _ => hfalse) (fun hb => absurd hb hfalse)
      fun _ _ => .inr (.inl ?_)
    · rw [hpc']
      exact id
    · rw [hpc']
      trivial
  · have hdone : Obs.loadDone c false ∈ tr ++ obs s (c, .load .failed) := by
      simp only [obs, hpc, List.mem_append, List.mem_singleton, or_true]
    have htrue : Obs.loadDone c true ∉ tr ++ obs s (c, .load .failed) := fun hb =>
      nomatch h.loadDone_of_load hpc hb
    refine ⟨fun hl => (nomatch hpc'.symm.trans hl), fun _ => ⟨hzero, hread⟩,
      fun _ => .inl ⟨false, hdone⟩, fun hb => absurd hb htrue, fun _ => .inl hpc',
      fun _ _ => .inr (.inl ?_)⟩
    rw [hpc']
    trivial
  · have hno : ∀ b, Obs.loadDone c b ∉ tr ++ obs s (c, .load .overflow) := fun b hb => by
      have := h.loadDone_of_load hpc hb
      cases b <;> cases this
    refine past ?_ (fun _ => .inr ⟨.inr (.inr hpc'), hzero, hread⟩)
      (fun hb => absurd hb (hno true)) (fun hb => absurd hb (hno false))
      fun _ _ => .inr (.inr ⟨hpc', hno⟩)
    rw [hpc']
    exact id

theorem own (h : LoadAccount tr s c) (hinv : Inv s) (ht : c ∈ s.allList) (hm : Move s c a s') :
    LoadAccount (tr ++ obs s (c, a)) s' c := by
  have hne : c ≠ s.nextTid := Nat.ne_of_lt (hinv.lt c ht)
  have hread : (∀ p, (s.proc p).pc ≠ .execRead c) → ∀ p, (s'.proc p).pc ≠ .execRead c := by
    intro hread p hp
    rcases hm.execRead_cases hne hp with hp | ⟨-, hdown, -⟩
    · exact hread p hp
    · exact hinv.child_ne (hinv.target c c (by rw [hdown]; rfl)) rfl
  have hload : (s.proc c).pc = .load → ∀ p, (s'.proc p).pc ≠ .execRead c := fun hpc =>
    hread (h.early (by rw [hpc]; trivial)).2
  have hunique : (s.proc c).pc ≠ .load → Obs.loadDone c true ∈ tr ++ obs s (c, a) →
      Obs.loadDone c false ∉ tr ++ obs s (c, a) := fun hpc hb => by
    rw [loadDone_iff hpc] at hb ⊢
    exact h.unique hb
  have hknown : ∀ {q : Proc} {pc : Pc}, s'.proc c = q → q.parent = (s.proc c).parent →
      (s.proc c).pc = pc → (pc ≠ .load ∧ pc ≠ .idle ∧ pc ≠ .threadExit) →
      (s'.proc c).parent ≠ none → ∃ b, Obs.loadDone c b ∈ tr ++ obs s (c, a) := by
    rintro q pc hq hparent rfl hpc hp
    rw [hq, hparent] at hp
    exact (h.known_of_ne hp hpc).imp fun _ => List.mem_append_left _
  cases hm.loadStep hinv ht with
  | loaded hpc hq => exact h.load hpc hq (hload hpc) (.inl ⟨rfl, rfl⟩)
  | failed hpc hq => exact h.load hpc hq (hload hpc) (.inr (.inl ⟨rfl, rfl⟩))
  | overflow hpc hq => exact h.load hpc hq (hload hpc) (.inr (.inr ⟨rfl, rfl⟩))
  | fail hpc hq =>
    obtain ⟨hzero, hnone⟩ := h.early (by rw [hpc]; trivial)
    have hpc' : (s'.proc c).pc = .loadFailedUp := by rw [hq]
    refine ⟨fun hl => (nomatch hpc'.symm.trans hl), fun _ => ⟨?_, hread hnone⟩,
      fun hp => .inl (hknown hq rfl hpc ⟨nofun, nofun, nofun⟩ hp), hunique ?_,
      fun _ => .inr ⟨?_, .inr (.inl hpc')⟩, fun _ _ => .inr (.inl ?_)⟩
    · rw [hq]
      exact hzero
    · rw [hpc]
      exact nofun
    · rw [hq]
    · rw [hpc']
      trivial
  | failUp hpc hq =>
    have hpc' : (s'.proc c).pc = .exitEnter (-1) := by rw [hq]
    have hne' : (s.proc c).pc ≠ .load := by
      rw [hpc]
      exact nofun
    refine past (by rw [hpc']; exact id)
      (fun hp => .inl (hknown hq rfl hpc ⟨nofun, nofun, nofun⟩ hp)) (hunique hne')
      (fun hb => .inr ⟨?_, .inr (.inr hpc')⟩) fun _ _ => .inl ?_
    · rw [loadDone_iff hne'] at hb
      rw [hq]
      exact (h.status hb).elim (fun hl => nomatch hpc.symm.trans hl) fun hs => hs.1
    · rw [hq]
      exact Nat.succ_pos _
  | up hpc hq =>
    have hne' : (s.proc c).pc ≠ .load := by
      rw [hpc]
      exact nofun
    refine past (by rw [hq]; exact id)
      (fun hp => .inl (hknown hq rfl hpc ⟨nofun, nofun, nofun⟩ hp)) (hunique hne')
      (fun hb => .inr ?_) fun _ _ => .inl ?_
    · rw [loadDone_iff hne'] at hb
      rcases h.status hb with hl | ⟨-, hl | hl | hl⟩
      · exact nomatch hpc.symm.trans hl
      · rw [hpc] at hl
        cases hl
      · exact nomatch hpc.symm.trans hl
      · exact nomatch hpc.symm.trans hl
    · rw [hq]
      exact Nat.succ_pos _
  | later _ hp hq hsema hparent hexiting hexit hdead =>
    have hne' : (s.proc c).pc ≠ .load := fun hl => hp.1 (by rw [hl]; trivial)
    refine past hq (fun hpar => ?_) (hunique hne') (fun hb => ?_) fun p hpw => ?_
    · rw [hparent] at hpar
      refine (h.known hpar).imp (fun ⟨b, hb⟩ => ⟨b, List.mem_append_left _ hb⟩) ?_
      rintro ⟨hl | hl | hl, hzero, hnone⟩
      · exact absurd hl hne'
      · exact absurd hl hp.2.2
      · exact ⟨.inr (.inr (hdead hl)), hsema.trans hzero, hread hnone⟩
    · rw [loadDone_iff hne'] at hb
      rcases h.status hb with hl | ⟨hstatus, hx | hl | hl⟩
      · exact absurd (by rw [hl]; trivial) hp.1
      · exact .inr ⟨(hexiting hx).2.trans hstatus, .inl (hexiting hx).1⟩
      · exact absurd (by rw [hl]; trivial) hp.1
      · exact .inr ⟨(hexit _ hl).2, .inl (hexit _ hl).1⟩
    · rw [hsema]
      simp only [loadDone_iff hne']
      rcases h.waiting p (hm.awaitsLoad hne (hinv.lt c ht) hpw) with hpos | hl | ⟨hl, hno⟩
      · exact .inl hpos
      · cases hpc : (s.proc c).pc with
        | loadUp => exact absurd hpc hp.2.1
        | load | loadFailed | loadFailedUp =>
          rw [hpc] at hp
          exact absurd trivial hp.1
        | _ =>
          rw [hpc] at hl
          cases hl
      · exact .inr (.inr ⟨hdead hl, hno⟩)

end LoadAccount

/-! ## 実行に沿った帳簿 -/

structure LoadLedger (tr : List Obs) (s : Procs) : Prop where
  account : ∀ c < s.nextTid, LoadAccount tr s c
  /-- まだ無い thread は、観測にも現れない。 -/
  unborn : ∀ c, s.nextTid ≤ c → ∀ b, Obs.loadDone c b ∉ tr

namespace LoadLedger

theorem step (h : LoadLedger tr s) (hinv : Inv s) (ht : t ∈ s.allList) (hm : Move s t a s') :
    LoadLedger (tr ++ obs s (t, a)) s' := by
  have hlt := hinv.lt t ht
  have hunborn : ∀ c, s.nextTid ≤ c → ∀ b, Obs.loadDone c b ∉ tr ++ obs s (t, a) := by
    intro c hc b hb
    rcases List.mem_append.mp hb with hb | hb
    · exact h.unborn c hc b hb
    · exact Nat.not_lt.mpr hc ((loadDone_mem_obs hb).1 ▸ hlt)
  refine ⟨fun c hc => ?_, fun c hc => hunborn c ?_⟩
  · by_cases hold : c < s.nextTid
    · by_cases hct : c = t
      · subst hct
        exact (h.account c hold).own hinv ht hm
      · exact (h.account c hold).other hinv ht hm hold hct
    · have hno := hunborn c (Nat.not_lt.mp hold)
      have hfresh : ∀ p, (s.proc p).pc.child? ≠ some c := fun p hp =>
        hold (hinv.child_lt p _ (hinv.target p _ hp))
      obtain ⟨-, -, hnew⟩ := hm.of_fresh hold hc
      have hread : ∀ p, (s'.proc p).pc ≠ .execRead c := by
        intro p hp
        rcases hm.execRead_cases (Nat.ne_of_lt hlt) hp with hp | ⟨-, hdown, -⟩
        · exact hfresh p (by rw [hp]; rfl)
        · exact hfresh t (by rw [hdown]; rfl)
      refine ⟨fun _ => hno, fun _ => ⟨by rw [hnew]; rfl, hread⟩,
        fun _ => .inr ⟨.inl (by rw [hnew]; rfl), by rw [hnew]; rfl, hread⟩,
        fun hb => absurd hb (hno true), fun hb => absurd hb (hno false),
        fun _ _ => .inr (.inl (by rw [hnew]; trivial))⟩
  · exact Nat.le_trans hm.nextTid_le hc

theorem start : LoadLedger [] boot := by
  refine ⟨fun c _ => ?_, fun _ _ _ hb => nomatch hb⟩
  have hread : ∀ p, (boot.proc p).pc ≠ .execRead c := fun p hp => by
    rcases boot_pc p with h | h <;> exact nomatch h.symm.trans hp
  refine .past (fun hs => ?_) (fun hp => .inr ?_) (fun hb => nomatch hb) (fun hb => nomatch hb)
    fun p hp => ?_
  · rcases boot_pc c with h | h <;> rw [h] at hs <;> cases hs
  · rcases boot_cases c with ⟨-, h⟩ | ⟨-, h⟩ | h <;> rw [h] at hp
    · exact absurd rfl hp
    · exact ⟨.inr (.inl (by rw [h]; rfl)), by rw [h]; rfl, hread⟩
    · exact absurd rfl hp
  · rcases boot_pc p with h | h <;> rw [h] at hp <;> cases hp

end LoadLedger

theorem run_loadLedger (h : Run processes obs boot tr s) : LoadLedger tr s :=
  Run.invariant_of (I := LoadLedger) (J := Inv) (fun _ => reachable_inv) (fun _ => LoadLedger.start)
    (fun _ _ _ _ hinv hl hstep => hl.step hinv (step_move hstep).1 (step_move hstep).2) h

/-! ## 返す値 -/

theorem ne_of_findChild_eq_absent {tid : Int} {l : List Tid} (h : s.findChild tid l = .absent) :
    ∀ d ∈ l, (d : Int) ≠ tid := by
  induction l with
  | nil => exact fun d hd => nomatch hd
  | cons e l ih =>
    rw [findChild] at h
    split at h
    · cases h
    · split at h
      · cases h
      · next hne =>
        intro d hd
        rcases List.mem_cons.mp hd with rfl | hd
        · exact hne
        · exact ih h d hd

theorem execReturn_mem_obs (hinv : Inv s) {child : Option Tid} {v : Int}
    (h : Obs.execReturn p child v ∈ obs s (t, a)) :
    child = none ∧ v = -1 ∨
      ∃ c, child = some c ∧ (s.proc t).pc = .execRead c ∧
        v = if (s.proc c).exitStatus = -1 then -1 else (c : Int) := by
  unfold obs at h
  dsimp only at h
  repeat' split at h
  all_goals
    simp only [List.mem_singleton, List.not_mem_nil, Obs.execReturn.injEq, reduceCtorEq] at h
  · exact .inl h.2
  · -- 作ったばかりの子は列にある
    next c hpc _ hf =>
    exact absurd rfl (ne_of_findChild_eq_absent hf c (hinv.target t c (by rw [hpc]; rfl)))
  · next c hpc hst => exact .inr ⟨c, h.2.1, hpc, by rw [if_pos hst]; exact h.2.2⟩
  · next c hpc hst => exact .inr ⟨c, h.2.1, hpc, by rw [if_neg hst]; exact h.2.2⟩

/-- **正しい返り値。** -1 を返すのは thread を作れないか load に失敗したときで、ほかは子の番号を返す。 -/
def ExecRight (tr : List Obs) (child : Option Tid) (v : Int) : Prop :=
  (v = -1 ↔ child = none ∨ ∃ c, child = some c ∧ Obs.loadDone c false ∈ tr) ∧
    (v ≠ -1 → ∃ c : Tid, child = some c ∧ v = c)

/--
**`exec` の返す値が正しいのは、load に成功した子の `exit_status` が -1 でないときに限る。**

返る前の親については、子が load の結果を知らせたか、これから知らせるか、
`setup_user_stack` の `thread_exit` で消えるかのどれかである。
-/
theorem exec_right_iff (h : Run processes obs boot tr s) :
    (∀ e s' p child v, step s e = some s' → Obs.execReturn p child v ∈ obs s e →
      (ExecRight tr child v ↔
        ¬ ∃ c, child = some c ∧ Obs.loadDone c true ∈ tr ∧ (s.proc c).exitStatus = -1)) ∧
    ∀ p c, (s.proc p).pc = .execDown c → 0 < (s.proc c).loadSema ∨ (s.proc c).pc.loading ∨
      (s.proc c).pc = .threadExit ∧ ∀ b, Obs.loadDone c b ∉ tr := by
  have hinv := reachable_inv h.reachable
  have hl := run_loadLedger h
  refine ⟨?_, fun p c hpc => ?_⟩
  · rintro ⟨t, a⟩ s' p child v - ho
    rcases execReturn_mem_obs hinv ho with ⟨rfl, rfl⟩ | ⟨c, rfl, hpc, rfl⟩
    · refine iff_of_true ⟨iff_of_true rfl (.inl rfl), fun hne => absurd rfl hne⟩ ?_
      rintro ⟨c, hc, -⟩
      cases hc
    · have hmem := hinv.target t c (by rw [hpc]; rfl)
      have hacc := hl.account c (hinv.child_lt t c hmem)
      have hparent : (s.proc c).parent ≠ none := by
        rw [hinv.child_parent t c hmem]
        exact nofun
      -- 親が読む前に、子は結果を知らせている
      have hdone : ∃ b, Obs.loadDone c b ∈ tr :=
        (hacc.known hparent).resolve_right fun hs => hs.2.2 t hpc
      have hfailed : Obs.loadDone c false ∈ tr → (s.proc c).exitStatus = -1 := fun hb =>
        (hacc.status hb).elim
          (fun hpc' => absurd hpc ((hacc.early (by rw [hpc']; trivial)).2 t)) fun hs => hs.1
      unfold ExecRight
      simp only [reduceCtorEq, false_or, Option.some.injEq, exists_eq_left']
      by_cases hb : Obs.loadDone c false ∈ tr
      · have htrue : Obs.loadDone c true ∉ tr := fun ht => hacc.unique ht hb
        simp only [hfailed hb, if_true, hb, htrue, false_and, not_false_eq_true, ne_eq, not_true,
          IsEmpty.forall_iff, and_self]
      · have htrue : Obs.loadDone c true ∈ tr := by
          obtain ⟨b, hb'⟩ := hdone
          cases b with
          | true => exact hb'
          | false => exact absurd hb' hb
        have hne : (c : Int) ≠ -1 := by omega
        by_cases hst : (s.proc c).exitStatus = -1
        · simp [hst, hb, htrue]
        · simp [hst, hb, htrue, hne]
  · have hmem := hinv.target p c (by rw [hpc]; rfl)
    exact (hl.account c (hinv.child_lt p c hmem)).waiting p (by rw [hpc]; rfl)

/-- 子が load に成功し、親がその結果を待っている。 -/
def execLoaded : List (Tid × Act) :=
  [(0, .runTask true), (2, .load .loaded), (2, .go), (2, .exec true), (2, .go), (3, .load .loaded),
    (3, .go)]

theorem run_execReturn (es : List (Tid × Act)) (v : Int) (hrun : (runEvents step boot es).any (fun s =>
      (step s (2, .go)).isSome ∧ obs s (2, .go) = [.execReturn 2 (some 3) v]) = true) :
    ∃ s s', Run processes obs boot (traceEvents step obs boot es) s ∧ step s (2, .go) = some s' ∧
      obs s (2, .go) = [.execReturn 2 (some 3) v] := by
  obtain ⟨s, hs, hp⟩ := (Option.any_eq_true _ _).mp hrun
  obtain ⟨hstep, ho⟩ := of_decide_eq_true hp
  obtain ⟨s', hs'⟩ := Option.isSome_iff_exists.mp hstep
  have h := Run.events es (Run.init rfl : Run processes obs boot [] boot) hs
  exact ⟨s, s', h, hs', ho⟩

theorem exec_right_iff_loaded : ∃ tr s s', Run processes obs boot tr s ∧
    step s (2, .go) = some s' ∧ obs s (2, .go) = [.execReturn 2 (some 3) 3] ∧
    (ExecRight tr (some 3) 3 ↔
      ¬ ∃ c, some 3 = some c ∧ Obs.loadDone c true ∈ tr ∧ (s.proc c).exitStatus = -1) := by
  obtain ⟨s, s', h, hs', ho⟩ := run_execReturn (execLoaded ++ [(2, .go)]) 3
    (by decide +kernel)
  exact ⟨_, s, s', h, hs', ho, (exec_right_iff h).1 _ s' 2 _ _ hs' (ho ▸ List.mem_singleton_self _)⟩

/-- **load に成功した子が `exit(-1)` を呼ぶと、`exec` は -1 を返す。** -/
theorem exists_exec_wrong : ∃ tr s s', Run processes obs boot tr s ∧
    step s (2, .go) = some s' ∧ obs s (2, .go) = [.execReturn 2 (some 3) (-1)] ∧
    Obs.loadDone 3 true ∈ tr ∧ ¬ ExecRight tr (some 3) (-1) := by
  obtain ⟨s, s', h, hs', ho⟩ := run_execReturn
    (execLoaded ++ [(3, .exit (-1)), (3, .go), (2, .go)]) (-1) (by decide +kernel)
  refine ⟨_, s, s', h, hs', ho, by decide +kernel, fun hright => ?_⟩
  rcases hright.1.mp rfl with hnone | ⟨c, hc, hfailed⟩
  · cases hnone
  · cases hc
    revert hfailed
    decide +kernel

end Pintos.Userprog
