import Mathlib.Data.List.Nodup
import Pintos.Userprog.Process

/-!
# 待ち合わせの不変量

一歩がどう起きたかを `Move` に並べ、どの一歩でも保たれる `Inv` を示す。

中心は `Inv.signalled` である。`exit_sema` を上げた跡（`exit_sema` と `wait_sema` の値、
片付けている親）がある子は、もう `thread_exit` するだけなので、上げるのは一度だけである。
-/

namespace Pintos.Userprog

open Infra Procs Function

variable {s s' : Procs} {t u c : Tid} {a : Act} {pc : Pc} {f : Proc → Proc}

/-! ## 一つの thread の書き換え -/

@[simp] theorem modify_self (s : Procs) (t : Tid) (f : Proc → Proc) :
    (s.modify t f).proc t = f (s.proc t) := update_self ..

theorem modify_of_ne (h : u ≠ t) (f : Proc → Proc) : (s.modify t f).proc u = s.proc u :=
  update_of_ne h ..

theorem setPc_self (s : Procs) (t : Tid) (pc : Pc) :
    (s.setPc t pc).proc t = { s.proc t with pc := pc } := modify_self ..

theorem modify_rule {P : Tid → Proc → Prop} (self : P t (f (s.proc t)))
    (other : ∀ u, u ≠ t → P u (s.proc u)) (u : Tid) : P u ((s.modify t f).proc u) := by
  by_cases hu : u = t
  · subst hu
    rwa [modify_self]
  · rw [modify_of_ne hu]
    exact other u hu

theorem modify_field {β : Type} (s : Procs) (g : Proc → β)
    (h : g (f (s.proc t)) = g (s.proc t)) (u : Tid) : g ((s.modify t f).proc u) = g (s.proc u) :=
  modify_rule (P := fun u p => g p = g (s.proc u)) h (fun _ _ => rfl) u

/-! ## 子の列をたどる -/

theorem findChild_eq_child {tid : Int} {l : List Tid} (h : s.findChild tid l = .child c) :
    c ∈ l ∧ c ∈ s.allList ∧ (c : Int) = tid := by
  induction l with
  | nil => cases h
  | cons d l ih =>
    rw [findChild] at h
    split at h
    · cases h
    · next hd =>
      split at h
      · next htid =>
        cases h
        exact ⟨List.mem_cons_self, not_not.mp hd, htid⟩
      · obtain ⟨hc, hrest⟩ := ih h
        exact ⟨List.mem_cons_of_mem d hc, hrest⟩

theorem findChild_eq_absent {tid : Int} {l : List Tid} (hl : ∀ d ∈ l, d ∈ s.allList)
    (hne : ∀ d ∈ l, (d : Int) ≠ tid) : s.findChild tid l = .absent := by
  induction l with
  | nil => rfl
  | cons d l ih =>
    rw [findChild, if_neg (not_not.mpr (hl d List.mem_cons_self)), if_neg (hne d List.mem_cons_self)]
    exact ih (fun e he => hl e (List.mem_cons_of_mem d he)) fun e he =>
      hne e (List.mem_cons_of_mem d he)

/-! ## 一歩がどう起きたか -/

def Procs.created (s : Procs) (t : Tid) (pc : Pc) : Procs where
  proc :=
    update
      (update s.proc t
        { s.proc t with childList := (s.proc t).childList ++ [s.nextTid], pc := pc })
      s.nextTid (Proc.init (some t) .load)
  allList := s.allList ++ [s.nextTid]
  nextTid := s.nextTid + 1

theorem created_new (s : Procs) (t : Tid) (pc : Pc) :
    (s.created t pc).proc s.nextTid = Proc.init (some t) .load := update_self ..

theorem created_self (h : t ≠ s.nextTid) : (s.created t pc).proc t =
    { s.proc t with childList := (s.proc t).childList ++ [s.nextTid], pc := pc } := by
  show update _ _ _ _ = _
  rw [update_of_ne h, update_self]

theorem created_of_ne (hu : u ≠ s.nextTid) (hut : u ≠ t) : (s.created t pc).proc u = s.proc u := by
  show update _ _ _ _ = _
  rw [update_of_ne hu, update_of_ne hut]

theorem created_rule {P : Tid → Proc → Prop} {q : Pc} (hne : t ≠ s.nextTid)
    (new : P s.nextTid (Proc.init (some t) .load))
    (self : P t { s.proc t with childList := (s.proc t).childList ++ [s.nextTid], pc := q })
    (other : ∀ u, u ≠ s.nextTid → u ≠ t → P u (s.proc u)) (u : Tid) :
    P u ((s.created t q).proc u) := by
  by_cases hu : u = s.nextTid
  · subst hu
    rwa [created_new]
  · by_cases hut : u = t
    · subst hut
      rwa [created_self hne]
    · rw [created_of_ne hu hut]
      exact other u hu hut

inductive Move (s : Procs) (t : Tid) : Act → Procs → Prop
  | runTaskFail (hpc : (s.proc t).pc = .main) : Move s t (.runTask false) s
  | runTask (hpc : (s.proc t).pc = .main) :
      Move s t (.runTask true) (s.created t (.waitLookup s.nextTid))
  | finish (hpc : (s.proc t).pc = .main) : Move s t .finish (s.setPc t .threadExit)
  | loaded (hpc : (s.proc t).pc = .load) : Move s t (.load .loaded) (s.setPc t .loadUp)
  | failed (hpc : (s.proc t).pc = .load) : Move s t (.load .failed) (s.setPc t .loadFailed)
  | overflow (hpc : (s.proc t).pc = .load) : Move s t (.load .overflow) (s.setPc t .threadExit)
  | loadFailed (hpc : (s.proc t).pc = .loadFailed) :
      Move s t .go (s.modify t fun p => { p with exitStatus := -1, pc := .loadFailedUp })
  | loadFailedUp (hpc : (s.proc t).pc = .loadFailedUp) :
      Move s t .go (s.modify t fun p =>
        { p with loadSema := p.loadSema + 1, pc := .exitEnter (-1) })
  | loadUp (hpc : (s.proc t).pc = .loadUp) :
      Move s t .go (s.modify t fun p => { p with loadSema := p.loadSema + 1, pc := .user })
  | execFail (hpc : (s.proc t).pc = .user) : Move s t (.exec false) s
  | exec (hpc : (s.proc t).pc = .user) :
      Move s t (.exec true) (s.created t (.execFind s.nextTid))
  | execFind (c : Tid) (hpc : (s.proc t).pc = .execFind c)
      (hf : s.findChild c (s.proc t).childList = .child c) : Move s t .go (s.setPc t (.execDown c))
  | execAbsent (c : Tid) (hpc : (s.proc t).pc = .execFind c)
      (hf : s.findChild c (s.proc t).childList = .absent) : Move s t .go (s.setPc t .user)
  | execDown (c : Tid) (hpc : (s.proc t).pc = .execDown c) (hc : c ∈ s.allList)
      (hpos : 0 < (s.proc c).loadSema) :
      Move s t .go ((s.setPc t (.execRead c)).modify c fun q => { q with loadSema := q.loadSema - 1 })
  | execRead (c : Tid) (hpc : (s.proc t).pc = .execRead c) (hc : c ∈ s.allList) :
      Move s t .go (s.setPc t .user)
  | wait (tid : Int) (c : Tid) (hpc : (s.proc t).pc = .user)
      (hf : s.findChild tid (s.proc t).childList = .child c) (hp : (s.proc c).parent = some t) :
      Move s t (.wait tid) (s.setPc t (.waitSleep c))
  | waitNone (tid : Int) (hpc : (s.proc t).pc = .user) : Move s t (.wait tid) s
  | waitSleep (c : Tid) (hpc : (s.proc t).pc = .waitSleep c) :
      Move s t .go (s.setPc t (.waitLookup c))
  | waitLookup (c : Tid) (hpc : (s.proc t).pc = .waitLookup c) (hc : c ∈ s.allList)
      (hp : (s.proc c).parent = some t) : Move s t .go (s.setPc t (.waitDown c))
  | waitMiss (c : Tid) (hpc : (s.proc t).pc = .waitLookup c)
      (hmiss : ¬ (c ∈ s.allList ∧ (s.proc c).parent = some t)) :
      Move s t .go (s.setPc t (s.proc t).home)
  | waitDown (c : Tid) (hpc : (s.proc t).pc = .waitDown c) (hc : c ∈ s.allList)
      (hpos : 0 < (s.proc c).exitSema) :
      Move s t .go ((s.setPc t (.waitReap c)).modify c fun q => { q with exitSema := q.exitSema - 1 })
  | waitReap (c : Tid) (hpc : (s.proc t).pc = .waitReap c) (hc : c ∈ s.allList) :
      Move s t .go (s.modify t fun p =>
        { p with childList := p.childList.erase c, pc := .waitUp c (s.proc c).exitStatus })
  | waitUp (c : Tid) (status : Int) (hpc : (s.proc t).pc = .waitUp c status) (hc : c ∈ s.allList) :
      Move s t .go
        ((s.modify c fun q => { q with waitSema := q.waitSema + 1 }).setPc t (s.proc t).home)
  | exit (status : Int) (hpc : (s.proc t).pc = .user) :
      Move s t (.exit status) (s.setPc t (.exitEnter status))
  | badAccess (hpc : (s.proc t).pc = .user) : Move s t .badAccess (s.setPc t (.exitEnter (-1)))
  | trap (hpc : (s.proc t).pc = .user) : Move s t .trap (s.setPc t .kill)
  | exitEnter (status : Int) (hpc : (s.proc t).pc = .exitEnter status) :
      Move s t .go (s.modify t fun p => { p with exitStatus := status, pc := .exitUp })
  | exitUp (hpc : (s.proc t).pc = .exitUp) :
      Move s t .go (s.modify t fun p =>
        { p with
          exitSema := p.exitSema + 1
          pc := if p.parent ≠ none then .exitDown else .threadExit })
  | exitDown (hpc : (s.proc t).pc = .exitDown) (hpos : 0 < (s.proc t).waitSema) :
      Move s t .go (s.modify t fun p => { p with waitSema := p.waitSema - 1, pc := .threadExit })
  | kill (hpc : (s.proc t).pc = .kill) : Move s t .go (s.setPc t .threadExit)
  | threadExit (hpc : (s.proc t).pc = .threadExit) : Move s t .go (s.destroy t)

theorem create_eq_some {pc : Tid → Pc} (h : s.create t pc = some s') :
    s' = s.created t (pc s.nextTid) := by
  unfold Procs.create at h
  split at h
  · exact (Option.some.inj h).symm
  · cases h

theorem next_move (h : next s t a = some s') : Move s t a s' := by
  unfold next at h
  dsimp only at h
  split at h
  · next hpc => cases h; exact .runTaskFail hpc
  · next hpc => rw [create_eq_some h]; exact .runTask hpc
  · next hpc => cases h; exact .finish hpc
  · next hpc => cases h; exact .loaded hpc
  · next hpc => cases h; exact .failed hpc
  · next hpc => cases h; exact .overflow hpc
  · next hpc => cases h; exact .loadFailed hpc
  · next hpc => cases h; exact .loadFailedUp hpc
  · next hpc => cases h; exact .loadUp hpc
  · next hpc =>
    split at h
    · cases h
    · cases h; exact .execFail hpc
  · next hpc => rw [create_eq_some h]; exact .exec hpc
  · next c hpc =>
    split at h
    · next d hf =>
      cases h
      obtain rfl : d = c := Int.ofNat_inj.mp (findChild_eq_child hf).2.2
      exact .execFind d hpc hf
    · next hf => cases h; exact .execAbsent c hpc hf
    · cases h
  · next c hpc =>
    split at h
    · next hc => cases h; exact .execDown c hpc hc.1 hc.2
    · cases h
  · next c hpc =>
    split at h
    · next hc => cases h; exact .execRead c hpc hc
    · cases h
  · next tid hpc =>
    split at h
    · next c hf =>
      split at h
      · next hp => cases h; exact .wait tid c hpc hf hp
      · cases h; exact .waitNone tid hpc
    · cases h; exact .waitNone tid hpc
    · cases h
  · next c hpc => cases h; exact .waitSleep c hpc
  · next c hpc =>
    split at h
    · next hc => cases h; exact .waitLookup c hpc hc.1 hc.2
    · next hc => cases h; exact .waitMiss c hpc hc
  · next c hpc =>
    split at h
    · next hc => cases h; exact .waitDown c hpc hc.1 hc.2
    · cases h
  · next c hpc =>
    split at h
    · next hc => cases h; exact .waitReap c hpc hc.1
    · cases h
  · next c status hpc =>
    split at h
    · next hc => cases h; exact .waitUp c status hpc hc
    · cases h
  · next status hpc => cases h; exact .exit status hpc
  · next hpc => cases h; exact .badAccess hpc
  · next hpc => cases h; exact .trap hpc
  · next status hpc => cases h; exact .exitEnter status hpc
  · next hpc => cases h; exact .exitUp hpc
  · next hpc =>
    split at h
    · next hpos => cases h; exact .exitDown hpc hpos
    · cases h
  · next hpc => cases h; exact .kill hpc
  · next hpc => cases h; exact .threadExit hpc
  · cases h

theorem step_move {e : Tid × Act} (h : step s e = some s') :
    e.1 ∈ s.allList ∧ Move s e.1 e.2 s' := by
  unfold step at h
  split at h
  · next hmem => exact ⟨hmem, next_move h⟩
  · cases h

/-! ## ほかの thread への影響 -/

/-- 変わったのは semaphore だけである。 -/
def Proc.SameButSemas (p q : Proc) : Prop :=
  ∃ l e w, q = { p with loadSema := l, exitSema := e, waitSema := w }

/-- **一歩は、作った thread を除くほかの thread の、semaphore だけを変える。** -/
theorem Move.other (hm : Move s t a s') (hu : u ≠ t) :
    (s.proc u).SameButSemas (s'.proc u) ∨
      u = s.nextTid ∧ s'.proc u = Proc.init (some t) .load := by
  -- 親が子 `c` の semaphore を一つ変える
  have hsema : ∀ {s₁ : Procs} {f : Proc → Proc}, s₁.proc u = s.proc u →
      (∀ p : Proc, p.SameButSemas (f p)) → ∀ c, (s.proc u).SameButSemas ((s₁.modify c f).proc u) := by
    intro s₁ f h₁ hf c
    rw [← h₁]
    exact modify_rule (P := fun u p => (s₁.proc u).SameButSemas p) (hf _)
      (fun _ _ => ⟨_, _, _, rfl⟩) u
  have hcreated : ∀ pc, (s.proc u).SameButSemas ((s.created t pc).proc u) ∨
      u = s.nextTid ∧ (s.created t pc).proc u = Proc.init (some t) .load := by
    intro pc
    by_cases hun : u = s.nextTid
    · exact .inr ⟨hun, hun ▸ created_new s t pc⟩
    · exact .inl ⟨_, _, _, created_of_ne hun hu⟩
  cases hm with
  | runTaskFail | execFail | waitNone | threadExit => exact .inl ⟨_, _, _, rfl⟩
  | runTask | exec => exact hcreated _
  | execDown c | waitDown c =>
    exact .inl (hsema (modify_of_ne hu _) (fun _ => ⟨_, _, _, rfl⟩) c)
  | waitUp c =>
    refine .inl ?_
    rw [Procs.setPc, modify_of_ne hu]
    exact hsema rfl (fun _ => ⟨_, _, _, rfl⟩) c
  | _ => exact .inl ⟨_, _, _, modify_of_ne hu _⟩

/-- 作った thread の番号は新しいので、前から居る thread は semaphore だけが変わる。 -/
theorem Move.frame (hm : Move s t a s') (hu : u ≠ t) (hlt : u < s.nextTid) :
    (s.proc u).SameButSemas (s'.proc u) :=
  (hm.other hu).resolve_right fun h => Nat.ne_of_lt hlt h.1

theorem Move.mem_allList (hm : Move s t a s') (hu : u ≠ t) (h : u ∈ s.allList) :
    u ∈ s'.allList := by
  cases hm with
  | runTask | exec => exact List.mem_append_left _ h
  | threadExit => exact (List.mem_erase_of_ne hu).mpr h
  | _ => exact h

theorem Move.nextTid (hm : Move s t a s') :
    s'.nextTid = s.nextTid ∧ s'.allList ⊆ s.allList ∨
      s'.nextTid = s.nextTid + 1 ∧ s'.allList = s.allList ++ [s.nextTid] ∧
        s'.proc s.nextTid = Proc.init (some t) .load := by
  cases hm with
  | runTask | exec => exact .inr ⟨rfl, rfl, created_new ..⟩
  | threadExit => exact .inl ⟨rfl, List.erase_subset⟩
  | _ => exact .inl ⟨rfl, List.Subset.refl _⟩

theorem Move.nextTid_le (hm : Move s t a s') : s.nextTid ≤ s'.nextTid := by
  rcases hm.nextTid with ⟨hn, -⟩ | ⟨hn, -⟩
  · exact Nat.le_of_eq hn.symm
  · exact hn ▸ Nat.le_succ _

theorem Move.of_fresh (hm : Move s t a s') (hu : ¬ u < s.nextTid) (hu' : u < s'.nextTid) :
    u = s.nextTid ∧ s'.allList = s.allList ++ [u] ∧ s'.proc u = Proc.init (some t) .load := by
  rcases hm.nextTid with ⟨hn, -⟩ | ⟨hn, hnew⟩ <;> rw [hn] at hu'
  · exact absurd hu' hu
  · obtain rfl : u = s.nextTid := Nat.le_antisymm (Nat.le_of_lt_succ hu') (Nat.not_lt.mp hu)
    exact ⟨rfl, hnew⟩

/-! ## 不変量 -/

namespace Pc

/-- 待っている、またはこれから待つ子。 -/
def child? : Pc → Option Tid
  | .execFind c | .execDown c | .execRead c | .waitSleep c | .waitLookup c | .waitDown c
  | .waitReap c => some c
  | _ => none

/-- 子 `c` の `exit_sema` を下げて、片付けている。 -/
def reaps (c : Tid) : Pc → Prop
  | .waitReap d | .waitUp d _ => d = c
  | _ => False

/-- `start_process` の、`exit` を呼ぶ前。 -/
def starting : Pc → Prop
  | .load | .loadFailed | .loadFailedUp => True
  | _ => False

/-- `exit` の、値を書いた後。 -/
def exiting : Pc → Prop
  | .exitUp | .exitDown | .threadExit => True
  | _ => False

/-- もう `exit_sema` を上げない。 -/
def done : Pc → Bool
  | .exitDown | .threadExit => true
  | _ => false

/-- 子を待つ所でも片付ける所でもない。 -/
def plain : Pc → Bool
  | .waitUp .. => false
  | pc => pc.child?.isNone

theorem plain_spec (h : pc.plain = true) :
    (∀ c, pc.child? ≠ some c) ∧ (∀ c, ¬ pc.reaps c) ∧ ∀ c v, pc ≠ .waitUp c v := by
  cases pc <;> simp [plain, child?, reaps] at h ⊢

theorem exiting_of_done (h : pc.done = true) : pc.exiting := by
  cases pc <;> simp [done, exiting] at h ⊢

theorem plain_home (p : Proc) : p.home.plain = true ∧ ¬ p.home.starting := by
  unfold Proc.home
  split <;> exact ⟨rfl, id⟩

theorem plain_exitUp (q : Prop) [Decidable q] :
    (if q then Pc.exitDown else .threadExit).plain = true ∧
      (if q then Pc.exitDown else .threadExit).done = true := by
  split <;> exact ⟨rfl, rfl⟩

end Pc

structure Inv (s : Procs) : Prop where
  nodup : s.allList.Nodup
  lt : ∀ t ∈ s.allList, t < s.nextTid
  parent_lt : ∀ c t, (s.proc c).parent = some t → t < c
  child_parent : ∀ t, ∀ c ∈ (s.proc t).childList, (s.proc c).parent = some t
  child_lt : ∀ t, ∀ c ∈ (s.proc t).childList, c < s.nextTid
  child_nodup : ∀ t, (s.proc t).childList.Nodup
  target : ∀ t c, (s.proc t).pc.child? = some c → c ∈ (s.proc t).childList
  reap : ∀ t c, (s.proc t).pc.reaps c → (s.proc c).parent = some t ∧ c < s.nextTid
  /-- `exit_sema` を上げた跡があれば、もう上げない。 -/
  signalled : ∀ c, (0 < (s.proc c).exitSema ∨ 0 < (s.proc c).waitSema ∨ ∃ t, (s.proc t).pc.reaps c) →
    (s.proc c).pc.done = true
  /-- 片付けた子は、誰の列にも無い。 -/
  reaped : ∀ c, (0 < (s.proc c).waitSema ∨ ∃ t v, (s.proc t).pc = .waitUp c v) →
    ∀ q, c ∉ (s.proc q).childList

namespace Inv

variable (h : Inv s)
include h

theorem child_ne (hc : c ∈ (s.proc t).childList) : c ≠ t :=
  Nat.ne_of_gt (h.parent_lt c t (h.child_parent t c hc))

theorem done_of_sema (hs : 0 < (s.proc c).exitSema ∨ 0 < (s.proc c).waitSema) :
    (s.proc c).pc.done = true :=
  h.signalled c (hs.elim Or.inl fun hw => .inr (.inl hw))

theorem done_of_reaps (hr : (s.proc t).pc.reaps c) : (s.proc c).pc.done = true :=
  h.signalled c (.inr (.inr ⟨t, hr⟩))

theorem modify (hparent : (f (s.proc t)).parent = (s.proc t).parent)
    (hlist : (f (s.proc t)).childList.Sublist (s.proc t).childList)
    (htarget : ∀ c, (f (s.proc t)).pc.child? = some c → c ∈ (f (s.proc t)).childList)
    (hreap : ∀ c, (f (s.proc t)).pc.reaps c →
      (s.proc c).parent = some t ∧ c < s.nextTid ∧ (s.proc c).pc.done = true)
    (hsema : 0 < (f (s.proc t)).exitSema ∨ 0 < (f (s.proc t)).waitSema →
      (f (s.proc t)).pc.done = true)
    (hdone : (s.proc t).pc.done = true → (f (s.proc t)).pc.done = true)
    (hwait : 0 < (f (s.proc t)).waitSema → ∀ q, t ∉ (s.proc q).childList)
    (hup : ∀ c v, (f (s.proc t)).pc = .waitUp c v → ∀ q, c ∉ ((s.modify t f).proc q).childList) :
    Inv (s.modify t f) := by
  have hparent' := modify_field s Proc.parent hparent
  have hlist' := modify_rule (P := fun u p => p.childList.Sublist (s.proc u).childList) hlist
    fun _ _ => .refl _
  have hdone' := modify_rule (P := fun u p => (s.proc u).pc.done = true → p.pc.done = true) hdone
    fun _ _ => id
  refine ⟨h.nodup, h.lt, ?_, ?_, ?_, ?_, ?_, ?_, ?_, ?_⟩
  · intro c u hc
    rw [hparent'] at hc
    exact h.parent_lt c u hc
  · intro u c hc
    rw [hparent']
    exact h.child_parent u c ((hlist' u).subset hc)
  · exact fun u c hc => h.child_lt u c ((hlist' u).subset hc)
  · exact fun u => (h.child_nodup u).sublist (hlist' u)
  · exact modify_rule (P := fun _ p => ∀ c, p.pc.child? = some c → c ∈ p.childList) htarget
      fun u _ => h.target u
  · intro u c
    rw [hparent']
    exact modify_rule (P := fun u p => p.pc.reaps c → (s.proc c).parent = some u ∧ c < s.nextTid)
      (fun hc => ⟨(hreap c hc).1, (hreap c hc).2.1⟩) (fun u _ => h.reap u c) u
  · have hsema' := modify_rule (P := fun _ p => 0 < p.exitSema ∨ 0 < p.waitSema → p.pc.done = true)
      hsema fun _ _ => h.done_of_sema
    rintro c (hc | hc | ⟨u, hu⟩)
    · exact hsema' c (.inl hc)
    · exact hsema' c (.inr hc)
    · exact hdone' c (modify_rule (P := fun _ p => p.pc.reaps c → (s.proc c).pc.done = true)
        (fun hc => (hreap c hc).2.2) (fun _ _ => h.done_of_reaps) u hu)
  · have hold : ∀ c, (∀ q, c ∉ (s.proc q).childList) → ∀ q, c ∉ ((s.modify t f).proc q).childList :=
      fun c hc q hq => hc q ((hlist' q).subset hq)
    rintro c (hc | ⟨u, v, hu⟩)
    · exact hold c (modify_rule (P := fun c p => 0 < p.waitSema → ∀ q, c ∉ (s.proc q).childList)
        hwait (fun c _ hc => h.reaped c (.inl hc)) c hc)
    · exact modify_rule (P := fun _ p => p.pc = .waitUp c v →
        ∀ q, c ∉ ((s.modify t f).proc q).childList) (hup c v)
        (fun u _ hu => hold c (h.reaped c (.inr ⟨u, v, hu⟩))) u hu

theorem own (hparent : (f (s.proc t)).parent = (s.proc t).parent)
    (hlist : (f (s.proc t)).childList = (s.proc t).childList)
    (hexit : 0 < (f (s.proc t)).exitSema → 0 < (s.proc t).exitSema)
    (hwait : 0 < (f (s.proc t)).waitSema → 0 < (s.proc t).waitSema)
    (hpc : (f (s.proc t)).pc.plain = true)
    (hdone : (s.proc t).pc.done = true → (f (s.proc t)).pc.done = true) : Inv (s.modify t f) := by
  obtain ⟨hchild, hreap, hup⟩ := Pc.plain_spec hpc
  exact h.modify hparent (hlist ▸ List.Sublist.refl _) (fun c hc => absurd hc (hchild c))
    (fun c hc => absurd hc (hreap c)) (fun hs => hdone (h.done_of_sema (hs.imp hexit hwait))) hdone
    (fun hw => h.reaped t (.inl (hwait hw))) fun c v hv => absurd hv (hup c v)

theorem setPc (htarget : ∀ c, pc.child? = some c → c ∈ (s.proc t).childList)
    (hreap : ∀ c, pc.reaps c → (s.proc c).parent = some t ∧ c < s.nextTid ∧ (s.proc c).pc.done = true)
    (hnot : (s.proc t).pc.done = false) (hup : ∀ c v, pc ≠ .waitUp c v) : Inv (s.setPc t pc) := by
  have hdone : ∀ {q : Prop}, (s.proc t).pc.done = true → q := fun hd => nomatch hnot.symm.trans hd
  exact h.modify rfl (List.Sublist.refl _) htarget hreap (fun hs => hdone (h.done_of_sema hs)) hdone
    (fun hw => h.reaped t (.inl hw)) fun c v hv => absurd hv (hup c v)

theorem jump (hpc : pc.plain = true) (hnot : (s.proc t).pc.done = false) : Inv (s.setPc t pc) :=
  h.own rfl rfl id id hpc fun hd => nomatch hnot.symm.trans hd

theorem follow (hpc : pc.child? = some c) (hc : c ∈ (s.proc t).childList)
    (hreap : ∀ d, ¬ pc.reaps d) (hnot : (s.proc t).pc.done = false) : Inv (s.setPc t pc) := by
  refine h.setPc (fun d hd => ?_) (fun d hd => absurd hd (hreap d)) hnot ?_
  · rw [hpc] at hd
    exact Option.some.inj hd ▸ hc
  · rintro d v rfl
    cases hpc

theorem modifySema (hparent : (f (s.proc c)).parent = (s.proc c).parent)
    (hlist : (f (s.proc c)).childList = (s.proc c).childList)
    (hpc : (f (s.proc c)).pc = (s.proc c).pc)
    (hsema : 0 < (f (s.proc c)).exitSema ∨ 0 < (f (s.proc c)).waitSema → (s.proc c).pc.done = true)
    (hwait : 0 < (f (s.proc c)).waitSema → ∀ q, c ∉ (s.proc q).childList) :
    Inv (s.modify c f) := by
  refine h.modify hparent (hlist ▸ List.Sublist.refl _) ?_ ?_ ?_ ?_ hwait ?_ <;> rw [hpc]
  · rw [hlist]
    exact h.target c
  · intro d hd
    obtain ⟨hp, hlt⟩ := h.reap c d hd
    exact ⟨hp, hlt, h.done_of_reaps hd⟩
  · exact hsema
  · exact id
  · intro d v hv q
    rw [modify_field s Proc.childList hlist]
    exact h.reaped d (.inr ⟨c, v, hv⟩) q

/-! ### thread を作る、壊す -/

theorem created (ht : t ∈ s.allList) (hpc : pc.child? = some s.nextTid)
    (hreap : ∀ d, ¬ pc.reaps d) (hnot : (s.proc t).pc.done = false) : Inv (s.created t pc) := by
  have hlt := h.lt t ht
  have hne : t ≠ s.nextTid := Nat.ne_of_lt hlt
  have hnew := created_new s t pc
  have hparent := created_rule (q := pc) (P := fun u p => u ≠ s.nextTid →
    p.parent = (s.proc u).parent) hne (absurd rfl) (fun _ => rfl) fun _ _ _ _ => rfl
  -- 新しい thread の番号は、まだ誰の列にも無い
  have hfresh : s.nextTid ∉ (s.proc t).childList := fun hm =>
    Nat.lt_irrefl _ (h.child_lt t _ hm)
  have hdone := created_rule (q := pc) (P := fun u p => u ≠ s.nextTid → (s.proc u).pc.done = true →
    p.pc.done = true) hne (absurd rfl) (fun _ hd => nomatch hnot.symm.trans hd) fun _ _ _ _ => id
  have hlist := created_rule (q := pc) (P := fun u p => ∀ c ∈ p.childList,
    c ∈ (s.proc u).childList ∨ u = t ∧ c = s.nextTid) hne (fun _ hc => nomatch hc)
    (fun _ hc => (List.mem_append.mp hc).imp_right fun hc => ⟨rfl, List.mem_singleton.mp hc⟩)
    fun _ _ _ _ => Or.inl
  have hreaps := created_rule (q := pc) (P := fun u p => ∀ d, p.pc.reaps d → (s.proc u).pc.reaps d)
    hne (fun _ hd => nomatch hd) (fun d hd => absurd hd (hreap d)) fun _ _ _ _ => id
  have hsema := created_rule (q := pc) (P := fun u p => (0 < p.exitSema → 0 < (s.proc u).exitSema) ∧
    (0 < p.waitSema → 0 < (s.proc u).waitSema ∧ u ≠ s.nextTid)) hne
    ⟨fun hs => (nomatch hs), fun hs => (nomatch hs)⟩ ⟨id, fun hs => ⟨hs, hne⟩⟩
    fun _ hu _ => ⟨id, fun hs => ⟨hs, hu⟩⟩
  refine ⟨?_, ?_, ?_, ?_, ?_, ?_, ?_, ?_, ?_, ?_⟩
  · refine List.nodup_append.mpr ⟨h.nodup, List.nodup_singleton _, ?_⟩
    rintro u hu v hv rfl
    exact Nat.lt_irrefl _ (List.mem_singleton.mp hv ▸ h.lt u hu)
  · intro u hu
    rcases List.mem_append.mp hu with hu | hu
    · exact Nat.lt_succ_of_lt (h.lt u hu)
    · rw [List.mem_singleton.mp hu]
      exact Nat.lt_succ_self _
  · intro c u hc
    by_cases hcn : c = s.nextTid
    · subst hcn
      rw [hnew] at hc
      exact Option.some.inj hc ▸ hlt
    · rw [hparent c hcn] at hc
      exact h.parent_lt c u hc
  · intro u c hc
    rcases hlist u c hc with hc | ⟨rfl, rfl⟩
    · rw [hparent c (Nat.ne_of_lt (h.child_lt u c hc))]
      exact h.child_parent u c hc
    · rw [hnew]
      rfl
  · intro u c hc
    rcases hlist u c hc with hc | ⟨-, rfl⟩
    · exact Nat.lt_succ_of_lt (h.child_lt u c hc)
    · exact Nat.lt_succ_self _
  · refine created_rule (P := fun _ p => p.childList.Nodup) hne List.nodup_nil ?_
      fun u _ _ => h.child_nodup u
    refine List.nodup_append.mpr ⟨h.child_nodup t, List.nodup_singleton _, ?_⟩
    rintro c hc d hd rfl
    exact hfresh (List.mem_singleton.mp hd ▸ hc)
  · refine created_rule (P := fun _ p => ∀ c, p.pc.child? = some c → c ∈ p.childList) hne
      (fun _ hc => nomatch hc) (fun c hc => ?_) fun u _ _ => h.target u
    rw [← Option.some.inj (hpc.symm.trans hc)]
    exact List.mem_append_right _ (List.mem_singleton_self _)
  · intro u c hc
    obtain ⟨hp, hlt'⟩ := h.reap u c (hreaps u c hc)
    exact ⟨(hparent c (Nat.ne_of_lt hlt')).trans hp, Nat.lt_succ_of_lt hlt'⟩
  · intro c hc
    by_cases hcn : c = s.nextTid
    · subst hcn
      rw [hnew] at hc
      rcases hc with hc | hc | ⟨u, hu⟩
      · cases hc
      · cases hc
      · exact absurd (h.reap u _ (hreaps u _ hu)).2 (Nat.lt_irrefl _)
    · refine hdone c hcn ?_
      rcases hc with hc | hc | ⟨u, hu⟩
      · exact h.done_of_sema (.inl ((hsema c).1 hc))
      · exact h.done_of_sema (.inr ((hsema c).2 hc).1)
      · exact h.done_of_reaps (hreaps u c hu)
  · have hold : ∀ c, c ≠ s.nextTid → (∀ q, c ∉ (s.proc q).childList) →
        ∀ q, c ∉ ((s.created t pc).proc q).childList :=
      fun c hcn hc q hq => (hlist q c hq).elim (hc q) fun hn => hcn hn.2
    rintro c (hc | ⟨u, v, hu⟩)
    · obtain ⟨hw, hcn⟩ := (hsema c).2 hc
      exact hold c hcn (h.reaped c (.inl hw))
    · have hu₀ : (s.proc u).pc = .waitUp c v := created_rule (q := pc) (P := fun u p =>
        p.pc = .waitUp c v → (s.proc u).pc = .waitUp c v) hne (fun hv => nomatch hv)
        (fun hv => absurd (show pc.reaps c by rw [show pc = _ from hv]; rfl) (hreap c))
        (fun _ _ _ => id) u hu
      have hlt' := (h.reap u c (by rw [hu₀]; rfl)).2
      exact hold c (Nat.ne_of_lt hlt') (h.reaped c (.inr ⟨u, v, hu₀⟩))

theorem destroy (t : Tid) : Inv (s.destroy t) :=
  { h with
    nodup := h.nodup.erase t
    lt := fun u hu => h.lt u (List.mem_of_mem_erase hu) }

theorem move (ht : t ∈ s.allList) (hm : Move s t a s') : Inv s' := by
  -- 動く前の所が分かっていれば、`exit_sema` を上げた後かどうかも分かる
  have hnot : ∀ {pc}, (s.proc t).pc = pc → pc.done = false → (s.proc t).pc.done = false :=
    fun hpc hd => hpc ▸ hd
  have hkeep : ∀ {pc} {q : Prop}, (s.proc t).pc = pc → pc.done = false →
      (s.proc t).pc.done = true → q := fun hpc hd hd' => nomatch (hnot hpc hd).symm.trans hd'
  cases hm with
  | runTaskFail | execFail | waitNone => exact h
  | runTask hpc | exec hpc => exact h.created ht rfl (fun _ hr => hr) (hnot hpc rfl)
  | finish hpc | loaded hpc | failed hpc | overflow hpc | execAbsent _ hpc | execRead _ hpc
  | exit _ hpc | badAccess hpc | trap hpc | kill hpc =>
    exact h.jump rfl (hnot hpc rfl)
  | loadFailed hpc | loadFailedUp hpc | loadUp hpc | exitEnter _ hpc =>
    exact h.own rfl rfl id id rfl (hkeep hpc rfl)
  | execFind c hpc hf =>
    exact h.follow rfl (findChild_eq_child hf).1 (fun _ hr => hr) (hnot hpc rfl)
  | execDown c hpc hc hpos =>
    have hmem := h.target t c (by rw [hpc]; rfl)
    have h₁ : Inv (s.setPc t (.execRead c)) := h.follow rfl hmem (fun _ hr => hr) (hnot hpc rfl)
    exact h₁.modifySema rfl rfl rfl h₁.done_of_sema fun hw => h₁.reaped c (.inl hw)
  | wait tid c hpc hf hp =>
    exact h.follow rfl (findChild_eq_child hf).1 (fun _ hr => hr) (hnot hpc rfl)
  | waitSleep c hpc | waitLookup c hpc =>
    exact h.follow rfl (h.target t c (by rw [hpc]; rfl)) (fun _ hr => hr) (hnot hpc rfl)
  | waitMiss c hpc hmiss => exact h.jump (Pc.plain_home (s.proc t)).1 (hnot hpc rfl)
  | waitDown c hpc hc hpos =>
    have hmem := h.target t c (by rw [hpc]; rfl)
    have hdone := h.signalled c (.inl hpos)
    have h₁ : Inv (s.setPc t (.waitReap c)) := by
      refine h.setPc (fun d hd => Option.some.inj hd ▸ hmem) (fun d hd => ?_) (hnot hpc rfl) nofun
      obtain rfl : c = d := hd
      exact ⟨h.child_parent t c hmem, h.child_lt t c hmem, hdone⟩
    exact h₁.modifySema rfl rfl rfl (fun _ => h₁.done_of_reaps (t := t) (by
      rw [Procs.setPc, modify_self]; rfl)) fun hw => h₁.reaped c (.inl hw)
  | waitReap c hpc hc =>
    have hreap : (s.proc t).pc.reaps c := by rw [hpc]; rfl
    obtain ⟨hp, hlt⟩ := h.reap t c hreap
    refine h.modify rfl List.erase_sublist nofun (fun d hd => ?_)
      (fun hs => hkeep hpc rfl (h.done_of_sema hs)) (hkeep hpc rfl)
      (fun hw => h.reaped t (.inl hw)) fun d v hv => ?_
    · obtain rfl : c = d := hd
      exact ⟨hp, hlt, h.done_of_reaps hreap⟩
    · -- `c` を列に持つのは親の `t` だけで、そこから外した
      obtain ⟨rfl, -⟩ := Pc.waitUp.inj hv
      refine modify_rule (P := fun _ p => c ∉ p.childList) (h.child_nodup t).not_mem_erase
        fun q hqt hq => hqt (Option.some.inj ((h.child_parent q c hq).symm.trans hp))
  | waitUp c status hpc hc =>
    have hreap : (s.proc t).pc.reaps c := by rw [hpc]; rfl
    have h₁ : Inv (s.modify c fun q => { q with waitSema := q.waitSema + 1 }) :=
      h.modifySema rfl rfl rfl (fun _ => h.done_of_reaps hreap)
        fun _ => h.reaped c (.inr ⟨t, status, hpc⟩)
    refine h₁.jump (Pc.plain_home (s.proc t)).1 ?_
    rw [modify_field s Proc.pc rfl]
    exact hnot hpc rfl
  | exitUp hpc =>
    obtain ⟨hplain, hdone⟩ := Pc.plain_exitUp ((s.proc t).parent ≠ none)
    obtain ⟨hchild, hreap, hup⟩ := Pc.plain_spec hplain
    exact h.modify rfl (List.Sublist.refl _) (fun c hc => absurd hc (hchild c))
      (fun c hc => absurd hc (hreap c)) (fun _ => hdone) (fun _ => hdone)
      (fun hw => h.reaped t (.inl hw)) fun c v hv => absurd hv (hup c v)
  | exitDown hpc hpos => exact h.own rfl rfl id (fun _ => hpos) rfl fun _ => rfl
  | threadExit hpc => exact h.destroy t

end Inv

theorem boot_cases (t : Tid) :
    t = 0 ∧ boot.proc t = { Proc.init none .main with childList := [1] } ∨
    t = 1 ∧ boot.proc t = Proc.init (some 0) .idle ∨ boot.proc t = Proc.init none .idle := by
  unfold boot
  dsimp only
  split
  · next h => exact .inl ⟨h, rfl⟩
  · split
    · next h => exact .inr (.inl ⟨h, rfl⟩)
    · exact .inr (.inr rfl)

theorem boot_pc (t : Tid) : (boot.proc t).pc = .main ∨ (boot.proc t).pc = .idle := by
  rcases boot_cases t with ⟨-, h⟩ | ⟨-, h⟩ | h <;> rw [h]
  · exact .inl rfl
  · exact .inr rfl
  · exact .inr rfl

theorem inv_boot : Inv boot := by
  have hlist : ∀ t c, c ∈ (boot.proc t).childList → t = 0 ∧ c = 1 := by
    intro t c hc
    rcases boot_cases t with ⟨ht, h⟩ | ⟨-, h⟩ | h <;> rw [h] at hc
    · exact ⟨ht, List.mem_singleton.mp hc⟩
    · cases hc
    · cases hc
  have hnone : ∀ t, (boot.proc t).exitSema = 0 ∧ (boot.proc t).waitSema = 0 ∧
      (boot.proc t).childList.Nodup := by
    intro t
    rcases boot_cases t with ⟨-, h⟩ | ⟨-, h⟩ | h <;> rw [h] <;> exact ⟨rfl, rfl, by decide⟩
  have hreap : ∀ t c, ¬ (boot.proc t).pc.reaps c := by
    intro t c hc
    rcases boot_pc t with h | h <;> rw [h] at hc <;> cases hc
  refine ⟨by decide, by decide, ?_, ?_, ?_, fun t => (hnone t).2.2, ?_,
    fun t c hc => absurd hc (hreap t c), ?_, ?_⟩
  · intro c t hc
    rcases boot_cases c with ⟨-, h⟩ | ⟨rfl, h⟩ | h <;> rw [h] at hc
    · cases hc
    · cases hc
      exact Nat.one_pos
    · cases hc
  · intro t c hc
    obtain ⟨rfl, rfl⟩ := hlist t c hc
    rfl
  · intro t c hc
    rw [(hlist t c hc).2]
    decide
  · intro t c hc
    rcases boot_pc t with h | h <;> rw [h] at hc <;> cases hc
  · rintro c (hc | hc | ⟨t, ht⟩)
    · rw [(hnone c).1] at hc
      cases hc
    · rw [(hnone c).2.1] at hc
      cases hc
    · exact absurd ht (hreap t c)
  · rintro c (hc | ⟨t, v, ht⟩)
    · rw [(hnone c).2.1] at hc
      cases hc
    · exact absurd (by rw [ht]; rfl) (hreap t c)

theorem reachable_inv (h : Reachable processes s) : Inv s := by
  refine Reachable.invariant (I := Inv) (fun s hi => ?_)
    (fun _ _ _ hs hstep => hs.move (step_move hstep).1 (step_move hstep).2) h
  obtain rfl : s = boot := hi
  exact inv_boot

end Pintos.Userprog
