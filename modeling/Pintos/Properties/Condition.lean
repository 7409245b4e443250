import Mathlib.Tactic.Common
import Pintos.Infra.Except
import Pintos.Threads.Condition

/-!
# 条件変数の不変量

lock は高々一つの thread が持ち、`cond->waiters` に触れるのは lock を持つ thread だけである。
`cond_wait` に入った thread は、`cond->waiters` にいるか、取り出されて `sema_up` を待つか、
semaphore の値が 1 になっているかの、ちょうど一つである。
-/

namespace Pintos.Condition

open Infra Function

/-! ## 位置の分類 -/

/-- lock から見た thread の役割。 -/
inductive Role
  /-- `synch.c` の外。 -/
  | out
  /-- lock を持たずに待つか、取りに行く所。 -/
  | away
  /-- lock の semaphore の値の 1 を運んでいる所。 -/
  | carrying
  /-- lock を持って実行する所。 -/
  | working
deriving DecidableEq

namespace Pc

def role : Pc → Role
  | .idle => .out
  | .lockDown _ | .lockBlocked _ | .waitDown | .waitBlocked | .waitAcquire => .away
  | .lockSetHolder _ | .lockUp _ => .carrying
  | .waitInit | .waitPush | .waitRelease | .signalTest _ | .signalPop _ | .signalUp _ _
  | .broadcastTest => .working

/-- `lock->semaphore` の `waiters` にいる所。 -/
def lockQueued : Pc → Bool
  | .lockBlocked _ => true
  | _ => false

end Pc

/-- `cond_wait` から見た thread の様子。 -/
inductive View
  | other
  /-- `waiter` を作ったが、まだ入れていない。 -/
  | fresh
  /-- `waiter` を入れて、`sema_down (&waiter.semaphore)` をまだ抜けていない。 -/
  | enlisted
  /-- `waiter.semaphore` で block している。 -/
  | blocked
  /-- `cond->waiters` が空でないことを確かめた。 -/
  | popping
  /-- `w` の waiter を取り出して、これから上げる。 -/
  | upping (w : Tid)
deriving DecidableEq

def Pc.view : Pc → View
  | .waitPush => .fresh
  | .waitRelease | .lockUp true | .waitDown => .enlisted
  | .waitBlocked => .blocked
  | .signalPop _ => .popping
  | .signalUp _ w => .upping w
  | .idle | .lockDown _ | .lockBlocked _ | .lockSetHolder _ | .lockUp false | .waitInit
  | .waitAcquire | .signalTest _ | .broadcastTest => .other

theorem apply_update {β : Type} (f : Pc → β) {pc : Tid → Pc} {t : Tid} {p : Pc}
    (h : f p = f (pc t)) (u : Tid) : f (update pc t p u) = f (pc u) := by
  by_cases hu : u = t
  · rw [hu, update_self, h]
  · rw [update_of_ne hu]

theorem update_pc_of_ne {pc : Tid → Pc} {t u : Tid} {p q r : Pc} (ht : pc t = p) (hu : pc u = q)
    (hne : q ≠ p) : update pc t r u = q := by
  have hut : u ≠ t := by
    rintro rfl
    exact hne (hu.symm.trans ht)
  rw [update_of_ne hut, hu]

/-! ## 一歩 -/

inductive CondMove (s : CondState) : CondEvent → CondState → Prop
  | acquire (t : Tid) (hpc : s.pc t = .idle) (hh : s.holder ≠ some t) :
      CondMove s (.call t .acquire) (s.setPc t (.lockDown false))
  | tryTake (t : Tid) (hpc : s.pc t = .idle) (hv : s.lockSema.value ≠ 0) :
      CondMove s (.call t .tryAcquire)
        ({ s with lockSema := s.lockSema.dec }.setPc t (.lockSetHolder false))
  | tryFail (t : Tid) : CondMove s (.call t .tryAcquire) s
  | release (t : Tid) (hpc : s.pc t = .idle) (hh : s.holder = some t) :
      CondMove s (.call t .release) ({ s with holder := none }.setPc t (.lockUp false))
  | wait (t : Tid) (hpc : s.pc t = .idle) (hh : s.holder = some t) :
      CondMove s (.call t .wait) (s.setPc t .waitInit)
  | signal (t : Tid) (hpc : s.pc t = .idle) (hh : s.holder = some t) :
      CondMove s (.call t .signal) (s.setPc t (.signalTest false))
  | broadcast (t : Tid) (hpc : s.pc t = .idle) (hh : s.holder = some t) :
      CondMove s (.call t .broadcast) (s.setPc t .broadcastTest)
  | lockBlock (t : Tid) (w : Option Tid) (cw : Bool) (hpc : s.pc t = .lockDown cw)
      (hv : s.lockSema.value = 0) :
      CondMove s (.run t w) ({ s with lockSema := s.lockSema.enqueue t }.setPc t (.lockBlocked cw))
  | lockTake (t : Tid) (w : Option Tid) (cw : Bool) (hpc : s.pc t = .lockDown cw)
      (hv : s.lockSema.value ≠ 0) :
      CondMove s (.run t w) ({ s with lockSema := s.lockSema.dec }.setPc t (.lockSetHolder cw))
  | setHolder (t : Tid) (w : Option Tid) (cw : Bool) (hpc : s.pc t = .lockSetHolder cw) :
      CondMove s (.run t w) ({ s with holder := some t }.setPc t .idle)
  | lockUp (t : Tid) (cw : Bool) (hpc : s.pc t = .lockUp cw) (hw : s.lockSema.waiters = []) :
      CondMove s (.run t none)
        ({ s with lockSema := s.lockSema.up none }.setPc t (CondState.afterUp cw))
  | lockUpWake (t u : Tid) (cw cw' : Bool) (hpc : s.pc t = .lockUp cw)
      (hu : s.pc u = .lockBlocked cw') :
      CondMove s (.run t (some u))
        (({ s with lockSema := s.lockSema.up (some u) }.setPc t (CondState.afterUp cw)).setPc u
          (.lockDown cw'))
  | waitInit (t : Tid) (w : Option Tid) (hpc : s.pc t = .waitInit) :
      CondMove s (.run t w) ((s.setSema t ⟨0, []⟩).setPc t .waitPush)
  | waitPush (t : Tid) (w : Option Tid) (hpc : s.pc t = .waitPush) :
      CondMove s (.run t w) ({ s with waiters := s.waiters ++ [t] }.setPc t .waitRelease)
  | waitRelease (t : Tid) (w : Option Tid) (hpc : s.pc t = .waitRelease) :
      CondMove s (.run t w) ({ s with holder := none }.setPc t (.lockUp true))
  | waitBlock (t : Tid) (w : Option Tid) (hpc : s.pc t = .waitDown) (hv : (s.sema t).value = 0) :
      CondMove s (.run t w) ((s.setSema t ((s.sema t).enqueue t)).setPc t .waitBlocked)
  | waitTake (t : Tid) (w : Option Tid) (hpc : s.pc t = .waitDown) (hv : (s.sema t).value ≠ 0) :
      CondMove s (.run t w) ((s.setSema t (s.sema t).dec).setPc t .waitAcquire)
  | waitAcquire (t : Tid) (w : Option Tid) (hpc : s.pc t = .waitAcquire) :
      CondMove s (.run t w) (s.setPc t (.lockDown true))
  | signalEmpty (t : Tid) (w : Option Tid) (bc : Bool) (hpc : s.pc t = .signalTest bc)
      (hws : s.waiters = []) :
      CondMove s (.run t w) (s.setPc t (CondState.afterSignal bc))
  | signalFound (t : Tid) (w : Option Tid) (bc : Bool) (hpc : s.pc t = .signalTest bc)
      (hws : s.waiters ≠ []) :
      CondMove s (.run t w) (s.setPc t (.signalPop bc))
  | signalPop (t : Tid) (w : Option Tid) (bc : Bool) (u : Tid) (ws : List Tid)
      (hpc : s.pc t = .signalPop bc) (hws : s.waiters = u :: ws) :
      CondMove s (.run t w) ({ s with waiters := ws }.setPc t (.signalUp bc u))
  | signalUp (t : Tid) (bc : Bool) (u : Tid) (hpc : s.pc t = .signalUp bc u)
      (hu : s.pc u ≠ .waitBlocked) :
      CondMove s (.run t none)
        ((s.setSema u ((s.sema u).up none)).setPc t (CondState.afterSignal bc))
  | signalUpWake (t : Tid) (bc : Bool) (u : Tid) (hpc : s.pc t = .signalUp bc u)
      (hu : s.pc u = .waitBlocked) :
      CondMove s (.run t (some u))
        (((s.setSema u ((s.sema u).up (some u))).setPc t (CondState.afterSignal bc)).setPc u
          .waitDown)
  | broadcastDone (t : Tid) (w : Option Tid) (hpc : s.pc t = .broadcastTest)
      (hws : s.waiters = []) :
      CondMove s (.run t w) (s.setPc t .idle)
  | broadcastNext (t : Tid) (w : Option Tid) (hpc : s.pc t = .broadcastTest)
      (hws : s.waiters ≠ []) :
      CondMove s (.run t w) (s.setPc t (.signalTest true))

variable {s s' : CondState} {e : CondEvent} {t u : Tid} {w : Option Tid} {p : Pc} {bc : Bool}

/-! ## lock の札 -/

/-- lock の semaphore の値の 1 がある所。 -/
inductive Ticket
  | free
  | carried (t : Tid)
  | held (t : Tid)
deriving DecidableEq

/-- 札が `k` にある。 -/
structure LockAt (s : CondState) (k : Ticket) : Prop where
  value : s.lockSema.value = if k = .free then 1 else 0
  holder : ∀ t, s.holder = some t ↔ k = .held t
  carrying : ∀ t, (s.pc t).role = .carrying ↔ k = .carried t
  working : ∀ t, (s.pc t).role = .working → k = .held t
  held : ∀ t, k = .held t → (s.pc t).role = .working ∨ (s.pc t).role = .out

variable {k : Ticket}

theorem LockAt.working_unique (h : LockAt s k)
    (ht : (s.pc t).role = .working) (hu : (s.pc u).role = .working) : t = u :=
  Ticket.held.inj ((h.working t ht).symm.trans (h.working u hu))

theorem LockAt.congr (h : LockAt s k) (hv : s'.lockSema.value = s.lockSema.value)
    (hh : s'.holder = s.holder) (hr : ∀ t, (s'.pc t).role = (s.pc t).role) : LockAt s' k := by
  constructor
  · rw [hv, h.value]
  · rw [hh]
    exact h.holder
  · intro t
    rw [hr]
    exact h.carrying t
  · intro t
    rw [hr]
    exact h.working t
  · intro t
    rw [hr]
    exact h.held t

theorem LockAt.keep (h : LockAt s k) (hh : s.holder = some t)
    (hp : p.role = .working ∨ p.role = .out) (m : Tid → Sema) (ws : List Tid) :
    LockAt { s with sema := m, waiters := ws, pc := update s.pc t p } k := by
  have hk := (h.holder t).mp hh
  have hc := h.carrying
  have hw := h.working
  refine ⟨h.value, h.holder, ?_, ?_, ?_⟩
  all_goals
    intro u
    simp only [update_apply]
    grind

theorem role_afterSignal (bc : Bool) :
    (CondState.afterSignal bc).role = .working ∨ (CondState.afterSignal bc).role = .out := by
  cases bc <;> simp [CondState.afterSignal, Pc.role]

theorem CondMove.lockAt (hm : CondMove s e s') (h : LockAt s k) : ∃ k', LockAt s' k' := by
  obtain ⟨hv, hh, hc, hw, hd⟩ := id h
  have hworking : ∀ {t p}, s.pc t = p → p.role = .working → s.holder = some t := by
    rintro t p rfl hp
    exact (hh t).mpr (hw t hp)
  cases hm with
  | tryTake t hpc hne | lockTake t w cw hpc hne =>
    refine ⟨.carried t, ?_, ?_, ?_, ?_, ?_⟩
    all_goals
      simp only [CondState.setPc, update_apply, Sema.dec]
      grind [Pc.role]
  | setHolder t w cw hpc =>
    refine ⟨.held t, ?_, ?_, ?_, ?_, ?_⟩
    all_goals
      simp only [CondState.setPc, update_apply]
      grind [Pc.role]
  | release t hpc hheld | waitRelease t w hpc =>
    refine ⟨.carried t, ?_, ?_, ?_, ?_, ?_⟩
    all_goals
      simp only [CondState.setPc, update_apply]
      grind [Pc.role]
  | lockUp t cw hpc hempty | lockUpWake t u cw cw' hpc hu =>
    refine ⟨.free, ?_, ?_, ?_, ?_, ?_⟩
    all_goals
      simp only [CondState.setPc, update_apply, Sema.up, CondState.afterUp]
      grind [Pc.role]
  | acquire t hpc hne =>
    refine ⟨k, hv, hh, ?_, ?_, ?_⟩
    all_goals
      simp only [CondState.setPc, update_apply]
      grind [Pc.role]
  | tryFail t => exact ⟨k, h⟩
  | wait t hpc hheld | signal t hpc hheld | broadcast t hpc hheld =>
    exact ⟨k, h.keep hheld (.inl rfl) _ _⟩
  | waitInit t w hpc | waitPush t w hpc | signalFound t w bc hpc _ | signalPop t w bc u ws hpc _
  | broadcastNext t w hpc _ => exact ⟨k, h.keep (hworking hpc rfl) (.inl rfl) _ _⟩
  | broadcastDone t w hpc _ => exact ⟨k, h.keep (hworking hpc rfl) (.inr rfl) _ _⟩
  | signalEmpty t w bc hpc _ | signalUp t bc u hpc _ =>
    exact ⟨k, h.keep (hworking hpc rfl) (role_afterSignal bc) _ _⟩
  | signalUpWake t bc u hpc hu =>
    have hkeep := h.keep (hworking hpc rfl) (role_afterSignal bc)
      (update s.sema u ((s.sema u).up (some u))) s.waiters
    have hu' := update_pc_of_ne (r := CondState.afterSignal bc) hpc hu nofun
    exact ⟨k, hkeep.congr rfl rfl (apply_update Pc.role (congrArg Pc.role hu').symm)⟩
  | lockBlock t w cw hpc _ | waitBlock t w hpc _ | waitTake t w hpc _ | waitAcquire t w hpc =>
    exact ⟨k, h.congr rfl rfl (apply_update Pc.role (congrArg Pc.role hpc).symm)⟩

/-! ## 待っている thread

`cond->waiters` を `ws`、各 thread の semaphore を `m`、様子を `v` とする。
-/

section

variable {m : Tid → Sema} {ws : List Tid} {v : Tid → View} {t : Tid}

/-- `waiter` を入れてから `sema_down` を抜けるまで。 -/
def Waiting (v : Tid → View) (t : Tid) : Prop := v t = .enlisted ∨ v t = .blocked

/-- **待つ thread の不変量。** -/
structure WaitInv (m : Tid → Sema) (ws : List Tid) (v : Tid → View) : Prop where
  fresh : ∀ t, v t = .fresh → m t = ⟨0, []⟩
  enlisted : ∀ t, v t = .enlisted → (m t).waiters = []
  blocked : ∀ t, v t = .blocked → (m t).waiters = [t]
  nodup : ws.Nodup
  /-- 入っている waiter はまだ上げられていない。 -/
  listed : ∀ t ∈ ws, Waiting v t ∧ (m t).value = 0
  /-- 取り出した waiter もまだ上げられていない。 -/
  upping : ∀ u t, v u = .upping t → Waiting v t ∧ (m t).value = 0 ∧ t ∉ ws
  /-- どちらでもない waiter は上げられていて、その thread は block していない。 -/
  released : ∀ t, Waiting v t → t ∉ ws → (∀ u, v u ≠ .upping t) →
    (m t).value = 1 ∧ v t ≠ .blocked
  popping : ∀ t, v t = .popping → ws ≠ []

namespace WaitInv

theorem same {x : View} (h : WaitInv m ws v) (ht : v t = x) :
    WaitInv m ws (update v t x) := by
  rw [← ht, update_eq_self]
  exact h

/-- 待っていないか、上げられた thread の様子が、待つもののほかに変わる。 -/
theorem leave {x : View} {n : Sema} (h : WaitInv m ws v)
    (ht : v t = .other ∨ v t = .enlisted ∧ (m t).value ≠ 0)
    (hx : x = .other ∨ x = .fresh ∧ n = ⟨0, []⟩ ∨ x = .popping ∧ ws ≠ []) :
    WaitInv (update m t n) ws (update v t x) where
  fresh u := by grind [h.fresh u]
  enlisted u := by grind [h.enlisted u]
  blocked u := by grind [h.blocked u]
  nodup := h.nodup
  listed u hu := by have := h.listed u hu; grind [Waiting]
  upping u w := by have := h.upping u w; grind [Waiting]
  released u hu hws hup := by
    have hne : u ≠ t := by rintro rfl; grind [Waiting]
    have := h.released u (by grind [Waiting]) hws fun w hw => hup w (by grind)
    grind
  popping u := by grind [h.popping u]

theorem push (h : WaitInv m ws v) (ht : v t = .fresh) :
    WaitInv m (ws ++ [t]) (update v t .enlisted) where
  fresh u := by grind [h.fresh u]
  enlisted u := by have := h.enlisted u; have := h.fresh t; grind
  blocked u := by grind [h.blocked u]
  nodup := by have := h.nodup; have := h.listed t; grind [Waiting]
  listed u hu := by have := h.listed u; have := h.fresh t; grind [Waiting]
  upping u w := by have := h.upping u w; grind [Waiting]
  released u hu hws hup := by
    have hne : u ≠ t := by rintro rfl; simp at hws
    have := h.released u (by grind [Waiting]) (by grind) fun w hw => hup w (by grind)
    grind
  popping u _ := by simp

theorem block (h : WaitInv m ws v) (ht : v t = .enlisted) (hz : (m t).value = 0) :
    WaitInv (update m t ((m t).enqueue t)) ws (update v t .blocked) where
  fresh u := by grind [h.fresh u]
  enlisted u := by grind [h.enlisted u]
  blocked u := by
    have := h.blocked u
    have := h.enlisted t ht
    grind [Sema.enqueue_waiters]
  nodup := h.nodup
  listed u hu := by have := h.listed u hu; grind [Waiting, Sema.enqueue_value]
  upping u w := by have := h.upping u w; grind [Waiting, Sema.enqueue_value]
  released u hu hws hup := by
    have := h.released u (by grind [Waiting]) hws fun w hw => hup w (by grind)
    grind
  popping u := by grind [h.popping u]

theorem found (h : WaitInv m ws v) (ht : v t = .other) (hws : ws ≠ []) :
    WaitInv m ws (update v t .popping) := by
  have hleave := h.leave (n := m t) (.inl ht) (.inr (.inr ⟨rfl, hws⟩))
  rwa [update_eq_self] at hleave

/-- 先頭を取り出す。ほかに取り出そうとしている thread は無い。 -/
theorem pop {w : Tid} (h : WaitInv m (w :: ws) v) (ht : v t = .popping)
    (hone : ∀ u, v u = .popping → u = t) : WaitInv m ws (update v t (.upping w)) where
  fresh u := by grind [h.fresh u]
  enlisted u := by grind [h.enlisted u]
  blocked u := by grind [h.blocked u]
  nodup := (List.nodup_cons.mp h.nodup).2
  listed u hu := by have := h.listed u (List.mem_cons_of_mem _ hu); grind [Waiting]
  upping u x hu := by
    have hw := h.listed w (List.mem_cons_self ..)
    have hnd := (List.nodup_cons.mp h.nodup).1
    have := h.upping u x
    grind [Waiting]
  released u hu hws hup := by
    have hne : u ≠ w := by rintro rfl; exact hup t (update_self ..)
    have := h.released u (by grind [Waiting]) (by grind) fun x hx => hup x (by grind)
    grind
  popping u hu := by have := hone u; grind

/-- 取り出した waiter を上げる。block していれば起こすので、`x` は `enlisted` になる。 -/
theorem up {w : Tid} {o : Option Tid} (h : WaitInv m ws v) (ht : v t = .upping w)
    (hone : ∀ u x, v u = .upping x → u = t)
    (ho : o = if v w = .blocked then some w else none) :
    WaitInv (update m w ((m w).up o)) ws
      (update (update v t .other) w .enlisted) where
  fresh u := by grind [h.fresh u]
  enlisted u := by
    have := h.enlisted u
    have := h.blocked w
    have := (h.upping t w ht).1
    grind [Waiting, Sema.up_waiters]
  blocked u := by grind [h.blocked u]
  nodup := h.nodup
  listed u hu := by
    have := h.listed u hu
    have := (h.upping t w ht).2.2
    grind [Waiting]
  upping u x := by have := hone u x; grind
  released u hu hws hup := by
    have hzero := (h.upping t w ht).2.1
    have hone' : ((m w).up o).value = 1 := by simp [Sema.up_value, hzero]
    by_cases huw : u = w
    · grind
    · have := h.released u (by grind [Waiting]) hws fun x hx => hup x (by grind)
      grind
  popping u := by grind [h.popping u]

end WaitInv

end

/-! ## 不変量 -/

def CondState.view (s : CondState) (t : Tid) : View := (s.pc t).view

theorem view_setPc (s : CondState) (t : Tid) (p : Pc) :
    (s.setPc t p).view = update s.view t p.view := by
  funext u
  by_cases hu : u = t
  · subst hu
    simp [CondState.view]
  · simp [CondState.view, update_of_ne hu]

structure CondInv (s : CondState) : Prop where
  lock : ∃ k, LockAt s k
  lockQueued : ∀ t, t ∈ s.lockSema.waiters ↔ (s.pc t).lockQueued = true
  lockNodup : s.lockSema.waiters.Nodup
  wait : WaitInv s.sema s.waiters s.view

theorem CondInv.init (sema : Tid → Sema) : CondInv (CondState.init sema) where
  lock := ⟨.free, rfl, by simp [CondState.init], by simp [CondState.init, Pc.role],
    by simp [CondState.init, Pc.role], by simp⟩
  lockQueued _ := iff_of_false List.not_mem_nil nofun
  lockNodup := List.nodup_nil
  wait := by constructor <;> simp [CondState.init, Waiting, CondState.view, Pc.view]

/-- 取り出し、上げるのは、lock を持つ thread だけである。 -/
theorem LockAt.view_unique (h : LockAt s k) (ht : (s.pc t).role = .working)
    (hu : s.view u = .popping ∨ ∃ w, s.view u = .upping w) : u = t := by
  refine h.working_unique ?_ ht
  unfold CondState.view at hu
  cases hpc : s.pc u with
  | signalPop bc | signalUp bc w => rfl
  | lockUp cw => cases cw <;> simp [hpc, Pc.view] at hu
  | _ => simp [hpc, Pc.view] at hu

theorem pc_of_blocked (h : s.view t = .blocked) : s.pc t = .waitBlocked := by
  unfold CondState.view at h
  cases hpc : s.pc t with
  | waitBlocked => rfl
  | lockUp cw => cases cw <;> simp [hpc, Pc.view] at h
  | _ => simp [hpc, Pc.view] at h

theorem view_afterSignal (bc : Bool) : (CondState.afterSignal bc).view = .other := by
  cases bc <;> rfl

theorem WaitInv.upped (h : WaitInv s.sema s.waiters s.view)
    (hk : LockAt s k) (hpc : s.pc t = .signalUp bc u) :
    u ≠ t ∧ ∀ o, (o = if s.view u = .blocked then some u else none) →
      WaitInv (update s.sema u ((s.sema u).up o)) s.waiters
        (update (update s.view t (CondState.afterSignal bc).view) u .enlisted) := by
  have ht : s.view t = .upping u := congrArg Pc.view hpc
  constructor
  · rintro rfl
    have hw := (h.upping u u ht).1
    rw [Waiting, ht] at hw
    cases hw <;> contradiction
  · intro o ho
    rw [view_afterSignal]
    exact h.up ht (fun x y hx => hk.view_unique (congrArg Pc.role hpc) (.inr ⟨y, hx⟩)) ho

theorem CondMove.waitInv (hm : CondMove s e s') (hk : LockAt s k)
    (h : WaitInv s.sema s.waiters s.view) : WaitInv s'.sema s'.waiters s'.view := by
  have hsame : ∀ {t : Tid} {p q : Pc}, s.pc t = q → q.view = p.view →
      WaitInv s.sema s.waiters (update s.view t p.view) :=
    fun hpc hv => h.same ((congrArg Pc.view hpc).trans hv)
  cases hm with
  | acquire t hpc _ | tryTake t hpc _ | release t hpc _ | wait t hpc _ | signal t hpc _
  | broadcast t hpc _ | lockBlock t w cw hpc _ | lockTake t w cw hpc _ | setHolder t w cw hpc
  | waitRelease t w hpc | waitAcquire t w hpc | broadcastDone t w hpc _ | broadcastNext t w hpc _ =>
    rw [view_setPc]
    exact hsame hpc rfl
  | lockUp t b hpc _ | signalEmpty t _ b hpc _ =>
    rw [view_setPc]
    exact hsame hpc (by cases b <;> rfl)
  | tryFail t => exact h
  | lockUpWake t u cw cw' hpc hu =>
    have hup := hsame (p := CondState.afterUp cw) hpc (by cases cw <;> rfl)
    rw [← view_setPc] at hup
    rw [view_setPc]
    exact hup.same (congrArg Pc.view (update_pc_of_ne hpc hu nofun) :)
  | waitInit t w hpc =>
    rw [view_setPc]
    exact h.leave (.inl (congrArg Pc.view hpc)) (.inr (.inl ⟨rfl, rfl⟩))
  | waitPush t w hpc =>
    rw [view_setPc]
    exact h.push (congrArg Pc.view hpc)
  | waitBlock t w hpc hv =>
    rw [view_setPc]
    exact h.block (congrArg Pc.view hpc) hv
  | waitTake t w hpc hv =>
    rw [view_setPc]
    exact h.leave (.inr ⟨congrArg Pc.view hpc, hv⟩) (.inl rfl)
  | signalFound t w bc hpc hws =>
    rw [view_setPc]
    exact h.found (congrArg Pc.view hpc) hws
  | signalPop t w bc u ws hpc hws =>
    rw [view_setPc]
    rw [hws] at h
    exact h.pop (congrArg Pc.view hpc) fun x hx =>
      hk.view_unique (congrArg Pc.role hpc) (.inl hx)
  | signalUp t bc u hpc hu =>
    obtain ⟨hut, hup⟩ := h.upped hk hpc
    have hue : s.view u = .enlisted := by
      refine (h.upping t u (congrArg Pc.view hpc)).1.resolve_right fun hb => hu ?_
      exact pc_of_blocked hb
    have hsame : update (update s.view t (CondState.afterSignal bc).view) u
        .enlisted = update s.view t (CondState.afterSignal bc).view :=
      update_eq_self_iff.mpr ((update_of_ne hut ..).trans hue).symm
    rw [view_setPc]
    exact hsame ▸ hup none (by rw [hue]; rfl)
  | signalUpWake t bc u hpc hu =>
    rw [view_setPc, view_setPc]
    exact (h.upped hk hpc).2 (some u) (by rw [show s.view u = .blocked from congrArg Pc.view hu]; rfl)

theorem CondMove.lockQueued (hm : CondMove s e s') (hq : ∀ t, t ∈ s.lockSema.waiters ↔
      (s.pc t).lockQueued = true) (hnd : s.lockSema.waiters.Nodup) :
    (∀ t, t ∈ s'.lockSema.waiters ↔ (s'.pc t).lockQueued = true) ∧ s'.lockSema.waiters.Nodup := by
  have hsame : ∀ {t p q}, s.pc t = q → p.lockQueued = q.lockQueued → ∀ u,
      u ∈ s.lockSema.waiters ↔ (update s.pc t p u).lockQueued = true := by
    rintro t p _ rfl hp u
    rw [apply_update Pc.lockQueued hp]
    exact hq u
  cases hm with
  | lockBlock t w cw hpc hv =>
    have ht : t ∉ s.lockSema.waiters := by simp [hq, hpc, Pc.lockQueued]
    refine ⟨fun u => ?_, List.nodup_cons.mpr ⟨ht, hnd⟩⟩
    have := hq u
    by_cases hu : u = t
    · simp [hu, Pc.lockQueued]
    · simpa [hu] using hq u
  | lockUpWake t u cw cw' hpc hu =>
    refine ⟨fun v => ?_, hnd.erase u⟩
    simp only [CondState.setPc_lockSema, CondState.setPc_pc, Sema.up_waiters, hnd.mem_erase_iff]
    by_cases hv : v = u
    · simp [hv, Pc.lockQueued]
    · rw [update_of_ne hv]
      have hv' := hsame (p := CondState.afterUp cw) hpc (by cases cw <;> rfl) v
      exact ⟨fun hmem => hv'.mp hmem.2, fun hl => ⟨hv, hv'.mpr hl⟩⟩
  | tryFail t => exact ⟨hq, hnd⟩
  | lockUp t b hpc _ | signalEmpty t w b hpc _ | signalUp t b u hpc _ =>
    exact ⟨hsame hpc (by cases b <;> rfl), hnd⟩
  | signalUpWake t bc u hpc hu =>
    refine ⟨fun v => ?_, hnd⟩
    have hu' := update_pc_of_ne (r := CondState.afterSignal bc) hpc hu nofun
    have hwake : Pc.waitDown.lockQueued =
        (update s.pc t (CondState.afterSignal bc) u).lockQueued := by
      rw [hu']
      rfl
    show _ ↔ (update (update s.pc t _) u _ v).lockQueued = true
    rw [apply_update Pc.lockQueued hwake]
    exact hsame hpc (by cases bc <;> rfl) v
  | acquire t hpc _ | tryTake t hpc _ | release t hpc _ | wait t hpc _ | signal t hpc _
  | broadcast t hpc _ | lockTake t w cw hpc _ | setHolder t w cw hpc | waitInit t w hpc
  | waitPush t w hpc | waitRelease t w hpc | waitBlock t w hpc _ | waitTake t w hpc _
  | waitAcquire t w hpc | signalFound t w bc hpc _ | signalPop t w bc u ws hpc _
  | broadcastDone t w hpc _ | broadcastNext t w hpc _ => exact ⟨hsame hpc rfl, hnd⟩

theorem CondMove.inv (hm : CondMove s e s') (h : CondInv s) : CondInv s' := by
  obtain ⟨k, hk⟩ := h.lock
  obtain ⟨hq, hnd⟩ := hm.lockQueued h.lockQueued h.lockNodup
  exact ⟨hm.lockAt hk, hq, hnd, hm.waitInv hk h.wait⟩

/-! ## 一歩の結果 -/

theorem CondInv.holder_of_working (h : CondInv s) (ht : (s.pc t).role = .working) :
    s.holder = some t := by
  obtain ⟨k, hk⟩ := h.lock
  exact (hk.holder t).mpr (hk.working t ht)

theorem CondInv.not_holder_of_away (h : CondInv s) (ht : (s.pc t).role = .away) : s.holder ≠ some t := by
  obtain ⟨k, hk⟩ := h.lock
  intro hh
  have := hk.held t ((hk.holder t).mp hh)
  rw [ht] at this
  cases this <;> contradiction

theorem pc_of_lockQueued (h : p.lockQueued = true) : ∃ cw, p = .lockBlocked cw := by
  cases p with
  | lockBlocked cw => exact ⟨cw, rfl⟩
  | _ => cases h

theorem canWake_cases {m : Sema} (h : m.canWake w = true) :
    w = none ∧ m.waiters = [] ∨ ∃ u, w = some u ∧ u ∈ m.waiters := by
  cases w with
  | none => exact .inl ⟨rfl, of_decide_eq_true h⟩
  | some u => exact .inr ⟨u, rfl, of_decide_eq_true h⟩

/-- 上げられる waiter の semaphore で block しているのは、本人だけである。 -/
theorem CondInv.semaWaiters (h : CondInv s) (hpc : s.pc t = .signalUp bc u) :
    s.pc u ≠ .waitBlocked ∧ (s.sema u).waiters = [] ∨
    s.pc u = .waitBlocked ∧ (s.sema u).waiters = [u] := by
  rcases (h.wait.upping t u (congrArg Pc.view hpc)).1 with hv | hv
  · refine .inl ⟨fun hb => ?_, h.wait.enlisted u hv⟩
    rw [CondState.view, hb] at hv
    cases hv
  · exact .inr ⟨pc_of_blocked hv, h.wait.blocked u hv⟩

theorem threadUnblock_lockBlocked {cw : Bool} (h : s.pc u = .lockBlocked cw) :
    s.threadUnblock u = .ok (s.setPc u (.lockDown cw)) := by
  rw [CondState.threadUnblock, h]

theorem threadUnblock_waitBlocked (h : s.pc u = .waitBlocked) :
    s.threadUnblock u = .ok (s.setPc u .waitDown) := by
  rw [CondState.threadUnblock, h]

theorem lockUp_outcome (h : CondInv s) {cw : Bool}
    (hpc : s.pc t = .lockUp cw) (hw : s.lockSema.canWake w = true) :
    ∃ s', ({ s with lockSema := s.lockSema.up w }.setPc t (CondState.afterUp cw)).wake w = .ok s' ∧
      CondMove s (.run t w) s' := by
  obtain ⟨rfl, hempty⟩ | ⟨u, rfl, hu⟩ := canWake_cases hw
  · exact ⟨_, rfl, .lockUp t cw hpc hempty⟩
  · obtain ⟨cw', hu⟩ := pc_of_lockQueued ((h.lockQueued u).mp hu)
    have hu' := update_pc_of_ne (r := CondState.afterUp cw) hpc hu nofun
    exact ⟨_, threadUnblock_lockBlocked hu', .lockUpWake t u cw cw' hpc hu⟩

theorem signalUp_outcome (h : CondInv s)
    (hpc : s.pc t = .signalUp bc u) (hw : (s.sema u).canWake w = true) :
    ∃ s', ((s.setSema u ((s.sema u).up w)).setPc t (CondState.afterSignal bc)).wake w = .ok s' ∧
      CondMove s (.run t w) s' := by
  obtain ⟨rfl, hempty⟩ | ⟨v, rfl, hv⟩ := canWake_cases hw
  · refine ⟨_, rfl, .signalUp t bc u hpc fun hb => ?_⟩
    rcases h.semaWaiters hpc with ⟨hne, -⟩ | ⟨-, hone⟩
    · exact hne hb
    · rw [hempty] at hone
      cases hone
  · rcases h.semaWaiters hpc with ⟨-, hnil⟩ | ⟨hb, hone⟩
    · rw [hnil] at hv
      cases hv
    · rw [hone, List.mem_singleton] at hv
      subst hv
      have hb' := update_pc_of_ne (r := CondState.afterSignal bc) hpc hb nofun
      exact ⟨_, threadUnblock_waitBlocked hb', .signalUpWake t bc v hpc hb⟩

/-- **途中の thread が進むとき、検査はどれも通る。** -/
theorem run_outcome (h : CondInv s) {r : Except CondPanic CondState}
    (hr : s.next (.run t w) = some r) : ∃ s', r = .ok s' ∧ CondMove s (.run t w) s' := by
  have hr : s.run w t = some r := hr
  unfold CondState.run at hr
  cases hpc : s.pc t with
  | idle | lockBlocked cw | waitBlocked =>
    rw [hpc] at hr
    cases hr
  | lockDown cw =>
    rw [hpc] at hr
    cases hr
    refine ⟨_, rfl, ?_⟩
    unfold CondState.lockDown
    split
    · next hv => exact .lockBlock t w cw hpc hv
    · next hv => exact .lockTake t w cw hpc hv
  | lockSetHolder cw =>
    rw [hpc] at hr
    cases hr
    exact ⟨_, rfl, .setHolder t w cw hpc⟩
  | lockUp cw =>
    rw [hpc] at hr
    obtain ⟨hw, hr⟩ := Option.ite_none_right_eq_some.mp hr
    cases hr
    exact lockUp_outcome h hpc hw
  | waitInit =>
    rw [hpc] at hr
    cases hr
    exact ⟨_, rfl, .waitInit t w hpc⟩
  | waitPush =>
    rw [hpc] at hr
    cases hr
    exact ⟨_, rfl, .waitPush t w hpc⟩
  | waitRelease =>
    rw [hpc] at hr
    cases hr
    exact ⟨_, if_pos (h.holder_of_working (congrArg Pc.role hpc)), .waitRelease t w hpc⟩
  | waitDown =>
    rw [hpc] at hr
    cases hr
    refine ⟨_, rfl, ?_⟩
    unfold CondState.waitDown
    split
    · next hv => exact .waitBlock t w hpc hv
    · next hv => exact .waitTake t w hpc hv
  | waitAcquire =>
    rw [hpc] at hr
    cases hr
    exact ⟨_, if_neg (h.not_holder_of_away (congrArg Pc.role hpc)), .waitAcquire t w hpc⟩
  | signalTest bc =>
    rw [hpc] at hr
    cases hr
    refine ⟨_, rfl, ?_⟩
    unfold CondState.signalTest
    split
    · next hws => exact .signalEmpty t w bc hpc hws
    · next hws => exact .signalFound t w bc hpc hws
  | signalPop bc =>
    rw [hpc] at hr
    cases hr
    unfold CondState.signalPop
    split
    · next hws => exact absurd hws (h.wait.popping t (congrArg Pc.view hpc))
    · next u ws hws => exact ⟨_, rfl, .signalPop t w bc u ws hpc hws⟩
  | signalUp bc u =>
    rw [hpc] at hr
    obtain ⟨hw, hr⟩ := Option.ite_none_right_eq_some.mp hr
    cases hr
    exact signalUp_outcome h hpc hw
  | broadcastTest =>
    rw [hpc] at hr
    cases hr
    unfold CondState.broadcastTest
    split
    · next hws => exact ⟨_, rfl, .broadcastDone t w hpc hws⟩
    · next hws =>
      exact ⟨_, if_pos (h.holder_of_working (congrArg Pc.role hpc)), .broadcastNext t w hpc hws⟩

theorem call_move {op : CondOp} (hd : s.disciplined (.call t op) = true)
    (hpc : s.pc t = .idle) (hs : s.call op t = .ok s') : CondMove s (.call t op) s' := by
  cases op with
  | acquire =>
    obtain ⟨hh, hs⟩ := guard_eq_ok.mp hs
    cases hs
    exact .acquire t hpc hh
  | tryAcquire =>
    obtain ⟨-, hs⟩ := guard_eq_ok.mp hs
    split at hs
    · next hv =>
      cases hs
      exact .tryTake t hpc (Nat.ne_of_gt hv)
    · cases hs
      exact .tryFail t
  | release =>
    rw [CondState.call, CondState.lockRelease] at hs
    split at hs
    · next hh =>
      cases hs
      exact .release t hpc hh
    · cases hs
  | wait =>
    have hh : s.holder = some t := of_decide_eq_true hd
    cases (if_pos hh).symm.trans hs
    exact .wait t hpc hh
  | signal =>
    have hh : s.holder = some t := of_decide_eq_true hd
    cases (if_pos hh).symm.trans hs
    exact .signal t hpc hh
  | broadcast =>
    cases hs
    exact .broadcast t hpc (of_decide_eq_true hd)

theorem step_iff : condSystem.step s e s' ↔ s.disciplined e = true ∧ s.next e = some (.ok s') := by
  refine Option.ite_none_right_eq_some.trans (and_congr_right fun _ => ?_)
  unfold CondState.step
  split
  · next s₁ hs₁ => rw [hs₁, Option.some.injEq, Option.some.injEq, Except.ok.injEq]
  · next hne => exact ⟨nofun, fun h => absurd h (hne s')⟩

theorem step_move (h : CondInv s) (hs : condSystem.step s e s') : CondMove s e s' := by
  obtain ⟨hd, hn⟩ := step_iff.mp hs
  cases e with
  | call t op =>
    obtain ⟨hpc, hc⟩ := Option.ite_none_right_eq_some.mp hn
    exact call_move hd hpc (Option.some.inj hc)
  | run t w =>
    obtain ⟨s₁, hr, hm⟩ := run_outcome h hn
    cases hr
    exact hm

theorem reachable_condInv (h : Reachable condSystem s) : CondInv s := by
  refine Reachable.invariant (I := CondInv) ?_ (fun _ _ _ hi hs => (step_move hi hs).inv hi) h
  rintro _ ⟨sema, rfl⟩
  exact .init sema

end Pintos.Condition
