import Pintos.Infra.Except
import Pintos.Properties.Devices.Intq

/-!
# 割り込み queue の monitor の検査

`while` の条件を確かめてから `wait` までの間に、`lock_acquire` が block することがある。
その間に割り込みが byte を入れると、`wait` の `ASSERT` が偽になる。
-/

namespace Pintos.Devices

open Infra Function

/-! ## 不変量 -/

def Pc.holdsLock : Pc → Bool
  | .waiting _ | .woken _ => true
  | _ => false

def Pc.queued : Pc → Bool
  | .lockWait _ => true
  | _ => false

/-- `lock_acquire` の中で止まっている呼び出し。 -/
def Pc.contends : Pc → Option Op
  | .lockWait o | .lockRetry o => some o
  | _ => none

/-- monitor の記録が thread の位置と合っている。 -/
structure MonitorInv (m : Monitor) : Prop where
  q : m.q.Bounded
  holder : ∀ t, m.lockHolder = some t ↔ (m.pc t).holdsLock = true
  value : m.lockValue = if m.lockHolder = none then 1 else 0
  queued : ∀ t, t ∈ m.lockWaiters ↔ (m.pc t).queued = true
  nodup : m.lockWaiters.Nodup
  notEmpty : ∀ t, m.notEmpty = some t → m.pc t = .waiting .getc
  notFull : ∀ t, m.notFull = some t → ∃ byte, m.pc t = .waiting (.putc byte)

/-- buffer は変わらないか、終わった一回だけ進む。 -/
def Intq.Moves (q q' : Intq) : Prop := q' = q ∨ ∃ o, q.step o = some q'

/-- 新しく `lock_acquire` で止まった呼び出しは無い。 -/
def Monitor.Retains (m m' : Monitor) : Prop :=
  ∀ u o, (m'.pc u).contends = some o → (m.pc u).contends = some o

/-- 新しく `lock_acquire` で止まった呼び出しは、待つ条件が成り立っている。 -/
def Monitor.Joins (m m' : Monitor) : Prop :=
  ∀ u o, (m'.pc u).contends = some o → (m.pc u).contends = some o ∨ o.mustWait m'.q = true

variable {m m' : Monitor} {t : Tid} {o : Op}

theorem MonitorInv.init (buf : Nat → UInt8) : MonitorInv (Monitor.init buf) where
  q := Intq.init_bounded buf
  holder _ := iff_of_false nofun nofun
  value := rfl
  queued _ := iff_of_false List.not_mem_nil nofun
  nodup := List.nodup_nil
  notEmpty := nofun
  notFull := nofun

namespace MonitorInv

variable (h : MonitorInv m)
include h

theorem setPc {p : Pc} {waiters : List Tid} (hp : p.holdsLock = (m.pc t).holdsLock)
    (hq : ∀ u, u ∈ waiters ↔ (update m.pc t p u).queued = true) (hnodup : waiters.Nodup)
    (he : m.notEmpty ≠ some t) (hf : m.notFull ≠ some t) :
    MonitorInv ({ m with lockWaiters := waiters }.setPc t p) where
  q := h.q
  holder u := by
    have := h.holder u
    simp only [Monitor.setPc_lockHolder, Monitor.setPc_pc, update_apply]
    grind [Pc.holdsLock]
  value := h.value
  queued := hq
  nodup := hnodup
  notEmpty u hu := by
    have hne : u ≠ t := fun hut => he (hut ▸ hu)
    exact (update_of_ne hne ..).trans (h.notEmpty u hu)
  notFull u hu := by
    have hne : u ≠ t := fun hut => hf (hut ▸ hu)
    obtain ⟨byte, hb⟩ := h.notFull u hu
    exact ⟨byte, (update_of_ne hne ..).trans hb⟩

theorem not_waiting (hh : (m.pc t).holdsLock = false) :
    m.notEmpty ≠ some t ∧ m.notFull ≠ some t := by
  refine ⟨fun he => ?_, fun hf => ?_⟩
  · rw [h.notEmpty t he] at hh
    cases hh
  · obtain ⟨byte, hb⟩ := h.notFull t hf
    rw [hb] at hh
    cases hh

theorem queued_update {p : Pc} (hq : (m.pc t).queued = false) (hp : p.queued = false) (u : Tid) :
    u ∈ m.lockWaiters ↔ (update m.pc t p u).queued = true := by
  have := h.queued u
  simp only [update_apply]
  grind [Pc.queued]

theorem move {p : Pc} (hh : (m.pc t).holdsLock = false) (hq : (m.pc t).queued = false)
    (hp : p.holdsLock = false) (hp' : p.queued = false) : MonitorInv (m.setPc t p) :=
  h.setPc (hp.trans hh.symm) (h.queued_update hq hp') h.nodup (h.not_waiting hh).1
    (h.not_waiting hh).2

theorem setQ {q : Intq} (hq : q.Bounded) : MonitorInv { m with q := q } :=
  ⟨hq, h.holder, h.value, h.queued, h.nodup, h.notEmpty, h.notFull⟩

/-- `wait` で止まっている thread が起きても、lock は持ったままである。 -/
theorem wake (ht : m.pc t = .waiting o) (he : m.notEmpty ≠ some t) (hf : m.notFull ≠ some t) :
    MonitorInv (m.setPc t (.woken o)) :=
  h.setPc (by rw [ht]; rfl) (h.queued_update (by rw [ht]; rfl) rfl) h.nodup he hf

theorem clearNotFull : MonitorInv { m with notFull := none } :=
  ⟨h.q, h.holder, h.value, h.queued, h.nodup, h.notEmpty, nofun⟩

theorem clearNotEmpty : MonitorInv { m with notEmpty := none } :=
  ⟨h.q, h.holder, h.value, h.queued, h.nodup, nofun, h.notFull⟩

end MonitorInv

/-! ## 一区切り -/

theorem retains_of_update {p : Pc} (hpc : m'.pc = update m.pc t p)
    (hp : ∀ o, p.contends = some o → (m.pc t).contends = some o) : m.Retains m' := by
  intro u o hu
  rw [hpc, update_apply] at hu
  split at hu
  · next hut =>
    rw [hut]
    exact hp o hu
  · exact hu

theorem Monitor.Retains.joins (h : m.Retains m') {m'' : Monitor} (h' : m'.Joins m'') : m.Joins m'' :=
  fun u o hu => (h' u o hu).imp_left (h u o)

theorem signalNotFull_spec (h : MonitorInv m) (hfull : m.q.full = false) :
    ∃ m', m.signalNotFull = .ok m' ∧ MonitorInv m' ∧ m'.q = m.q ∧ m.Retains m' := by
  rw [Monitor.signalNotFull, hfull, if_neg Bool.false_ne_true]
  cases hw : m.notFull with
  | none => exact ⟨m, rfl, h, rfl, fun _ _ => id⟩
  | some t =>
    obtain ⟨byte, hpc⟩ := h.notFull t hw
    have he : m.notEmpty ≠ some t := fun he => by cases hpc.symm.trans (h.notEmpty t he)
    simp only [Monitor.threadUnblock, hpc]
    exact ⟨_, rfl, h.clearNotFull.wake hpc he nofun, rfl, retains_of_update rfl nofun⟩

theorem signalNotEmpty_spec (h : MonitorInv m) (hempty : m.q.empty = false) :
    ∃ m', m.signalNotEmpty = .ok m' ∧ MonitorInv m' ∧ m'.q = m.q ∧ m.Retains m' := by
  rw [Monitor.signalNotEmpty, hempty, if_neg Bool.false_ne_true]
  cases hw : m.notEmpty with
  | none => exact ⟨m, rfl, h, rfl, fun _ _ => id⟩
  | some t =>
    have hpc := h.notEmpty t hw
    have hf : m.notFull ≠ some t := fun hf => by
      obtain ⟨byte, hb⟩ := h.notFull t hf
      cases hpc.symm.trans hb
    simp only [Monitor.threadUnblock, hpc]
    exact ⟨_, rfl, h.clearNotEmpty.wake hpc nofun hf, rfl, retains_of_update rfl nofun⟩

theorem finish_spec (h : MonitorInv m) (hw : o.mustWait m.q = false) :
    ∃ m', m.finish o = .ok m' ∧ MonitorInv m' ∧ m.q.step o = some m'.q ∧ m.Retains m' := by
  cases o with
  | getc =>
    have hg := Intq.getc_total h.q hw
    obtain ⟨hc, hb⟩ := Intq.getc_spec h.q hg
    have hlen := congrArg List.length hc
    rw [List.length_cons] at hlen
    have hlt := h.q.length_lt
    have hfull : Intq.full { m.q with tail := Intq.next m.q.tail } = false := by
      rw [← Bool.not_eq_true, hb.full_iff]
      omega
    obtain ⟨m', hs, hi, hq, hk⟩ := signalNotFull_spec (h.setQ hb) hfull
    refine ⟨m', ?_, hi, ?_, hk⟩
    · rw [Monitor.finish, Intq.take, if_pos h.q.tail]
      exact hs
    · rw [Intq.step, hg, hq]
      rfl
  | putc byte =>
    obtain ⟨q, hp⟩ := Intq.putc_total byte h.q hw
    obtain ⟨hc, hb⟩ := Intq.putc_spec h.q hp
    have hempty : q.empty = false := by
      rw [← Bool.not_eq_true, hb.empty_iff, hc, List.length_append]
      exact Nat.succ_ne_zero _
    obtain ⟨m', hs, hi, hq, hk⟩ := signalNotEmpty_spec (h.setQ hb) hempty
    refine ⟨m', ?_, hi, ?_, hk⟩
    · have hput : m.q.put byte = some q := (Option.ite_none_left_eq_some.mp hp).2
      rw [Monitor.finish, hput]
      exact hs
    · rw [Intq.step, hp, hq]

theorem MonitorInv.block (h : MonitorInv m) (ht : m.pc t = .running) (hfree : m.lockHolder = none)
    (o : Op) :
    MonitorInv (({ m with lockValue := 0, lockHolder := some t }.setWaiter o t).setPc t
      (.waiting o)) := by
  have hholder : ∀ u, some t = some u ↔
      (update m.pc t (.waiting o) u).holdsLock = true := by
    intro u
    have := h.holder u
    simp only [update_apply]
    grind [Pc.holdsLock]
  have hqueued := h.queued_update (p := .waiting o) (by rw [ht]; rfl) rfl
  have hne : ∀ {u p}, m.pc u = p → p ≠ .running → update m.pc t (.waiting o) u = p := by
    intro u p hu hp
    rw [update_of_ne (fun hut => hp (by rw [← hu, hut, ht]))]
    exact hu
  cases o with
  | getc =>
    refine ⟨h.q, hholder, rfl, hqueued, h.nodup, fun u hu => ?_, fun u hu => ?_⟩
    · cases hu
      exact update_self ..
    · obtain ⟨byte, hb⟩ := h.notFull u hu
      exact ⟨byte, hne hb nofun⟩
  | putc byte =>
    refine ⟨h.q, hholder, rfl, hqueued, h.nodup, fun u hu => hne (h.notEmpty u hu) nofun,
      fun u hu => ?_⟩
    cases hu
    exact ⟨byte, update_self ..⟩

theorem MonitorInv.queue (h : MonitorInv m) (ht : m.pc t = .running) (o : Op) :
    MonitorInv ({ m with lockWaiters := t :: m.lockWaiters }.setPc t (.lockWait o)) := by
  obtain ⟨he, hf⟩ := h.not_waiting (t := t) (by rw [ht]; rfl)
  refine h.setPc (by rw [ht]; rfl) (fun u => ?_) (List.nodup_cons.mpr ⟨fun hmem => ?_, h.nodup⟩) he hf
  · have := h.queued u
    simp only [update_apply, List.mem_cons]
    grind [Pc.queued]
  · have hq := (h.queued t).mp hmem
    rw [ht] at hq
    cases hq

theorem acquire_failed (hv : m.lockValue ≠ 0) (hw : o.mustWait m.q ≠ true) :
    m.acquire o t = .error .waitCondition := by
  rw [Monitor.acquire, if_neg hv, Monitor.wait, if_neg hw]

/-- lock が塞がっているか、待つ条件が成り立てば、止まるまでの検査は通る。 -/
theorem acquire_spec (h : MonitorInv m) (ht : m.pc t = .running)
    (hc : m.lockValue ≠ 0 → o.mustWait m.q = true) :
    ∃ m', m.acquire o t = .ok m' ∧ MonitorInv m' ∧ m'.q = m.q ∧
      ∃ p, m'.pc = update m.pc t p ∧ ∀ o', p.contends = some o' → o' = o := by
  unfold Monitor.acquire
  by_cases hv : m.lockValue = 0
  · rw [if_pos hv]
    exact ⟨_, rfl, h.queue ht o, rfl, .lockWait o, rfl, fun _ ho => (Option.some.inj ho).symm⟩
  · have hfree : m.lockHolder = none := by
      by_contra hne
      exact hv (h.value.trans (if_neg hne))
    have hone : m.lockValue - 1 = 0 := by rw [h.value, if_pos hfree]
    rw [if_neg hv, hone, Monitor.wait, if_pos (hc hv)]
    exact ⟨_, rfl, h.block ht hfree o, by cases o <;> rfl, .waiting o, by cases o <;> rfl, nofun⟩

/-- `while` の条件からは、割り込みを禁じたまま `wait` に着くので、検査は通る。 -/
theorem loop_spec (h : MonitorInv m) (ht : m.pc t = .running) (o : Op) :
    ∃ m', m.loop o t = .ok m' ∧ MonitorInv m' ∧ m.q.Moves m'.q ∧ m.Joins m' ∧
      (o.mustWait m.q = true → m'.q = m.q) := by
  unfold Monitor.loop
  cases hw : o.mustWait m.q with
  | true =>
    have hheld : m.lockHolder ≠ some t := by
      rw [Ne, h.holder t, ht]
      exact nofun
    obtain ⟨m', hm', hi, hq, p, hpc, hp⟩ := acquire_spec h ht fun _ => hw
    rw [if_pos rfl, if_neg hheld]
    refine ⟨m', hm', hi, .inl hq, fun u o' hu => ?_, fun _ => hq⟩
    rw [hpc, update_apply] at hu
    split at hu
    · rw [hp o' hu, hq]
      exact .inr hw
    · exact .inl hu
  | false =>
    obtain ⟨m', hm', hi, hq, hk⟩ := finish_spec h hw
    rw [if_neg Bool.false_ne_true]
    exact ⟨m', hm', hi, .inr ⟨o, hq⟩, fun u o hu => .inl (hk u o hu), nofun⟩

theorem MonitorInv.released (h : MonitorInv m) (ht : m.pc t = .woken o) :
    MonitorInv { m.setPc t .running with lockHolder := none }.raiseValue := by
  have hheld : m.lockHolder = some t := (h.holder t).mpr (by rw [ht]; rfl)
  -- lock を持つのは `t` だけなので、`wait` で止まっている thread は残っていない
  have honly : ∀ u, (m.pc u).holdsLock = true → u = t := fun u hu =>
    (Option.some.inj (hheld.symm.trans ((h.holder u).mpr hu))).symm
  have hnone : ∀ u o', m.pc u ≠ .waiting o' := by
    intro u o' hu
    have hut := honly u (by rw [hu]; rfl)
    rw [hut, ht] at hu
    cases hu
  refine ⟨h.q, fun u => iff_of_false nofun ?_, ?_, fun u => ?_, h.nodup,
    fun u hu => absurd (h.notEmpty u hu) (hnone u _), fun u hu => ?_⟩
  · have := honly u
    simp only [Monitor.raiseValue, Monitor.setPc_pc, update_apply]
    grind [Pc.holdsLock]
  · show m.lockValue + 1 = 1
    rw [h.value, hheld]
    rfl
  · have := h.queued u
    simp only [Monitor.raiseValue, Monitor.setPc_pc, Monitor.setPc_lockWaiters,
      update_apply]
    grind [Pc.queued]
  · obtain ⟨byte, hb⟩ := h.notFull u hu
    exact absurd hb (hnone u _)

theorem MonitorInv.unqueue (h : MonitorInv m) (ht : m.pc t = .lockWait o) :
    MonitorInv ({ m with lockWaiters := m.lockWaiters.erase t }.setPc t (.lockRetry o)) := by
  obtain ⟨he, hf⟩ := h.not_waiting (t := t) (by rw [ht]; rfl)
  refine h.setPc (by rw [ht]; rfl) (fun u => ?_) (h.nodup.erase t) he hf
  have := h.queued u
  simp only [update_apply, h.nodup.mem_erase_iff]
  grind [Pc.queued]

theorem exists_lockWait_of_queued {p : Pc} (h : p.queued = true) : ∃ o, p = .lockWait o := by
  cases p with
  | lockWait o => exact ⟨o, rfl⟩
  | running | test | lockRetry | waiting | woken => cases h

/-- `lock_release` の後。`waiters` から起こされた thread は `sema_down` の `while` に戻る。 -/
theorem semaUp_spec (h : MonitorInv m) (ht : m.pc t = .woken o) {w : Option Tid}
    (hw : m.canWake w = true) :
    ∃ m', { m.setPc t .running with lockHolder := none }.semaUp w = .ok m' ∧ MonitorInv m' ∧
      m'.pc t = .running ∧ m'.q = m.q ∧ m.Retains m' := by
  have hr := h.released ht
  have hk : m.Retains { m.setPc t .running with lockHolder := none }.raiseValue :=
    retains_of_update rfl nofun
  cases w with
  | none => exact ⟨_, rfl, hr, update_self .., rfl, hk⟩
  | some v =>
    obtain ⟨o', hv⟩ := exists_lockWait_of_queued ((h.queued v).mp (of_decide_eq_true hw))
    have hne : v ≠ t := fun hvt => by cases hv.symm.trans (hvt ▸ ht)
    have hv' : update m.pc t .running v = .lockWait o' :=
      (update_of_ne hne ..).trans hv
    simp only [Monitor.semaUp, Monitor.threadUnblock, Monitor.setPc_pc, hv']
    have hwoken : Monitor.Retains { m.setPc t .running with lockHolder := none }.raiseValue
        ({ m.setPc t .running with lockHolder := none }.raiseValue.setPc v (.lockRetry o')) :=
      retains_of_update rfl fun o ho => (congrArg Pc.contends hv').trans ho
    refine ⟨_, rfl, hr.unqueue hv', ?_, rfl, fun u o hu => hk u o (hwoken u o hu)⟩
    exact (update_of_ne hne.symm ..).trans (update_self ..)

theorem release_spec (h : MonitorInv m) (ht : m.pc t = .woken o) {w : Option Tid}
    (hw : m.canWake w = true) (yield : Bool) :
    ∃ m', (m.setPc t .running).release w yield o t = .ok m' ∧ MonitorInv m' ∧ m.q.Moves m'.q ∧
      m.Joins m' ∧ ((yield = false → o.mustWait m.q = true) → m'.q = m.q) := by
  have hheld : m.lockHolder = some t := (h.holder t).mpr (by rw [ht]; rfl)
  obtain ⟨m₁, hup, hi, hpc, hq, hk⟩ := semaUp_spec h ht hw
  rw [Monitor.release, Monitor.setPc_lockHolder, if_pos hheld, hup]
  show ∃ m', (if yield then _ else _) = _ ∧ _
  cases yield with
  | true =>
    have htest : m₁.Retains (m₁.setPc t (.test o)) := retains_of_update rfl nofun
    exact ⟨_, if_pos rfl, hi.move (by rw [hpc]; rfl) (by rw [hpc]; rfl) rfl rfl, .inl hq,
      hk.joins fun u o' hu => .inl (htest u o' hu), fun _ => hq⟩
  | false =>
    obtain ⟨m', hm', hi', hmoves, hj', hsame⟩ := loop_spec hi hpc o
    rw [hq] at hmoves hsame
    exact ⟨m', hm', hi', hmoves, hk.joins hj', fun hw => hsame (hw rfl)⟩

/-! ## 実行 -/

/-- この一歩で、byte が buffer に入るか、buffer から出る。 -/
def Monitor.transfers (m : Monitor) : IntqEvent → Bool
  | .call _ o | .interrupt o => !o.mustWait m.q
  | .run t =>
    match m.pc t with
    | .test o => !o.mustWait m.q
    | _ => false
  | .resume t _ yield =>
    match m.pc t with
    | .woken o => !yield && !o.mustWait m.q
    | _ => false

/--
**検査が偽にならない条件。**
handler も thread も、ほかの thread が `lock_acquire (&q->lock)` で待つ間は byte を出し入れしない。
-/
def Undisturbed (m : Monitor) (e : IntqEvent) : Prop :=
  m.transfers e = true → ∀ t, (m.pc t).contends = none

inductive Outcome (m : Monitor) (e : IntqEvent) : Except IntqPanic Monitor → Prop
  | ok (m' : Monitor) (hi : MonitorInv m') (hq : m.q.Moves m'.q) (hj : m.Joins m')
      (hsame : m.transfers e = false → m'.q = m.q) : Outcome m e (.ok m')
  | failed (t : Tid) (o : Op) (ht : m.pc t = .lockRetry o) (hw : o.mustWait m.q ≠ true) :
      Outcome m e (.error .waitCondition)

variable {e : IntqEvent} {r : Except IntqPanic Monitor}

/-- **偽になりうる検査は、`lock_acquire` で block した後の `wait` のものだけである。** -/
theorem next_outcome (h : MonitorInv m) (hr : m.next e = some r) : Outcome m e r := by
  cases e with
  | call t o =>
    obtain ⟨ht, hr⟩ := Option.ite_none_right_eq_some.mp hr
    cases hr
    obtain ⟨m', hm', hi, hq, hj, hsame⟩ := loop_spec h ht o
    rw [hm']
    exact .ok m' hi hq hj fun htr => hsame (by simpa [Monitor.transfers] using htr)
  | interrupt o =>
    obtain ⟨hw, hr⟩ := Option.ite_none_left_eq_some.mp hr
    cases hr
    have hw : o.mustWait m.q = false := Bool.not_eq_true _ ▸ hw
    obtain ⟨m', hm', hi, hq, hk⟩ := finish_spec h hw
    rw [hm']
    refine .ok m' hi (.inr ⟨o, hq⟩) (fun u o hu => .inl (hk u o hu)) fun htr => ?_
    simp [Monitor.transfers, hw] at htr
  | resume t w yield =>
    rw [Monitor.next] at hr
    split at hr
    · next o ht =>
      obtain ⟨hw, hr⟩ := Option.ite_none_right_eq_some.mp hr
      cases hr
      obtain ⟨m', hm', hi, hq, hj, hsame⟩ := release_spec h ht hw yield
      rw [hm']
      refine .ok m' hi hq hj fun htr => hsame ?_
      simpa [Monitor.transfers, ht] using htr
    · cases hr
  | run t =>
    rw [Monitor.next] at hr
    split at hr
    · next o ht =>
      cases hr
      obtain ⟨m', hm', hi, hq, hj, hsame⟩ :=
        loop_spec (h.move (by rw [ht]; rfl) (by rw [ht]; rfl) rfl rfl) (update_self ..) o
      rw [hm']
      have hk : m.Retains (m.setPc t .running) := retains_of_update rfl nofun
      refine .ok m' hi hq (hk.joins hj) fun htr => hsame ?_
      simpa [Monitor.transfers, ht] using htr
    · next o ht =>
      cases hr
      have hrun : MonitorInv (m.setPc t .running) :=
        h.move (by rw [ht]; rfl) (by rw [ht]; rfl) rfl rfl
      by_cases hc : m.lockValue ≠ 0 → o.mustWait m.q = true
      · obtain ⟨m', hm', hi, hq, p, hpc, hp⟩ := acquire_spec hrun (update_self ..) hc
        rw [hm']
        refine .ok m' hi (.inl hq) (fun u o' hu => .inl ?_) fun _ => hq
        refine retains_of_update (hpc.trans (update_idem ..)) (fun o' ho => ?_) u o' hu
        rw [hp o' ho, ht]
        rfl
      · obtain ⟨hv, hw⟩ := Classical.not_imp.mp hc
        have hfail : (m.setPc t .running).acquire o t = _ := acquire_failed hv hw
        rw [hfail]
        exact .failed t o ht hw
    · cases hr

theorem step_next (hs : m.step e = some m') : m.next e = some (.ok m') := by
  rw [Monitor.step] at hs
  split at hs
  · next m₁ hn =>
    cases hs
    exact hn
  · cases hs

theorem reachable_monitorInv (h : Reachable intqMonitor m) : MonitorInv m := by
  refine Reachable.invariant (I := MonitorInv) ?_ (fun _ _ _ hi hs => ?_) h
  · rintro _ ⟨buf, rfl⟩
    exact .init buf
  · cases next_outcome hi (step_next hs) with
    | ok _ hi => exact hi

/-- `lock_acquire` で止まっている呼び出しの待つ条件は、どれもまだ成り立っている。 -/
def Settled (m : Monitor) : Prop := ∀ t o, (m.pc t).contends = some o → o.mustWait m.q = true

theorem reachableIf_settled (h : ReachableIf intqMonitor Undisturbed m) : Settled m := by
  refine ReachableIf.invariant_of (J := MonitorInv) (I := Settled) (fun _ => reachable_monitorInv)
    ?_ ?_ h
  · rintro _ ⟨buf, rfl⟩ t o ho
    cases ho
  · intro m e m' hi hset hc hs
    cases next_outcome hi (step_next hs) with
    | ok _ _ _ hj hsame =>
      intro t o ho
      rcases hj t o ho with hold | hnew
      · -- 前から待っている呼び出しがあるので、buffer は動いていない
        have hstill : m.transfers e = false := by
          rw [← Bool.not_eq_true]
          intro htr
          rw [hc htr t] at hold
          cases hold
        rw [hsame hstill]
        exact hset t o hold
      · exact hnew

/--
**`q->lock` を待つ thread がいる間 buffer が動かない実行では、どの検査も偽にならない。**

* その実行で着くどの状態でも、次の一歩の検査はすべて通る
* どんな実行でも、偽になるとすれば、lock を得た thread の `wait` の検査である
-/
theorem intq_assertions (h : Reachable intqMonitor m) (e : IntqEvent)
    (r : Except IntqPanic Monitor) (hr : m.next e = some r) :
    (ReachableIf intqMonitor Undisturbed m → ∃ m', r = .ok m') ∧
    ∀ p, r = .error p → p = .waitCondition := by
  cases next_outcome (reachable_monitorInv h) hr with
  | ok m' => exact ⟨fun _ => ⟨m', rfl⟩, nofun⟩
  | failed t o ht hw =>
    refine ⟨fun hu => absurd (reachableIf_settled hu t o ?_) hw, fun p hp => ?_⟩
    · rw [ht]
      rfl
    · cases hp
      rfl

theorem contends_update {pc : Tid → Pc} (h : ∀ t, (pc t).contends = none) {p : Pc}
    (hp : p.contends = none) (u t : Tid) : (update pc u p t).contends = none := by
  rw [update_apply]
  split
  · exact hp
  · exact h t

/--
reader 0 が起こされた後、reader 1 が byte を取り、次の byte を求めて lock で止まる。
reader 0 は空の queue を見て、もう一度待つ。
-/
theorem intq_assertions_two_readers : ∃ m, ReachableIf intqMonitor Undisturbed m ∧
    m.pc 1 = .lockRetry .getc ∧ ∃ m', m.next (.run 1) = some (.ok m') := by
  have h₁ := ReachableIf.step (S := intqMonitor) (C := Undisturbed) (e := .call 0 .getc)
    (.init ⟨fun _ => 0, rfl⟩) (fun h => absurd h (by decide)) rfl
  have h₂ := h₁.step (e := IntqEvent.interrupt (.putc 1))
    (fun _ => contends_update (fun _ => rfl) rfl 0) rfl
  have h₃ := h₂.step (e := IntqEvent.call 1 .getc)
    (fun _ => contends_update (contends_update (fun _ => rfl) rfl 0) rfl 0) rfl
  have h₄ := h₃.step (e := IntqEvent.call 1 .getc) (fun h => absurd h (by decide)) rfl
  have h₅ := h₄.step (e := IntqEvent.resume 0 (some 1) false) (fun h => absurd h (by decide)) rfl
  obtain ⟨m', hm'⟩ := (intq_assertions h₅.reachable (.run 1) _ rfl).1 h₅
  exact ⟨_, h₅, rfl, m', congrArg some hm'⟩

/--
**二つの byte が届くと、二番目の reader の `wait` が止まる。**
reader 0 が `wait` で、reader 1 が `lock_acquire` で block している間に byte が二つ届き、
reader 0 は lock を放して一つだけ取る。
-/
theorem exists_wait_panic : ∃ m, Reachable intqMonitor m ∧ m.pc 1 = .lockRetry .getc ∧
    m.next (.run 1) = some (.error .waitCondition) := by
  have hinit : Reachable intqMonitor (Monitor.init fun _ => 0) := .init ⟨_, rfl⟩
  obtain ⟨m, h, hp⟩ := exists_reachable_of_run
    [.call 0 .getc, .call 1 .getc, .interrupt (.putc 1), .interrupt (.putc 2),
      .resume 0 (some 1) false] hinit
    (p := fun m => m.pc 1 = .lockRetry .getc ∧
      (m.next (.run 1)).bind failure? = some .waitCondition) (by decide +kernel)
  obtain ⟨hpc, hn⟩ := of_decide_eq_true hp
  obtain ⟨r, hr, hfail⟩ := Option.bind_eq_some_iff.mp hn
  rw [failure?_eq_some.mp hfail] at hr
  exact ⟨m, h, hpc, hr⟩

end Pintos.Devices
