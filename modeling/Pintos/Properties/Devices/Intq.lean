import Pintos.Devices.Serial
import Pintos.Infra.Ring

/-!
# 割り込み queue は有界 FIFO である

buffer に入っている byte の列を `contents` とし、`getc` が先頭を取り、`putc` が最後に足すことを示す。
入った byte の列が「出た byte の列と `contents` をつないだもの」であることは、ここから従う。

serial port では、送った byte の列と `txq` の `contents` をつなぐと、
`serial_putc` に渡された byte の列になる。
-/

namespace Pintos.Devices

open Infra

/-! ## 一回の `getc` と `putc` -/

/-- 入っている byte を古い順に並べたもの。 -/
def Intq.contents (q : Intq) : List UInt8 :=
  ringList intqBufsize q.buf q.tail (ringCount intqBufsize q.head q.tail)

/-- `head` と `tail` が配列の中にある。 -/
structure Intq.Bounded (q : Intq) : Prop where
  head : q.head < intqBufsize
  tail : q.tail < intqBufsize

namespace Intq

variable {q q' : Intq} {byte : UInt8}

theorem init_bounded (buf : Nat → UInt8) : (Intq.init buf).Bounded :=
  ⟨Nat.zero_lt_succ _, Nat.zero_lt_succ _⟩

@[simp] theorem init_contents (buf : Nat → UInt8) : (Intq.init buf).contents = [] := by
  simp [contents, ringList, ringCount, init]

theorem length_contents (q : Intq) :
    q.contents.length = ringCount intqBufsize q.head q.tail := length_ringList ..

theorem Bounded.empty_iff (h : q.Bounded) : q.empty = true ↔ q.contents.length = 0 := by
  rw [length_contents, ringCount_eq_zero_iff h.head h.tail]
  exact decide_eq_true_iff

theorem Bounded.full_iff (h : q.Bounded) :
    q.full = true ↔ q.contents.length + 1 = intqBufsize := by
  rw [length_contents, ringCount_eq_last_iff h.head h.tail]
  exact decide_eq_true_iff

theorem Bounded.length_lt (h : q.Bounded) : q.contents.length < intqBufsize := by
  rw [length_contents]
  exact ringCount_lt h.head h.tail

theorem getc_spec (h : q.Bounded) (hg : q.getc = some (byte, q')) :
    q.contents = byte :: q'.contents ∧ q'.Bounded := by
  obtain ⟨hempty, htake⟩ := Option.ite_none_left_eq_some.mp hg
  obtain ⟨-, htake⟩ := Option.ite_none_right_eq_some.mp htake
  have hne : q.head ≠ q.tail := fun he => hempty (decide_eq_true he)
  cases htake
  refine ⟨?_, h.head, ringNext_lt h.tail⟩
  show ringList _ _ _ (ringCount _ _ _) = _
  rw [← ringCount_next_tail h.head h.tail hne, ringList_succ _ h.tail]
  rfl

theorem getc_total (h : q.Bounded) (hempty : q.empty = false) :
    q.getc = some (q.buf q.tail, { q with tail := next q.tail }) := by
  rw [getc, hempty, take, if_neg Bool.false_ne_true, if_pos h.tail]

theorem putc_spec (h : q.Bounded) (hp : q.putc byte = some q') :
    q'.contents = q.contents ++ [byte] ∧ q'.Bounded := by
  obtain ⟨hfull, hput⟩ := Option.ite_none_left_eq_some.mp hp
  obtain ⟨-, hput⟩ := Option.ite_none_right_eq_some.mp hput
  have hne : (q.head + 1) % intqBufsize ≠ q.tail := fun he => hfull (decide_eq_true he)
  have hlt := ringCount_lt h.head h.tail
  cases hput
  refine ⟨?_, ringNext_lt h.head, h.tail⟩
  show ringList _ (Function.update q.buf q.head byte) q.tail
    (ringCount _ ((q.head + 1) % intqBufsize) q.tail) = _
  -- `head` は `tail` から個数だけ進んだ所なので、書く場所は最後の次である
  rw [ringCount_next_head h.head h.tail hne]
  have hwrite := ringList_write q.buf q.tail hlt byte
  rw [← ring_head_eq h.head h.tail] at hwrite
  exact hwrite

theorem putc_total (byte : UInt8) (h : q.Bounded) (hfull : q.full = false) :
    ∃ q', q.putc byte = some q' := by
  rw [putc, hfull, put, if_neg Bool.false_ne_true, if_pos h.head]
  exact ⟨_, rfl⟩

theorem step_bounded {o : Op} (h : q.Bounded) (hs : q.step o = some q') : q'.Bounded := by
  cases o with
  | getc =>
    obtain ⟨⟨byte, q₁⟩, hg, rfl⟩ := Option.map_eq_some_iff.mp hs
    exact (getc_spec h hg).2
  | putc byte => exact (putc_spec h hs).2

end Intq

/-! ## 実行 -/

theorem reachable_bounded {q : Intq} (h : Reachable intqQueue q) : q.Bounded := by
  refine Reachable.invariant (I := Intq.Bounded) ?_ (fun _ _ _ hb hs => Intq.step_bounded hb hs) h
  rintro _ ⟨buf, rfl⟩
  exact Intq.init_bounded buf

@[simp] theorem inserted_append (tr tr' : List Moved) :
    inserted (tr ++ tr') = inserted tr ++ inserted tr' := List.filterMap_append

@[simp] theorem removed_append (tr tr' : List Moved) :
    removed (tr ++ tr') = removed tr ++ removed tr' := List.filterMap_append

theorem step_fifo {q q' : Intq} {o : Op} {tr : List Moved} (h : q.Bounded)
    (hi : inserted tr = removed tr ++ q.contents) (hs : q.step o = some q') :
    inserted (tr ++ q.moved o) = removed (tr ++ q.moved o) ++ q'.contents := by
  cases o with
  | getc =>
    obtain ⟨⟨byte, q₁⟩, hg, rfl⟩ := Option.map_eq_some_iff.mp hs
    have hm : q.moved .getc = [.removed byte] := by
      show (q.getc.map _).toList = _
      rw [hg]
      rfl
    rw [hm, inserted_append, removed_append, hi, (Intq.getc_spec h hg).1]
    simp [inserted, removed]
  | putc byte =>
    rw [inserted_append, removed_append, hi, (Intq.putc_spec h hs).1]
    simp [Intq.moved, inserted, removed]

theorem run_fifo {q₀ q : Intq} {tr : List Moved} (h : Run intqQueue Intq.moved q₀ tr q) :
    inserted tr = removed tr ++ q.contents := by
  refine Run.invariant_of (I := fun tr q => inserted tr = removed tr ++ q.contents)
    (fun _ => reachable_bounded) ?_ (fun _ _ _ _ hb hi hs => step_fifo hb hi hs) h
  rintro ⟨buf, rfl⟩
  simp [inserted, removed]

theorem Intq.Bounded.length_eq {q : Intq} (h : q.Bounded) :
    (q.contents.length : Int) = ((q.head : Int) - q.tail) % (intqBufsize : Int) := by
  have hsub : (q.head : Int) - q.tail + intqBufsize = ((q.head + intqBufsize - q.tail : Nat) : Int) := by
    have := h.tail
    omega
  rw [Intq.length_contents, ringCount, ← Int.add_emod_right, hsub]
  rfl

/-! ## serial port -/

/-- 送った byte と `txq` に残る byte をつなぐと `tr` になる。 -/
structure Transmits (tr : List UInt8) (s : Serial) : Prop where
  txq : s.txq.Bounded
  input : s.input.Bounded
  /-- queue を使う前は、何も残っていない。 -/
  unused : s.mode ≠ .queue → s.txq.contents = []
  order : tr = s.sent ++ s.txq.contents

namespace Transmits

variable {tr : List UInt8} {s s' : Serial} {byte : UInt8}

section

variable (h : Transmits tr s)
include h

theorem writeIer : Transmits tr s.writeIer := ⟨h.txq, h.input, h.unused, h.order⟩

theorem serialNotify : Transmits tr s.serialNotify := by
  unfold Serial.serialNotify
  split
  · exact h.writeIer
  · exact h

theorem pollable : Transmits tr s.pollable := by
  unfold Serial.pollable
  split
  · next hm =>
    have hnil : s.txq.contents = [] := h.unused (by rw [hm]; decide)
    refine ⟨Intq.init_bounded _, h.input, fun _ => Intq.init_contents _, ?_⟩
    rw [h.order, hnil]
    simp [Serial.initPoll]
  · exact h

theorem pollOne (hs : s.pollOne = some s') :
    Transmits tr s' ∧ s'.txq.contents.length + 1 = s.txq.contents.length ∧ s'.mode = s.mode := by
  obtain ⟨⟨byte, q⟩, hg, rfl⟩ := Option.map_eq_some_iff.mp hs
  obtain ⟨hc, hb⟩ := Intq.getc_spec h.txq hg
  refine ⟨⟨hb, h.input, fun hm => ?_, ?_⟩, ?_, rfl⟩
  · cases hc.symm.trans (h.unused hm)
  · rw [h.order, hc]
    show _ = (s.sent ++ [byte]) ++ q.contents
    simp
  · rw [hc]
    rfl

theorem enqueue (hm : s.mode = .queue) (hs : s.enqueue byte = some s') :
    Transmits (tr ++ [byte]) s' := by
  obtain ⟨q, hp, rfl⟩ := Option.map_eq_some_iff.mp hs
  obtain ⟨hc, hb⟩ := Intq.putc_spec h.txq hp
  refine ⟨hb, h.input, fun hne => absurd hm hne, ?_⟩
  rw [h.order]
  show _ = s.sent ++ q.contents
  rw [hc, List.append_assoc]

theorem serialPutc {off : Bool} (hs : s.serialPutc off byte = some s') :
    Transmits (tr ++ [byte]) s' := by
  unfold Serial.serialPutc at hs
  split at hs
  · next hm =>
    obtain ⟨s₁, hs₁, hs⟩ := Option.bind_eq_some_iff.mp hs
    split at hs₁
    · obtain ⟨h₁, -, hm₁⟩ := h.pollOne hs₁
      exact h₁.enqueue (hm₁.trans hm) hs
    · cases hs₁
      exact h.enqueue hm hs
  · next hm =>
    cases hs
    -- polling では `txq` が空なので、すぐに送っても追い越さない
    have hne : s.pollable.mode ≠ .queue := by
      unfold Serial.pollable
      split
      · exact nofun
      · exact hm
    have hp := h.pollable
    refine ⟨hp.txq, hp.input, fun _ => hp.unused hne, ?_⟩
    rw [hp.order, hp.unused hne]
    show _ = (s.pollable.sent ++ [byte]) ++ s.pollable.txq.contents
    rw [hp.unused hne]
    simp

theorem serialInitQueue (hs : s.serialInitQueue = some s') : Transmits tr s' := by
  obtain ⟨-, hs⟩ := Option.ite_none_right_eq_some.mp hs
  cases hs
  have hp := h.pollable
  exact ⟨hp.txq, hp.input, fun hne => absurd rfl hne, hp.order⟩

theorem inputPutc (hs : s.inputPutc byte = some s') : Transmits tr s' := by
  obtain ⟨q, hp, rfl⟩ := Option.map_eq_some_iff.mp hs
  refine serialNotify ⟨h.txq, (Intq.putc_spec h.input hp).2, h.unused, h.order⟩

theorem inputGetc (hs : s.inputGetc = some s') : Transmits tr s' := by
  obtain ⟨⟨byte, q⟩, hg, rfl⟩ := Option.map_eq_some_iff.mp hs
  exact serialNotify ⟨h.txq, (Intq.getc_spec h.input hg).2, h.unused, h.order⟩

end

theorem receive (keys : List UInt8) (h : Transmits tr s) (hs : s.receive keys = some s') :
    Transmits tr s' := by
  induction keys generalizing s with
  | nil =>
    cases hs
    exact h
  | cons key keys ih =>
    rw [Serial.receive] at hs
    split at hs
    · cases hs
      exact h
    · obtain ⟨s₁, hs₁, hs⟩ := Option.bind_eq_some_iff.mp hs
      exact ih (h.inputPutc hs₁) hs

theorem transmit (ready : Nat) (h : Transmits tr s) (hs : s.transmit ready = some s') :
    Transmits tr s' := by
  induction ready generalizing s with
  | zero =>
    cases hs
    exact h
  | succ ready ih =>
    rw [Serial.transmit] at hs
    split at hs
    · cases hs
      exact h
    · obtain ⟨s₁, hs₁, hs⟩ := Option.bind_eq_some_iff.mp hs
      exact ih (h.pollOne hs₁).1 hs

/-- 残りの個数より多く回れば、`flush` の while は空になって終わる。 -/
theorem flushLoop (fuel : Nat) (h : Transmits tr s) (hf : s.txq.contents.length < fuel) :
    ∃ s', s.flushLoop fuel = some s' ∧ Transmits tr s' ∧ s'.txq.contents = [] := by
  induction fuel generalizing s with
  | zero => exact absurd hf (Nat.not_lt_zero _)
  | succ fuel ih =>
    rw [Serial.flushLoop]
    cases hempty : s.txq.empty with
    | true => exact ⟨s, rfl, h, List.eq_nil_of_length_eq_zero (h.txq.empty_iff.mp hempty)⟩
    | false =>
      have hp : ∃ s₁, s.pollOne = some s₁ :=
        ⟨_, congrArg (Option.map _) (Intq.getc_total h.txq hempty)⟩
      obtain ⟨s₁, hp⟩ := hp
      obtain ⟨h₁, hlen, -⟩ := h.pollOne hp
      rw [if_neg Bool.false_ne_true, hp]
      exact ih h₁ (by omega)

theorem serialFlush (h : Transmits tr s) :
    ∃ s', s.serialFlush = some s' ∧ Transmits tr s' ∧ s'.txq.contents = [] :=
  h.flushLoop intqBufsize h.txq.length_lt

theorem quiet (h : Transmits tr s) : Transmits (tr ++ []) s := by
  rwa [List.append_nil]

theorem step {e : SerialEvent} (h : Transmits tr s) (hs : s.step e = some s') :
    Transmits (tr ++ s.queued e) s' := by
  cases e with
  | putc off byte => exact h.serialPutc hs
  | initQueue => exact (h.serialInitQueue hs).quiet
  | flush =>
    obtain ⟨s₁, hs₁, h₁, -⟩ := h.serialFlush
    rw [← Option.some.inj (hs₁.symm.trans hs)]
    exact h₁.quiet
  | interrupt received ready =>
    obtain ⟨s₂, hs₂, rfl⟩ := Option.map_eq_some_iff.mp hs
    obtain ⟨s₁, hs₁, hs₂⟩ := Option.bind_eq_some_iff.mp hs₂
    exact ((h.receive received hs₁).transmit ready hs₂).writeIer.quiet
  | inputPutc key => exact (h.inputPutc hs).quiet
  | inputGetc => exact (h.inputGetc hs).quiet

end Transmits

theorem run_transmits {s₀ s : Serial} {tr : List UInt8}
    (h : Run serialPort Serial.queued s₀ tr s) : Transmits tr s := by
  refine Run.invariant_of (J := fun _ => True) (fun _ _ => trivial) ?_
    (fun _ _ _ _ _ hi hs => hi.step hs) h
  rintro ⟨txq, input, ier, rfl⟩
  exact ⟨Intq.init_bounded _, Intq.init_bounded _, fun _ => Intq.init_contents _,
    by simp [Serial.init]⟩

/--
**割り込み queue は有界 FIFO で、serial port は入った順に送る。**

* 出た byte の列は、入った byte の列の先頭部分である
* 残りの個数は `INTQ_BUFSIZE - 1` 以下で、`head - tail` の余りに等しい
* `intq_empty` と `intq_full` は、残りが 0 個と `INTQ_BUFSIZE - 1` 個のときに限って真になる
* serial port が送った byte の列は、`serial_putc` に渡された byte の列の先頭部分である
* `serial_flush` は終わり、その時までに渡された byte がすべて順に送られている
-/
theorem intq_bounded_fifo :
    (∀ q₀ tr q, Run intqQueue Intq.moved q₀ tr q →
      removed tr <+: inserted tr ∧
      (inserted tr).length - (removed tr).length ≤ intqBufsize - 1 ∧
      ((inserted tr).length : Int) - (removed tr).length =
        ((q.head : Int) - q.tail) % (intqBufsize : Int) ∧
      (q.empty = true ↔ (inserted tr).length = (removed tr).length) ∧
      (q.full = true ↔ (inserted tr).length = (removed tr).length + (intqBufsize - 1)) ∧
      q.head < intqBufsize ∧ q.tail < intqBufsize) ∧
    ∀ s₀ tr s, Run serialPort Serial.queued s₀ tr s →
      s.sent <+: tr ∧
      ∃ s', s.serialFlush = some s' ∧ s'.sent = tr ∧ s'.txq.empty = true := by
  constructor
  · intro q₀ tr q h
    have hb := reachable_bounded h.reachable
    have hfifo := run_fifo h
    have hlen : (inserted tr).length = (removed tr).length + q.contents.length := by
      rw [hfifo, List.length_append]
    have hlt := hb.length_lt
    have heq := hb.length_eq
    refine ⟨⟨_, hfifo.symm⟩, by omega, by omega, ?_, ?_, hb.head, hb.tail⟩
    · rw [hb.empty_iff]
      omega
    · rw [hb.full_iff]
      omega
  · intro s₀ tr s h
    have ht := run_transmits h
    obtain ⟨s', hs', ht', hnil⟩ := ht.serialFlush
    refine ⟨⟨_, ht.order.symm⟩, s', hs', ?_, ?_⟩
    · rw [ht'.order, hnil, List.append_nil]
    · rw [ht'.txq.empty_iff, hnil]
      rfl

/-- 一つ入れて出した queue と、割り込み駆動で二つ渡された port。 -/
theorem intq_bounded_fifo_two :
    (∃ q₀ tr q, Run intqQueue Intq.moved q₀ tr q ∧ tr = [.inserted 7, .removed 7] ∧
      removed tr <+: inserted tr) ∧
    ∃ s₀ s, Run serialPort Serial.queued s₀ [1, 2] s ∧ s.sent = [] ∧
      ∃ s', s.serialFlush = some s' ∧ s'.sent = [1, 2] ∧ s'.txq.empty = true := by
  constructor
  · have h₀ : Run intqQueue Intq.moved (Intq.init fun _ => 0) [] (Intq.init fun _ => 0) :=
      .init ⟨_, rfl⟩
    have h := Run.events [.putc 7, .getc] h₀ rfl
    exact ⟨_, _, _, h, rfl, (intq_bounded_fifo.1 _ _ _ h).1⟩
  · have h₀ : Run serialPort Serial.queued (Serial.init (fun _ => 0) (fun _ => 0) ⟨false, false⟩) []
        (Serial.init (fun _ => 0) (fun _ => 0) ⟨false, false⟩) := .init ⟨_, _, _, rfl⟩
    have h := Run.events [.initQueue, .putc false 1, .putc false 2] h₀ rfl
    exact ⟨_, _, h, rfl, (intq_bounded_fifo.2 _ _ _ h).2⟩

end Pintos.Devices
