import Pintos.Threads.Synch

/-!
# 外部割り込み（`threads/interrupt.c`、`devices/timer.c`、`devices/ide.c`）

外部割り込みは割り込みが許可されているときにだけ入り、handler は切り替えを挟まずに終わる。
handler の途中では `in_external_intr` が立っている。

handler は次のものを扱う。

* `timerInterrupt` — timer
* `interruptHandler` — IDE。待っている channel の `completion_wait` に `sema_up` する
* `threadUnblock` — keyboard と serial が `intq` を通して、自分で block した thread を起こす
-/

namespace Pintos

/--
`intr_handler` の外部割り込みの分岐。

CPU は入るときに割り込みを禁じ、`iret` で許可に戻す。
`yield_on_return` なら譲るので、`iret` は次に選ばれたときになる。
-/
def intrHandler (handler : Kernel → Except Panic Kernel) (k : Kernel) : Except Panic Kernel :=
  if k.inExternalIntr then .error .intrHandlerContext
  else
    (handler { k with intrLevel := .off, inExternalIntr := true, yieldOnReturn := false }).bind
      fun k₁ =>
        if k₁.intrLevel ≠ .off then .error .intrHandlerLevel
        else if !k₁.inExternalIntr then .error .intrHandlerContext
        else
          let k₂ := { k₁ with inExternalIntr := false }
          if k₂.yieldOnReturn then threadYield (k₂.push [.iret])
          else .ok { k₂ with intrLevel := .on }

/-! ## timer -/

def timerInterrupt (k : Kernel) : Except Panic Kernel :=
  (threadTick { k with ticks := k.ticks + 1 }).bind fun k₁ => threadAwake k₁.ticks k₁

/--
`timer_sleep`。`start` は `timer_ticks ()` が読んだ時刻である。

`abs_wake_up_time` は `int` なので、`start + ticks` を 32 bit に折り返す。
-/
def timerSleep (start ticks : Int) : Option Code :=
  if ticks ≤ 0 then none else some (.threadSleep (Infra.int32 (start + ticks)))

/-! ## IDE -/

/-- `struct channel` のうち handler が読むもの。 -/
structure Channel where
  irq : Nat
  expectingInterrupt : Bool
  completionWait : SemaId

/-- `interrupt_handler`。待っていない channel の割り込みは表示するだけである。 -/
def interruptHandler (vecNo : Nat) : List Channel → Kernel → Except Panic Kernel
  | [], _ => .error .ideNotReached
  | c :: cs, k =>
    if vecNo = c.irq then
      if c.expectingInterrupt then semaUp c.completionWait k else .ok k
    else interruptHandler vecNo cs k

end Pintos
