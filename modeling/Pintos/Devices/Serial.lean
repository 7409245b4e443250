import Pintos.Devices.Intq

/-!
# serial port（`devices/serial.c`）と入力 buffer（`devices/input.c`）

送信 queue `txq`、入力 buffer、port に送った byte の記録。

hardware は次のように現れる。

* `putc_poll` は port が空くのを待って送るので、送ったことだけを記録する
* 割り込み handler には、届いている byte の列と、port が続けて受け付ける個数を渡す

一つの関数の中で block しうるのは満杯の `txq` への `intq_putc` と空の入力 buffer の `intq_getc` だけで、
ここでは待ちが終わった後の一回を一歩とする。
line の設定（`set_serial`、`FCR`、`MCR`）は送る byte に関わらないので省く。
-/

namespace Pintos.Devices

open Infra

inductive SerialMode
  | uninit
  | poll
  | queue
deriving DecidableEq

structure Ier where
  xmit : Bool
  recv : Bool
deriving DecidableEq

structure Serial where
  mode : SerialMode
  txq : Intq
  input : Intq
  ier : Ier
  /-- `THR` に書いた byte を順に並べたもの。 -/
  sent : List UInt8

namespace Serial

def outThr (byte : UInt8) (s : Serial) : Serial := { s with sent := s.sent ++ [byte] }

def writeIer (s : Serial) : Serial :=
  { s with ier := { xmit := !s.txq.empty, recv := !s.input.full } }

/-- `init_poll`。`mode` が `UNINIT` のときだけ呼ばれる。 -/
def initPoll (s : Serial) : Serial :=
  { s with mode := .poll, txq := Intq.init s.txq.buf, ier := ⟨false, false⟩ }

def pollable (s : Serial) : Serial := if s.mode = .uninit then s.initPoll else s

/-- `serial_init_queue`。二度目は `ASSERT (mode == POLL)` で止まる。 -/
def serialInitQueue (s : Serial) : Option Serial :=
  if s.pollable.mode = .poll then some { s.pollable with mode := .queue }.writeIer else none

/-- `putc_poll (intq_getc (&txq))`。 -/
def pollOne (s : Serial) : Option Serial :=
  s.txq.getc.map fun r => { s with txq := r.2 }.outThr r.1

/-- `txq` に入れて割り込みを設定し直す。 -/
def enqueue (byte : UInt8) (s : Serial) : Option Serial :=
  (s.txq.putc byte).map fun q => { s with txq := q }.writeIer

/-- `serial_putc`。`off` は呼ばれたときに割り込みが禁じられていたことを表す。 -/
def serialPutc (off : Bool) (byte : UInt8) (s : Serial) : Option Serial :=
  if s.mode = .queue then
    (if off && s.txq.full then s.pollOne else some s).bind (enqueue byte)
  else some (s.pollable.outThr byte)

/-- `serial_flush` の while。 -/
def flushLoop : Nat → Serial → Option Serial
  | 0, _ => none
  | fuel + 1, s => if s.txq.empty then some s else s.pollOne.bind (flushLoop fuel)

def serialFlush (s : Serial) : Option Serial := flushLoop intqBufsize s

def serialNotify (s : Serial) : Serial := if s.mode = .queue then s.writeIer else s

def inputPutc (key : UInt8) (s : Serial) : Option Serial :=
  (s.input.putc key).map fun q => { s with input := q }.serialNotify

def inputGetc (s : Serial) : Option Serial :=
  s.input.getc.map fun r => { s with input := r.2 }.serialNotify

/-- 入力 buffer が満杯になるか、届いている byte が尽きるまで受け取る。 -/
def receive : List UInt8 → Serial → Option Serial
  | [], s => some s
  | key :: keys, s => if s.input.full then some s else (s.inputPutc key).bind (receive keys)

/-- `txq` が空になるか、port が受け付けなくなるまで送る。 -/
def transmit : Nat → Serial → Option Serial
  | 0, s => some s
  | ready + 1, s => if s.txq.empty then some s else s.pollOne.bind (transmit ready)

def serialInterrupt (received : List UInt8) (ready : Nat) (s : Serial) : Option Serial :=
  ((s.receive received).bind (transmit ready)).map writeIer

end Serial

/-! ## 一歩 -/

inductive SerialEvent
  | initQueue
  | putc (off : Bool) (byte : UInt8)
  | flush
  | interrupt (received : List UInt8) (ready : Nat)
  /-- 割り込み handler が入力 buffer に入れる。 -/
  | inputPutc (key : UInt8)
  | inputGetc
deriving DecidableEq

def Serial.step (s : Serial) (e : SerialEvent) : Option Serial :=
  match e with
  | .initQueue => s.serialInitQueue
  | .putc off byte => s.serialPutc off byte
  | .flush => s.serialFlush
  | .interrupt received ready => s.serialInterrupt received ready
  | .inputPutc key => s.inputPutc key
  | .inputGetc => s.inputGetc

/-- `serial_putc` に渡された byte を、入った順に並べる。 -/
def Serial.queued (_ : Serial) (e : SerialEvent) : List UInt8 :=
  match e with
  | .putc _ byte => [byte]
  | _ => []

def Serial.init (txq input : Nat → UInt8) (ier : Ier) : Serial where
  mode := .uninit
  txq := Intq.init txq
  input := Intq.init input
  ier := ier
  sent := []

def serialPort : System Serial SerialEvent :=
  System.ofFun (fun s => ∃ txq input ier, s = Serial.init txq input ier) Serial.step

end Pintos.Devices
