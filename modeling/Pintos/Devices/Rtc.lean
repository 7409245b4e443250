import Pintos.Infra.Int32

/-!
# 時計（`devices/rtc.c`）

`cmos n i` は、`n` 回目に読んだ CMOS の register `i` の byte である。register は BCD で書かれている。

`time_t` は 32 bit の符号なしなので、`time` への加算は `2 ^ 32` で折り返す。
-/

namespace Pintos

open Infra

def bcdToBin (x : UInt8) : Nat := (x &&& 0x0f).toNat + (x >>> 4).toNat * 10

structure RtcTime where
  sec : Nat
  min : Nat
  hour : Nat
  mday : Nat
  mon : Nat
  year : Nat

/-- 時刻を読む do-while。読む間に秒が変わっていれば読み直す。 -/
def rtcRead (cmos : Nat → Nat → UInt8) : (fuel n : Nat) → Option RtcTime
  | 0, _ => none
  | fuel + 1, n =>
    let r : RtcTime :=
      { sec := bcdToBin (cmos n 0)
        min := bcdToBin (cmos (n + 1) 2)
        hour := bcdToBin (cmos (n + 2) 4)
        mday := bcdToBin (cmos (n + 3) 7)
        mon := bcdToBin (cmos (n + 4) 8)
        year := bcdToBin (cmos (n + 5) 9) }
    if r.sec ≠ bcdToBin (cmos (n + 6) 0) then rtcRead cmos fuel (n + 7) else some r

def daysPerMonth : List Int := [31, 28, 31, 30, 31, 30, 31, 31, 30, 31, 30, 31]

/-- `time += x`。 -/
def addTime (time x : Int) : Int := (time + x) % 2 ^ 32

/-- 月の for。`days_per_month` の外を読めば `none` である。 -/
def addMonths : (mon : Nat) → (time : Int) → Option Int
  | 0, time => some time
  | mon + 1, time => do
    let time ← addMonths mon time
    (daysPerMonth[mon]?).map fun days => addTime time (days * 24 * 60 * 60)

def rtcSeconds (r : RtcTime) : Option Int := do
  let year : Int := (if r.year < 70 then r.year + 100 else r.year) - 70
  let time := int32 ((year * 365 + (year - 1).tdiv 4) * 24 * 60 * 60) % 2 ^ 32
  let time ← addMonths r.mon time
  let time := if r.mon > 2 ∧ year % 4 = 0 then addTime time (24 * 60 * 60) else time
  let time := addTime time (((r.mday : Int) - 1) * 24 * 60 * 60)
  let time := addTime time (r.hour * 60 * 60)
  let time := addTime time (r.min * 60)
  some (addTime time r.sec)

def rtcGetTime (cmos : Nat → Nat → UInt8) (fuel : Nat) : Option Int :=
  (rtcRead cmos fuel 0).bind rtcSeconds

end Pintos
