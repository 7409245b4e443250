import Mathlib.Algebra.GroupWithZero.Nat
import Pintos.Devices.Rtc

/-!
# 時計の値は進みすぎている

`rtc_get_time` は、月の for で今の月の日数まで足す。うるう年も、1970 年からの年数が 4 の倍数の年と
数えている。そのため値は、Gregorian 暦の秒よりいつも 26 日から 32 日分大きく、月が変わると戻ることも
ある。
-/

namespace Pintos

open Infra

/-! ## Gregorian 暦 -/

def isLeap (year : Nat) : Bool := year % 4 = 0 ∧ (year % 100 ≠ 0 ∨ year % 400 = 0)

def daysInMonth (year month : Nat) : Nat :=
  if month = 2 then if isLeap year then 29 else 28
  else if month = 4 ∨ month = 6 ∨ month = 9 ∨ month = 11 then 30
  else 31

/-- 1970 年の初めから、`year` 年の初めまでの日数。 -/
def daysBeforeYear (year : Nat) : Nat :=
  ((List.range' 1970 (year - 1970)).map fun y => if isLeap y then 366 else 365).sum

/-- 年の初めから、`month` 月の初めまでの日数。 -/
def daysBeforeMonth (year month : Nat) : Nat :=
  ((List.range' 1 (month - 1)).map (daysInMonth year)).sum

structure DateTime where
  year : Nat
  month : Nat
  day : Nat
  hour : Nat
  minute : Nat
  second : Nat

/-- 1970 年から 2037 年までの、暦にある時刻。 -/
structure DateTime.Valid (d : DateTime) : Prop where
  year : 1970 ≤ d.year ∧ d.year ≤ 2037
  month : 1 ≤ d.month ∧ d.month ≤ 12
  day : 1 ≤ d.day ∧ d.day ≤ daysInMonth d.year d.month
  hour : d.hour < 24
  minute : d.minute < 60
  second : d.second < 60

/-- 1970 年の初めからの秒数。 -/
def DateTime.epochSeconds (d : DateTime) : Int :=
  (((daysBeforeYear d.year + daysBeforeMonth d.year d.month + (d.day - 1) : Nat) * 24 + d.hour) * 60
    + d.minute) * 60 + d.second

def toBcd (n : Nat) : UInt8 := UInt8.ofNat (n / 10 * 16 + n % 10)

/-- その時刻を示す register。年は下二桁である。 -/
def DateTime.cmos (d : DateTime) (_ index : Nat) : UInt8 :=
  if index = 0 then toBcd d.second
  else if index = 2 then toBcd d.minute
  else if index = 4 then toBcd d.hour
  else if index = 7 then toBcd d.day
  else if index = 8 then toBcd d.month
  else if index = 9 then toBcd (d.year % 100)
  else 0

/-! ## 日数の違い -/

theorem daysInMonth_le (year month : Nat) : daysInMonth year month ≤ 31 := by
  unfold daysInMonth
  split <;> split <;> omega

theorem bcdToBin_toBcd {n : Nat} (h : n < 100) : bcdToBin (toBcd n) = n := by
  have hall : ∀ m < 100, bcdToBin (toBcd m) = m := by decide
  exact hall n h

/-- `mon` 月の終わりまでの、`days_per_month` の和。 -/
def daysThrough : Nat → Int
  | 0 => 0
  | mon + 1 => daysThrough mon + daysPerMonth.getD mon 0

theorem addMonths_eq {mon : Nat} (h : mon ≤ 12) (time : Int) (h0 : 0 ≤ time) (h32 : time < 2 ^ 32) :
    addMonths mon time = some ((time + daysThrough mon * 86400) % 2 ^ 32) := by
  induction mon with
  | zero =>
    rw [addMonths, daysThrough, Int.zero_mul, Int.add_zero, Int.emod_eq_of_lt h0 h32]
  | succ mon ih =>
    have hget : daysPerMonth[mon]? = some (daysPerMonth.getD mon 0) := by
      have hall : ∀ i < 12, daysPerMonth[i]? = some (daysPerMonth.getD i 0) := by decide
      exact hall mon h
    rw [addMonths, ih (by omega), hget]
    show some (addTime _ _) = _
    rw [addTime, daysThrough]
    congr 1
    omega

/-- 1970 年からの年数と月から、`rtc_get_time` が数える、月の初めまでの日数。 -/
def countedDays (years mon : Nat) : Int :=
  years * 365 + ((years : Int) - 1).tdiv 4 + daysThrough mon +
    if mon > 2 ∧ years % 4 = 0 then 1 else 0

/-- **数える日数は、暦の日数より 26 日から 32 日多い。** -/
theorem countedDays_bounds {years mon : Nat} (hy : years < 68) (hm : 1 ≤ mon ∧ mon ≤ 12) :
    (daysBeforeYear (1970 + years) + daysBeforeMonth (1970 + years) mon : Nat) + 26
        ≤ countedDays years mon ∧
      countedDays years mon
        ≤ (daysBeforeYear (1970 + years) + daysBeforeMonth (1970 + years) mon : Nat) + 32 ∧
      0 ≤ countedDays years mon ∧ countedDays years mon ≤ 24900 := by
  have hall : ∀ y < 68, ∀ m < 13, 1 ≤ m →
      (daysBeforeYear (1970 + y) + daysBeforeMonth (1970 + y) m : Nat) + 26 ≤ countedDays y m ∧
      countedDays y m ≤ (daysBeforeYear (1970 + y) + daysBeforeMonth (1970 + y) m : Nat) + 32 ∧
      0 ≤ countedDays y m ∧ countedDays y m ≤ 24900 := by
    decide +kernel
  exact hall years hy mon (by omega) hm.1

/-! ## 秒 -/

theorem rtcRead_cmos {d : DateTime} (hd : d.Valid) {fuel : Nat} (hfuel : 0 < fuel) (n : Nat) :
    rtcRead d.cmos fuel n =
      some ⟨d.second, d.minute, d.hour, d.day, d.month, d.year % 100⟩ := by
  obtain ⟨-, hmonth, hday, hhour, hminute, hsecond⟩ := hd
  have hdays := daysInMonth_le d.year d.month
  obtain ⟨fuel, rfl⟩ := Nat.exists_eq_succ_of_ne_zero (Nat.ne_of_gt hfuel)
  simp [rtcRead, DateTime.cmos, bcdToBin_toBcd (show d.second < 100 by omega),
    bcdToBin_toBcd (show d.minute < 100 by omega), bcdToBin_toBcd (show d.hour < 100 by omega),
    bcdToBin_toBcd (show d.day < 100 by omega), bcdToBin_toBcd (show d.month < 100 by omega),
    bcdToBin_toBcd (Nat.mod_lt d.year (show 0 < 100 by decide))]

/-- 折り返しを除けば、数えた日数に、日と時刻を足した秒になる。 -/
theorem rtcSeconds_eq {r : RtcTime} {years : Nat}
    (hyear : (if r.year < 70 then r.year + 100 else r.year) = years + 70) (hy : years < 68)
    (hm : 1 ≤ r.mon ∧ r.mon ≤ 12) :
    rtcSeconds r = some ((countedDays years r.mon * 86400
      + ((r.mday : Int) - 1) * 86400 + r.hour * 3600 + r.min * 60 + r.sec) % 2 ^ 32) := by
  have hq : 0 ≤ ((years : Int) - 1).tdiv 4 ∧ ((years : Int) - 1).tdiv 4 ≤ 16 := by
    have hall : ∀ y : Nat, y < 68 → 0 ≤ ((y : Int) - 1).tdiv 4 ∧ ((y : Int) - 1).tdiv 4 ≤ 16 := by
      decide
    exact hall years hy
  have hcast : ((if r.year < 70 then r.year + 100 else r.year : Nat) : Int) - 70 = years := by
    rw [hyear]
    omega
  unfold rtcSeconds
  simp only [hcast]
  rw [int32_of_range ⟨by omega, by omega⟩,
    addMonths_eq hm.2 _ (Int.emod_nonneg _ (by decide)) (Int.emod_lt_of_pos _ (by decide))]
  simp only [Option.bind_eq_bind, Option.bind_some, addTime, countedDays]
  congr 1
  split <;> split <;> omega

/-- **`rtc_get_time` は、暦にあるどの時刻にも、26 日から 32 日分大きい秒を返す。** -/
theorem rtcGetTime_late {d : DateTime} (hd : d.Valid) {fuel : Nat} (hfuel : 0 < fuel) :
    ∃ t, rtcGetTime d.cmos fuel = some t ∧ t ≠ d.epochSeconds ∧
      d.epochSeconds + 26 * 86400 ≤ t ∧ t ≤ d.epochSeconds + 32 * 86400 := by
  obtain ⟨hfrom, hto⟩ := hd.year
  obtain ⟨years, hyears⟩ : ∃ years, d.year = 1970 + years := ⟨d.year - 1970, by omega⟩
  have hy : years < 68 := by omega
  have hyear : (if d.year % 100 < 70 then d.year % 100 + 100 else d.year % 100) = years + 70 := by
    split <;> omega
  have hdays := daysInMonth_le d.year d.month
  obtain ⟨hday, hlast⟩ := hd.day
  have hhour := hd.hour
  have hminute := hd.minute
  have hsecond := hd.second
  have hsec := rtcSeconds_eq (r := ⟨d.second, d.minute, d.hour, d.day, d.month, d.year % 100⟩)
    hyear hy hd.month
  obtain ⟨hlow, hhigh, hnonneg, hmax⟩ := countedDays_bounds hy hd.month
  rw [← hyears] at hlow hhigh
  simp only at hsec
  -- 和は `2 ^ 32` に届かないので、折り返さない
  rw [Int.emod_eq_of_lt (by omega) (by omega)] at hsec
  refine ⟨_, by rw [rtcGetTime, rtcRead_cmos hd hfuel]; exact hsec, ?_⟩
  unfold DateTime.epochSeconds
  refine ⟨?_, ?_, ?_⟩ <;> omega

theorem rtcGetTime_late_epoch :
    ∃ t, rtcGetTime (DateTime.mk 1970 1 1 0 0 0).cmos 1 = some t ∧
      t ≠ (DateTime.mk 1970 1 1 0 0 0).epochSeconds ∧
      (DateTime.mk 1970 1 1 0 0 0).epochSeconds + 26 * 86400 ≤ t ∧
      t ≤ (DateTime.mk 1970 1 1 0 0 0).epochSeconds + 32 * 86400 :=
  rtcGetTime_late (d := ⟨1970, 1, 1, 0, 0, 0⟩)
    ⟨by decide, by decide, by decide, by decide, by decide, by decide⟩ (by decide)

/-- 1970 年 1 月 1 日は 31 日分大きく、1 月 31 日の最後の秒から 2 月 1 日に変わると、値が戻る。 -/
theorem rtcGetTime_goes_back :
    (DateTime.mk 1970 1 1 0 0 0).epochSeconds = 0 ∧
      rtcGetTime (DateTime.mk 1970 1 1 0 0 0).cmos 1 = some (31 * 86400) ∧
      (DateTime.mk 1970 1 31 23 59 59).epochSeconds < (DateTime.mk 1970 2 1 0 0 0).epochSeconds ∧
      rtcGetTime (DateTime.mk 1970 1 31 23 59 59).cmos 1 = some (62 * 86400 - 1) ∧
      rtcGetTime (DateTime.mk 1970 2 1 0 0 0).cmos 1 = some (59 * 86400) := by
  decide +kernel

end Pintos
