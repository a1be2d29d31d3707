import EigenOS.Library.Calendar
import EigenOS.Library.MachineInt

/-!
# Dates and seconds

The date conversions of the POSIX layer, of `time` in the C library, of the TLS code and of the
kernel's wall clock.  Values of type `long` are integers as they are: the numbers of days of any
`time_t` are far from the ends of that type.
-/

namespace EigenOS.Clock

open EigenOS.Calendar EigenOS.MachineInt

/-! ## The POSIX layer -/

/-- `days_from_civil` of the POSIX layer. -/
def daysFromCivil (y m d : ℤ) : ℤ :=
  let y := if m ≤ 2 then asInt (y - 1) else y
  let era := (if 0 ≤ y then y else asInt (y - 399)).tdiv 400
  let yoe := asUnsigned (y - era * 400)
  let doy := asUnsigned (asUnsigned (153 * (m + if 2 < m then -3 else 9) + 2) / 5 + d - 1)
  let doe := asUnsigned (yoe * 365 + yoe / 4 - yoe / 100 + doy)
  era * 146097 + doe - 719468

/-- `civil_from_days` of the POSIX layer. -/
def civilFromDays (z : ℤ) : Date :=
  let z := z + 719468
  let era := (if 0 ≤ z then z else z - 146096).tdiv 146097
  let doe := asUnsigned (z - era * 146097)
  let yoe := asUnsigned (doe - doe / 1460 + doe / 36524 - doe / 146096) / 365
  let yy := asInt (asInt yoe + asInt (era * 400))
  let doy := asUnsigned (doe - (365 * yoe + yoe / 4 - yoe / 100))
  let mp := asUnsigned (5 * doy + 2) / 153
  let dd := asUnsigned (doy - asUnsigned (153 * mp + 2) / 5 + 1)
  let mm := asUnsigned (if mp < 10 then mp + 3 else mp - 9)
  ⟨asInt (yy + if mm ≤ 2 then 1 else 0), asInt mm, asInt dd⟩

/-- `struct tm`, as the POSIX layer fills it in. -/
structure Tm where
  year : ℤ
  mon : ℤ
  mday : ℤ
  hour : ℤ
  min : ℤ
  sec : ℤ
  wday : ℤ
  yday : ℤ
  isdst : ℤ
  deriving DecidableEq

/-- `tm_from_time`, which `gmtime` and `localtime` return. -/
def gmtime (secs : ℤ) : Tm :=
  let rem := asInt (secs.tmod 86400)
  let days := if rem < 0 then secs.tdiv 86400 - 1 else secs.tdiv 86400
  let rem := if rem < 0 then asInt (rem + 86400) else rem
  let date := civilFromDays days
  let year := asInt (date.year - 1900)
  let mon := asInt (date.month - 1)
  let wday := asInt ((days + 4).tmod 7)
  { year := year
    mon := mon
    mday := date.day
    hour := rem.tdiv 3600
    min := (rem.tdiv 60).tmod 60
    sec := rem.tmod 60
    wday := if wday < 0 then wday + 7 else wday
    yday := asInt (daysFromCivil (asInt (year + 1900)) (asInt (mon + 1)) date.day -
      daysFromCivil (asInt (year + 1900)) 1 1)
    isdst := 0 }

def mktime (tm : Tm) : ℤ :=
  let days := daysFromCivil (asInt (tm.year + 1900)) (asInt (tm.mon + 1)) tm.mday
  days * 86400 + asInt (tm.hour * 3600) + asInt (tm.min * 60) + tm.sec

/-! ## The clock -/

/-- The fields of the real-time clock. -/
structure Rtc where
  hour : ℤ
  minute : ℤ
  second : ℤ
  day : ℤ
  month : ℤ
  year : ℤ

/-- `time` of the C library, for what `eigen_time_get` gives, if anything. -/
def time (rtc : Option Rtc) : ℤ :=
  match rtc with
  | none => 0
  | some rtc =>
    let y := if rtc.month ≤ 2 then asInt (rtc.year - 1) else rtc.year
    let era := (if 0 ≤ y then y else asInt (y - 399)).tdiv 400
    let yoe := asUnsigned (y - era * 400)
    let doy := asUnsigned
      (asInt ((asInt (153 * (rtc.month + if 2 < rtc.month then -3 else 9) + 2)).tdiv 5 +
        rtc.day - 1))
    let doe := asUnsigned (yoe * 365 + yoe / 4 - yoe / 100 + doy)
    let days := era * 146097 + doe - 719468
    days * 86400 + rtc.hour * 3600 + rtc.minute * 60 + rtc.second

/-- `civil_days` of the TLS code. -/
def civilDays (y m d : ℤ) : ℤ :=
  let y := if m ≤ 2 then y - 1 else y
  let era := (if 0 ≤ y then y else y - 399).tdiv 400
  let yoe := asUnsigned (y - era * 400)
  let doy := asUnsigned (asUnsigned (153 * (m + if 2 < m then -3 else 9) + 2) / 5 + d - 1)
  let doe := asUnsigned (yoe * 365 + yoe / 4 - yoe / 100 + doy)
  era * 146097 + doe - 719468

/-- `XTIME` of the TLS code. -/
def xtime (rtc : Rtc) : ℤ :=
  let days := civilDays rtc.year (asUnsigned rtc.month) (asUnsigned rtc.day)
  days * 86400 + rtc.hour * 3600 + rtc.minute * 60 + rtc.second

/-- What `gmtime_r` of the TLS code fills in. -/
structure TlsTm where
  year : ℤ
  mon : ℤ
  mday : ℤ
  hour : ℤ
  min : ℤ
  sec : ℤ
  isdst : ℤ
  deriving DecidableEq

/-- `gmtime_r` of the TLS code. -/
def gmtimeR (tt : ℤ) : TlsTm :=
  let rem := tt.tmod 86400
  let days := if rem < 0 then tt.tdiv 86400 - 1 else tt.tdiv 86400
  let rem := if rem < 0 then rem + 86400 else rem
  let days := days + 719468
  let era := (if 0 ≤ days then days else days - 146096).tdiv 146097
  let doe := asUnsigned (days - era * 146097)
  let yoe := asUnsigned ((doe - doe / 1460 + doe / 36524 - doe / 146096).tdiv 365)
  let y := yoe + era * 400
  let doy := asUnsigned (doe - (365 * yoe + yoe / 4 - yoe / 100))
  let mp := asUnsigned ((5 * doy + 2) / 153)
  let d := asUnsigned (doy - (153 * mp + 2) / 5 + 1)
  let m := asUnsigned (mp + if mp < 10 then 3 else -9)
  let y := if m ≤ 2 then y + 1 else y
  { year := asInt (y - 1900)
    mon := asInt (asInt m - 1)
    mday := asInt d
    hour := asInt (rem.tdiv 3600)
    min := asInt ((rem.tmod 3600).tdiv 60)
    sec := asInt ((rem.tmod 3600).tmod 60)
    isdst := 0 }

/-- The loop of `wall_seconds` over the years from one on. -/
def wallYears : ℕ → ℤ → ℤ → ℤ
  | 0, _, days => days
  | n + 1, y, days =>
    wallYears n (y + 1) (asUInt64 (days + if y % 4 = 0 ∧ y % 100 ≠ 0 ∨ y % 400 = 0 then 366
      else 365))

def mdays : List ℤ := [0, 31, 28, 31, 30, 31, 30, 31, 31, 30, 31, 30, 31]

/-- The loop of `wall_seconds` over the months from one on. -/
def wallMonths : ℕ → ℤ → ℤ → ℤ
  | 0, _, days => days
  | n + 1, m, days =>
    if m ≤ 12 then wallMonths n (m + 1) (asUInt64 (days + mdays.getD m.toNat 0)) else days

/-- `wall_seconds` of the kernel.  A year before 2020 means that the clock is not ready. -/
def wallSeconds (rtc : Rtc) : ℤ :=
  if rtc.year < 2020 then 0
  else
    let days := wallYears (rtc.year - 1970).toNat 1970 0
    let days := wallMonths (rtc.month - 1).toNat 1 days
    let days :=
      if 2 < rtc.month ∧ (rtc.year % 4 = 0 ∧ rtc.year % 100 ≠ 0 ∨ rtc.year % 400 = 0) then
        asUInt64 (days + 1)
      else days
    let days := asUInt64 (days + asInt (rtc.day - 1))
    asUInt64 (days * 86400 + rtc.hour * 3600 + rtc.minute * 60 + rtc.second)

/-! ## What they are to agree on -/

def Rtc.date (rtc : Rtc) : Date := ⟨rtc.year, rtc.month, rtc.day⟩

/-- A clock that shows a date of the calendar, with an `int` for its year, and a time of day. -/
structure Rtc.Valid (rtc : Rtc) : Prop where
  date : rtc.date.Valid
  year : rtc.year < 2 ^ 31
  hour : 0 ≤ rtc.hour ∧ rtc.hour < 24
  minute : 0 ≤ rtc.minute ∧ rtc.minute < 60
  second : 0 ≤ rtc.second ∧ rtc.second < 60

/-- The number of the last day whose year is an `int`. -/
def lastDay : ℤ := 784351576776

/-- The numbers and the dates from 1970 on are each other's conversion. -/
def CivilInverse : Prop :=
  (∀ z, 0 ≤ z → z ≤ lastDay → (civilFromDays z).Valid ∧
      daysFromCivil (civilFromDays z).year (civilFromDays z).month (civilFromDays z).day = z) ∧
    ∀ date : Date, date.Valid → date.year < 2 ^ 31 →
      civilFromDays (daysFromCivil date.year date.month date.day) = date

/-- `mktime` inverts `gmtime`, and the TLS code has the same calendar time. -/
def TimesAgree (t : ℤ) : Prop :=
  mktime (gmtime t) = t ∧
    gmtimeR t = ⟨(gmtime t).year, (gmtime t).mon, (gmtime t).mday, (gmtime t).hour,
      (gmtime t).min, (gmtime t).sec, (gmtime t).isdst⟩

/-- The three ways to read the clock give the same number. -/
def ClocksAgree (rtc : Rtc) : Prop :=
  xtime rtc = time (some rtc) ∧ wallSeconds rtc = time (some rtc)

end EigenOS.Clock
