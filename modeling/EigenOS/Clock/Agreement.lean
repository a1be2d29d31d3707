import EigenOS.Clock.Conversions

/-!
# The date conversions agree

All of them compute the number of the date in the Gregorian calendar, the ones with the year from
March on by its formula and the wall clock by counting years and months.
-/

namespace EigenOS.Clock

open EigenOS.Calendar EigenOS.MachineInt

/-! ## The year of an era of 400 years -/

theorem yearOfEra (c q r doy doe : ℤ) (hc : 0 ≤ c ∧ c ≤ 3) (hq : 0 ≤ q ∧ q ≤ 24)
    (hr : 0 ≤ r ∧ r ≤ 3) (hdoy : 0 ≤ doy ∧ doy ≤ 365)
    (hleap : doy = 365 → r = 3 ∧ (q = 24 → c = 3))
    (hdoe : doe = 36524 * c + 1461 * q + 365 * r + doy) :
    (doe - doe / 1460 + doe / 36524 - doe / 146096) / 365 = 100 * c + 4 * q + r := by
  by_cases hlast : doe = 146096
  · rw [hlast]
    omega
  · have hfirst : doe / 146096 = 0 := by omega
    have hcentury : doe / 36524 = c := by omega
    rw [hfirst, hcentury]
    omega

theorem monthOfYear {mp day : ℤ} (hday : 1 ≤ day)
    (hlast : day ≤ daysFromMarch (mp + 1) - daysFromMarch mp) :
    (5 * (daysFromMarch mp + day - 1) + 2) / 153 = mp := by
  unfold daysFromMarch at *
  omega

section Dates

variable {date : Date}

/-- The number of the year in its era. -/
def yearInEra (date : Date) : ℤ := date.marchYear - date.marchYear / 400 * 400

/-- The number of the day in its era. -/
def dayInEra (date : Date) : ℤ :=
  yearInEra date * 365 + yearInEra date / 4 - yearInEra date / 100 + date.marchDay

theorem yearInEra_bounds (date : Date) : 0 ≤ yearInEra date ∧ yearInEra date < 400 := by
  unfold yearInEra
  omega

theorem dayInEra_bounds (h : date.Valid) : 0 ≤ dayInEra date ∧ dayInEra date < 146097 := by
  obtain ⟨hlow, hhigh, -⟩ := h.marchDay
  have hyear := yearInEra_bounds date
  unfold dayInEra
  omega

theorem dayNumber_era (h : date.Valid) :
    date.marchYear / 400 * 146097 + dayInEra date - 719468 = dayNumber date := by
  rw [dayNumber_eq h, dayInEra, yearInEra]
  omega

theorem yearOfDayInEra (h : date.Valid) :
    (dayInEra date - dayInEra date / 1460 + dayInEra date / 36524 - dayInEra date / 146096) / 365 =
      yearInEra date := by
  obtain ⟨hlow, hhigh, hleap⟩ := h.marchDay
  obtain ⟨hfirst, hlast⟩ := yearInEra_bounds date
  have hyear := yearOfEra (yearInEra date / 100) (yearInEra date % 100 / 4) (yearInEra date % 4)
    date.marchDay (dayInEra date) (by omega) (by omega) (by omega) ⟨hlow, hhigh⟩ ?_ ?_
  · rw [hyear]
    omega
  · intro h365
    have hmarch := hleap h365
    unfold IsLeap at hmarch
    unfold yearInEra at *
    omega
  · unfold dayInEra
    omega

theorem marchYear_bounds (h : date.Valid) (hyear : date.year < 2 ^ 31) :
    1969 ≤ date.marchYear ∧ date.marchYear < 2 ^ 31 := by
  have hlow := h.year
  unfold Date.marchYear
  split_ifs <;> omega

theorem marchMonth_bounds (h : date.Valid) : 0 ≤ date.marchMonth ∧ date.marchMonth ≤ 11 := by
  have hmonth := h.month
  unfold Date.marchMonth
  split_ifs <;> omega

theorem shiftYear (h : date.Valid) (hyear : date.year < 2 ^ 31) :
    (if date.month ≤ 2 then asInt (date.year - 1) else date.year) = date.marchYear := by
  have hlow := h.year
  rw [Date.marchYear, asInt_eq (by omega) (by omega)]

theorem shiftMonth (date : Date) :
    (date.month + if 2 < date.month then -3 else 9) = date.marchMonth := by
  unfold Date.marchMonth
  split_ifs <;> omega

theorem day_bounds (h : date.Valid) : 1 ≤ date.day ∧ date.day ≤ 31 := by
  have hday := h.day
  have hmonth : monthLength date.year date.month ≤ 31 := by
    unfold monthLength
    split_ifs <;> decide
  exact ⟨hday.1, Int.le_trans hday.2 hmonth⟩

/-! ## From dates to numbers -/

theorem asUnsigned_months (h : date.Valid) :
    asUnsigned (153 * date.marchMonth + 2) = 153 * date.marchMonth + 2 := by
  obtain ⟨hfirst, hlast⟩ := marchMonth_bounds h
  exact asUnsigned_eq (by omega) (by omega)

theorem asUnsigned_marchDay (h : date.Valid) : asUnsigned date.marchDay = date.marchDay := by
  obtain ⟨hlow, hhigh, -⟩ := h.marchDay
  exact asUnsigned_eq hlow (by omega)

theorem asUnsigned_yearInEra (date : Date) : asUnsigned (yearInEra date) = yearInEra date := by
  obtain ⟨hlow, hhigh⟩ := yearInEra_bounds date
  exact asUnsigned_eq hlow (by omega)

theorem asUnsigned_dayInEra (h : date.Valid) : asUnsigned (dayInEra date) = dayInEra date := by
  obtain ⟨hlow, hhigh⟩ := dayInEra_bounds h
  exact asUnsigned_eq hlow (by omega)

theorem era_eq (h : date.Valid) (hyear : date.year < 2 ^ 31) (other : ℤ) :
    (if 0 ≤ date.marchYear then date.marchYear else other).tdiv 400 = date.marchYear / 400 := by
  obtain ⟨hlow, -⟩ := marchYear_bounds h hyear
  rw [if_pos (by omega), Int.tdiv_eq_ediv_of_nonneg (by omega)]

theorem daysFromCivil_eq (h : date.Valid) (hyear : date.year < 2 ^ 31) :
    daysFromCivil date.year date.month date.day = dayNumber date := by
  rw [daysFromCivil, shiftYear h hyear, shiftMonth, era_eq h hyear, asUnsigned_months h,
    ← dayNumber_era h]
  change _ * 146097 + asUnsigned (asUnsigned (yearInEra date) * 365 +
    asUnsigned (yearInEra date) / 4 - asUnsigned (yearInEra date) / 100 +
    asUnsigned date.marchDay) - 719468 = _
  rw [asUnsigned_yearInEra, asUnsigned_marchDay h]
  change _ * 146097 + asUnsigned (dayInEra date) - 719468 = _
  rw [asUnsigned_dayInEra h]

variable (date) in
theorem civilDays_eq (h : date.Valid) (hyear : date.year < 2 ^ 31) :
    civilDays date.year date.month date.day = dayNumber date := by
  have hmarch : (if date.month ≤ 2 then date.year - 1 else date.year) = date.marchYear := rfl
  have hsame : civilDays date.year date.month date.day =
      daysFromCivil date.year date.month date.day := by
    rw [civilDays, daysFromCivil, hmarch, shiftYear h hyear, shiftMonth, era_eq h hyear,
      era_eq h hyear]
  rw [hsame, daysFromCivil_eq h hyear]

/-! ## From numbers to dates -/

theorem era_of_dayNumber (h : date.Valid) (other : ℤ) (hyear : date.year < 2 ^ 31) :
    (if 0 ≤ dayNumber date + 719468 then dayNumber date + 719468 else other).tdiv 146097 =
      date.marchYear / 400 := by
  obtain ⟨hlow, -⟩ := marchYear_bounds h hyear
  have hera := dayInEra_bounds h
  have hnumber := dayNumber_era h
  rw [if_pos (by omega), Int.tdiv_eq_ediv_of_nonneg (by omega)]
  omega

theorem marchDay_eq (date : Date) :
    dayInEra date - (365 * yearInEra date + yearInEra date / 4 - yearInEra date / 100) =
      date.marchDay := by
  unfold dayInEra
  omega

theorem month_day_bound (h : date.Valid) :
    date.day ≤ daysFromMarch (date.marchMonth + 1) - daysFromMarch date.marchMonth := by
  obtain ⟨year, month, day⟩ := date
  obtain ⟨-, ⟨hlow, hhigh⟩, -, hlast⟩ := h
  unfold monthLength at hlast
  unfold Date.marchMonth daysFromMarch
  dsimp only at hlow hhigh hlast ⊢
  interval_cases month <;> split_ifs at hlast ⊢ <;> omega

theorem monthOfMarchDay (h : date.Valid) :
    (5 * date.marchDay + 2) / 153 = date.marchMonth := monthOfYear h.day.1 (month_day_bound h)

theorem dayInEra_of_dayNumber (h : date.Valid) :
    dayNumber date + 719468 - date.marchYear / 400 * 146097 = dayInEra date := by
  have hnumber := dayNumber_era h
  omega

theorem yearInEra_nonneg_sum (h : date.Valid) :
    0 ≤ dayInEra date - dayInEra date / 1460 + dayInEra date / 36524 - dayInEra date / 146096 ∧
      dayInEra date - dayInEra date / 1460 + dayInEra date / 36524 - dayInEra date / 146096 <
        2 ^ 32 := by
  have hera := dayInEra_bounds h
  omega

theorem dayOfMarchDay (h : date.Valid) :
    asUnsigned (date.marchDay - (153 * date.marchMonth + 2) / 5 + 1) = date.day := by
  have hday := day_bounds h
  have heq : date.marchDay - (153 * date.marchMonth + 2) / 5 + 1 = date.day := by
    unfold Date.marchDay daysFromMarch
    omega
  rw [heq]
  exact asUnsigned_eq (by omega) (by omega)

theorem monthOfMarchMonth (h : date.Valid) :
    asUnsigned (if date.marchMonth < 10 then date.marchMonth + 3 else date.marchMonth - 9) =
      date.month := by
  have hrange := h.month
  unfold Date.marchMonth
  rw [asUnsigned_eq] <;> split_ifs <;> omega

theorem yearOfMarchYear (date : Date) :
    date.marchYear + (if date.month ≤ 2 then 1 else 0) = date.year := by
  unfold Date.marchYear
  split_ifs <;> omega

theorem era_add_yearInEra (date : Date) :
    yearInEra date + date.marchYear / 400 * 400 = date.marchYear := by
  unfold yearInEra
  omega

theorem civilFromDays_eq (h : date.Valid) (hyear : date.year < 2 ^ 31) :
    civilFromDays (dayNumber date) = date := by
  obtain ⟨hdayLow, hdayHigh, -⟩ := h.marchDay
  obtain ⟨hmarchLow, hmarchHigh⟩ := marchYear_bounds h hyear
  have hyoe := yearInEra_bounds date
  have hlow := h.year
  have hrange := h.month
  have hday := day_bounds h
  have hsum := yearInEra_nonneg_sum h
  have hdoy : asUnsigned (5 * date.marchDay + 2) = 5 * date.marchDay + 2 :=
    asUnsigned_eq (by omega) (by omega)
  have hstart : asInt (date.marchYear / 400 * 400) = date.marchYear / 400 * 400 :=
    asInt_eq (by omega) (by omega)
  have hinEra : asInt (yearInEra date) = yearInEra date := asInt_eq (by omega) (by omega)
  have hmarch : asInt date.marchYear = date.marchYear := asInt_eq (by omega) hmarchHigh
  rw [civilFromDays, era_of_dayNumber h _ hyear, dayInEra_of_dayNumber h, asUnsigned_dayInEra h,
    asUnsigned_eq hsum.1 hsum.2, yearOfDayInEra h, marchDay_eq, asUnsigned_marchDay h, hdoy,
    monthOfMarchDay h, asUnsigned_months h, dayOfMarchDay h, monthOfMarchMonth h, hinEra, hstart,
    era_add_yearInEra, hmarch, yearOfMarchYear, asInt_eq (by omega) hyear,
    asInt_eq (by omega) (by omega), asInt_eq (by omega) (by omega)]

/-! ## Seconds -/

/-- The dates from 1970 on whose year is an `int` have the numbers up to the last day. -/
theorem dayNumber_bounds (h : date.Valid) :
    0 ≤ dayNumber date ∧ (date.year < 2 ^ 31 ↔ dayNumber date ≤ lastDay) := by
  have hyear := h.year
  have hmonth := h.month
  have hday := day_bounds h
  have hmarch := marchMonth_bounds h
  have hbound := month_day_bound h
  rw [dayNumber_eq h]
  unfold Date.marchYear Date.marchDay Date.marchMonth daysFromMarch lastDay at *
  by_cases hshift : date.month ≤ 2
  · simp only [if_pos hshift] at *
    omega
  · simp only [if_neg hshift] at *
    omega

theorem exists_date_of_le {z : ℤ} (hz : 0 ≤ z) (hlast : z ≤ lastDay) :
    ∃ date : Date, date.Valid ∧ date.year < 2 ^ 31 ∧ dayNumber date = z := by
  obtain ⟨date, hvalid, hnumber⟩ := exists_date z.toNat
  rw [Int.toNat_of_nonneg hz] at hnumber
  exact ⟨date, hvalid, (dayNumber_bounds hvalid).2.mpr (hnumber ▸ hlast), hnumber⟩

theorem civilInverse : CivilInverse := by
  constructor
  · intro z hz hlast
    obtain ⟨date, hvalid, hyear, rfl⟩ := exists_date_of_le hz hlast
    rw [civilFromDays_eq hvalid hyear]
    exact ⟨hvalid, daysFromCivil_eq hvalid hyear⟩
  · intro date hvalid hyear
    rw [daysFromCivil_eq hvalid hyear]
    exact civilFromDays_eq hvalid hyear

theorem gmtime_eq {t : ℤ} (ht : 0 ≤ t) (hlast : t / 86400 ≤ lastDay) :
    ∃ date : Date, date.Valid ∧ date.year < 2 ^ 31 ∧ dayNumber date = t / 86400 ∧
      (gmtime t).year = date.year - 1900 ∧ (gmtime t).mon = date.month - 1 ∧
      (gmtime t).mday = date.day ∧ (gmtime t).hour = t % 86400 / 3600 ∧
      (gmtime t).min = t % 86400 / 60 % 60 ∧ (gmtime t).sec = t % 60 := by
  obtain ⟨date, hvalid, hyear, hnumber⟩ := exists_date_of_le (Int.ediv_nonneg ht (by decide)) hlast
  refine ⟨date, hvalid, hyear, hnumber, ?_⟩
  have hlow := hvalid.year
  have hmonth := hvalid.month
  have hrem : asInt (t.tmod 86400) = t % 86400 := by
    rw [Int.tmod_eq_emod_of_nonneg ht]
    exact asInt_eq (by omega) (by omega)
  have hnonneg : ¬ t % 86400 < 0 := by omega
  have hdays : t.tdiv 86400 = t / 86400 := Int.tdiv_eq_ediv_of_nonneg ht
  unfold gmtime
  dsimp only
  rw [hrem, if_neg hnonneg, if_neg hnonneg, hdays, ← hnumber, civilFromDays_eq hvalid hyear]
  refine ⟨asInt_eq (by omega) (by omega), asInt_eq (by omega) (by omega), rfl, ?_, ?_, ?_⟩
  · exact Int.tdiv_eq_ediv_of_nonneg (by omega)
  · rw [Int.tdiv_eq_ediv_of_nonneg (by omega), Int.tmod_eq_emod_of_nonneg (by omega)]
  · rw [Int.tmod_eq_emod_of_nonneg (by omega)]
    omega

theorem gmtimeR_eq {t : ℤ} (ht : 0 ≤ t) (h : date.Valid) (hyear : date.year < 2 ^ 31)
    (hnumber : dayNumber date = t / 86400) :
    gmtimeR t = ⟨date.year - 1900, date.month - 1, date.day, t % 86400 / 3600,
      t % 86400 / 60 % 60, t % 60, 0⟩ := by
  have hlow := h.year
  have hmonth := h.month
  have hday := day_bounds h
  have hmarchMonth := marchMonth_bounds h
  have hsum := yearInEra_nonneg_sum h
  have hrem : t.tmod 86400 = t % 86400 := Int.tmod_eq_emod_of_nonneg ht
  have hdays : t.tdiv 86400 = t / 86400 := Int.tdiv_eq_ediv_of_nonneg ht
  have hnonneg : ¬ t % 86400 < 0 := by omega
  have hmp : asUnsigned date.marchMonth = date.marchMonth := asUnsigned_eq (by omega) (by omega)
  have hm : date.marchMonth + (if date.marchMonth < 10 then 3 else -9) =
      if date.marchMonth < 10 then date.marchMonth + 3 else date.marchMonth - 9 := by
    split_ifs <;> omega
  have hy : (if date.month ≤ 2 then date.marchYear + 1 else date.marchYear) = date.year := by
    unfold Date.marchYear
    split_ifs <;> omega
  unfold gmtimeR
  dsimp only
  rw [hrem, if_neg hnonneg, if_neg hnonneg, hdays, ← hnumber, era_of_dayNumber h _ hyear,
    dayInEra_of_dayNumber h, asUnsigned_dayInEra h, Int.tdiv_eq_ediv_of_nonneg hsum.1,
    yearOfDayInEra h, asUnsigned_yearInEra, marchDay_eq, asUnsigned_marchDay h, monthOfMarchDay h,
    hmp, dayOfMarchDay h, hm, monthOfMarchMonth h, era_add_yearInEra, hy]
  have hhour : asInt ((t % 86400).tdiv 3600) = t % 86400 / 3600 := by
    rw [Int.tdiv_eq_ediv_of_nonneg (by omega)]
    exact asInt_eq (by omega) (by omega)
  have hofHour : (t % 86400).tmod 3600 = t % 86400 % 3600 :=
    Int.tmod_eq_emod_of_nonneg (by omega)
  have hmin : asInt (((t % 86400).tmod 3600).tdiv 60) = t % 86400 / 60 % 60 := by
    rw [hofHour, Int.tdiv_eq_ediv_of_nonneg (by omega), asInt_eq (by omega) (by omega)]
    omega
  have hsec : asInt (((t % 86400).tmod 3600).tmod 60) = t % 60 := by
    rw [hofHour, Int.tmod_eq_emod_of_nonneg (by omega), asInt_eq (by omega) (by omega)]
    omega
  have hmonthInt : asInt (asInt date.month - 1) = date.month - 1 := by
    have hinner : asInt date.month = date.month := asInt_eq (by omega) (by omega)
    rw [hinner]
    exact asInt_eq (by omega) (by omega)
  rw [hhour, hmin, hsec, hmonthInt, asInt_eq (by omega) (by omega),
    asInt_eq (by omega) (by omega)]

theorem timesAgree {t : ℤ} (ht : 0 ≤ t) (hlast : t / 86400 ≤ lastDay) : TimesAgree t := by
  obtain ⟨date, hvalid, hyear, hnumber, hfields⟩ := gmtime_eq ht hlast
  obtain ⟨hyearField, hmon, hmday, hhour, hmin, hsec⟩ := hfields
  have hlow := hvalid.year
  have hmonth := hvalid.month
  constructor
  · have hyearInt : asInt (date.year - 1900 + 1900) = date.year := by
      rw [Int.sub_add_cancel]
      exact asInt_eq (by omega) hyear
    have hmonthInt : asInt (date.month - 1 + 1) = date.month := by
      rw [Int.sub_add_cancel]
      exact asInt_eq (by omega) (by omega)
    rw [mktime, hyearField, hmon, hmday, hhour, hmin, hsec, hyearInt, hmonthInt,
      daysFromCivil_eq hvalid hyear, hnumber, asInt_eq (by omega) (by omega),
      asInt_eq (by omega) (by omega)]
    omega
  · rw [gmtimeR_eq ht hvalid hyear hnumber, hyearField, hmon, hmday, hhour, hmin, hsec]
    rfl

/-! ## The clock -/

def clockSeconds (rtc : Rtc) : ℤ :=
  dayNumber rtc.date * 86400 + rtc.hour * 3600 + rtc.minute * 60 + rtc.second

end Dates

section Clock

variable {rtc : Rtc}

theorem time_eq (h : rtc.Valid) : time (some rtc) = clockSeconds rtc := by
  have hdate := h.date
  have hyear : rtc.date.year < 2 ^ 31 := h.year
  obtain ⟨hfirst, hlast⟩ := marchMonth_bounds hdate
  obtain ⟨hdayLow, hdayHigh, -⟩ := hdate.marchDay
  have hyearShift : (if rtc.month ≤ 2 then asInt (rtc.year - 1) else rtc.year) =
      rtc.date.marchYear := shiftYear hdate hyear
  have hmonthShift : (rtc.month + if 2 < rtc.month then -3 else 9) = rtc.date.marchMonth :=
    shiftMonth rtc.date
  have hmonths : asInt (153 * rtc.date.marchMonth + 2) = 153 * rtc.date.marchMonth + 2 :=
    asInt_eq (by omega) (by omega)
  have hdiv : (153 * rtc.date.marchMonth + 2).tdiv 5 = (153 * rtc.date.marchMonth + 2) / 5 :=
    Int.tdiv_eq_ediv_of_nonneg (by omega)
  have hday : asInt ((153 * rtc.date.marchMonth + 2) / 5 + rtc.day - 1) = rtc.date.marchDay :=
    show asInt rtc.date.marchDay = rtc.date.marchDay from asInt_eq (by omega) (by omega)
  rw [time, clockSeconds, ← dayNumber_era hdate]
  rw [hyearShift, hmonthShift, era_eq hdate hyear, hmonths, hdiv, hday, asUnsigned_marchDay hdate]
  change (_ * 146097 + asUnsigned (asUnsigned (yearInEra rtc.date) * 365 +
    asUnsigned (yearInEra rtc.date) / 4 - asUnsigned (yearInEra rtc.date) / 100 +
    rtc.date.marchDay) - 719468) * 86400 + _ + _ + _ = _
  rw [asUnsigned_yearInEra]
  change (_ * 146097 + asUnsigned (dayInEra rtc.date) - 719468) * 86400 + _ + _ + _ = _
  rw [asUnsigned_dayInEra hdate]

theorem xtime_eq (h : rtc.Valid) : xtime rtc = clockSeconds rtc := by
  have hmonth : 1 ≤ rtc.month ∧ rtc.month ≤ 12 := h.date.month
  have hday : 1 ≤ rtc.day ∧ rtc.day ≤ 31 := day_bounds h.date
  have hdays : civilDays rtc.year rtc.month rtc.day = dayNumber rtc.date :=
    civilDays_eq rtc.date h.date h.year
  rw [xtime, asUnsigned_eq (by omega) (by omega), asUnsigned_eq (by omega) (by omega), hdays,
    clockSeconds]

theorem wallYears_eq {n : ℕ} {first days : ℤ} (hdays : 0 ≤ days) (hfits : days + 366 * n < 2 ^ 64) :
    wallYears n first days = days + ∑ year ∈ Finset.range n, yearLength (first + year) := by
  induction n generalizing first days with
  | zero => simp [wallYears]
  | succ n ih =>
    push_cast at hfits
    have hyear : 365 ≤ yearLength first ∧ yearLength first ≤ 366 := by
      unfold yearLength
      split_ifs <;> decide
    have hsum : asUInt64 (days + yearLength first) = days + yearLength first :=
      asUInt64_eq (by omega) (by omega)
    change wallYears n (first + 1) (asUInt64 (days + yearLength first)) = _
    rw [hsum, ih (by omega) (by omega), Finset.sum_range_succ']
    have hshift : ∀ year : ℕ, yearLength (first + 1 + year) = yearLength (first + (year + 1 : ℕ)) := by
      intro year
      push_cast
      rw [Int.add_assoc, Int.add_comm 1]
    simp only [hshift, Nat.cast_zero, Int.add_zero]
    omega

theorem mdays_bounds (i : ℕ) : 0 ≤ mdays.getD i 0 ∧ mdays.getD i 0 ≤ 31 := by
  have hall : ∀ days ∈ mdays, 0 ≤ days ∧ days ≤ 31 := by decide
  rw [List.getD_eq_getElem?_getD]
  cases hget : mdays[i]? with
  | none => decide
  | some days => exact hall days (List.mem_of_getElem? hget)

theorem mdays_sum_bounds (n : ℕ) (first : ℤ) :
    0 ≤ ∑ month ∈ Finset.range n, mdays.getD (first + month).toNat 0 ∧
      ∑ month ∈ Finset.range n, mdays.getD (first + month).toNat 0 ≤ 31 * n := by
  induction n with
  | zero => simp
  | succ n ih =>
    obtain ⟨hlow, hhigh⟩ := mdays_bounds (first + n).toNat
    rw [Finset.sum_range_succ]
    push_cast
    omega

theorem wallMonths_eq {n : ℕ} {first days : ℤ} (hdays : 0 ≤ days) (hlast : first + n ≤ 13)
    (hfits : days + 31 * n < 2 ^ 64) :
    wallMonths n first days =
      days + ∑ month ∈ Finset.range n, mdays.getD (first + month).toNat 0 := by
  induction n generalizing first days with
  | zero => simp [wallMonths]
  | succ n ih =>
    push_cast at hfits hlast
    obtain ⟨hlow, hhigh⟩ := mdays_bounds first.toNat
    rw [wallMonths, if_pos (by omega), asUInt64_eq (by omega) (by omega),
      ih (by omega) (by omega) (by omega), Finset.sum_range_succ']
    have hshift : ∀ month : ℕ, (first + 1 + month).toNat = (first + (month + 1 : ℕ)).toNat := by
      intro month
      push_cast
      rw [Int.add_assoc, Int.add_comm 1]
    simp only [hshift, Nat.cast_zero, Int.add_zero]
    omega

theorem daysOfMonths_table (year : ℤ) (months : ℕ) (h : months ≤ 11) :
    daysOfMonths year months =
      (∑ month ∈ Finset.range months, mdays.getD (1 + (month : ℤ)).toNat 0) +
        if 1 < months ∧ IsLeap year then 1 else 0 := by
  unfold daysOfMonths monthLength
  by_cases hleap : IsLeap year
  · simp only [hleap, and_true]
    interval_cases months <;> rfl
  · simp only [hleap, and_false]
    interval_cases months <;> rfl

theorem daysOfYears_bounds (years : ℕ) :
    0 ≤ daysOfYears years ∧ daysOfYears years ≤ 366 * years := by
  rw [daysOfYears_eq]
  omega

theorem wallSeconds_eq (h : rtc.Valid) (hready : 2020 ≤ rtc.year) :
    wallSeconds rtc = clockSeconds rtc := by
  have hyear := h.year
  have hmonth : 1 ≤ rtc.month ∧ rtc.month ≤ 12 := h.date.month
  have hday : 1 ≤ rtc.day ∧ rtc.day ≤ 31 := day_bounds h.date
  have hhour := h.hour
  have hminute := h.minute
  have hsecond := h.second
  obtain ⟨hyearsLow, hyearsHigh⟩ := daysOfYears_bounds (rtc.year - 1970).toNat
  have hyears : wallYears (rtc.year - 1970).toNat 1970 0 =
      daysOfYears (rtc.year - 1970).toNat := by
    rw [wallYears_eq (Int.le_refl 0) (by omega), Int.zero_add, daysOfYears]
  have hmonths : wallMonths (rtc.month - 1).toNat 1 (daysOfYears (rtc.year - 1970).toNat) =
      daysOfYears (rtc.year - 1970).toNat +
        ∑ month ∈ Finset.range (rtc.month - 1).toNat, mdays.getD (1 + (month : ℤ)).toNat 0 :=
    wallMonths_eq hyearsLow (by omega) (by omega)
  have htable := daysOfMonths_table rtc.year (rtc.month - 1).toNat (by omega)
  have hsum := mdays_sum_bounds (rtc.month - 1).toNat 1
  have hnumber : dayNumber rtc.date = daysOfYears (rtc.year - 1970).toNat +
      daysOfMonths rtc.year (rtc.month - 1).toNat + (rtc.day - 1) := rfl
  generalize ∑ month ∈ Finset.range (rtc.month - 1).toNat, mdays.getD (1 + (month : ℤ)).toNat 0 =
    passed at hmonths htable hsum
  generalize daysOfYears (rtc.year - 1970).toNat = years at *
  have hdays : ∀ {leap : ℤ}, 0 ≤ leap → leap ≤ 1 →
      daysOfMonths rtc.year (rtc.month - 1).toNat = passed + leap →
      asUInt64 (asUInt64 (years + passed + leap + asInt (rtc.day - 1)) * 86400 +
        rtc.hour * 3600 + rtc.minute * 60 + rtc.second) = clockSeconds rtc := by
    intro leap hlow hhigh hmonthDays
    have hnumberSum : years + passed + leap + (rtc.day - 1) = dayNumber rtc.date := by omega
    rw [asInt_eq (by omega) (by omega), hnumberSum]
    have hinner : asUInt64 (dayNumber rtc.date) = dayNumber rtc.date :=
      asUInt64_eq (by omega) (by omega)
    rw [hinner, clockSeconds]
    exact asUInt64_eq (by omega) (by omega)
  rw [wallSeconds, if_neg (by omega), hyears]
  dsimp only
  rw [hmonths]
  by_cases hleap : 2 < rtc.month ∧ IsLeap rtc.year
  · have hmonthDays := htable
    rw [if_pos ⟨by omega, hleap.2⟩] at hmonthDays
    have hfeb : 2 < rtc.month ∧
        (rtc.year % 4 = 0 ∧ rtc.year % 100 ≠ 0 ∨ rtc.year % 400 = 0) := hleap
    have hleapDay : asUInt64 (years + passed + 1) = years + passed + 1 :=
      asUInt64_eq (by omega) (by omega)
    rw [if_pos hfeb, hleapDay]
    exact hdays (by decide) (Int.le_refl 1) hmonthDays
  · have hmonthDays := htable
    rw [if_neg fun hboth => hleap ⟨by omega, hboth.2⟩] at hmonthDays
    have hfeb : ¬ (2 < rtc.month ∧
        (rtc.year % 4 = 0 ∧ rtc.year % 100 ≠ 0 ∨ rtc.year % 400 = 0)) := hleap
    rw [if_neg hfeb]
    have hexact := hdays (Int.le_refl 0) (by decide) hmonthDays
    rwa [Int.add_zero] at hexact

/-- The conversions invert each other from 1970 on as long as the year is an `int`, `gmtime` of
both layers is one and `mktime` its inverse, and the clocks agree where the kernel's takes the
date for one. -/
theorem calendars_agree :
    CivilInverse ∧ (∀ t, 0 ≤ t → t / 86400 ≤ lastDay → TimesAgree t) ∧
      (∀ rtc : Rtc, rtc.Valid → xtime rtc = time (some rtc)) ∧
      ∀ rtc : Rtc, rtc.Valid → 2020 ≤ rtc.year → ClocksAgree rtc :=
  ⟨civilInverse, fun _ ht hlast => timesAgree ht hlast,
    fun _ h => (xtime_eq h).trans (time_eq h).symm,
    fun _ h hready => ⟨(xtime_eq h).trans (time_eq h).symm,
      (wallSeconds_eq h hready).trans (time_eq h).symm⟩⟩

def leapDay : Rtc := ⟨12, 0, 0, 29, 2, 2024⟩

theorem calendars_agree_leapDay :
    TimesAgree 1709208000 ∧ ClocksAgree leapDay ∧ time (some leapDay) = 1709208000 := by
  have hvalid : leapDay.Valid :=
    ⟨⟨by decide, by decide, by decide⟩, by decide, by decide, by decide, by decide⟩
  exact ⟨calendars_agree.2.1 1709208000 (by decide) (by decide),
    calendars_agree.2.2.2 leapDay hvalid (by decide), by decide⟩

/-- The last second before the kernel takes the clock to be ready. -/
def endOf2019 : Rtc := ⟨23, 59, 59, 31, 12, 2019⟩

theorem not_clocksAgree_endOf2019 : endOf2019.Valid ∧ ¬ ClocksAgree endOf2019 := by
  refine ⟨⟨⟨by decide, by decide, by decide⟩, by decide, by decide, by decide, by decide⟩, ?_⟩
  exact fun h => absurd h.2 (by decide)

end Clock

end EigenOS.Clock
