import Mathlib.Data.Int.Notation
import Mathlib.Data.Nat.Notation

/-!
# The Gregorian calendar

Days are counted from January 1 of year 1, backwards with negative numbers. `date` finds the
date of a day the way `time.Time` does: it takes off cycles of 400, 100, 4 and 1 years and
looks up the month in a table of cumulated days. `dayNumber` is the other direction, the sum
that the calendar's rules give.

A day's date is a date of the calendar and its number is the day (`date_valid`,
`dayNumber_date`), and later dates have larger numbers (`dayNumber_lt`). So the dates run in
the order of the days (`date_lt_iff`).
-/

set_option autoImplicit false

namespace N2nGo.Lib

/-- `isLeap`. -/
def isLeap (year : ℤ) : Bool := year % 4 = 0 ∧ (year % 100 ≠ 0 ∨ year % 400 = 0)

/-- How many days of the year there are before the month, in months counted from 0. -/
def daysBefore (leap : Bool) (month : ℕ) : ℕ :=
  [0, 31, 59, 90, 120, 151, 181, 212, 243, 273, 304, 334, 365].getD month 0 +
    (if leap ∧ 2 ≤ month then 1 else 0)

structure Date where
  year : ℤ
  month : ℕ
  day : ℕ
  deriving DecidableEq, Repr

namespace Date

/-- A date that the calendar has. -/
structure Valid (d : Date) : Prop where
  month_pos : 1 ≤ d.month
  month_le : d.month ≤ 12
  day_pos : 1 ≤ d.day
  day_le : daysBefore (isLeap d.year) (d.month - 1) + d.day ≤ daysBefore (isLeap d.year) d.month

/-- Earlier by year, then by month, then by day. -/
def Lt (d e : Date) : Prop :=
  d.year < e.year ∨ d.year = e.year ∧ (d.month < e.month ∨ d.month = e.month ∧ d.day < e.day)

theorem lt_trichotomy (d e : Date) : d.Lt e ∨ d = e ∨ e.Lt d := by
  obtain ⟨y, m, a⟩ := d
  obtain ⟨y', m', a'⟩ := e
  simp only [Lt, Date.mk.injEq]
  omega

/-- Field by field, with something else to be compared behind the date. -/
theorem fields_iff (d e : Date) (P : Prop) :
    (d.year < e.year ∨ d.year = e.year ∧ (d.month < e.month ∨ d.month = e.month ∧
      (d.day < e.day ∨ d.day = e.day ∧ P))) ↔ d.Lt e ∨ d = e ∧ P := by
  obtain ⟨y, m, a⟩ := d
  obtain ⟨y', m', a'⟩ := e
  simp only [Lt, Date.mk.injEq]
  by_cases h : P
  · simp only [h, and_true]
    omega
  · simp only [h, and_false, or_false]

end Date

/-- The days before January 1 of the year. -/
def yearStart (year : ℤ) : ℤ :=
  365 * (year - 1) + (year - 1) / 4 - (year - 1) / 100 + (year - 1) / 400

/-- The day of a date. -/
def dayNumber (d : Date) : ℤ :=
  yearStart d.year + daysBefore (isLeap d.year) (d.month - 1) + d.day - 1

/-- The year of a day and how many days of it went before. -/
def yearDay (days : ℤ) : ℤ × ℕ :=
  let n400 := days / 146097
  let days := days % 146097
  -- the last day of the 400 years would start a fifth century
  let n100 := days / 36524 - days / 36524 / 4
  let days := days - 36524 * n100
  let n4 := days / 1461
  let days := days - 1461 * n4
  -- and the last day of a leap year a fifth year
  let n1 := days / 365 - days / 365 / 4
  (400 * n400 + 100 * n100 + 4 * n4 + n1 + 1, (days - 365 * n1).toNat)

/-- Month and day from the days of the year that went before. -/
def monthDay (leap : Bool) (yday : ℕ) : ℕ × ℕ :=
  if leap ∧ yday = 59 then (2, 29)
  else
    -- after the leap day, as if there had been none
    let day := if leap ∧ 59 < yday then yday - 1 else yday
    -- months of 31 days are an estimate that is too low by at most one
    let month := day / 31
    let stop := daysBefore false (month + 1)
    if stop ≤ day then (month + 2, day - stop + 1)
    else (month + 1, day - daysBefore false month + 1)

/-- `absDate`. -/
def date (days : ℤ) : Date :=
  let (year, yday) := yearDay days
  let (month, day) := monthDay (isLeap year) yday
  ⟨year, month, day⟩

/-! ## Days and dates -/

theorem yearStart_succ (year : ℤ) :
    yearStart (year + 1) = yearStart year + daysBefore (isLeap year) 12 := by
  have hdays : (daysBefore (isLeap year) 12 : ℤ) = if isLeap year then 366 else 365 := by
    cases isLeap year <;> rfl
  rw [hdays]
  simp only [yearStart, isLeap, decide_eq_true_eq]
  split <;> omega

theorem yearStart_mono {y y' : ℤ} (h : y < y') : yearStart (y + 1) ≤ yearStart y' := by
  unfold yearStart
  omega

/-- The days of whole cycles. -/
theorem yearStart_cycles {q c f n : ℤ} (hc : 0 ≤ c ∧ c ≤ 3) (hf : 0 ≤ f ∧ f ≤ 24)
    (hn : 0 ≤ n ∧ n ≤ 3) : yearStart (400 * q + 100 * c + 4 * f + n + 1) =
      146097 * q + 36524 * c + 1461 * f + 365 * n := by
  have h4 : (400 * q + 100 * c + 4 * f + n) / 4 = 100 * q + 25 * c + f := by omega
  have h100 : (400 * q + 100 * c + 4 * f + n) / 100 = 4 * q + c := by omega
  have h400 : (400 * q + 100 * c + 4 * f + n) / 400 = q := by omega
  unfold yearStart
  rw [Int.add_sub_cancel, h4, h100, h400]
  omega

/-- The year found is the one in which the day lies. -/
theorem yearDay_spec (days : ℤ) :
    yearStart (yearDay days).1 + (yearDay days).2 = days ∧
      (yearDay days).2 < daysBefore (isLeap (yearDay days).1) 12 := by
  -- one cycle after the other, with what is left of the days
  obtain ⟨q, r, hq, hr, hdays⟩ : ∃ q r, days / 146097 = q ∧ days % 146097 = r ∧
      days = 146097 * q + r ∧ 0 ≤ r ∧ r < 146097 := ⟨_, _, rfl, rfl, by omega⟩
  obtain ⟨c, hc, hcle⟩ : ∃ c, r / 36524 - r / 36524 / 4 = c ∧ 0 ≤ c ∧ c ≤ 3 ∧
      0 ≤ r - 36524 * c ∧ (r - 36524 * c < 36524 ∨ c = 3 ∧ r - 36524 * c = 36524) :=
    ⟨_, rfl, by omega⟩
  obtain ⟨f, hf, hfle⟩ : ∃ f, (r - 36524 * c) / 1461 = f ∧ 0 ≤ f ∧ f ≤ 24 ∧
      0 ≤ r - 36524 * c - 1461 * f ∧ r - 36524 * c - 1461 * f ≤ 1460 := ⟨_, rfl, by omega⟩
  obtain ⟨n, hn, hnle⟩ : ∃ n, (r - 36524 * c - 1461 * f) / 365 -
        (r - 36524 * c - 1461 * f) / 365 / 4 = n ∧ 0 ≤ n ∧ n ≤ 3 ∧
      0 ≤ r - 36524 * c - 1461 * f - 365 * n ∧
      (r - 36524 * c - 1461 * f - 365 * n < 365 ∨
        n = 3 ∧ r - 36524 * c - 1461 * f - 365 * n = 365) := ⟨_, rfl, by omega⟩
  have hyearDay : yearDay days = (400 * q + 100 * c + 4 * f + n + 1,
      (r - 36524 * c - 1461 * f - 365 * n).toNat) := by
    simp only [yearDay, hq, hr, hc, hf, hn]
  rw [hyearDay]
  refine ⟨?_, ?_⟩
  · rw [yearStart_cycles (by omega) (by omega) (by omega)]
    omega
  · cases hleap : isLeap (400 * q + 100 * c + 4 * f + n + 1) with
    | true =>
      have h366 : daysBefore true 12 = 366 := rfl
      omega
    | false =>
      have h365 : daysBefore false 12 = 365 := rfl
      -- a 366th day is the last of the four years, and these end with a leap year
      simp only [isLeap, decide_eq_false_iff_not] at hleap
      omega

theorem daysBefore_succ : ∀ leap : Bool, ∀ month < 12,
    daysBefore leap month ≤ daysBefore leap (month + 1) ∧
      daysBefore leap (month + 1) ≤ daysBefore leap month + 31 := by
  decide

theorem daysBefore_mono {leap : Bool} {m m' : ℕ} (h : m ≤ m') (hm' : m' ≤ 12) :
    daysBefore leap m ≤ daysBefore leap m' := by
  induction h with
  | refl => exact Nat.le_refl _
  | step _ ih => exact Nat.le_trans (ih (by omega)) (daysBefore_succ leap _ (by omega)).1

theorem daysBefore_true (month : ℕ) :
    daysBefore true month = daysBefore false month + if 2 ≤ month then 1 else 0 := by
  simp [daysBefore]

/-- Counting months of 31 days gives the month or the one before it. -/
theorem daysBefore_bounds : ∀ month < 12, daysBefore false month ≤ 31 * month ∧
    (month < 11 → 31 * (month + 1) ≤ daysBefore false (month + 2)) := by
  decide

/-- The month found is the one in which the day of the year lies. -/
structure MonthOf (leap : Bool) (yday : ℕ) (found : ℕ × ℕ) : Prop where
  month_pos : 1 ≤ found.1
  month_le : found.1 ≤ 12
  day_pos : 1 ≤ found.2
  sum : daysBefore leap (found.1 - 1) + found.2 = yday + 1
  lt : yday < daysBefore leap found.1

theorem monthOf_false {yday : ℕ} (h : yday < 365) : MonthOf false yday (monthDay false yday) := by
  have hyear : daysBefore false 12 = 365 := rfl
  obtain ⟨hlow, hhigh⟩ := daysBefore_bounds (yday / 31) (by omega)
  simp only [monthDay, Bool.false_eq_true, false_and, if_false]
  split
  · next hstop =>
    -- not December, which ends with the year
    have hmonth : yday / 31 < 11 := by
      refine Nat.lt_of_not_le fun hlast => ?_
      have heq : yday / 31 = 11 := by omega
      rw [heq, hyear] at hstop
      omega
    have hnext := hhigh hmonth
    refine ⟨by omega, by omega, by omega, ?_, ?_⟩
    · show daysBefore false (yday / 31 + 1) + (yday - daysBefore false (yday / 31 + 1) + 1) =
        yday + 1
      omega
    · show yday < daysBefore false (yday / 31 + 2)
      omega
  · next hstop =>
    refine ⟨by omega, by omega, by omega, ?_, Nat.lt_of_not_le hstop⟩
    show daysBefore false (yday / 31) + (yday - daysBefore false (yday / 31) + 1) = yday + 1
    omega

/-- Before and after the leap day the months are those of a common year. -/
theorem monthOf_true {yday : ℕ} (h : yday < 366) : MonthOf true yday (monthDay true yday) := by
  have hmarch : daysBefore false 2 = 59 := rfl
  rcases Nat.lt_trichotomy yday 59 with hlt | rfl | hgt
  · have hsame : monthDay true yday = monthDay false yday := by
      simp [monthDay, Nat.ne_of_lt hlt, Nat.not_lt_of_gt hlt]
    obtain ⟨hpos, hle, hday, hsum, hend⟩ := monthOf_false (show yday < 365 by omega)
    rw [hsame]
    have hmonth : ¬ 2 ≤ (monthDay false yday).1 - 1 := by
      intro hlate
      have hmono : daysBefore false 2 ≤ daysBefore false ((monthDay false yday).1 - 1) :=
        daysBefore_mono hlate (by omega)
      omega
    refine ⟨hpos, hle, hday, ?_, ?_⟩
    · rw [daysBefore_true, if_neg hmonth]
      exact hsum
    · rw [daysBefore_true]
      omega
  · exact ⟨by decide, by decide, by decide, rfl, by decide⟩
  · have hsame : monthDay true yday = monthDay false (yday - 1) := by
      simp [monthDay, Nat.ne_of_gt hgt, hgt]
    obtain ⟨hpos, hle, hday, hsum, hend⟩ := monthOf_false (show yday - 1 < 365 by omega)
    rw [hsame]
    have hmonth : 2 ≤ (monthDay false (yday - 1)).1 - 1 := by
      refine Nat.le_of_not_lt fun hearly => ?_
      have hmono : daysBefore false (monthDay false (yday - 1)).1 ≤ daysBefore false 2 :=
        daysBefore_mono (by omega) (by decide)
      omega
    refine ⟨hpos, hle, hday, ?_, ?_⟩
    · rw [daysBefore_true, if_pos hmonth]
      omega
    · rw [daysBefore_true, if_pos (by omega)]
      omega

theorem monthOf_monthDay {leap : Bool} {yday : ℕ} (h : yday < daysBefore leap 12) :
    MonthOf leap yday (monthDay leap yday) := by
  cases leap with
  | false => exact monthOf_false h
  | true => exact monthOf_true h

theorem date_eq (days : ℤ) : date days =
    ⟨(yearDay days).1, (monthDay (isLeap (yearDay days).1) (yearDay days).2).1,
      (monthDay (isLeap (yearDay days).1) (yearDay days).2).2⟩ := rfl

theorem date_valid (days : ℤ) : (date days).Valid := by
  obtain ⟨hmonth, hmonth', hday, hsum, hlt⟩ := monthOf_monthDay (yearDay_spec days).2
  refine ⟨hmonth, hmonth', hday, ?_⟩
  simp only [date_eq]
  omega

theorem dayNumber_date (days : ℤ) : dayNumber (date days) = days := by
  obtain ⟨hyear, hyday⟩ := yearDay_spec days
  have hsum := (monthOf_monthDay hyday).sum
  simp only [dayNumber, date_eq]
  omega

theorem Date.Valid.day_le_31 {d : Date} (h : d.Valid) : d.day ≤ 31 := by
  have hpos := h.month_pos
  have hle := h.month_le
  have hmonth := (daysBefore_succ (isLeap d.year) (d.month - 1) (by omega)).2
  rw [Nat.sub_add_cancel hpos] at hmonth
  have hday := h.day_le
  omega

/-- A date lies in its year. -/
theorem dayNumber_bounds {d : Date} (h : d.Valid) :
    yearStart d.year ≤ dayNumber d ∧ dayNumber d < yearStart (d.year + 1) := by
  have hle : daysBefore (isLeap d.year) d.month ≤ daysBefore (isLeap d.year) 12 :=
    daysBefore_mono h.month_le (Nat.le_refl 12)
  have hday := h.day_pos
  have hday' := h.day_le
  rw [yearStart_succ]
  unfold dayNumber
  omega

/-- Later dates have larger numbers. -/
theorem dayNumber_lt {d e : Date} (hd : d.Valid) (he : e.Valid) (h : d.Lt e) :
    dayNumber d < dayNumber e := by
  rcases h with hyear | ⟨hyear, hmonth | ⟨hmonth, hday⟩⟩
  · calc dayNumber d < yearStart (d.year + 1) := (dayNumber_bounds hd).2
      _ ≤ yearStart e.year := yearStart_mono hyear
      _ ≤ dayNumber e := (dayNumber_bounds he).1
  · have hle : daysBefore (isLeap e.year) d.month ≤ daysBefore (isLeap e.year) (e.month - 1) := by
      have hmonth' := he.month_le
      exact daysBefore_mono (by omega) (by omega)
    have hday := hd.day_le
    have hday' := he.day_pos
    unfold dayNumber
    rw [hyear] at hday ⊢
    omega
  · unfold dayNumber
    rw [hyear, hmonth]
    omega

theorem date_lt_iff {a b : ℤ} : (date a).Lt (date b) ↔ a < b := by
  have hmono : ∀ {a b : ℤ}, (date a).Lt (date b) → a < b := by
    intro a b h
    have hlt := dayNumber_lt (date_valid a) (date_valid b) h
    rwa [dayNumber_date, dayNumber_date] at hlt
  refine ⟨hmono, fun h => ?_⟩
  rcases Date.lt_trichotomy (date a) (date b) with hlt | heq | hgt
  · exact hlt
  · have hab := congrArg dayNumber heq
    rw [dayNumber_date, dayNumber_date] at hab
    omega
  · exact absurd (hmono hgt) (by omega)

end N2nGo.Lib
