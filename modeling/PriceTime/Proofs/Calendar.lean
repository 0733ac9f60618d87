import Mathlib.Algebra.BigOperators.Group.List.Basic
import Mathlib.Algebra.GroupWithZero.Nat
import Mathlib.Order.Nat
import PriceTime.Calendar

/-!
# Days and dates

A date stands for as many days as the years, the months and the days before it have. The day of a
date is found again: first the year, which the mean length of a year gives up to one, and then the
month, by counting off whole ones. Later days have later dates.

* `Calendar.Date.IsValid`, `Calendar.Date.days`: dates of the calendar and the days before them.
* `Calendar.monthOf_monthLengths`, `Calendar.yearOf_spec`: the month and the year that a day lies in.
* `Calendar.Date.ofDays_spec`: the date of a day.
* `Calendar.Date.days_lt`: an earlier date has fewer days before it.
-/

namespace PriceTime.Calendar

/-- Every fourth year is a leap year, but of the full centuries only every fourth one. -/
def IsLeapYear (year : Nat) : Prop :=
  year % 4 = 0 ∧ (year % 100 ≠ 0 ∨ year % 400 = 0)

instance (year : Nat) : Decidable (IsLeapYear year) :=
  inferInstanceAs (Decidable (_ ∧ _))

/-- The length of a month, counted from 1 for January on. -/
def monthLength (year month : Nat) : Nat :=
  match month with
  | 2 => if IsLeapYear year then 29 else 28
  | 4 | 6 | 9 | 11 => 30
  | _ => 31

/-- The days of the first months of a year. -/
def daysOfMonths (year months : Nat) : Nat :=
  ((List.range months).map fun month => monthLength year (month + 1)).sum

/-- The days of the first years, from year 1 on. -/
def daysOfYears (years : Nat) : Nat :=
  ((List.range years).map fun year => daysOfMonths (year + 1) 12).sum

namespace Date

/-- There is such a day: the month is one of the twelve, and the day is not past its end. -/
def IsValid (date : Date) : Prop :=
  1 ≤ date.year ∧ 1 ≤ date.month ∧ date.month ≤ 12 ∧ 1 ≤ date.day ∧
    date.day ≤ monthLength date.year date.month

/-- The days before a date, from the first day of year 1 on. -/
def days (date : Date) : Nat :=
  daysOfYears (date.year - 1) + daysOfMonths date.year (date.month - 1) + (date.day - 1)

/-- Whether a date comes before another one: the year decides, then the month, then the day. -/
def Before (date other : Date) : Prop :=
  date.year < other.year ∨ date.year = other.year ∧
    (date.month < other.month ∨ date.month = other.month ∧ date.day < other.day)

end Date

/-! ## Months -/

theorem isLeap_iff (year : Nat) : isLeap year = true ↔ IsLeapYear year := by
  simp [isLeap, IsLeapYear]

theorem monthLengths_eq (year : Nat) :
    monthLengths year = (List.range 12).map fun month => monthLength year (month + 1) := by
  have hfebruary : (if isLeap year then 29 else 28) = monthLength year 2 := by
    unfold monthLength
    simp only [isLeap_iff]
  unfold monthLengths
  rw [hfebruary]
  rfl

theorem sum_take_monthLengths (year : Nat) {months : Nat} (h : months ≤ 12) :
    ((monthLengths year).take months).sum = daysOfMonths year months := by
  rw [monthLengths_eq, ← List.map_take, List.take_range, Nat.min_eq_left h, daysOfMonths]

theorem daysOfMonths_twelve (year : Nat) : daysOfMonths year 12 = yearLength year := by
  rw [← sum_take_monthLengths year (Nat.le_refl 12)]
  unfold monthLengths yearLength
  split <;> rfl

theorem daysOfMonths_succ (year months : Nat) :
    daysOfMonths year (months + 1) = daysOfMonths year months + monthLength year (months + 1) := by
  simp [daysOfMonths, List.range_succ]

/-- A month is over before a later one begins. -/
theorem daysOfMonths_le (year : Nat) {months later : Nat} (h : months < later) :
    daysOfMonths year months + monthLength year (months + 1) ≤ daysOfMonths year later := by
  induction later, h using Nat.le_induction with
  | base => exact Nat.le_of_eq (daysOfMonths_succ year months).symm
  | succ later hlater ih =>
    rw [daysOfMonths_succ year later]
    exact ih.trans (Nat.le_add_right _ _)

theorem monthLength_le (year month : Nat) : monthLength year month ≤ 31 := by
  unfold monthLength
  split
  · split <;> decide
  all_goals decide

/-- Counting off whole months stops in the month that the day lies in. -/
theorem monthOf_spec (lengths : List Nat) (day : Nat) (h : day < lengths.sum) (month : Nat) :
    ∃ i r, monthOf month day lengths = (month + i, r + 1) ∧ i < lengths.length ∧
      (lengths.take i).sum + r = day ∧ r < lengths[i]?.getD 0 := by
  induction lengths generalizing month day with
  | nil => cases h
  | cons length rest ih =>
    rw [List.sum_cons] at h
    unfold monthOf
    split
    · rename_i hlt
      exact ⟨0, day, rfl, Nat.zero_lt_succ _, Nat.zero_add _, hlt⟩
    · rename_i hge
      obtain ⟨i, r, hrest, hi, hsum, hr⟩ := ih (day - length) (by omega) (month + 1)
      refine ⟨i + 1, r, ?_, Nat.succ_lt_succ hi, ?_, hr⟩
      · rw [hrest, Nat.add_assoc, Nat.add_comm 1 i]
      · rw [List.take_succ_cons, List.sum_cons]
        omega

/-- A day of a year lies in a month of the year. -/
theorem monthOf_monthLengths {year day : Nat} (h : day < yearLength year) :
    ∃ i r, monthOf 1 day (monthLengths year) = (1 + i, r + 1) ∧ i < 12 ∧
      daysOfMonths year i + r = day ∧ r < monthLength year (i + 1) := by
  have hlength : (monthLengths year).length = 12 := rfl
  have hsum : (monthLengths year).sum = yearLength year := by
    rw [← daysOfMonths_twelve, ← sum_take_monthLengths year (Nat.le_refl 12), ← hlength,
      List.take_length]
  obtain ⟨i, r, hmonth, hi, hdays, hr⟩ := monthOf_spec (monthLengths year) day (hsum ▸ h) 1
  rw [hlength] at hi
  rw [sum_take_monthLengths year (Nat.le_of_lt hi)] at hdays
  rw [monthLengths_eq, List.getElem?_map, List.getElem?_range hi] at hr
  exact ⟨i, r, hmonth, hi, hdays, hr⟩

/-! ## Years -/

theorem succ_div (past k : Nat) :
    (past + 1) / k = past / k + if (past + 1) % k = 0 then 1 else 0 := by
  rw [Nat.succ_div]
  simp only [Nat.dvd_iff_mod_eq_zero]

theorem daysBefore_succ (year : Nat) (h : 1 ≤ year) :
    daysBefore (year + 1) = daysBefore year + yearLength year := by
  obtain ⟨past, rfl⟩ := Nat.exists_eq_add_of_le' h
  have horder : past / 400 ≤ past / 100 ∧ past / 100 ≤ past / 4 := by omega
  unfold daysBefore
  rw [Nat.add_sub_cancel, Nat.add_sub_cancel]
  dsimp only
  rw [succ_div past 4, succ_div past 100, succ_div past 400]
  by_cases hfour : (past + 1) % 4 = 0
  · by_cases hcentury : (past + 1) % 100 = 0
    · by_cases hleap : (past + 1) % 400 = 0
      · have hlength : yearLength (past + 1) = 366 := by simp [yearLength, isLeap, hfour, hleap]
        rw [if_pos hfour, if_pos hcentury, if_pos hleap, hlength]
        omega
      · have hlength : yearLength (past + 1) = 365 := by simp [yearLength, isLeap, hcentury, hleap]
        rw [if_pos hfour, if_pos hcentury, if_neg hleap, hlength]
        omega
    · have hleap : (past + 1) % 400 ≠ 0 := by omega
      have hlength : yearLength (past + 1) = 366 := by simp [yearLength, isLeap, hfour, hcentury]
      rw [if_pos hfour, if_neg hcentury, if_neg hleap, hlength]
      omega
  · have hcentury : (past + 1) % 100 ≠ 0 := by omega
    have hleap : (past + 1) % 400 ≠ 0 := by omega
    have hlength : yearLength (past + 1) = 365 := by simp [yearLength, isLeap, hfour]
    rw [if_neg hfour, if_neg hcentury, if_neg hleap, hlength]
    omega

theorem daysBefore_eq (years : Nat) : daysBefore (years + 1) = daysOfYears years := by
  induction years with
  | zero => rfl
  | succ years ih =>
    rw [daysBefore_succ _ (Nat.succ_pos years), ih, ← daysOfMonths_twelve]
    simp [daysOfYears, List.range_succ]

/-- The years before a year are over when it begins. -/
theorem daysBefore_le {year later : Nat} (hyear : 1 ≤ year) (h : year < later) :
    daysBefore year + yearLength year ≤ daysBefore later := by
  induction later, h using Nat.le_induction with
  | base => exact Nat.le_of_eq (daysBefore_succ year hyear).symm
  | succ later hlater ih =>
    rw [daysBefore_succ later (by omega)]
    exact ih.trans (Nat.le_add_right _ _)

/-- The years before a year have 146097 days in 400 years on the whole, up to two days. -/
theorem daysBefore_mean (past : Nat) :
    400 * daysBefore (past + 1) ≤ 146097 * past + 800 ∧
      146097 * past ≤ 400 * daysBefore (past + 1) + 800 := by
  unfold daysBefore
  dsimp only
  omega

/-- A day lies in its year. -/
theorem yearOf_spec (n : Nat) :
    1 ≤ yearOf n ∧ daysBefore (yearOf n) ≤ n ∧ n < daysBefore (yearOf n + 1) := by
  have hguess : ∃ past, 1 + n * 400 / 146097 = past + 1 ∧ 146097 * past ≤ 400 * n ∧
      400 * n < 146097 * (past + 1) := ⟨n * 400 / 146097, by omega, by omega, by omega⟩
  unfold yearOf
  obtain ⟨past, hpast, hlow, hhigh⟩ := hguess
  rw [hpast]
  dsimp only
  split
  · rename_i hearly
    cases past with
    | zero => cases hearly
    | succ past =>
      have := daysBefore_mean past
      exact ⟨Nat.succ_pos _, by rw [Nat.add_sub_cancel]; omega, hearly⟩
  · split
    · rename_i hlate
      have := daysBefore_mean (past + 1 + 1)
      exact ⟨Nat.succ_pos _, hlate, by omega⟩
    · omega

/-! ## Dates -/

namespace Date

variable {date other : Date}

theorem ofDays_spec (n : Nat) : (ofDays n).IsValid ∧ (ofDays n).days = n + epochDays := by
  delta ofDays
  -- The sum is not to be evaluated: its second part is a number as great as the days to 1970.
  generalize n + epochDays = day
  obtain ⟨hyear, hlow, hhigh⟩ := yearOf_spec day
  obtain ⟨years, hyears⟩ := Nat.exists_eq_add_of_le' hyear
  rw [daysBefore_succ _ hyear] at hhigh
  obtain ⟨i, r, hmonth, hi, hdays, hr⟩ := monthOf_monthLengths (Nat.sub_lt_left_of_lt_add hlow hhigh)
  dsimp only
  rw [hmonth]
  dsimp only
  have hindex : 1 + i - 1 = i := Nat.add_sub_cancel_left 1 i
  refine ⟨⟨hyear, by dsimp only; omega, by dsimp only; omega, by dsimp only; omega, ?_⟩, ?_⟩
  · dsimp only
    rw [Nat.add_comm 1 i]
    exact hr
  · unfold days
    dsimp only
    rw [hindex, Nat.add_sub_cancel, hyears, Nat.add_sub_cancel, ← daysBefore_eq, ← hyears]
    omega

/-- The first day of 1970 is as many days after the first day of year 1. -/
theorem days_epoch : (Date.mk 1970 1 1).days = epochDays := by
  unfold days
  rw [← daysBefore_eq]
  rfl

theorem days_eq (h : date.IsValid) : date.days =
    daysBefore date.year + daysOfMonths date.year (date.month - 1) + (date.day - 1) := by
  obtain ⟨years, hyears⟩ := Nat.exists_eq_add_of_le' h.1
  unfold days
  rw [hyears, Nat.add_sub_cancel, daysBefore_eq]

/-- The month of a date is over before a later one begins. -/
theorem days_lt_of_month (h : date.IsValid) {months : Nat} (hlater : date.month ≤ months) :
    date.days < daysBefore date.year + daysOfMonths date.year months := by
  have ⟨_, hmonth, _, hday, hlast⟩ := h
  have hindex : date.month - 1 + 1 = date.month := Nat.sub_add_cancel hmonth
  have hover := daysOfMonths_le date.year (Nat.lt_of_lt_of_le (Nat.sub_one_lt_of_lt hmonth) hlater)
  rw [hindex] at hover
  rw [days_eq h]
  omega

/-- A date lies in its year. -/
theorem days_lt_daysBefore (h : date.IsValid) :
    daysBefore date.year ≤ date.days ∧ date.days < daysBefore (date.year + 1) := by
  constructor
  · rw [days_eq h, Nat.add_assoc]
    exact Nat.le_add_right _ _
  · rw [daysBefore_succ _ h.1, ← daysOfMonths_twelve]
    exact days_lt_of_month h h.2.2.1

/-- An earlier date has fewer days before it. -/
theorem days_lt (hdate : date.IsValid) (hother : other.IsValid) (h : date.Before other) :
    date.days < other.days := by
  rcases h with hyear | ⟨hyear, hmonth | ⟨hmonth, hday⟩⟩
  · have hbefore := daysBefore_le hdate.1 hyear
    rw [← daysBefore_succ _ hdate.1] at hbefore
    exact (days_lt_daysBefore hdate).2.trans_le (hbefore.trans (days_lt_daysBefore hother).1)
  · have hover := days_lt_of_month hdate (Nat.le_sub_one_of_lt hmonth)
    rw [hyear] at hover
    rw [days_eq hother]
    exact hover.trans_le (Nat.le_add_right _ _)
  · obtain ⟨-, -, -, hfirst, -⟩ := hdate
    unfold days
    rw [← hyear, ← hmonth]
    omega

end Date

end PriceTime.Calendar
