import Mathlib.Data.String.Basic
import PriceTime.Proofs.Calendar
import PriceTime.Proofs.Text.Digits

/-!
# Times as texts

A time is written as a date and a time of day, each part in a fixed number of digits and the greater
part first. So the text has a fixed shape, the time can be read back from it to the millisecond, and
the texts of two times are ordered as the times are.

* `Calendar.Moment`: a date and a time of day.
* `Calendar.Moment.Fits.read_text`, `Calendar.Moment.Fits.text_shaped`: reading a text, and its shape.
* `Calendar.Moment.Fits.text_lt_iff`: the order of the texts is the order of the moments.
* `Calendar.format_lossless`: what the text of a time is made of and what it tells.
-/

namespace PriceTime.Calendar

open Text

/-- A millisecond of the calendar. -/
structure Moment where
  date : Date
  hour : Nat
  minute : Nat
  second : Nat
  millisecond : Nat
deriving DecidableEq

namespace Moment

variable {moment other : Moment}

/-- There is such a millisecond. -/
def IsValid (moment : Moment) : Prop :=
  moment.date.IsValid ∧ moment.hour < 24 ∧ moment.minute < 60 ∧ moment.second < 60 ∧
    moment.millisecond < 1000

/-- The milliseconds from the start of year 1 on. -/
def ordinal (moment : Moment) : Nat :=
  (((moment.date.days * 24 + moment.hour) * 60 + moment.minute) * 60 + moment.second) * 1000 +
    moment.millisecond

/-- The start of 1970. -/
def epoch : Moment :=
  { date := { year := 1970, month := 1, day := 1 }, hour := 0, minute := 0, second := 0,
    millisecond := 0 }

/-- The milliseconds since the start of 1970. -/
def sinceEpoch (moment : Moment) : Int :=
  moment.ordinal - epoch.ordinal

/-- The moment that is so many milliseconds after the start of 1970. -/
def ofMilliseconds (ms : Nat) : Moment where
  date := Date.ofDays (ms / 86400000)
  hour := ms % 86400000 / 3600000
  minute := ms % 86400000 / 60000 % 60
  second := ms % 86400000 / 1000 % 60
  millisecond := ms % 86400000 % 1000

/-- A moment as `YYYY-MM-DD HH:MM:SS.mmm`. -/
def text (moment : Moment) : String :=
  Decimal.padded 4 moment.date.year ++ "-" ++ Decimal.padded 2 moment.date.month ++ "-" ++
    Decimal.padded 2 moment.date.day ++ " " ++ Decimal.padded 2 moment.hour ++ ":" ++
    Decimal.padded 2 moment.minute ++ ":" ++ Decimal.padded 2 moment.second ++ "." ++
    Decimal.padded 3 moment.millisecond

/-- Read a moment; there is nothing behind it. -/
def read (text : List Char) : Option Moment := do
  let (year, text) ← readDigits 4 text
  let text ← expect ['-'] text
  let (month, text) ← readDigits 2 text
  let text ← expect ['-'] text
  let (day, text) ← readDigits 2 text
  let text ← expect [' '] text
  let (hour, text) ← readDigits 2 text
  let text ← expect [':'] text
  let (minute, text) ← readDigits 2 text
  let text ← expect [':'] text
  let (second, text) ← readDigits 2 text
  let text ← expect ['.'] text
  let (millisecond, text) ← readDigits 3 text
  if text = [] then return { date := { year, month, day }, hour, minute, second, millisecond }
  else none

/-! ## The milliseconds of a moment -/

theorem ofMilliseconds_isValid (ms : Nat) : (ofMilliseconds ms).IsValid := by
  refine ⟨(Date.ofDays_spec _).1, ?_, ?_, ?_, ?_⟩
  all_goals
    unfold ofMilliseconds
    dsimp only
    omega

theorem sinceEpoch_ofMilliseconds (ms : Nat) : (ofMilliseconds ms).sinceEpoch = ms := by
  have hdays : (ofMilliseconds ms).date.days = ms / 86400000 + epochDays := (Date.ofDays_spec _).2
  have hepoch : epoch.date.days = epochDays := Date.days_epoch
  unfold sinceEpoch ordinal
  rw [hdays, hepoch]
  generalize epochDays = start
  unfold ofMilliseconds epoch
  dsimp only
  omega

theorem ordinal_ofMilliseconds (ms : Nat) :
    (ofMilliseconds ms).ordinal = ms + epoch.ordinal := by
  have := sinceEpoch_ofMilliseconds ms
  unfold sinceEpoch at this
  omega

/-! ## Texts -/

theorem toList_text (moment : Moment) : moment.text.toList =
    (Decimal.padded 4 moment.date.year).toList ++ '-' ::
      ((Decimal.padded 2 moment.date.month).toList ++ '-' ::
      ((Decimal.padded 2 moment.date.day).toList ++ ' ' ::
      ((Decimal.padded 2 moment.hour).toList ++ ':' ::
      ((Decimal.padded 2 moment.minute).toList ++ ':' ::
      ((Decimal.padded 2 moment.second).toList ++ '.' ::
      ((Decimal.padded 3 moment.millisecond).toList ++ [])))))) := by
  simp [text]

/-- Such a millisecond can be written: the year has four digits. -/
def Fits (moment : Moment) : Prop :=
  moment.IsValid ∧ moment.date.year < 10 ^ 4

/-- Every part of a moment has as many digits as it is written in. -/
theorem Fits.lt (h : moment.Fits) : moment.date.year < 10 ^ 4 ∧ moment.date.month < 10 ^ 2 ∧
    moment.date.day < 10 ^ 2 ∧ moment.hour < 10 ^ 2 ∧ moment.minute < 10 ^ 2 ∧
    moment.second < 10 ^ 2 ∧ moment.millisecond < 10 ^ 3 := by
  obtain ⟨⟨⟨-, -, hmonth, -, hday⟩, hhour, hminute, hsecond, hmillisecond⟩, hyear⟩ := h
  have hlength := monthLength_le moment.date.year moment.date.month
  omega

theorem Fits.read_text (h : moment.Fits) : read moment.text.toList = some moment := by
  obtain ⟨hyear, hmonth, hday, hhour, hminute, hsecond, hmillisecond⟩ := h.lt
  rw [toList_text, read]
  simp only [readDigits_padded (Nat.zero_lt_succ _), hyear, hmonth, hday, hhour, hminute, hsecond,
    hmillisecond, expect_char, Option.bind_eq_bind, Option.bind_some, if_true]
  rfl

theorem Fits.text_shaped (h : moment.Fits) :
    Shaped "YYYY-MM-DD HH:MM:SS.mmm".toList moment.text.toList := by
  obtain ⟨hyear, hmonth, hday, hhour, hminute, hsecond, hmillisecond⟩ := h.lt
  rw [toList_text]
  show Shaped (List.replicate 4 'Y' ++ '-' :: (List.replicate 2 'M' ++ '-' ::
    (List.replicate 2 'D' ++ ' ' :: (List.replicate 2 'H' ++ ':' :: (List.replicate 2 'M' ++ ':' ::
    (List.replicate 2 'S' ++ '.' :: (List.replicate 3 'm' ++ []))))))) _
  refine .padded (by decide) hyear rfl (.same rfl ?_)
  refine .padded (by decide) hmonth rfl (.same rfl ?_)
  refine .padded (by decide) hday rfl (.same rfl ?_)
  refine .padded (by decide) hhour rfl (.same rfl ?_)
  refine .padded (by decide) hminute rfl (.same rfl ?_)
  refine .padded (by decide) hsecond rfl (.same rfl ?_)
  exact .padded (by decide) hmillisecond rfl .nil

/-! ## Order -/

/-- Whether a moment comes before another one. -/
def Before (moment other : Moment) : Prop :=
  moment.date.Before other.date ∨ moment.date = other.date ∧
    (moment.hour < other.hour ∨ moment.hour = other.hour ∧
      (moment.minute < other.minute ∨ moment.minute = other.minute ∧
        (moment.second < other.second ∨ moment.second = other.second ∧
          moment.millisecond < other.millisecond)))

theorem before_or_eq_or_before (moment other : Moment) :
    moment.Before other ∨ moment = other ∨ other.Before moment := by
  obtain ⟨⟨year, month, day⟩, hour, minute, second, millisecond⟩ := moment
  obtain ⟨⟨year', month', day'⟩, hour', minute', second', millisecond'⟩ := other
  simp only [Before, Date.Before, Date.mk.injEq, Moment.mk.injEq]
  omega

theorem ordinal_lt (h : moment.IsValid) (h' : other.IsValid) (hbefore : moment.Before other) :
    moment.ordinal < other.ordinal := by
  obtain ⟨hdate, hhour, hminute, hsecond, hmillisecond⟩ := h
  obtain ⟨hdate', -⟩ := h'
  unfold ordinal
  rcases hbefore with hdates | ⟨hdates, htimes⟩
  · have := Date.days_lt hdate hdate' hdates
    omega
  · rw [hdates]
    omega

theorem ordinal_lt_iff (h : moment.IsValid) (h' : other.IsValid) :
    moment.ordinal < other.ordinal ↔ moment.Before other := by
  refine ⟨fun hlt => ?_, ordinal_lt h h'⟩
  rcases before_or_eq_or_before moment other with hbefore | rfl | hafter
  · exact hbefore
  · exact absurd hlt (Nat.lt_irrefl _)
  · exact absurd hlt (Nat.lt_asymm (ordinal_lt h' h hafter))

theorem Fits.text_lt_iff (h : moment.Fits) (h' : other.Fits) :
    moment.text < other.text ↔ moment.Before other := by
  obtain ⟨hyear, hmonth, hday, hhour, hminute, hsecond, hmillisecond⟩ := h.lt
  obtain ⟨hyear', hmonth', hday', hhour', hminute', hsecond', hmillisecond'⟩ := h'.lt
  have hsame : ∀ (c : Char) (rest rest' : List Char), c :: rest < c :: rest' ↔ rest < rest' := by
    intro c rest rest'
    rw [List.cons_lt_cons_iff, or_iff_right (Char.lt_irrefl c), and_iff_right rfl]
  rw [String.lt_iff_toList_lt, toList_text, toList_text,
    padded_append_lt_iff (by decide) hyear hyear', hsame,
    padded_append_lt_iff (by decide) hmonth hmonth', hsame,
    padded_append_lt_iff (by decide) hday hday', hsame,
    padded_append_lt_iff (by decide) hhour hhour', hsame,
    padded_append_lt_iff (by decide) hminute hminute', hsame,
    padded_append_lt_iff (by decide) hsecond hsecond', hsame,
    padded_append_lt_iff (by decide) hmillisecond hmillisecond']
  obtain ⟨⟨year, month, day⟩, hour, minute, second, millisecond⟩ := moment
  obtain ⟨⟨year', month', day'⟩, hour', minute', second', millisecond'⟩ := other
  simp only [Before, Date.Before, Date.mk.injEq, List.lt_irrefl, and_false, or_false, and_or_left,
    or_assoc, and_assoc]

end Moment

/-! ## Times -/

theorem format_eq (time : UInt64) :
    format time = (Moment.ofMilliseconds (milliseconds time)).text := by
  unfold format Moment.text Moment.ofMilliseconds
  rfl

theorem milliseconds_eq (time : UInt64) :
    milliseconds time = min time.toNat (2 ^ 63 - 1) / 10 ^ 6 := rfl

/-- The clock ends in the year 2262, so four digits are enough for the year. -/
theorem fits (time : UInt64) : (Moment.ofMilliseconds (milliseconds time)).Fits := by
  refine ⟨Moment.ofMilliseconds_isValid _, ?_⟩
  obtain ⟨hvalid, hdays⟩ := Date.ofDays_spec (milliseconds time / 86400000)
  have hyear := (Date.days_lt_daysBefore hvalid).1
  rw [hdays] at hyear
  have hlast : milliseconds time / 86400000 ≤ 106751 := by
    rw [milliseconds_eq]
    omega
  show (Date.ofDays (milliseconds time / 86400000)).year < 10 ^ 4
  generalize (Date.ofDays (milliseconds time / 86400000)).year = year at hyear
  unfold daysBefore epochDays at hyear
  dsimp only at hyear
  omega

theorem format_shaped (time : UInt64) :
    Shaped "YYYY-MM-DD HH:MM:SS.mmm".toList (format time).toList := by
  rw [format_eq]
  exact (fits time).text_shaped

theorem read_format (time : UInt64) : Moment.read (format time).toList =
    some (Moment.ofMilliseconds (milliseconds time)) := by
  rw [format_eq, (fits time).read_text]

theorem format_lt_format_iff (time other : UInt64) :
    format time < format other ↔ milliseconds time < milliseconds other := by
  rw [format_eq, format_eq, (fits time).text_lt_iff (fits other),
    ← Moment.ordinal_lt_iff (fits time).1 (fits other).1, Moment.ordinal_ofMilliseconds,
    Moment.ordinal_ofMilliseconds, Nat.add_lt_add_iff_right]

/-- The text of a time has a fixed shape and names a millisecond of the calendar, the one that the
time lies in or the last one of the clock. Texts are ordered as these milliseconds are. -/
theorem format_lossless (time : UInt64) :
    (format time).length = 23 ∧
      Shaped "YYYY-MM-DD HH:MM:SS.mmm".toList (format time).toList ∧
      (∃ moment, Moment.read (format time).toList = some moment ∧ moment.IsValid ∧
        moment.sinceEpoch = (min time.toNat (2 ^ 63 - 1) / 10 ^ 6 : Nat)) ∧
      ∀ other, format time ≤ format other ↔
        min time.toNat (2 ^ 63 - 1) / 10 ^ 6 ≤ min other.toNat (2 ^ 63 - 1) / 10 ^ 6 := by
  refine ⟨?_, format_shaped time,
    ⟨_, read_format time, Moment.ofMilliseconds_isValid _, ?_⟩, fun other => ?_⟩
  · rw [← String.length_toList, ← (format_shaped time).length_eq]
    rfl
  · rw [Moment.sinceEpoch_ofMilliseconds, milliseconds_eq]
  · rw [← milliseconds_eq, ← milliseconds_eq, ← not_lt, ← not_lt, format_lt_format_iff]

end PriceTime.Calendar
