import MySocket.JsText

/-!
# Dates in JavaScript

The fields of a `Date`, by the formulas of ECMAScript : a time is in milliseconds since 1970, and
the calendar is the Gregorian one for all times. `LocalTZA` is a parameter where local time is
needed.

* `dayFromYear_yearOfDay` : a day lies in its year.
* `month_lt`, `date_bounds`, `weekDay_lt`, `hours_lt` and so on bound the fields.
-/

namespace MySocket

namespace Js

/-- A day has 86400000 milliseconds. -/
def day (t : ℤ) : ℤ :=
  t / 86400000

/-- The number of the first day of a year. -/
def dayFromYear (y : ℤ) : ℤ :=
  365 * (y - 1970) + (y - 1969) / 4 - (y - 1901) / 100 + (y - 1601) / 400

/-- The year of 400 that a day would be in if they were of one length, which is off by one at
most. -/
def nearYear (d : ℤ) : ℤ :=
  1970 + 400 * d / 146097

def yearOfDay (d : ℤ) : ℤ :=
  if d < dayFromYear (nearYear d) then nearYear d - 1
  else if dayFromYear (nearYear d + 1) ≤ d then nearYear d + 1
  else nearYear d

/-- `DayWithinYear` -/
def dayWithinYear (d : ℤ) : ℤ :=
  d - dayFromYear (yearOfDay d)

/-- `InLeapYear` -/
def inLeapYear (d : ℤ) : ℤ :=
  dayFromYear (yearOfDay d + 1) - dayFromYear (yearOfDay d) - 365

def monthLengths (leap : ℤ) : List ℤ :=
  [31, 28 + leap, 31, 30, 31, 30, 31, 31, 30, 31, 30, 31]

/-- The month and the day in it of the day `n` after the months before `m`, if the lengths of the
months from `m` on are given. -/
def monthFromDay : List ℤ → ℕ → ℤ → ℕ × ℤ
  | [], m, n => (m, n)
  | length :: lengths, m, n =>
    if n < length then (m, n) else monthFromDay lengths (m + 1) (n - length)

/-- The month and the day in it, both from zero. -/
def monthAndDate (d : ℤ) : ℕ × ℤ :=
  monthFromDay (monthLengths (inLeapYear d)) 0 (dayWithinYear d)

/-! ## The fields of a local time -/

/-- `getFullYear` -/
def fullYear (t : ℤ) : ℤ :=
  yearOfDay (day t)

/-- `getMonth` -/
def month (t : ℤ) : ℕ :=
  (monthAndDate (day t)).1

/-- `getDate` -/
def date (t : ℤ) : ℕ :=
  ((monthAndDate (day t)).2 + 1).toNat

/-- `getDay` -/
def weekDay (t : ℤ) : ℕ :=
  ((day t + 4) % 7).toNat

/-- `getHours` -/
def hours (t : ℤ) : ℕ :=
  (t / 3600000 % 24).toNat

/-- `getMinutes` -/
def minutes (t : ℤ) : ℕ :=
  (t / 60000 % 60).toNat

/-- `getSeconds` -/
def seconds (t : ℤ) : ℕ :=
  (t / 1000 % 60).toNat

/-- `getMilliseconds` -/
def milliseconds (t : ℤ) : ℕ :=
  (t % 1000).toNat

/-! ## Bounds -/

theorem dayFromYear_yearOfDay (d : ℤ) :
    dayFromYear (yearOfDay d) ≤ d ∧ d < dayFromYear (yearOfDay d + 1) := by
  unfold yearOfDay
  split_ifs with h h'
  · rw [Int.sub_add_cancel]
    refine ⟨?_, h⟩
    simp only [dayFromYear, nearYear] at h ⊢
    omega
  · refine ⟨h', ?_⟩
    simp only [dayFromYear, nearYear] at h' ⊢
    omega
  · exact ⟨not_lt.mp h, not_le.mp h'⟩

theorem inLeapYear_bounds (d : ℤ) : 0 ≤ inLeapYear d ∧ inLeapYear d ≤ 1 := by
  simp only [inLeapYear, dayFromYear]
  omega

theorem dayWithinYear_bounds (d : ℤ) :
    0 ≤ dayWithinYear d ∧ dayWithinYear d < 365 + inLeapYear d := by
  have h := dayFromYear_yearOfDay d
  simp only [dayWithinYear, inLeapYear]
  omega

theorem monthFromDay_bounds : ∀ (lengths : List ℤ) (m : ℕ) {n : ℤ},
    (∀ length ∈ lengths, length ≤ 31) → 0 ≤ n → n < lengths.sum →
      (monthFromDay lengths m n).1 < m + lengths.length ∧ 0 ≤ (monthFromDay lengths m n).2 ∧
        (monthFromDay lengths m n).2 < 31
  | [], m, n, _, hn, hsum => absurd hsum (not_lt.mpr hn)
  | length :: lengths, m, n, hle, hn, hsum => by
    rw [List.forall_mem_cons] at hle
    rw [List.sum_cons] at hsum
    rw [monthFromDay, List.length_cons]
    split_ifs with h
    · exact ⟨by omega, hn, by omega⟩
    · have ih := monthFromDay_bounds lengths (m + 1) hle.2 (by omega : 0 ≤ n - length) (by omega)
      exact ⟨by omega, ih.2⟩

theorem monthAndDate_bounds (d : ℤ) :
    (monthAndDate d).1 < 12 ∧ 0 ≤ (monthAndDate d).2 ∧ (monthAndDate d).2 < 31 := by
  have hleap := inLeapYear_bounds d
  have hday := dayWithinYear_bounds d
  refine monthFromDay_bounds (monthLengths (inLeapYear d)) 0 ?_ hday.1 ?_
  · simp only [monthLengths, List.forall_mem_cons]
    refine ⟨?_, ?_, ?_, ?_, ?_, ?_, ?_, ?_, ?_, ?_, ?_, ?_, List.forall_mem_nil _⟩ <;> omega
  · simp only [monthLengths, List.sum_cons, List.sum_nil]
    omega

theorem month_lt (t : ℤ) : month t < 12 :=
  (monthAndDate_bounds (day t)).1

theorem date_bounds (t : ℤ) : 1 ≤ date t ∧ date t ≤ 31 := by
  have h := (monthAndDate_bounds (day t)).2
  unfold date
  omega

theorem weekDay_lt (t : ℤ) : weekDay t < 7 := by
  unfold weekDay
  omega

theorem hours_lt (t : ℤ) : hours t < 24 := by
  unfold hours
  omega

theorem minutes_lt (t : ℤ) : minutes t < 60 := by
  unfold minutes
  omega

theorem seconds_lt (t : ℤ) : seconds t < 60 := by
  unfold seconds
  omega

/-- The 29th of February 2012, a Wednesday, at 23:59:59.999. -/
example : (fullYear 1330559999999, month 1330559999999, date 1330559999999,
    weekDay 1330559999999, hours 1330559999999) = (2012, 1, 29, 3, 23) := by
  decide

end Js

end MySocket
