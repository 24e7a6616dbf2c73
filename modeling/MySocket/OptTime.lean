import MySocket.JsDate

/-!
# How long ago

`formatOptTime` tells when an operation was : after a year by the year, after a week by month and
day, and before that by the time that has passed. The year, the month and the day are those of the
present.

* `formatOptTime_iff` : when the label is right. After a week it must be the same day of a year,
  after a year the same year; in the second that follows a week or a year the label is always wrong,
  since whole seconds are compared.
* `formatOptTime_old` : all operations more than a year ago have the same label.

The quotients `d / YEAR` and so on are of integers far below `2 ^ 53`, so they compare, and are
rounded down, as the exact ones do.
-/

namespace MySocket

namespace Js

/-! ## The code -/

/-- `parseInt` with base 10, `none` for NaN. -/
def parseInt (s : JsString) : Option ℤ :=
  let signed := splitSign (s.dropWhile isSpace)
  let digits := signed.2.takeWhile (isDigit 10)
  if digits = [] then none
  else some (if signed.1 then -(digitsVal 10 digits : ℤ) else digitsVal 10 digits)

/-- `MIN`, `HOUR`, `DAY` and `YEAR`, in seconds. -/
def minSeconds : ℤ := 60

def hourSeconds : ℤ := minSeconds * 60

def daySeconds : ℤ := hourSeconds * 24

def yearSeconds : ℤ := daySeconds * 365

/-- The time of the operation, in seconds. -/
def opSeconds (optTime : JsString) : ℤ :=
  (parseInt optTime).getD 0

def yearLabel (y : ℤ) : JsString :=
  intText y ++ text "年"

def dayLabel (month date : ℕ) : JsString :=
  natText (month + 1) ++ unit '月' :: (natText date ++ text "日")

/-- `formatOptTime`, with the time `now` and the offset of local time at each time. There is no
label for the future. -/
def formatOptTime (localTZA : ℤ → ℤ) (now : ℤ) (optTime : JsString) : Option JsString :=
  -- `parseInt` cuts the fraction of `+now / 1000` off.
  let d := now.tdiv 1000 - opSeconds optTime
  if d < 0 then none
  else if 1 * yearSeconds < d then some (yearLabel (fullYear (now + localTZA now)))
  else if 7 * daySeconds < d then
    some (dayLabel (month (now + localTZA now)) (date (now + localTZA now)))
  else if 1 * daySeconds < d then some (natText (d / daySeconds).toNat ++ text "天前")
  else if 24 * hourSeconds < d then some (text "昨天")
  else if 1 * hourSeconds < d then some (natText (d / hourSeconds).toNat ++ text "小时前")
  else if 1 * minSeconds < d then some (natText (d / minSeconds).toNat ++ text "分钟前")
  else some (intText d ++ text "秒前")

/-! ## The property -/

inductive TimeUnit
  | day
  | hour
  | minute
  | second
  deriving DecidableEq

def TimeUnit.seconds : TimeUnit → ℤ
  | day => daySeconds
  | hour => hourSeconds
  | minute => minSeconds
  | second => 1

def TimeUnit.text : TimeUnit → JsString
  | day => Js.text "天前"
  | hour => Js.text "小时前"
  | minute => Js.text "分钟前"
  | second => Js.text "秒前"

def elapsedLabel (n : ℤ) (u : TimeUnit) : JsString :=
  natText n.toNat ++ u.text

/-- How long ago the second `op` was, in milliseconds. -/
def age (now op : ℤ) : ℤ :=
  now - 1000 * op

/-- A week and a year, in milliseconds. -/
def week : ℤ := 1000 * (7 * daySeconds)

def year : ℤ := 1000 * yearSeconds

/-- The local time at the second `op`. -/
def localOp (localTZA : ℤ → ℤ) (op : ℤ) : ℤ :=
  1000 * op + localTZA (1000 * op)

/-- The label is of the operation : after a year its year, after a week its day, and before that a
number of whole days, hours, minutes or seconds, which is zero only for seconds. -/
structure Labels (localTZA : ℤ → ℤ) (now op : ℤ) (label : JsString) : Prop where
  year : Js.year < age now op → label = yearLabel (fullYear (localOp localTZA op))
  day : week < age now op → age now op ≤ Js.year →
    label = dayLabel (month (localOp localTZA op)) (date (localOp localTZA op))
  elapsed : age now op ≤ week → ∃ u : TimeUnit,
    label = elapsedLabel (age now op / (1000 * u.seconds)) u ∧
      (u = .second ∨ 1 ≤ age now op / (1000 * u.seconds))

/-- The unit in which `d` seconds are told. -/
def unitFor (d : ℤ) : TimeUnit :=
  if daySeconds < d then .day
  else if hourSeconds < d then .hour
  else if minSeconds < d then .minute
  else .second

/-- The seconds of the clock are rounded down : before 1970 they are only if they are whole. -/
def RoundedDown (now : ℤ) : Prop :=
  0 ≤ now ∨ 1000 ∣ now

/-- Present and operation are in one year, if a year has passed, and on one day of a year, if a week
has, and then not just passed; where the clock is rounded up, the time is not rounded up with it. -/
def SameLabel (localTZA : ℤ → ℤ) (now op : ℤ) : Prop :=
  (age now op ≤ week ∧ (RoundedDown now ∨
    ¬(unitFor (age now op / 1000 + 1)).seconds ∣ age now op / 1000 + 1)) ∨
  (week < age now op ∧ age now op ≤ year ∧ (RoundedDown now → week + 1000 ≤ age now op) ∧
    month (now + localTZA now) = month (localOp localTZA op) ∧
    date (now + localTZA now) = date (localOp localTZA op)) ∨
  (year < age now op ∧ (RoundedDown now → year + 1000 ≤ age now op) ∧
    fullYear (now + localTZA now) = fullYear (localOp localTZA op))

/-! ## Labels -/

section

variable {localTZA : ℤ → ℤ} {now op d : ℤ} {optTime label : JsString} {u v : TimeUnit}
  {m n k l : ℕ}

theorem yearLabel_injective : Function.Injective yearLabel := fun _ _ h =>
  intText_injective (List.append_cancel_right h)

theorem dayLabel_inj (h : dayLabel m k = dayLabel n l) : m = n ∧ k = l := by
  obtain ⟨hmonth, hrest⟩ := natText_append_inj (by decide) (by decide) h
  have hdate := natText_injective (List.append_cancel_right (List.cons.inj hrest).2)
  exact ⟨by omega, hdate⟩

theorem TimeUnit.text_cons (u : TimeUnit) :
    ∃ c s, u.text = c :: s ∧ isDigit 10 c = false := by
  cases u with
  | day => exact ⟨_, _, rfl, by decide +kernel⟩
  | hour => exact ⟨_, _, rfl, by decide +kernel⟩
  | minute => exact ⟨_, _, rfl, by decide +kernel⟩
  | second => exact ⟨_, _, rfl, by decide +kernel⟩

theorem TimeUnit.text_injective : Function.Injective TimeUnit.text := by
  intro u v h
  cases u <;> cases v <;> first | rfl | exact absurd h (by decide +kernel)

theorem elapsedLabel_inj {a b : ℤ} (ha : 0 ≤ a) (hb : 0 ≤ b)
    (h : elapsedLabel a u = elapsedLabel b v) : a = b ∧ u = v := by
  obtain ⟨c, s, hu, hc⟩ := u.text_cons
  obtain ⟨c', s', hv, hc'⟩ := v.text_cons
  unfold elapsedLabel at h
  rw [hu, hv] at h
  obtain ⟨hab, htext⟩ := natText_append_inj hc hc' h
  rw [← hu, ← hv] at htext
  exact ⟨by omega, TimeUnit.text_injective htext⟩

theorem getLast?_dayLabel (m n : ℕ) : (dayLabel m n).getLast? = some (unit '日') := by
  have hday : text "日" = [unit '日'] := by decide +kernel
  rw [dayLabel, hday, ← List.cons_append, ← List.append_assoc]
  exact List.getLast?_concat

theorem getLast?_yearLabel (y : ℤ) : (yearLabel y).getLast? = some (unit '年') := by
  have hyear : text "年" = [unit '年'] := by decide +kernel
  rw [yearLabel, hyear]
  exact List.getLast?_concat

theorem getLast?_elapsedLabel (n : ℤ) (u : TimeUnit) :
    (elapsedLabel n u).getLast? = some (unit '前') := by
  have hago : ∃ s, u.text = s ++ [unit '前'] := by
    cases u with
    | day => exact ⟨text "天", by decide +kernel⟩
    | hour => exact ⟨text "小时", by decide +kernel⟩
    | minute => exact ⟨text "分钟", by decide +kernel⟩
    | second => exact ⟨text "秒", by decide +kernel⟩
  obtain ⟨s, hs⟩ := hago
  rw [elapsedLabel, hs, ← List.append_assoc]
  exact List.getLast?_concat

theorem dayLabel_ne_yearLabel (m n : ℕ) (y : ℤ) : dayLabel m n ≠ yearLabel y := by
  intro h
  have hlast := getLast?_dayLabel m n
  rw [h, getLast?_yearLabel] at hlast
  exact absurd hlast (by decide)

theorem elapsedLabel_ne_dayLabel (a : ℤ) (u : TimeUnit) (m n : ℕ) :
    elapsedLabel a u ≠ dayLabel m n := by
  intro h
  have hlast := getLast?_elapsedLabel a u
  rw [h, getLast?_dayLabel] at hlast
  exact absurd hlast (by decide)

/-! ## The time of the operation -/

theorem dropWhile_isSpace_of_areDigits {s : JsString} (h : areDigits 10 s = true) :
    s.dropWhile isSpace = s := by
  cases s with
  | nil => rfl
  | cons c s =>
    have hc := (areDigits_iff.mp h).2 c List.mem_cons_self
    rw [List.dropWhile_cons_of_neg (by simp [not_isSpace_of_isDigit hc])]

/-- Every number of seconds is the time of an operation. -/
theorem opSeconds_intText (op : ℤ) : opSeconds (intText op) = op := by
  have hdigits := areDigits_natText op.natAbs
  have htake : (natText op.natAbs).takeWhile (isDigit 10) = natText op.natAbs :=
    List.takeWhile_eq_self_iff.mpr (areDigits_iff.mp hdigits).2
  have hne := natText_ne_nil op.natAbs
  unfold opSeconds parseInt intText
  split_ifs with hneg
  · have hsign : splitSign ((unit '-' :: natText op.natAbs).dropWhile isSpace) =
        (true, natText op.natAbs) := by
      rw [List.dropWhile_cons_of_neg (by decide), splitSign]
      rfl
    simp only [hsign, htake, hne, if_false, if_true, digitsVal_natText, Option.getD_some]
    omega
  · rw [dropWhile_isSpace_of_areDigits hdigits, splitSign_of_areDigits hdigits]
    simp only [htake, hne, if_false, digitsVal_natText, Option.getD_some, Bool.false_eq_true]
    omega

/-! ## What the code compares -/

/-- `d` -/
def clockAge (now op : ℤ) : ℤ :=
  now.tdiv 1000 - op

theorem clockAge_of_roundedDown (h : RoundedDown now) (op : ℤ) :
    clockAge now op = age now op / 1000 := by
  unfold RoundedDown at h
  rw [clockAge, Int.tdiv_eq_ediv, if_pos h, age]
  omega

theorem clockAge_of_not_roundedDown (h : ¬RoundedDown now) (op : ℤ) :
    clockAge now op = age now op / 1000 + 1 ∧ ¬1000 ∣ age now op := by
  unfold RoundedDown at h
  rw [clockAge, Int.tdiv_eq_ediv, if_neg h, age]
  have hdvd : ¬1000 ∣ now := fun hdvd => h (.inr hdvd)
  refine ⟨?_, by omega⟩
  rw [Int.sign_eq_one_of_pos (by decide)]
  omega

/-- A quotient that is rounded down passes a bound a second later. -/
theorem lt_clockAge {limit op : ℤ} (h : 1000 * limit < age now op)
    (hdown : RoundedDown now → 1000 * limit + 1000 ≤ age now op) : limit < clockAge now op := by
  by_cases hr : RoundedDown now
  · have hd := clockAge_of_roundedDown hr op
    have hle := hdown hr
    omega
  · obtain ⟨hd, -⟩ := clockAge_of_not_roundedDown hr op
    omega

theorem clockAge_le {limit op : ℤ} (h : age now op ≤ 1000 * limit) : clockAge now op ≤ limit := by
  by_cases hr : RoundedDown now
  · have hd := clockAge_of_roundedDown hr op
    omega
  · obtain ⟨hd, hdvd⟩ := clockAge_of_not_roundedDown hr op
    omega

theorem formatOptTime_year (h : yearSeconds < clockAge now (opSeconds optTime)) :
    formatOptTime localTZA now optTime = some (yearLabel (fullYear (now + localTZA now))) := by
  have hpos : 0 < yearSeconds := by decide
  rw [clockAge] at h
  simp only [formatOptTime]
  rw [if_neg (by omega), if_pos (by omega)]

theorem formatOptTime_day (h : 7 * daySeconds < clockAge now (opSeconds optTime))
    (h' : clockAge now (opSeconds optTime) ≤ yearSeconds) :
    formatOptTime localTZA now optTime =
      some (dayLabel (month (now + localTZA now)) (date (now + localTZA now))) := by
  have hpos : 0 < daySeconds := by decide
  rw [clockAge] at h h'
  simp only [formatOptTime]
  rw [if_neg (by omega), if_neg (by omega), if_pos h]

/-- Up to a week the time is told in the unit for it; "昨天" is never told. -/
theorem formatOptTime_elapsed (h : 0 ≤ clockAge now (opSeconds optTime))
    (h' : clockAge now (opSeconds optTime) ≤ 7 * daySeconds) :
    formatOptTime localTZA now optTime =
      some (elapsedLabel (clockAge now (opSeconds optTime) /
        (unitFor (clockAge now (opSeconds optTime))).seconds)
          (unitFor (clockAge now (opSeconds optTime)))) := by
  have hyear : 7 * daySeconds ≤ 1 * yearSeconds := by decide
  have hday : daySeconds = 24 * hourSeconds := by decide
  simp only [formatOptTime]
  rw [← clockAge]
  generalize clockAge now (opSeconds optTime) = d at *
  rw [if_neg (not_lt.mpr h), if_neg (by omega), if_neg (by omega)]
  simp only [unitFor, Int.one_mul]
  by_cases h1 : daySeconds < d
  · rw [if_pos h1, if_pos h1]
    rfl
  rw [if_neg h1, if_neg h1, if_neg (by omega)]
  by_cases h2 : hourSeconds < d
  · rw [if_pos h2, if_pos h2]
    rfl
  rw [if_neg h2, if_neg h2]
  by_cases h3 : minSeconds < d
  · rw [if_pos h3, if_pos h3]
    rfl
  · rw [if_neg h3, if_neg h3]
    have habs : d.natAbs = d.toNat := by omega
    rw [elapsedLabel, intText, if_neg (not_lt.mpr h), habs, TimeUnit.seconds, Int.ediv_one]
    rfl

/-! ## When the label is right -/

theorem TimeUnit.seconds_pos (u : TimeUnit) : 0 < u.seconds := by
  cases u <;> decide

/-- Rounding up by a second changes the number of units only where a unit is complete. -/
theorem succ_ediv_eq_iff (u : TimeUnit) (n : ℤ) :
    (n + 1) / u.seconds = n / u.seconds ↔ ¬u.seconds ∣ n + 1 := by
  have hday : daySeconds = 86400 := by decide
  have hhour : hourSeconds = 3600 := by decide
  have hmin : minSeconds = 60 := by decide
  cases u with
  | day =>
    rw [TimeUnit.seconds, hday]
    omega
  | hour =>
    rw [TimeUnit.seconds, hhour]
    omega
  | minute =>
    rw [TimeUnit.seconds, hmin]
    omega
  | second =>
    rw [TimeUnit.seconds]
    omega

theorem unitFor_seconds_lt (h : unitFor d ≠ .second) : (unitFor d).seconds < d := by
  unfold unitFor at h ⊢
  split_ifs with h1 h2 h3
  · exact h1
  · exact h2
  · exact h3
  · rw [if_neg h1, if_neg h2, if_neg h3] at h
    exact absurd rfl h

/-- Up to a week, `d` being the seconds rounded down or up. -/
theorem elapsed_iff {a : ℤ} (ha : 0 ≤ a) (hd : d = a / 1000 ∨ d = a / 1000 + 1) :
    (∃ u : TimeUnit, elapsedLabel (d / (unitFor d).seconds) (unitFor d) =
      elapsedLabel (a / (1000 * u.seconds)) u ∧ (u = .second ∨ 1 ≤ a / (1000 * u.seconds))) ↔
      d = a / 1000 ∨ ¬(unitFor d).seconds ∣ d := by
  have hdiv : ∀ u : TimeUnit, a / (1000 * u.seconds) = a / 1000 / u.seconds := fun u =>
    (Int.ediv_ediv_of_nonneg (by decide)).symm
  have hle : ∀ u : TimeUnit, u.seconds < d → 1 ≤ a / 1000 / u.seconds := by
    intro u hu
    rw [Int.le_ediv_iff_mul_le u.seconds_pos]
    omega
  simp only [hdiv]
  constructor
  · rintro ⟨u, heq, -⟩
    obtain ⟨hquot, rfl⟩ := elapsedLabel_inj
      (Int.ediv_nonneg (by omega) (unitFor d).seconds_pos.le)
      (Int.ediv_nonneg (by omega) u.seconds_pos.le) heq
    rcases hd with hd | hd
    · exact .inl hd
    · refine .inr fun hdvd => ?_
      rw [hd] at hquot hdvd
      exact (succ_ediv_eq_iff _ _).mp hquot hdvd
  · intro h
    have hquot : d / (unitFor d).seconds = a / 1000 / (unitFor d).seconds := by
      rcases h with h | h
      · rw [← h]
      · rcases hd with hd | hd
        · rw [← hd]
        · rw [hd] at h ⊢
          exact (succ_ediv_eq_iff _ _).mpr h
    refine ⟨unitFor d, by rw [hquot], ?_⟩
    rw [or_iff_not_imp_left]
    exact fun hne => hle _ (unitFor_seconds_lt hne)

theorem week_lt_year : week < Js.year := by
  decide

theorem labels_week (h : age now op ≤ week) : Labels localTZA now op label ↔
    ∃ u : TimeUnit, label = elapsedLabel (age now op / (1000 * u.seconds)) u ∧
      (u = .second ∨ 1 ≤ age now op / (1000 * u.seconds)) := by
  have hyear := week_lt_year
  refine ⟨fun hl => hl.elapsed h, fun hl => ⟨fun h' => ?_, fun h' _ => ?_, fun _ => hl⟩⟩
  · omega
  · omega

theorem labels_day (h : week < age now op) (h' : age now op ≤ Js.year) :
    Labels localTZA now op label ↔
      label = dayLabel (month (localOp localTZA op)) (date (localOp localTZA op)) := by
  refine ⟨fun hl => hl.day h h', fun hl => ⟨fun hy => ?_, fun _ _ => hl, fun hw => ?_⟩⟩
  · omega
  · omega

theorem labels_year (h : Js.year < age now op) : Labels localTZA now op label ↔
    label = yearLabel (fullYear (localOp localTZA op)) := by
  have hyear := week_lt_year
  refine ⟨fun hl => hl.year h, fun hl => ⟨fun _ => hl, fun _ hy => ?_, fun hw => ?_⟩⟩
  · omega
  · omega

/-- The present time is not before the operation. -/
def NotBefore (now : ℤ) (optTime : JsString) : Prop :=
  1000 * opSeconds optTime ≤ now

/-- The label is the one for the operation. -/
def LabelRight (localTZA : ℤ → ℤ) (now : ℤ) (optTime : JsString) : Prop :=
  ∃ label, formatOptTime localTZA now optTime = some label ∧
    Labels localTZA now (opSeconds optTime) label

theorem labelRight_iff (h : formatOptTime localTZA now optTime = some label) :
    LabelRight localTZA now optTime ↔ Labels localTZA now (opSeconds optTime) label := by
  constructor
  · rintro ⟨label', h', hl⟩
    rwa [Option.some.inj (h.symm.trans h')]
  · exact fun hl => ⟨label, h, hl⟩

theorem age_nonneg (h : NotBefore now optTime) : 0 ≤ age now (opSeconds optTime) :=
  Int.sub_nonneg_of_le h

theorem labelRight_week (h : NotBefore now optTime) (hw : age now (opSeconds optTime) ≤ week) :
    LabelRight localTZA now optTime ↔ (RoundedDown now ∨
      ¬(unitFor (age now (opSeconds optTime) / 1000 + 1)).seconds ∣
        age now (opSeconds optTime) / 1000 + 1) := by
  have ha := age_nonneg h
  have hweek : week = 1000 * (7 * daySeconds) := rfl
  by_cases hr : RoundedDown now
  · have hd := clockAge_of_roundedDown hr (opSeconds optTime)
    rw [labelRight_iff (formatOptTime_elapsed (by omega) (by omega)), labels_week hw,
      elapsed_iff ha (.inl hd)]
    exact iff_of_true (.inl hd) (.inl hr)
  · obtain ⟨hd, hdvd⟩ := clockAge_of_not_roundedDown hr (opSeconds optTime)
    rw [labelRight_iff (formatOptTime_elapsed (by omega) (by omega)), labels_week hw,
      elapsed_iff ha (.inr hd), hd, or_iff_right (by omega), or_iff_right hr]

theorem labelRight_day (h : week < age now (opSeconds optTime))
    (h' : age now (opSeconds optTime) ≤ Js.year) :
    LabelRight localTZA now optTime ↔
      (RoundedDown now → week + 1000 ≤ age now (opSeconds optTime)) ∧
        month (now + localTZA now) = month (localOp localTZA (opSeconds optTime)) ∧
        date (now + localTZA now) = date (localOp localTZA (opSeconds optTime)) := by
  have hweek : week = 1000 * (7 * daySeconds) := rfl
  have hyear : Js.year = 1000 * yearSeconds := rfl
  by_cases hgap : RoundedDown now ∧ age now (opSeconds optTime) < week + 1000
  · -- just a week : seven days are told
    have hd := clockAge_of_roundedDown hgap.1 (opSeconds optTime)
    have hday : 0 < daySeconds := by decide
    rw [labelRight_iff (formatOptTime_elapsed (by omega) (by omega)), labels_day h h']
    refine iff_of_false (elapsedLabel_ne_dayLabel _ _ _ _) fun hr => ?_
    exact absurd (hr.1 hgap.1) (not_le.mpr hgap.2)
  · have hlate : RoundedDown now → week + 1000 ≤ age now (opSeconds optTime) :=
      fun hr => not_lt.mp fun hlt => hgap ⟨hr, hlt⟩
    have hd : 7 * daySeconds < clockAge now (opSeconds optTime) := lt_clockAge h hlate
    rw [labelRight_iff (formatOptTime_day hd (clockAge_le h')), labels_day h h', and_iff_right hlate]
    exact ⟨dayLabel_inj, fun heq => by rw [heq.1, heq.2]⟩

theorem labelRight_year (h : Js.year < age now (opSeconds optTime)) :
    LabelRight localTZA now optTime ↔
      (RoundedDown now → Js.year + 1000 ≤ age now (opSeconds optTime)) ∧
        fullYear (now + localTZA now) = fullYear (localOp localTZA (opSeconds optTime)) := by
  have hyear : Js.year = 1000 * yearSeconds := rfl
  have hlt : 7 * daySeconds < yearSeconds := by decide
  by_cases hgap : RoundedDown now ∧ age now (opSeconds optTime) < Js.year + 1000
  · -- just a year : the day is told
    have hd := clockAge_of_roundedDown hgap.1 (opSeconds optTime)
    rw [labelRight_iff (formatOptTime_day (by omega) (by omega)), labels_year h]
    refine iff_of_false (dayLabel_ne_yearLabel _ _ _) fun hr => ?_
    exact absurd (hr.1 hgap.1) (not_le.mpr hgap.2)
  · have hlate : RoundedDown now → Js.year + 1000 ≤ age now (opSeconds optTime) :=
      fun hr => not_lt.mp fun hlt => hgap ⟨hr, hlt⟩
    have hd : yearSeconds < clockAge now (opSeconds optTime) := lt_clockAge h hlate
    rw [labelRight_iff (formatOptTime_year hd), labels_year h, and_iff_right hlate]
    exact ⟨fun heq => yearLabel_injective heq, fun heq => by rw [heq]⟩

/-- The operations more than a year ago, by a second at least, have the same label. -/
theorem formatOptTime_old {optTime' : JsString} (hr : RoundedDown now)
    (h : Js.year + 1000 ≤ age now (opSeconds optTime))
    (h' : Js.year + 1000 ≤ age now (opSeconds optTime')) :
    formatOptTime localTZA now optTime = formatOptTime localTZA now optTime' := by
  have hyear : Js.year = 1000 * yearSeconds := rfl
  have hd := clockAge_of_roundedDown hr (opSeconds optTime)
  have hd' := clockAge_of_roundedDown hr (opSeconds optTime')
  rw [formatOptTime_year (by omega), formatOptTime_year (by omega)]

/-! ## The results -/

/-- The label is the one for the operation exactly if `SameLabel` holds. -/
theorem formatOptTime_iff (h : NotBefore now optTime) :
    LabelRight localTZA now optTime ↔ SameLabel localTZA now (opSeconds optTime) := by
  have hyear := week_lt_year
  unfold SameLabel
  rcases lt_or_ge week (age now (opSeconds optTime)) with hw | hw
  · rcases lt_or_ge Js.year (age now (opSeconds optTime)) with hy | hy
    · rw [labelRight_year hy, or_iff_right (by omega), or_iff_right (by omega), and_iff_right hy]
    · rw [labelRight_day hw hy, or_iff_right (by omega), or_iff_left (by omega),
        and_iff_right hw, and_iff_right hy]
  · rw [labelRight_week h hw, and_iff_right hw]
    refine (or_iff_left ?_).symm
    rintro (⟨hlate, -⟩ | ⟨hlate, -⟩) <;> omega

end

/-- China has one time zone. -/
def chinaTZA : ℤ → ℤ :=
  fun _ => 28800000

/-- 90 seconds are a minute. -/
theorem formatOptTime_minute : LabelRight chinaTZA 1404172890000 (text "1404172800") :=
  (formatOptTime_iff (by unfold NotBefore; decide +kernel)).mpr
    (.inl ⟨by decide +kernel, .inl (.inl (by decide))⟩)

/-- At the first of July 2014, operations of the first of January 2012 and 2013 both have the label
"2014年", and one of the first of June 2014 has the label "7月1日". -/
theorem formatOptTime_2014 :
    formatOptTime chinaTZA 1404144000000 (text "1325347200") = some (text "2014年") ∧
    formatOptTime chinaTZA 1404144000000 (text "1356969600") = some (text "2014年") ∧
    formatOptTime chinaTZA 1404144000000 (text "1401552000") = some (text "7月1日") ∧
    fullYear (localOp chinaTZA 1325347200) = 2012 ∧
    fullYear (localOp chinaTZA 1356969600) = 2013 ∧
    ¬LabelRight chinaTZA 1404144000000 (text "1325347200") ∧
    ¬LabelRight chinaTZA 1404144000000 (text "1356969600") ∧
    ¬LabelRight chinaTZA 1404144000000 (text "1401552000") := by
  have h2012 : formatOptTime chinaTZA 1404144000000 (text "1325347200") =
      some (text "2014年") := by decide +kernel
  have h2013 : formatOptTime chinaTZA 1404144000000 (text "1356969600") =
      some (text "2014年") := by decide +kernel
  have hjune : formatOptTime chinaTZA 1404144000000 (text "1401552000") =
      some (text "7月1日") := by decide +kernel
  refine ⟨h2012, h2013, hjune, by decide +kernel, by decide +kernel, ?_, ?_, ?_⟩
  · rw [labelRight_iff h2012]
    exact fun hl => absurd (hl.year (by decide +kernel)) (by decide +kernel)
  · rw [labelRight_iff h2013]
    exact fun hl => absurd (hl.year (by decide +kernel)) (by decide +kernel)
  · rw [labelRight_iff hjune]
    exact fun hl => absurd (hl.day (by decide +kernel) (by decide +kernel)) (by decide +kernel)

end Js

end MySocket
