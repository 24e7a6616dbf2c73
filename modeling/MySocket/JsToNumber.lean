import MySocket.JsNumber
import Mathlib.Data.List.TakeDrop
import Mathlib.Data.List.DropRight

/-!
# Strings as numbers in JavaScript

A string of JavaScript is a list of 16-bit code units. `toNumber` is what ECMAScript makes of
one where a number is needed : white space at both ends does not count, nothing is zero, and
there are decimal literals with sign, fraction and exponent, `Infinity`, and integers in the
bases 16, 8 and 2. All else is NaN. All digits of a decimal literal count, where ECMAScript
lets an engine ignore those after the twentieth.

`toNumber_digits` : decimal digits are their value, rounded.
-/

namespace MySocket

namespace Js

abbrev JsString := List UInt16

/-! ## Characters -/

/-- White space and line terminators. -/
def isSpace (c : UInt16) : Bool :=
  9 ≤ c && c ≤ 13 || c = 0x20 || c = 0xA0 || c = 0x1680 || 0x2000 ≤ c && c ≤ 0x200A ||
    c = 0x2028 || c = 0x2029 || c = 0x202F || c = 0x205F || c = 0x3000 || c = 0xFEFF

/-- The value of `0` to `9`, `A` to `F` and `a` to `f`. -/
def digitVal (c : UInt16) : Option ℕ :=
  if 48 ≤ c ∧ c ≤ 57 then some (c.toNat - 48)
  else if 65 ≤ c ∧ c ≤ 70 then some (c.toNat - 55)
  else if 97 ≤ c ∧ c ≤ 102 then some (c.toNat - 87)
  else none

def isDigit (base : ℕ) (c : UInt16) : Bool :=
  (digitVal c).any fun v => v < base

/-- The value of digits. -/
def digitsVal (base : ℕ) (s : JsString) : ℕ :=
  s.foldl (fun n c => base * n + (digitVal c).getD 0) 0

/-- There are digits, and nothing else. -/
def areDigits (base : ℕ) (s : JsString) : Bool :=
  !s.isEmpty && s.all (isDigit base)

/-- Without the white space at both ends. -/
def trim (s : JsString) : JsString :=
  (s.dropWhile isSpace).rdropWhile isSpace

/-! ## Literals -/

/-- The base that is meant by `x`, `o` and `b`. -/
def prefixBase (c : UInt16) : Option ℕ :=
  if c = 120 ∨ c = 88 then some 16
  else if c = 111 ∨ c = 79 then some 8
  else if c = 98 ∨ c = 66 then some 2
  else none

/-- `0x`, `0o` or `0b` with digits. -/
def nonDecimal : JsString → Option Number
  | c :: p :: ds =>
    if c = 48 then
      (prefixBase p).bind fun base =>
        if areDigits base ds then some (.round (digitsVal base ds)) else none
    else none
  | _ => none

/-- Whether there is a minus, and what follows the sign. -/
def splitSign : JsString → Bool × JsString
  | [] => (false, [])
  | c :: s => if c = 45 then (true, s) else if c = 43 then (false, s) else (false, c :: s)

/-- `Infinity` -/
def infinityText : JsString :=
  [73, 110, 102, 105, 110, 105, 116, 121]

/-- The fraction, and what follows. -/
def splitFraction : JsString → JsString × JsString
  | [] => ([], [])
  | c :: s => if c = 46 then (s.takeWhile (isDigit 10), s.dropWhile (isDigit 10)) else ([], c :: s)

/-- The exponent. -/
def exponentVal : JsString → Option ℤ
  | [] => some 0
  | c :: s =>
    if (c = 101 ∨ c = 69) ∧ areDigits 10 (splitSign s).2 then
      some (if (splitSign s).1 then -digitsVal 10 (splitSign s).2 else digitsVal 10 (splitSign s).2)
    else none

/-- Digits with a fraction and an exponent. -/
def unsignedDecimal (s : JsString) : Option ℚ :=
  let whole := s.takeWhile (isDigit 10)
  let (frac, rest) := splitFraction (s.dropWhile (isDigit 10))
  if whole ++ frac = [] then none
  else (exponentVal rest).map fun e : ℤ =>
    (digitsVal 10 (whole ++ frac) : ℚ) * 10 ^ (e - (frac.length : ℤ))

/-- A decimal literal with a sign. -/
def decimal (s : JsString) : Option Number :=
  let (negative, s) := splitSign s
  if s = infinityText then some (.infinity negative)
  else (unsignedDecimal s).map fun q => .round (if negative then -q else q)

/-- The number that a string is. -/
def toNumber (s : JsString) : Number :=
  if trim s = [] then .zero
  else ((nonDecimal (trim s)).or (decimal (trim s))).getD .nan

/-! ## Digits -/

section

variable {s : JsString}

theorem isDigit_iff {c : UInt16} : isDigit 10 c = true ↔ 48 ≤ c.toNat ∧ c.toNat ≤ 57 := by
  unfold isDigit digitVal
  simp only [UInt16.le_iff_toNat_le, UInt16.reduceToNat]
  split_ifs with h1 h2 h3
  · exact iff_of_true (by simp; omega) h1
  · exact iff_of_false (by simp; omega) h1
  · exact iff_of_false (by simp; omega) h1
  · exact iff_of_false (by simp) h1

theorem not_isSpace_of_isDigit {c : UInt16} (h : isDigit 10 c = true) : isSpace c = false := by
  have hrange := isDigit_iff.mp h
  simp only [isSpace, Bool.or_eq_false_iff, Bool.and_eq_false_iff, decide_eq_false_iff_not,
    UInt16.le_iff_toNat_le, ← UInt16.toNat_inj, UInt16.reduceToNat]
  omega

theorem areDigits_iff {base : ℕ} :
    areDigits base s = true ↔ s ≠ [] ∧ ∀ c ∈ s, isDigit base c = true := by
  simp [areDigits]

theorem trim_of_areDigits (h : areDigits 10 s = true) : trim s = s := by
  obtain ⟨hne, hdigit⟩ := areDigits_iff.mp h
  have hspace : ∀ c ∈ s, isSpace c = false := fun c hc => not_isSpace_of_isDigit (hdigit c hc)
  have hfront : s.dropWhile isSpace = s :=
    List.dropWhile_eq_self_iff.mpr fun hlen => by simp [hspace]
  rw [trim, hfront, List.rdropWhile_eq_self_iff]
  exact fun hl => by simp [hspace]

theorem nonDecimal_of_areDigits (h : areDigits 10 s = true) : nonDecimal s = none := by
  have hdigit := (areDigits_iff.mp h).2
  match s with
  | [] => rfl
  | [c] => rfl
  | c :: p :: ds =>
    have hp := isDigit_iff.mp (hdigit p (by simp))
    have hbase : prefixBase p = none := by
      unfold prefixBase
      simp only [← UInt16.toNat_inj, UInt16.reduceToNat]
      rw [if_neg (by omega), if_neg (by omega), if_neg (by omega)]
    simp [nonDecimal, hbase]

theorem splitSign_of_areDigits (h : areDigits 10 s = true) : splitSign s = (false, s) := by
  have hdigit := (areDigits_iff.mp h).2
  match s with
  | [] => rfl
  | c :: s =>
    have hc := isDigit_iff.mp (hdigit c (by simp))
    simp only [splitSign, ← UInt16.toNat_inj, UInt16.reduceToNat]
    rw [if_neg (by omega), if_neg (by omega)]

theorem unsignedDecimal_of_areDigits (h : areDigits 10 s = true) :
    unsignedDecimal s = some (digitsVal 10 s : ℚ) := by
  obtain ⟨hne, hdigit⟩ := areDigits_iff.mp h
  have htake : s.takeWhile (isDigit 10) = s := List.takeWhile_eq_self_iff.mpr hdigit
  have hdrop : s.dropWhile (isDigit 10) = [] := List.dropWhile_eq_nil_iff.mpr hdigit
  simp [unsignedDecimal, htake, hdrop, splitFraction, exponentVal, hne]

theorem decimal_of_areDigits (h : areDigits 10 s = true) :
    decimal s = some (.round (digitsVal 10 s)) := by
  have hne : s ≠ infinityText := by
    rintro rfl
    exact absurd h (by decide)
  simp [decimal, splitSign_of_areDigits h, hne, unsignedDecimal_of_areDigits h]

/-- Decimal digits are their value. -/
theorem toNumber_digits (h : areDigits 10 s = true) : toNumber s = .round (digitsVal 10 s) := by
  rw [toNumber, trim_of_areDigits h, if_neg (areDigits_iff.mp h).1, nonDecimal_of_areDigits h,
    decimal_of_areDigits h]
  rfl

end

end Js

end MySocket
