import MySocket.JsText
import Mathlib.Algebra.Group.Nat.Defs

/-!
# The text of a number in JavaScript

`numberText` is `toString` of a finite number : the fewest digits that the number is read back from,
with the point where it belongs or with an exponent. `numericLiteral` reads a decimal literal.

`literalNumber_positiveText` : the text of a number that is not negative is a literal for it.
-/

namespace MySocket

namespace Js

/-! ## Digits -/

/-- An integer times a power of ten. -/
structure Decimal where
  digits : ℕ
  exponent : ℤ
deriving DecidableEq

namespace Decimal

/-- The value. -/
def val (x : Decimal) : ℚ :=
  x.digits * 10 ^ x.exponent

/-- The number is what the decimal is rounded to. -/
def Shows (x : Decimal) (d : Double) : Prop :=
  Number.round x.val = .finite d

instance (x : Decimal) (d : Double) : Decidable (x.Shows d) :=
  inferInstanceAs (Decidable (Number.round x.val = .finite d))

end Decimal

/-- How many digits stand in front of the point. -/
def pointPlace (q : ℚ) : ℤ :=
  Int.log 10 q + 1

/-- The decimal of `k` digits that is not above `q`. -/
def below (q : ℚ) (k : ℕ) : Decimal :=
  ⟨⌊q / 10 ^ (pointPlace q - k)⌋.toNat, pointPlace q - k⟩

/-- The next decimal of `k` digits. -/
def above (q : ℚ) (k : ℕ) : Decimal :=
  if (below q k).digits + 1 = 10 ^ k then ⟨1, pointPlace q⟩
  else ⟨(below q k).digits + 1, (below q k).exponent⟩

/-- The number is nearer to the decimal below, or that is even where it is as near to both. -/
def IsBelow (q : ℚ) (k : ℕ) : Prop :=
  q - (below q k).val < (above q k).val - q ∨
    q - (below q k).val = (above q k).val - q ∧ (below q k).digits % 2 = 0

instance (q : ℚ) (k : ℕ) : Decidable (IsBelow q k) :=
  inferInstanceAs (Decidable (_ ∨ _))

/-- A decimal of `k` digits that shows the number. -/
def ofDigits (d : Double) (k : ℕ) : Option Decimal :=
  if (below d.val k).Shows d ∧ (above d.val k).Shows d then
    some (if IsBelow d.val k then below d.val k else above d.val k)
  else if (below d.val k).Shows d then some (below d.val k)
  else if (above d.val k).Shows d then some (above d.val k)
  else none

/-- All digits of a double. -/
def allDigits (d : Double) : Decimal :=
  ⟨⌊d.val * 10 ^ 1074⌋.toNat, -1074⟩

/-- The shortest decimal for a positive number. Seventeen digits are enough for each. -/
def shortest (d : Double) : Decimal :=
  ((List.range 17).findSome? fun i => ofDigits d (i + 1)).getD (allDigits d)

/-! ## Text -/

/-- Zeros. -/
def zeros (n : ℕ) : JsString :=
  List.replicate n (unit '0')

/-- `e` with an exponent. -/
def exponentText (n : ℤ) : JsString :=
  unit 'e' :: (if n < 0 then unit '-' else unit '+') :: natText n.natAbs

/-- Digits, with the point behind the first `n` of them. -/
def layout (digits : JsString) (n : ℤ) : JsString :=
  if digits.length ≤ n ∧ n ≤ 21 then digits ++ zeros (n - digits.length).toNat
  else if 0 < n ∧ n ≤ 21 then digits.take n.toNat ++ unit '.' :: digits.drop n.toNat
  else if -6 < n ∧ n ≤ 0 then unit '0' :: unit '.' :: (zeros (-n).toNat ++ digits)
  else if digits.length = 1 then digits ++ exponentText (n - 1)
  else digits.take 1 ++ unit '.' :: (digits.drop 1 ++ exponentText (n - 1))

/-- The text of a number that is not negative. -/
def positiveText (d : Double) : JsString :=
  if d.val = 0 then [unit '0']
  else
    layout (natText (shortest d).digits)
      ((natText (shortest d).digits).length + (shortest d).exponent)

theorem IsDouble.neg {q : ℚ} (h : IsDouble q) : IsDouble (-q) := by
  obtain ⟨m, e, hm, hmin, hmax, rfl⟩ := h
  exact ⟨-m, e, by rwa [abs_neg], hmin, hmax, by push_cast; ring⟩

/-- `-` -/
def Double.neg (d : Double) : Double :=
  ⟨-d.val, d.isDouble.neg⟩

/-- `toString` of a finite number. -/
def numberText (d : Double) : JsString :=
  if d.val < 0 then unit '-' :: positiveText d.neg else positiveText d

/-! ## Literals -/

/-- A decimal literal, which has no zero before another digit. -/
def numericLiteral (s : JsString) : Option ℚ :=
  if s.head? = some (unit '0') ∧ (s.tail.head?).any (isDigit 10) then none else unsignedDecimal s

/-- The finite number of a decimal literal. -/
def literalNumber (s : JsString) : Option Double :=
  (numericLiteral s).bind fun q =>
    match Number.round q with
    | .finite d => some d
    | _ => none

/-! ### What is read of digits -/

section

variable {whole frac digits s t : JsString} {n : ℤ}

@[simp] theorem digitsVal_zeros (n : ℕ) : digitsVal 10 (zeros n) = 0 := by
  induction n with
  | zero => rfl
  | succ n ih =>
    rw [zeros, List.replicate_succ', digitsVal_concat, ← zeros, ih]
    rfl

theorem isDigit_of_mem_zeros {c : UInt16} {n : ℕ} (h : c ∈ zeros n) : isDigit 10 c = true := by
  rw [List.eq_of_mem_replicate h]
  decide

/-- What follows the digits does not go on with one. -/
def NoDigit (s : JsString) : Prop :=
  ∀ c ∈ s.head?, isDigit 10 c = false

theorem takeWhile_isDigit (hs : ∀ c ∈ s, isDigit 10 c = true) (ht : NoDigit t) :
    (s ++ t).takeWhile (isDigit 10) = s := by
  rw [List.takeWhile_append_of_pos hs]
  cases t with
  | nil => simp
  | cons c t =>
    rw [List.takeWhile_cons_of_neg (by simp [ht c rfl]), List.append_nil]

theorem dropWhile_isDigit (hs : ∀ c ∈ s, isDigit 10 c = true) (ht : NoDigit t) :
    (s ++ t).dropWhile (isDigit 10) = t := by
  rw [List.dropWhile_append_of_pos hs]
  cases t with
  | nil => rfl
  | cons c t => rw [List.dropWhile_cons_of_neg (by simp [ht c rfl])]

/-- Digits without a point. -/
theorem unsignedDecimal_whole (hwhole : areDigits 10 whole = true) (ht : NoDigit t)
    (hpoint : t.head? ≠ some (unit '.')) :
    unsignedDecimal (whole ++ t) =
      (exponentVal t).map fun e => (digitsVal 10 whole : ℚ) * 10 ^ e := by
  obtain ⟨hne, hdigit⟩ := areDigits_iff.mp hwhole
  have hsplit : splitFraction t = ([], t) := by
    cases t with
    | nil => rfl
    | cons c t => exact if_neg fun h => hpoint (congrArg some h)
  simp [unsignedDecimal, takeWhile_isDigit hdigit ht, dropWhile_isDigit hdigit ht, hsplit, hne]

/-- Digits with a point. -/
theorem unsignedDecimal_point (hwhole : areDigits 10 whole = true)
    (hfrac : ∀ c ∈ frac, isDigit 10 c = true) (ht : NoDigit t) :
    unsignedDecimal (whole ++ unit '.' :: (frac ++ t)) =
      (exponentVal t).map fun e =>
        (digitsVal 10 (whole ++ frac) : ℚ) * 10 ^ (e - (frac.length : ℤ)) := by
  obtain ⟨hne, hdigit⟩ := areDigits_iff.mp hwhole
  have hnoDigit : NoDigit (unit '.' :: (frac ++ t)) := by
    intro c hc
    cases hc
    decide
  have hsplit : splitFraction (unit '.' :: (frac ++ t)) = (frac, t) := by
    rw [splitFraction, if_pos (by decide), takeWhile_isDigit hfrac ht, dropWhile_isDigit hfrac ht]
  simp [unsignedDecimal, takeWhile_isDigit hdigit hnoDigit, dropWhile_isDigit hdigit hnoDigit,
    hsplit, hne]

theorem noDigit_exponentText (n : ℤ) : NoDigit (exponentText n) := by
  intro c hc
  cases hc
  decide

@[simp] theorem exponentVal_exponentText (n : ℤ) : exponentVal (exponentText n) = some n := by
  rw [exponentText]
  split_ifs with hneg
  · have hread : exponentVal (unit 'e' :: unit '-' :: natText n.natAbs) =
        some (-(digitsVal 10 (natText n.natAbs) : ℤ)) :=
      if_pos ⟨by decide, areDigits_natText _⟩
    rw [hread, digitsVal_natText]
    exact congrArg some (by omega)
  · have hread : exponentVal (unit 'e' :: unit '+' :: natText n.natAbs) =
        some (digitsVal 10 (natText n.natAbs) : ℤ) :=
      if_pos ⟨by decide, areDigits_natText _⟩
    rw [hread, digitsVal_natText]
    exact congrArg some (by omega)

theorem areDigits_take (h : areDigits 10 digits = true) {k : ℕ} (hk : 0 < k) :
    areDigits 10 (digits.take k) = true := by
  obtain ⟨hne, hdigit⟩ := areDigits_iff.mp h
  refine areDigits_iff.mpr ⟨?_, fun c hc => hdigit c (List.mem_of_mem_take hc)⟩
  rw [Ne, List.take_eq_nil_iff, not_or]
  exact ⟨hk.ne', hne⟩

/-- The point is read where it was put. -/
theorem unsignedDecimal_layout (h : areDigits 10 digits = true) (n : ℤ) :
    unsignedDecimal (layout digits n) =
      some ((digitsVal 10 digits : ℚ) * 10 ^ (n - (digits.length : ℤ))) := by
  have hdigit := (areDigits_iff.mp h).2
  have hdrop : ∀ k, ∀ c ∈ digits.drop k, isDigit 10 c = true := fun k c hc =>
    hdigit c (List.mem_of_mem_drop hc)
  unfold layout
  split_ifs with hwhole hpoint hsmall hone
  · have hzeros : areDigits 10 (digits ++ zeros (n - digits.length).toNat) = true := by
      refine areDigits_iff.mpr ⟨List.append_ne_nil_of_left_ne_nil (areDigits_iff.mp h).1 _, ?_⟩
      intro c hc
      rcases List.mem_append.mp hc with hc | hc
      · exact hdigit c hc
      · exact isDigit_of_mem_zeros hc
    have hexp : n - (digits.length : ℤ) = ((n - digits.length).toNat : ℤ) := by omega
    rw [unsignedDecimal_of_areDigits hzeros, digitsVal_append, digitsVal_zeros, hexp, zpow_natCast,
      zeros, List.length_replicate]
    push_cast
    simp
  · have hread := unsignedDecimal_point (areDigits_take h (k := n.toNat) (by omega))
      (hdrop n.toNat) (t := []) (by intro c hc; cases hc)
    rw [List.append_nil] at hread
    rw [hread, List.take_append_drop, exponentVal, Option.map_some, List.length_drop]
    congr 3
    omega
  · have hfrac : ∀ c ∈ zeros (-n).toNat ++ digits, isDigit 10 c = true := by
      intro c hc
      rcases List.mem_append.mp hc with hc | hc
      · exact isDigit_of_mem_zeros hc
      · exact hdigit c hc
    have hzero : areDigits 10 (zeros 1) = true := by decide
    have hread := unsignedDecimal_point hzero hfrac (t := [])
      (by intro c hc; cases hc)
    rw [List.append_nil] at hread
    refine hread.trans ?_
    rw [exponentVal, Option.map_some, digitsVal_append, digitsVal_append, digitsVal_zeros,
      digitsVal_zeros, zero_mul, zero_mul, zero_add, zero_add, List.length_append, zeros,
      List.length_replicate]
    congr 3
    omega
  · have hpoint : (exponentText (n - 1)).head? ≠ some (unit '.') := by
      intro heq
      cases heq
    rw [unsignedDecimal_whole h (noDigit_exponentText _) hpoint, exponentVal_exponentText,
      Option.map_some, hone]
    rfl
  · have hread := unsignedDecimal_point (areDigits_take h one_pos) (hdrop 1)
      (noDigit_exponentText (n - 1))
    have hlen : 0 < digits.length := List.length_pos_iff.mpr (areDigits_iff.mp h).1
    rw [hread, List.take_append_drop, exponentVal_exponentText, Option.map_some, List.length_drop]
    congr 3
    omega

/-- The text does not begin with a zero before a digit. -/
theorem numericLiteral_layout (h : areDigits 10 digits = true)
    (hhead : digits.head? ≠ some (unit '0')) (n : ℤ) :
    numericLiteral (layout digits n) = unsignedDecimal (layout digits n) := by
  refine if_neg fun ⟨hzero, hnext⟩ => ?_
  obtain ⟨c, cs, rfl⟩ := List.exists_cons_of_ne_nil (areDigits_iff.mp h).1
  unfold layout at hzero hnext
  split_ifs at hzero hnext with hwhole hpoint hsmall hone
  · exact hhead hzero
  · obtain ⟨k, hk⟩ : ∃ k, n.toNat = k + 1 := ⟨n.toNat - 1, by omega⟩
    rw [hk] at hzero
    exact hhead hzero
  · cases hnext
  · exact hhead hzero
  · exact hhead hzero

end

/-! ### The units of a literal -/

/-- What a decimal literal consists of. -/
def isNumberUnit (c : UInt16) : Bool :=
  isDigit 10 c || c = unit '.' || c = unit 'e' || c = unit 'E' || c = unit '+' || c = unit '-'

section

variable {s t : JsString} {q : ℚ}

theorem isNumberUnit_of_isDigit {c : UInt16} (h : isDigit 10 c = true) : isNumberUnit c = true := by
  simp [isNumberUnit, h]

theorem splitSign_cases (s : JsString) :
    s = (splitSign s).2 ∨ ∃ c, (c = unit '-' ∨ c = unit '+') ∧ s = c :: (splitSign s).2 := by
  cases s with
  | nil => exact .inl rfl
  | cons c s =>
    simp only [splitSign]
    split_ifs with hminus hplus
    · exact .inr ⟨c, .inl hminus, rfl⟩
    · exact .inr ⟨c, .inr hplus, rfl⟩
    · exact .inl rfl

theorem isNumberUnit_of_exponentVal {e : ℤ} (h : exponentVal s = some e) :
    ∀ c ∈ s, isNumberUnit c = true := by
  cases s with
  | nil => exact fun c hc => absurd hc List.not_mem_nil
  | cons c s =>
    have hexp : (c = 101 ∨ c = 69) ∧ areDigits 10 (splitSign s).2 = true := by
      by_contra hno
      rw [exponentVal, if_neg hno] at h
      cases h
    have hdigits : ∀ c ∈ (splitSign s).2, isNumberUnit c = true := fun c hc =>
      isNumberUnit_of_isDigit ((areDigits_iff.mp hexp.2).2 c hc)
    have hletter : isNumberUnit c = true := by
      rcases hexp.1 with rfl | rfl <;> decide
    refine List.forall_mem_cons.mpr ⟨hletter, ?_⟩
    rcases splitSign_cases s with hs | ⟨sign, hsign, hs⟩
    · rwa [hs]
    · rw [hs]
      refine List.forall_mem_cons.mpr ⟨?_, hdigits⟩
      rcases hsign with rfl | rfl <;> decide

theorem splitFraction_cases (s : JsString) :
    splitFraction s = ([], s) ∨
      (∀ c ∈ (splitFraction s).1, isDigit 10 c = true) ∧
        s = unit '.' :: ((splitFraction s).1 ++ (splitFraction s).2) := by
  cases s with
  | nil => exact .inl rfl
  | cons c s =>
    simp only [splitFraction]
    split_ifs with hpoint
    · refine .inr ⟨fun c hc => List.mem_takeWhile_imp hc, ?_⟩
      rw [List.takeWhile_append_dropWhile, hpoint]
      rfl
    · exact .inl rfl

theorem unsignedDecimal_eq_some (h : unsignedDecimal s = some q) :
    s.takeWhile (isDigit 10) ++ (splitFraction (s.dropWhile (isDigit 10))).1 ≠ [] ∧
      ∃ e, exponentVal (splitFraction (s.dropWhile (isDigit 10))).2 = some e := by
  simp only [unsignedDecimal] at h
  split_ifs at h with hempty
  obtain ⟨e, he, -⟩ := Option.map_eq_some_iff.mp h
  exact ⟨hempty, e, he⟩

theorem isNumberUnit_of_unsignedDecimal (h : unsignedDecimal s = some q) :
    ∀ c ∈ s, isNumberUnit c = true := by
  obtain ⟨-, e, he⟩ := unsignedDecimal_eq_some h
  rw [← List.takeWhile_append_dropWhile (p := isDigit 10) (l := s), List.forall_mem_append]
  refine ⟨fun c hc => isNumberUnit_of_isDigit (List.mem_takeWhile_imp hc), ?_⟩
  have hrest := isNumberUnit_of_exponentVal he
  rcases splitFraction_cases (s.dropWhile (isDigit 10)) with hsplit | ⟨hfrac, hsplit⟩
  · rwa [hsplit] at hrest
  · rw [hsplit]
    refine List.forall_mem_cons.mpr ⟨by decide, List.forall_mem_append.mpr ⟨?_, hrest⟩⟩
    exact fun c hc => isNumberUnit_of_isDigit (hfrac c hc)

/-- A literal begins with a digit or with the point. -/
theorem exists_cons_of_unsignedDecimal (h : unsignedDecimal s = some q) :
    ∃ c t, s = c :: t ∧ (isDigit 10 c = true ∨ c = unit '.') := by
  obtain ⟨hempty, -⟩ := unsignedDecimal_eq_some h
  have hs := List.takeWhile_append_dropWhile (p := isDigit 10) (l := s)
  cases htake : s.takeWhile (isDigit 10) with
  | nil =>
    rw [htake] at hs hempty
    rcases splitFraction_cases (s.dropWhile (isDigit 10)) with hsplit | ⟨-, hsplit⟩
    · rw [hsplit] at hempty
      exact absurd rfl hempty
    · rw [hsplit] at hs
      exact ⟨_, _, hs.symm, .inr rfl⟩
  | cons c t =>
    have hdigit : isDigit 10 c = true := List.mem_takeWhile_imp (htake ▸ List.mem_cons_self)
    rw [htake] at hs
    exact ⟨c, _, hs.symm, .inl hdigit⟩

theorem unsignedDecimal_of_numericLiteral (h : numericLiteral s = some q) :
    unsignedDecimal s = some q := by
  unfold numericLiteral at h
  split_ifs at h
  exact h

theorem unsignedDecimal_of_literalNumber {d : Double} (h : literalNumber s = some d) :
    ∃ q, unsignedDecimal s = some q := by
  obtain ⟨q, hq, -⟩ := Option.bind_eq_some_iff.mp h
  exact ⟨q, unsignedDecimal_of_numericLiteral hq⟩

end

/-! ## The number is read back -/

section

variable {d : Double} {x : Decimal}

theorem shows_ofDigits {k : ℕ} (h : ofDigits d k = some x) : x.Shows d := by
  unfold ofDigits at h
  split_ifs at h with hboth hchoice hbelow habove <;> cases h
  · exact hboth.1
  · exact hboth.2
  · exact hbelow
  · exact habove

/-- A double has no more digits than that. -/
theorem val_allDigits (hd : 0 ≤ d.val) : (allDigits d).val = d.val := by
  obtain ⟨k, hk⟩ := exists_mul_of_isDouble d.isDouble
  have hscale : ∀ n : ℕ, (k : ℚ) * 2 ^ (-(n : ℤ)) * 10 ^ n = (k * 5 ^ n : ℤ) := by
    intro n
    have hten : (10 : ℚ) ^ n = 2 ^ n * 5 ^ n := by
      rw [← mul_pow]
      norm_num
    rw [hten, zpow_neg, zpow_natCast, ← mul_assoc, mul_assoc (k : ℚ),
      inv_mul_cancel₀ (pow_ne_zero n two_ne_zero), mul_one]
    push_cast
    rfl
  have hint : d.val * 10 ^ 1074 = (k * 5 ^ 1074 : ℤ) := by
    rw [hk]
    exact hscale 1074
  have hnonneg : (0 : ℤ) ≤ ⌊d.val * 10 ^ 1074⌋ :=
    Int.floor_nonneg.mpr (mul_nonneg hd (by positivity))
  have hdigits : (((allDigits d).digits : ℤ) : ℚ) = d.val * 10 ^ 1074 := by
    rw [allDigits, Int.toNat_of_nonneg hnonneg, hint, Int.floor_intCast]
  have hpow : (10 : ℚ) ^ (-1074 : ℤ) = (10 ^ 1074)⁻¹ := zpow_neg 10 (1074 : ℕ)
  rw [Int.cast_natCast] at hdigits
  rw [Decimal.val, hdigits, allDigits, hpow, mul_assoc,
    mul_inv_cancel₀ (pow_ne_zero 1074 (by norm_num)), mul_one]

theorem shows_shortest (hd : 0 ≤ d.val) : (shortest d).Shows d := by
  unfold shortest
  cases hfind : (List.range 17).findSome? fun i => ofDigits d (i + 1) with
  | none =>
    rw [Option.getD_none, Decimal.Shows, val_allDigits hd]
    exact Number.round_double d
  | some x =>
    obtain ⟨i, -, hi⟩ := List.exists_of_findSome?_eq_some hfind
    exact shows_ofDigits hi

theorem digits_ne_zero (hd : d.val ≠ 0) (h : x.Shows d) : x.digits ≠ 0 := by
  intro hzero
  rw [Decimal.Shows, Decimal.val, hzero, Nat.cast_zero, zero_mul, Number.round_zero] at h
  have hval : d.val = (0 : ℤ) := Number.finite_inj.mp h.symm
  exact hd (hval.trans Int.cast_zero)

theorem head_natText_ne {n : ℕ} (hn : n ≠ 0) : (natText n).head? ≠ some (unit '0') := by
  intro h
  rw [List.head?_eq_some_head (natText_ne_nil n)] at h
  exact head_natText hn (Option.some.inj h)

/-- The text of a number that is not negative is a literal for it. -/
theorem literalNumber_positiveText (hd : 0 ≤ d.val) : literalNumber (positiveText d) = some d := by
  unfold positiveText
  split_ifs with hzero
  · have hread : numericLiteral [unit '0'] = some 0 := by
      have h := unsignedDecimal_of_areDigits (s := [unit '0']) (by decide)
      refine h.trans (congrArg some ?_)
      have hval : digitsVal 10 [unit '0'] = 0 := by decide
      rw [hval, Nat.cast_zero]
    rw [literalNumber, hread, Option.bind_some, ← hzero, Number.round_double]
  · have hshows := shows_shortest hd
    have hdigits := areDigits_natText (shortest d).digits
    have hexp : ((natText (shortest d).digits).length : ℤ) + (shortest d).exponent -
        ((natText (shortest d).digits).length : ℤ) = (shortest d).exponent := by
      omega
    have hhead := head_natText_ne (digits_ne_zero hzero hshows)
    rw [literalNumber, numericLiteral_layout hdigits hhead, unsignedDecimal_layout hdigits, hexp,
      digitsVal_natText, Option.bind_some]
    rw [Decimal.Shows, Decimal.val] at hshows
    rw [hshows]

end

end Js

end MySocket
