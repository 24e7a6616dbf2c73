import MySocket.Rounding
import Mathlib.Order.WithBot

/-!
# The numbers of JavaScript

A `Double` is a finite number : 53 binary digits and an exponent between two bounds. `Number`
has the infinities and NaN as well; the two zeros are one number here, since neither `-`, `<`
nor `!=` tells them apart. `Number.round` is the nearest number, ties to even, with gradual
underflow and with overflow to an infinity.

* `round_double` : what is a double is not rounded.
* `IsFinite.cases_sub` : the difference of two doubles, though it is rounded and can overflow, has the
  sign of their comparison.
* `orZero_lt_orZero` : with NaN for zero the numbers are in one order, the rationals with two
  ends.
-/

namespace MySocket

/-! ## Rounding to an integer -/

section

variable {q : ℚ} {n : ℤ}

theorem le_roundHalfEven (h : (n : ℚ) ≤ q) : n ≤ roundHalfEven q := by
  have hfloor : n ≤ ⌊q⌋ := Int.le_floor.mpr h
  unfold roundHalfEven
  split_ifs
  · exact hfloor
  · omega

theorem roundHalfEven_le (h : q ≤ n) : roundHalfEven q ≤ n :=
  (roundHalfEven_le_ceil q).trans (Int.ceil_le.mpr h)

theorem le_abs_roundHalfEven (h : (n : ℚ) ≤ |q|) : n ≤ |roundHalfEven q| := by
  rcases le_abs.mp h with hpos | hneg
  · exact (le_roundHalfEven hpos).trans (le_abs_self _)
  · have hle : roundHalfEven q ≤ -n := roundHalfEven_le (by push_cast; linarith)
    exact (le_neg_of_le_neg hle).trans (neg_le_abs _)

@[simp] theorem roundHalfEven_intCast (n : ℤ) : roundHalfEven n = n :=
  le_antisymm (roundHalfEven_le le_rfl) (le_roundHalfEven le_rfl)

@[simp] theorem roundHalfEven_zero : roundHalfEven 0 = 0 :=
  roundHalfEven_intCast 0

end

namespace Js

/-- An integer of 53 binary digits times a power of two. -/
def IsDouble (q : ℚ) : Prop :=
  ∃ m e : ℤ, |m| < 2 ^ 53 ∧ -1074 ≤ e ∧ e ≤ 971 ∧ q = m * 2 ^ e

/-- A finite number. -/
structure Double where
  val : ℚ
  isDouble : IsDouble val
deriving DecidableEq

/-- A number. -/
inductive Number
  | nan
  | infinity (negative : Bool)
  | finite (d : Double)
deriving DecidableEq

/-! ## Doubles -/

section

variable {q : ℚ}

/-- The exponent of the last binary digit that is kept of `q`. -/
def lastPlace (q : ℚ) : ℤ :=
  max (Int.log 2 |q| - 52) (-1074)

/-- How often the last digit is in the nearest double. -/
def significand (q : ℚ) : ℤ :=
  roundHalfEven (q / 2 ^ lastPlace q)

theorem two_zpow_pos (e : ℤ) : (0 : ℚ) < 2 ^ e :=
  zpow_pos two_pos e

@[simp] theorem lastPlace_zero : lastPlace 0 = -52 := by
  simp [lastPlace]

theorem abs_lt_two_zpow (q : ℚ) : |q| < 2 ^ (53 + lastPlace q) := by
  have hlog := Int.lt_zpow_succ_log_self (b := 2) one_lt_two |q|
  have hle : Int.log 2 |q| + 1 ≤ 53 + lastPlace q := by
    have := le_max_left (Int.log 2 |q| - 52) (-1074)
    unfold lastPlace
    omega
  exact hlog.trans_le (zpow_le_zpow_right₀ one_le_two hle)

theorem abs_significand_le (q : ℚ) : |significand q| ≤ 2 ^ 53 := by
  have habs : |q / 2 ^ lastPlace q| ≤ 2 ^ 53 := by
    rw [abs_div, abs_of_pos (two_zpow_pos _), div_le_iff₀ (two_zpow_pos _)]
    have := abs_lt_two_zpow q
    rw [zpow_add₀ two_ne_zero] at this
    exact this.le
  obtain ⟨hlow, hhigh⟩ := abs_le.mp habs
  refine abs_le.mpr ⟨le_roundHalfEven ?_, roundHalfEven_le ?_⟩
  · push_cast
    exact hlow
  · push_cast
    exact hhigh

/-- The digits are all used, unless the number is too small for it. -/
theorem le_abs_significand (hq : q ≠ 0) (h : -1074 < lastPlace q) : 2 ^ 52 ≤ |significand q| := by
  have hplace : 52 + lastPlace q = Int.log 2 |q| := by
    unfold lastPlace at h ⊢
    omega
  have hlog : (2 : ℚ) ^ (52 + lastPlace q) ≤ |q| := by
    rw [hplace]
    exact Int.zpow_log_le_self one_lt_two (abs_pos.mpr hq)
  refine le_abs_roundHalfEven ?_
  rw [abs_div, abs_of_pos (two_zpow_pos _), le_div_iff₀ (two_zpow_pos _)]
  rw [zpow_add₀ two_ne_zero] at hlog
  push_cast
  exact hlog

/-- What does not overflow is a double. -/
theorem isDouble_of_abs_lt (h : |(significand q : ℚ) * 2 ^ lastPlace q| < 2 ^ 1024) :
    IsDouble (significand q * 2 ^ lastPlace q) := by
  have hmin : -1074 ≤ lastPlace q := le_max_right _ _
  rw [abs_mul, abs_of_pos (two_zpow_pos _), ← Int.cast_abs] at h
  have hplace : ∀ n : ℕ, (2 : ℤ) ^ n ≤ |significand q| → (n : ℤ) + lastPlace q < 1024 := by
    intro n hn
    have hle : (2 : ℚ) ^ (n : ℤ) * 2 ^ lastPlace q < 2 ^ (1024 : ℤ) := by
      refine lt_of_le_of_lt (mul_le_mul_of_nonneg_right ?_ (two_zpow_pos _).le) h
      rw [zpow_natCast]
      exact_mod_cast hn
    rw [← zpow_add₀ two_ne_zero] at hle
    exact (zpow_lt_zpow_iff_right₀ one_lt_two).mp hle
  rcases (abs_significand_le q).lt_or_eq with hlt | heq
  · refine ⟨significand q, lastPlace q, hlt, hmin, ?_, rfl⟩
    by_contra hmax
    have hq : q ≠ 0 := by
      rintro rfl
      simp at hmax
    have := hplace 52 (le_abs_significand hq (by omega))
    omega
  · -- the digits round up to one digit more, which is a zero
    have hmax := hplace 53 heq.ge
    rcases (abs_eq (by positivity)).mp heq with heq | heq
    · refine ⟨2 ^ 52, lastPlace q + 1, by norm_num, by omega, by omega, ?_⟩
      rw [heq, zpow_add_one₀ two_ne_zero]
      push_cast
      ring
    · refine ⟨-2 ^ 52, lastPlace q + 1, by norm_num, by omega, by omega, ?_⟩
      rw [heq, zpow_add_one₀ two_ne_zero]
      push_cast
      ring

theorem isDouble_int {n : ℤ} (h : |n| < 2 ^ 53) : IsDouble n :=
  ⟨n, 0, h, by norm_num, by norm_num, by simp⟩

/-- A double has no digits after the last place. -/
theorem significand_mul_of_isDouble (h : IsDouble q) :
    (significand q : ℚ) * 2 ^ lastPlace q = q := by
  obtain ⟨m, e, hm, hmin, -, rfl⟩ := h
  rcases eq_or_ne m 0 with rfl | hm0
  · simp [significand]
  have hplace : lastPlace (m * 2 ^ e) ≤ e := by
    have hpos : 0 < |(m : ℚ) * 2 ^ e| :=
      abs_pos.mpr (mul_ne_zero (by exact_mod_cast hm0) (two_zpow_pos e).ne')
    have hlt : |(m : ℚ) * 2 ^ e| < 2 ^ (53 + e) := by
      rw [abs_mul, abs_of_pos (two_zpow_pos e), zpow_add₀ two_ne_zero]
      refine mul_lt_mul_of_pos_right ?_ (two_zpow_pos e)
      exact_mod_cast hm
    have hlog := (Int.lt_zpow_iff_log_lt (b := 2) one_lt_two hpos).mp hlt
    unfold lastPlace
    omega
  obtain ⟨k, hk⟩ := Int.eq_ofNat_of_zero_le (sub_nonneg.mpr hplace)
  have hint : (m : ℚ) * 2 ^ e / 2 ^ lastPlace (m * 2 ^ e) = (m * 2 ^ k : ℤ) := by
    rw [mul_div_assoc, ← zpow_sub₀ two_ne_zero, hk, zpow_natCast]
    push_cast
    rfl
  rw [significand, hint, roundHalfEven_intCast, ← hint, div_mul_cancel₀ _ (two_zpow_pos _).ne']

theorem abs_lt_of_isDouble (h : IsDouble q) : |q| < 2 ^ 1024 := by
  obtain ⟨m, e, hm, -, hmax, rfl⟩ := h
  rw [abs_mul, abs_of_pos (two_zpow_pos e)]
  calc |(m : ℚ)| * 2 ^ e < 2 ^ 53 * 2 ^ e := by
        refine mul_lt_mul_of_pos_right ?_ (two_zpow_pos e)
        exact_mod_cast hm
    _ ≤ 2 ^ 53 * 2 ^ (971 : ℤ) := by
        gcongr
        · exact one_le_two
    _ = 2 ^ 1024 := by
        rw [← zpow_natCast, ← zpow_natCast, ← zpow_add₀ two_ne_zero]
        norm_num

/-- All doubles are multiples of the smallest one. -/
theorem exists_mul_of_isDouble (h : IsDouble q) : ∃ k : ℤ, q = k * 2 ^ (-1074 : ℤ) := by
  obtain ⟨m, e, -, hmin, -, rfl⟩ := h
  obtain ⟨k, hk⟩ := Int.eq_ofNat_of_zero_le (sub_nonneg.mpr hmin)
  refine ⟨m * 2 ^ k, ?_⟩
  have he : e = k + -1074 := by omega
  rw [he, zpow_add₀ two_ne_zero, zpow_natCast, Int.cast_mul, Int.cast_pow, Int.cast_two, mul_assoc]

/-- Two doubles are at least the smallest one apart. -/
theorem le_abs_sub_of_isDouble {p q : ℚ} (hp : IsDouble p) (hq : IsDouble q) (hne : p ≠ q) :
    2 ^ (-1074 : ℤ) ≤ |p - q| := by
  obtain ⟨k, rfl⟩ := exists_mul_of_isDouble hp
  obtain ⟨l, rfl⟩ := exists_mul_of_isDouble hq
  have hkl : k - l ≠ 0 := fun h => hne (by rw [sub_eq_zero.mp h])
  have hone : (1 : ℚ) ≤ |((k - l : ℤ) : ℚ)| := by
    exact_mod_cast Int.one_le_abs hkl
  rw [← sub_mul, abs_mul, abs_of_pos (two_zpow_pos _), ← Int.cast_sub]
  exact le_mul_of_one_le_left (two_zpow_pos _).le hone

/-- What is not smaller than all doubles keeps a digit. -/
theorem two_zpow_lastPlace_le (h : 2 ^ (-1074 : ℤ) ≤ |q|) : 2 ^ lastPlace q ≤ |q| := by
  unfold lastPlace
  rcases max_choice (Int.log 2 |q| - 52) (-1074) with hmax | hmax
  · rw [hmax]
    have hlog := Int.zpow_log_le_self (b := 2) one_lt_two ((two_zpow_pos _).trans_le h)
    exact (zpow_le_zpow_right₀ one_le_two (by omega)).trans hlog
  · rwa [hmax]

/-- A number that is not too small keeps its sign. -/
theorem significand_pos (hq : 0 < q) (h : 2 ^ (-1074 : ℤ) ≤ |q|) : 0 < significand q := by
  have hle := two_zpow_lastPlace_le h
  rw [abs_of_pos hq] at hle
  refine Int.lt_of_lt_of_le one_pos (le_roundHalfEven ?_)
  rw [Int.cast_one, one_le_div (two_zpow_pos _)]
  exact hle

theorem significand_neg (hq : q < 0) (h : 2 ^ (-1074 : ℤ) ≤ |q|) : significand q < 0 := by
  have hle := two_zpow_lastPlace_le h
  rw [abs_of_neg hq] at hle
  have hround : significand q ≤ -1 := by
    refine roundHalfEven_le ?_
    rw [div_le_iff₀ (two_zpow_pos _)]
    push_cast
    linarith
  omega

end

/-! ## Numbers -/

namespace Number

/-- The nearest number. -/
def round (q : ℚ) : Number :=
  if h : |(significand q : ℚ) * 2 ^ lastPlace q| < 2 ^ 1024 then
    finite ⟨significand q * 2 ^ lastPlace q, isDouble_of_abs_lt h⟩
  else
    infinity (q < 0)

theorem abs_zero_lt : |(0 : ℤ)| < 2 ^ 53 := by
  norm_num

/-- An integer that needs no rounding. -/
def ofInt (n : ℤ) (h : |n| < 2 ^ 53) : Number :=
  finite ⟨n, isDouble_int h⟩

/-- `0` -/
def zero : Number :=
  ofInt 0 abs_zero_lt

/-- `x < y` -/
def lt : Number → Number → Bool
  | finite a, finite b => a.val < b.val
  | infinity s, infinity t => s && !t
  | infinity s, finite _ => s
  | finite _, infinity t => !t
  | nan, _ => false
  | _, nan => false

/-- `x - y` -/
def sub : Number → Number → Number
  | finite a, finite b => round (a.val - b.val)
  | infinity s, infinity t => if s = t then nan else infinity s
  | infinity s, finite _ => infinity s
  | finite _, infinity t => infinity !t
  | nan, _ => nan
  | _, nan => nan

/-- `x || 0` -/
def orZero : Number → Number
  | nan => zero
  | x => x

/-- `x != y` -/
def looseNe (x y : Number) : Bool :=
  x = nan || x ≠ y

/-- `x <= y` -/
def le (x y : Number) : Bool :=
  x ≠ nan && y ≠ nan && !y.lt x

/-- It is neither NaN nor an infinity. -/
def IsFinite : Number → Prop
  | finite _ => True
  | _ => False

/-- The value of a finite number. -/
def val : Number → ℚ
  | finite d => d.val
  | _ => 0

/-- Where a number stands, with NaN for zero. -/
def rank : Number → WithBot (WithTop ℚ)
  | nan => ((0 : ℚ) : WithTop ℚ)
  | infinity true => ⊥
  | infinity false => (⊤ : WithTop ℚ)
  | finite d => (d.val : WithTop ℚ)

theorem round_double (d : Double) : round d.val = finite d := by
  have hval := significand_mul_of_isDouble d.isDouble
  have hlt : |(significand d.val : ℚ) * 2 ^ lastPlace d.val| < 2 ^ 1024 := by
    rw [hval]
    exact abs_lt_of_isDouble d.isDouble
  rw [round, dif_pos hlt]
  congr

theorem round_int (n : ℤ) (h : |n| < 2 ^ 53) : round n = ofInt n h :=
  round_double ⟨n, isDouble_int h⟩

theorem isFinite_round_int {n : ℤ} (h : |n| < 2 ^ 53) : (round n).IsFinite := by
  rw [round_int n h]
  trivial

@[simp] theorem lt_finite {a b : Double} : (finite a).lt (finite b) = true ↔ a.val < b.val :=
  decide_eq_true_iff

theorem finite_inj {a b : Double} : finite a = finite b ↔ a.val = b.val := by
  obtain ⟨a, ha⟩ := a
  obtain ⟨b, hb⟩ := b
  simp

theorem lt_asymm {x y : Number} (h : x.lt y = true) : y.lt x = false := by
  rcases x with _ | (_ | _) | a <;> rcases y with _ | (_ | _) | b <;> simp [lt] at h ⊢
  exact h.le

theorem not_lt_self {x : Number} : ¬x.lt x = true := fun h => by
  simpa [h] using lt_asymm h

theorem lt_zero_or {x : Number} (h : x ≠ nan) :
    x.lt zero = true ∨ x = zero ∨ zero.lt x = true := by
  rcases x with _ | (_ | _) | a
  · exact absurd rfl h
  · exact .inr (.inr rfl)
  · exact .inl rfl
  · rcases lt_trichotomy a.val 0 with h | h | h
    · exact .inl (by simpa [zero, ofInt] using h)
    · exact .inr (.inl (finite_inj.mpr (by simpa using h)))
    · exact .inr (.inr (by simpa [zero, ofInt] using h))

/-! ### The sign of a difference -/

section

variable {q : ℚ}

theorem finite_lt_zero {a : Double} : (finite a).lt zero = true ↔ a.val < 0 := by
  simp [zero, ofInt]

theorem zero_lt_finite {a : Double} : zero.lt (finite a) = true ↔ 0 < a.val := by
  simp [zero, ofInt]

theorem round_zero : round 0 = zero := by
  have hround := round_int 0 abs_zero_lt
  rwa [Int.cast_zero] at hround

theorem round_lt_zero (hq : q < 0) (h : 2 ^ (-1074 : ℤ) ≤ |q|) : (round q).lt zero = true := by
  unfold round
  split_ifs
  · have hneg : (significand q : ℚ) < 0 := Int.cast_lt_zero.mpr (significand_neg hq h)
    exact finite_lt_zero.mpr (mul_neg_of_neg_of_pos hneg (two_zpow_pos _))
  · rw [decide_eq_true hq]
    rfl

theorem zero_lt_round (hq : 0 < q) (h : 2 ^ (-1074 : ℤ) ≤ |q|) : zero.lt (round q) = true := by
  unfold round
  split_ifs
  · have hpos : (0 : ℚ) < significand q := Int.cast_pos.mpr (significand_pos hq h)
    exact zero_lt_finite.mpr (mul_pos hpos (two_zpow_pos _))
  · rw [decide_eq_false hq.not_gt]
    rfl

end

theorem round_ne_nan (q : ℚ) : round q ≠ nan := by
  unfold round
  split_ifs <;> exact nofun

namespace IsFinite

variable {x y : Number}

theorem exists_double (hx : x.IsFinite) : ∃ d, x = finite d := by
  rcases x with _ | _ | d
  · exact hx.elim
  · exact hx.elim
  · exact ⟨d, rfl⟩

/-- The difference has the sign of the comparison. -/
theorem cases_sub (hx : x.IsFinite) (hy : y.IsFinite) :
    x.val < y.val ∧ (x.sub y).lt zero = true ∨
    x.val = y.val ∧ x.sub y = zero ∨
    y.val < x.val ∧ zero.lt (x.sub y) = true := by
  obtain ⟨a, rfl⟩ := hx.exists_double
  obtain ⟨b, rfl⟩ := hy.exists_double
  rcases lt_trichotomy a.val b.val with h | h | h
  · have hgap := le_abs_sub_of_isDouble a.isDouble b.isDouble h.ne
    exact .inl ⟨h, round_lt_zero (sub_neg.mpr h) hgap⟩
  · refine .inr (.inl ⟨h, ?_⟩)
    rw [sub, h, sub_self, round_zero]
  · have hgap := le_abs_sub_of_isDouble a.isDouble b.isDouble h.ne'
    exact .inr (.inr ⟨h, zero_lt_round (sub_pos.mpr h) hgap⟩)

theorem sub_ne_nan (hx : x.IsFinite) (hy : y.IsFinite) : x.sub y ≠ nan := by
  obtain ⟨a, rfl⟩ := hx.exists_double
  obtain ⟨b, rfl⟩ := hy.exists_double
  exact round_ne_nan _

theorem sub_lt_zero (hx : x.IsFinite) (hy : y.IsFinite) :
    (x.sub y).lt zero = true ↔ x.val < y.val := by
  rcases hx.cases_sub hy with ⟨h, hsub⟩ | ⟨h, hsub⟩ | ⟨h, hsub⟩
  · exact iff_of_true hsub h
  · rw [hsub]
    exact iff_of_false not_lt_self h.not_lt
  · exact iff_of_false (Bool.eq_false_iff.mp (lt_asymm hsub)) h.not_gt

theorem zero_lt_sub (hx : x.IsFinite) (hy : y.IsFinite) :
    zero.lt (x.sub y) = true ↔ y.val < x.val := by
  rcases hx.cases_sub hy with ⟨h, hsub⟩ | ⟨h, hsub⟩ | ⟨h, hsub⟩
  · exact iff_of_false (Bool.eq_false_iff.mp (lt_asymm hsub)) h.not_gt
  · rw [hsub]
    exact iff_of_false not_lt_self h.not_gt
  · exact iff_of_true hsub h

theorem sub_eq_zero_iff (hx : x.IsFinite) (hy : y.IsFinite) : x.sub y = zero ↔ x.val = y.val := by
  rcases hx.cases_sub hy with ⟨h, hsub⟩ | ⟨h, hsub⟩ | ⟨h, hsub⟩
  · exact iff_of_false (fun heq => not_lt_self (heq ▸ hsub)) h.ne
  · exact iff_of_true hsub h
  · exact iff_of_false (fun heq => not_lt_self (heq ▸ hsub)) h.ne'

theorem le_iff (hx : x.IsFinite) (hy : y.IsFinite) : x.le y = true ↔ x.val ≤ y.val := by
  obtain ⟨a, rfl⟩ := hx.exists_double
  obtain ⟨b, rfl⟩ := hy.exists_double
  simp [le, lt, val]

theorem eq_iff (hx : x.IsFinite) (hy : y.IsFinite) : x = y ↔ x.val = y.val := by
  obtain ⟨a, rfl⟩ := hx.exists_double
  obtain ⟨b, rfl⟩ := hy.exists_double
  exact finite_inj

theorem looseNe_iff (hx : x.IsFinite) (hy : y.IsFinite) : x.looseNe y = true ↔ x.val ≠ y.val := by
  rw [Ne, ← hx.eq_iff hy]
  obtain ⟨a, rfl⟩ := hx.exists_double
  simp [looseNe]

end IsFinite

/-! ### The order -/

theorem eq_of_le_of_le {x y : Number} (hxy : x.le y = true) (hyx : y.le x = true) : x = y := by
  rcases x with _ | (_ | _) | a <;> rcases y with _ | (_ | _) | b <;> simp [le, lt] at hxy hyx ⊢
  exact finite.inj (finite_inj.mpr (hxy.antisymm hyx))

theorem orZero_lt_orZero (x y : Number) : x.orZero.lt y.orZero = true ↔ x.rank < y.rank := by
  rcases x with _ | (_ | _) | a <;> rcases y with _ | (_ | _) | b <;>
    simp [orZero, lt, rank, zero, ofInt, -WithBot.coe_top]

theorem rank_round_nat {n : ℕ} (h : n < 2 ^ 53) : (round n).rank = ((n : ℚ) : WithTop ℚ) := by
  have hround := round_int n (by rw [Nat.abs_cast]; exact_mod_cast h)
  rw [Int.cast_natCast] at hround
  rw [hround]
  simp [rank, ofInt]

end Number

end Js

end MySocket
