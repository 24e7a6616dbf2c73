import Mathlib.Data.Int.Log
import Mathlib.Data.Rat.Floor
import Mathlib.Algebra.Order.Archimedean.Basic
import Mathlib.Tactic.Linarith
import Mathlib.Tactic.Ring
import Mathlib.Tactic.FieldSimp
import Mathlib.Tactic.Positivity
import Mathlib.Tactic.NormNum

/-!
# Division of integers in double precision

`roundDouble` is the rounding of a rational to the nearest double, ties to even, for the
values in the normal range. `ceil_roundDouble` : the quotient of two integers below `2 ^ 53`,
rounded to a double, has the ceiling of the quotient itself.
-/

namespace MySocket

/-- The nearest integer, the even one of two. -/
def roundHalfEven (q : ℚ) : ℤ :=
  if q - ⌊q⌋ < 1 / 2 ∨ q - ⌊q⌋ = 1 / 2 ∧ ⌊q⌋ % 2 = 0 then ⌊q⌋ else ⌊q⌋ + 1

/-- The weight of the last of the 53 binary digits of `q`. -/
def ulp (q : ℚ) : ℚ :=
  2 ^ (Int.log 2 |q| - 52)

/-- The nearest double. -/
def roundDouble (q : ℚ) : ℚ :=
  if q = 0 then 0 else roundHalfEven (q / ulp q) * ulp q

theorem roundHalfEven_le_ceil (q : ℚ) : roundHalfEven q ≤ ⌈q⌉ := by
  unfold roundHalfEven
  have hfloor := Int.floor_le_ceil q
  split_ifs with h
  · exact hfloor
  · -- the fraction is not 0, so the ceiling is the next integer
    rcases hfloor.lt_or_eq with hlt | heq
    · exact hlt
    · have hq : q = ⌊q⌋ := le_antisymm (heq ▸ Int.le_ceil q) (Int.floor_le q)
      refine absurd (.inl ?_) h
      rw [← hq, sub_self]
      norm_num

theorem sub_half_le_roundHalfEven (q : ℚ) : q - 1 / 2 ≤ roundHalfEven q := by
  unfold roundHalfEven
  have hlt := Int.lt_floor_add_one q
  split_ifs with h
  · rcases h with h | ⟨h, -⟩ <;> linarith
  · push_cast
    linarith

theorem ulp_pos (q : ℚ) : 0 < ulp q := by
  exact zpow_pos (by norm_num) _

/-- The last digit is small beside the number. -/
theorem ulp_le {q : ℚ} (hq : 0 < q) : ulp q ≤ q / 2 ^ 52 := by
  have hlog := Int.zpow_log_le_self (b := 2) (by norm_num) hq
  unfold ulp
  rw [abs_of_pos hq, zpow_sub₀ (by norm_num), le_div_iff₀ (by positivity)]
  have hpow : (2 : ℚ) ^ (52 : ℤ) = 2 ^ 52 := by norm_num
  rw [hpow, div_mul_cancel₀ _ (by norm_num)]
  exact_mod_cast hlog

/-- Below `2 ^ 53` an integer is a multiple of the last digit. -/
theorem exists_mul_ulp {q : ℚ} (hq : 0 < q) (hmax : q < 2 ^ 53) (n : ℤ) :
    ∃ m : ℤ, (n : ℚ) = m * ulp q := by
  have hlog : Int.log 2 q ≤ 52 := by
    by_contra h
    have h53 : (2 : ℚ) ^ (53 : ℤ) ≤ (2 : ℚ) ^ Int.log 2 q := zpow_le_zpow_right₀ (by norm_num) (by omega)
    have hle := Int.zpow_log_le_self (b := 2) (by norm_num) hq
    have hpow : (2 : ℚ) ^ (53 : ℤ) = 2 ^ 53 := by norm_num
    push_cast at hle
    linarith
  obtain ⟨k, hk⟩ := Int.eq_ofNat_of_zero_le (by omega : 0 ≤ 52 - Int.log 2 q)
  refine ⟨n * 2 ^ k, ?_⟩
  have hexp : Int.log 2 q - 52 = -(k : ℤ) := by omega
  rw [ulp, abs_of_pos hq, hexp, zpow_neg, zpow_natCast]
  push_cast
  rw [mul_assoc, mul_inv_cancel₀ (by positivity), mul_one]

/-- Rounding the quotient does not take it past an integer. -/
theorem ceil_roundDouble {t s : ℤ} (ht : 0 ≤ t) (hmax : t < 2 ^ 53) (hs : 0 < s) :
    ⌈roundDouble ((t : ℚ) / s)⌉ = ⌈(t : ℚ) / s⌉ := by
  rcases ht.eq_or_lt with rfl | ht
  · simp [roundDouble]
  have hs' : (0 : ℚ) < s := by exact_mod_cast hs
  have ht' : (0 : ℚ) < t := by exact_mod_cast ht
  have hmax' : (t : ℚ) < 2 ^ 53 := by exact_mod_cast hmax
  set q := (t : ℚ) / s with hqdef
  have hq : 0 < q := div_pos ht' hs'
  have hqt : q ≤ t := div_le_self ht'.le (by exact_mod_cast hs)
  have hu := ulp_pos q
  have hround : roundDouble q = roundHalfEven (q / ulp q) * ulp q := if_neg hq.ne'
  obtain ⟨n, hn⟩ : ∃ n, n = ⌈q⌉ := ⟨_, rfl⟩
  have hle : q ≤ n := hn ▸ Int.le_ceil q
  have hlt : (n : ℚ) - 1 < q := by
    have := Int.ceil_lt_add_one q
    rw [← hn] at this
    linarith
  rw [← hn, Int.ceil_eq_iff, hround]
  constructor
  · -- the integer below is at least `1 / s` away
    have hnum : (n - 1) * s < t := by
      rw [hqdef, lt_div_iff₀ hs'] at hlt
      exact_mod_cast hlt
    have hnum' : (1 : ℚ) ≤ t - (n - 1) * s := by
      exact_mod_cast (by omega : 1 ≤ t - (n - 1) * s)
    have hgap : 1 / (s : ℚ) ≤ q - (n - 1) := by
      have heq : q - (n - 1) = (t - (n - 1) * s) / s := by
        rw [hqdef]
        field_simp
      rw [heq]
      exact div_le_div_of_nonneg_right hnum' hs'.le
    have herr : ulp q / 2 < 1 / (s : ℚ) := by
      have hle : ulp q ≤ t / s / 2 ^ 52 := ulp_le hq
      have hlt : (t : ℚ) / s / 2 ^ 52 < 2 * (1 / s) := by
        rw [div_lt_iff₀ (by norm_num), div_lt_iff₀ hs']
        have : 2 * (1 / (s : ℚ)) * 2 ^ 52 * s = 2 ^ 53 := by
          field_simp
        linarith
      linarith
    have hlow := mul_le_mul_of_nonneg_right (sub_half_le_roundHalfEven (q / ulp q)) hu.le
    have hcancel : (q / ulp q - 1 / 2) * ulp q = q - ulp q / 2 := by
      field_simp
    rw [hcancel] at hlow
    linarith
  · obtain ⟨m, hm⟩ := exists_mul_ulp hq (hqt.trans_lt hmax') n
    have hlem : q / ulp q ≤ m := by
      rw [div_le_iff₀ hu, ← hm]
      exact hle
    have hround' : roundHalfEven (q / ulp q) ≤ m :=
      (roundHalfEven_le_ceil _).trans (Int.ceil_le.mpr hlem)
    rw [hm]
    exact mul_le_mul_of_nonneg_right (by exact_mod_cast hround') hu.le

end MySocket
