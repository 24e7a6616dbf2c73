import Mathlib.Data.List.Range
import Mathlib.Data.List.TakeDrop
import Mathlib.Order.MinMax
import Mathlib.Algebra.Order.Group.Int

/-!
# Slices of lists by integer bounds

`slice xs a b` is the array method of that name : a negative bound counts from the end,
and a bound past the end is the end. `flatMap_windows` : consecutive windows of one size are
the list up to the end of the last one.
-/

namespace MySocket

variable {α : Type*}

/-- Where a bound lies in a list of length `n`. -/
def sliceIndex (n : ℕ) (k : ℤ) : ℕ :=
  (if k < 0 then n + k else min k n).toNat

/-- The elements from `a` on that come before `b`. -/
def slice (xs : List α) (a b : ℤ) : List α :=
  (xs.take (sliceIndex xs.length b)).drop (sliceIndex xs.length a)

theorem sliceIndex_of_nonneg {n : ℕ} {k : ℤ} (hk : 0 ≤ k) : (sliceIndex n k : ℤ) = min k n := by
  rw [sliceIndex, if_neg (by omega), Int.toNat_of_nonneg (by omega)]

theorem length_slice {xs : List α} {a b : ℤ} (ha : 0 ≤ a) (hb : 0 ≤ b) :
    ((slice xs a b).length : ℤ) = max 0 (min b xs.length - a) := by
  have hia := sliceIndex_of_nonneg (n := xs.length) ha
  have hib := sliceIndex_of_nonneg (n := xs.length) hb
  rw [slice, List.length_drop, List.length_take]
  omega

/-- A bound past the end of the list is as good as the end. -/
theorem slice_min_length {xs : List α} {a b : ℤ} (hb : 0 ≤ b) :
    slice xs a (min b xs.length) = slice xs a b := by
  have hmin := sliceIndex_of_nonneg (n := xs.length) (k := min b xs.length) (by omega)
  have hself := sliceIndex_of_nonneg (n := xs.length) hb
  have hsame : sliceIndex xs.length (min b xs.length) = sliceIndex xs.length b := by omega
  rw [slice, slice, hsame]

/-- The first `n` windows of size `s`, one after the other. -/
theorem flatMap_windows (xs : List α) (s n : ℕ) :
    ((List.range n).flatMap fun k => (xs.drop (k * s)).take s) = xs.take (n * s) := by
  induction n with
  | zero => simp
  | succ n ih =>
    rw [List.range_succ, List.flatMap_append, ih, List.flatMap_singleton, Nat.succ_mul, List.take_add]

end MySocket
