import Mathlib.Data.List.Lex
import Mathlib.Data.List.GetD
import Mathlib.Order.PiLex
import Mathlib.Order.Monotone.Basic
import Mathlib.Algebra.Group.Int.Defs
import Mathlib.Algebra.Group.Basic

/-!
# Lists compared with padding

A list stands for the sequence of its elements with a default after them, and lists of
different lengths are compared as these sequences, by the first position where they differ.
The order of sequences is Mathlib's on `Lex (ℕ → K)`, which is linear; `compareSign` is 1, 0
or -1 by such an order.

* `compareSign_first` : the sign is that of the first difference.
* `compareSign_rightpad` : it is the comparison of the two lists padded to one length.
-/

namespace MySocket

variable {K : Type*} [LinearOrder K]

/-! ## The sign of a comparison -/

/-- 1 if the first is greater, -1 if it is less. -/
def compareSign (a b : K) : ℤ :=
  if b < a then 1 else if a < b then -1 else 0

section

variable {a b : K}

theorem compareSign_of_gt (h : b < a) : compareSign a b = 1 :=
  if_pos h

theorem compareSign_of_lt (h : a < b) : compareSign a b = -1 := by
  rw [compareSign, if_neg h.not_gt, if_pos h]

@[simp] theorem compareSign_self (a : K) : compareSign a a = 0 := by
  simp [compareSign]

theorem compareSign_swap (a b : K) : compareSign b a = -compareSign a b := by
  rcases lt_trichotomy a b with h | rfl | h
  · rw [compareSign_of_lt h, compareSign_of_gt h, neg_neg]
  · rw [compareSign_self, neg_zero]
  · rw [compareSign_of_lt h, compareSign_of_gt h]

theorem compareSign_nonneg : 0 ≤ compareSign a b ↔ b ≤ a := by
  rcases lt_trichotomy a b with h | rfl | h
  · exact iff_of_false (by rw [compareSign_of_lt h]; decide) h.not_ge
  · exact iff_of_true (by rw [compareSign_self]) le_rfl
  · exact iff_of_true (by rw [compareSign_of_gt h]; decide) h.le

theorem compareSign_congr {L : Type*} [LinearOrder L] {c d : L} (h : a < b ↔ c < d)
    (h' : b < a ↔ d < c) : compareSign a b = compareSign c d := by
  simp only [compareSign, h, h']

end

/-! ## Sequences -/

/-- A list with `d` after its end. -/
def padded (d : K) (l : List K) (i : ℕ) : K :=
  l.getD i d

section

variable {x y : ℕ → K}

theorem compareSign_first {i : ℕ} (h : ∀ j < i, x j = y j) (hne : x i ≠ y i) :
    compareSign (toLex x) (toLex y) = compareSign (x i) (y i) := by
  rcases hne.lt_or_gt with hlt | hgt
  · have hlex : toLex x < toLex y := ⟨i, h, hlt⟩
    rw [compareSign_of_lt hlt, compareSign_of_lt hlex]
  · have hlex : toLex y < toLex x := ⟨i, fun j hj => (h j hj).symm, hgt⟩
    rw [compareSign_of_gt hgt, compareSign_of_gt hlex]

/-- A strictly monotone map keeps the comparison. -/
theorem toLex_comp_lt_iff {L : Type*} [LinearOrder L] {f : K → L} (hf : StrictMono f) :
    toLex (fun i => f (x i)) < toLex (fun i => f (y i)) ↔ toLex x < toLex y := by
  constructor
  · rintro ⟨i, h, hlt⟩
    exact ⟨i, fun j hj => hf.injective (h j hj), hf.lt_iff_lt.mp hlt⟩
  · rintro ⟨i, h, hlt⟩
    exact ⟨i, fun j hj => congrArg f (h j hj), hf hlt⟩

end

section

variable {d : K}

omit [LinearOrder K] in
theorem padded_append_replicate (l : List K) (n : ℕ) :
    padded d (l ++ List.replicate n d) = padded d l := by
  funext i
  rcases Nat.lt_or_ge i l.length with hi | hi
  · simp [padded, List.getElem?_append_left hi]
  · by_cases hn : i - l.length < n <;> simp [padded, List.getElem?_append_right hi, hi, hn]

omit [LinearOrder K] in
theorem padded_map {L : Type*} (f : K → L) (l : List K) (i : ℕ) :
    padded (f d) (l.map f) i = f (padded d l i) :=
  List.getD_map l d f

theorem toLex_padded_cons_lt {a b : K} {l l' : List K} :
    toLex (padded d (a :: l)) < toLex (padded d (b :: l')) ↔
      a < b ∨ a = b ∧ toLex (padded d l) < toLex (padded d l') := by
  constructor
  · rintro ⟨i, h, hlt⟩
    cases i with
    | zero => exact .inl hlt
    | succ i => exact .inr ⟨h 0 i.succ_pos, i, fun j hj => h (j + 1) (Nat.succ_lt_succ hj), hlt⟩
  · rintro (hlt | ⟨rfl, i, h, hlt⟩)
    · exact ⟨0, fun j hj => absurd hj j.not_lt_zero, hlt⟩
    · refine ⟨i + 1, fun j hj => ?_, hlt⟩
      cases j with
      | zero => rfl
      | succ j => exact h j (Nat.lt_of_succ_lt_succ hj)

/-- Lists of one length are compared as they are. -/
theorem toLex_padded_lt {l l' : List K} (h : l.length = l'.length) :
    toLex (padded d l) < toLex (padded d l') ↔ l < l' := by
  induction l generalizing l' with
  | nil =>
    rw [List.length_nil, eq_comm, List.length_eq_zero_iff] at h
    rw [h]
    exact iff_of_false (lt_irrefl _) (lt_irrefl _)
  | cons a l ih =>
    obtain ⟨b, l', rfl⟩ := List.exists_cons_of_length_eq_add_one h.symm
    rw [toLex_padded_cons_lt, ih (Nat.succ.inj h)]
    exact List.cons_lt_cons_iff.symm

theorem compareSign_rightpad {n : ℕ} {l l' : List K} (h : l.length ≤ n) (h' : l'.length ≤ n) :
    compareSign (l.rightpad n d) (l'.rightpad n d) =
      compareSign (toLex (padded d l)) (toLex (padded d l')) := by
  have hlength : (l.rightpad n d).length = (l'.rightpad n d).length := by
    rw [List.length_rightpad, List.length_rightpad, max_eq_left h, max_eq_left h']
  rw [← padded_append_replicate l (n - l.length), ← padded_append_replicate l' (n - l'.length)]
  exact compareSign_congr (toLex_padded_lt hlength).symm (toLex_padded_lt hlength.symm).symm

end

end MySocket
