import MySocket.JsToNumber
import MySocket.PaddedLex

/-!
# Comparing versions

`compareVersion` of `common.js` takes two versions apart at the dots and compares them number by
number up to the first difference. What is no number counts as 0, and so does a component that
the shorter version does not have.

`compareVersion_eq` : that is the comparison of two sequences in a linear order, each of which
is read from one version alone (`versionKey`).
-/

namespace MySocket

open Js

/-- `window.JSUtil`, with its `getVersion` if it has one, which can return nothing. -/
structure JSUtil where
  getVersion : Option (Option JsString)

/-- The version to compare with : the argument if there is one, else that of `JSUtil`. -/
def verbOf (jsUtil : Option JSUtil) : Option JsString → JsString
  | some verb => verb
  | none =>
    match jsUtil with
    | some util =>
      match util.getVersion with
      | some version => version.getD []
      | none => []
    | none => []

/-- `+arr[i]`, where a component that is not there is `undefined`. -/
def numberAt (arr : List JsString) (i : ℕ) : Js.Number :=
  (arr[i]?).elim .nan toNumber

/-- The loop for `n` more components from `i` on. -/
def compareLoop (veraArr verbArr : List JsString) : ℕ → ℕ → ℤ → ℤ
  | 0, _, ret => ret
  | n + 1, i, ret =>
    if ret = 0 then
      let va := (numberAt veraArr i).orZero
      let vb := (numberAt verbArr i).orZero
      let ret := if vb.lt va then 1 else ret
      let ret := if va.lt vb then -1 else ret
      compareLoop veraArr verbArr n (i + 1) ret
    else ret

/-- `'.'` -/
def dot : UInt16 := 46

/-- `compareVersion` -/
def compareVersion (jsUtil : Option JSUtil) (vera : JsString) (verb : Option JsString) : ℤ :=
  let veraArr := vera.splitOn dot
  let verbArr := (verbOf jsUtil verb).splitOn dot
  compareLoop veraArr verbArr (max veraArr.length verbArr.length) 0 0

/-! ## The order -/

/-- The components as numbers, with zeros after them. -/
def components (arr : List JsString) : ℕ → WithBot (WithTop ℚ) :=
  padded Js.Number.nan.rank (arr.map fun s => (toNumber s).rank)

/-- What a version is compared by. -/
def versionKey (s : JsString) : Lex (ℕ → WithBot (WithTop ℚ)) :=
  toLex (components (s.splitOn dot))

section

variable {veraArr verbArr : List JsString}

theorem rank_numberAt (arr : List JsString) (i : ℕ) :
    (numberAt arr i).rank = components arr i := by
  simp only [numberAt, components, padded, List.getD_eq_getElem?_getD, List.getElem?_map]
  cases arr[i]? <;> rfl

theorem compareLoop_of_ne {n i : ℕ} {ret : ℤ} (h : ret ≠ 0) :
    compareLoop veraArr verbArr n i ret = ret := by
  cases n with
  | zero => rfl
  | succ n => rw [compareLoop, if_neg h]

/-- A round finds the sign of its two components. -/
theorem compareLoop_succ (n i : ℕ) :
    compareLoop veraArr verbArr (n + 1) i 0 = compareLoop veraArr verbArr n (i + 1)
      (compareSign (components veraArr i) (components verbArr i)) := by
  rw [compareLoop, if_pos rfl]
  simp only [Js.Number.orZero_lt_orZero, rank_numberAt]
  congr 1
  rcases lt_trichotomy (components veraArr i) (components verbArr i) with h | h | h
  · rw [if_pos h, compareSign_of_lt h]
  · rw [if_neg h.not_lt, if_neg h.not_gt, h, compareSign_self]
  · rw [if_neg h.not_gt, if_pos h, compareSign_of_gt h]

/-- The loop stops at the first difference. -/
theorem compareLoop_eq {n i : ℕ} (hbefore : ∀ j < i, components veraArr j = components verbArr j)
    (hafter : ∀ j, i + n ≤ j → components veraArr j = components verbArr j) :
    compareLoop veraArr verbArr n i 0 =
      compareSign (toLex (components veraArr)) (toLex (components verbArr)) := by
  induction n generalizing i with
  | zero =>
    have heq : components veraArr = components verbArr := by
      funext j
      rcases Nat.lt_or_ge j i with hj | hj
      · exact hbefore j hj
      · exact hafter j hj
    rw [heq, compareSign_self, compareLoop]
  | succ n ih =>
    rw [compareLoop_succ]
    by_cases hi : components veraArr i = components verbArr i
    · rw [hi, compareSign_self]
      refine ih (fun j hj => ?_) fun j hj => hafter j (by omega)
      rcases Nat.lt_succ_iff_lt_or_eq.mp hj with hj | rfl
      · exact hbefore j hj
      · exact hi
    · rw [compareSign_first hbefore hi, compareLoop_of_ne]
      rcases lt_or_gt_of_ne hi with h | h
      · simp [compareSign_of_lt h]
      · simp [compareSign_of_gt h]

theorem components_of_length_le {arr : List JsString} {i : ℕ} (h : arr.length ≤ i) :
    components arr i = Js.Number.nan.rank := by
  simp [components, padded, h]

end

section

variable (jsUtil : Option JSUtil)

/-- Two versions are compared by their keys. -/
theorem compareVersion_eq (vera verb : JsString) :
    compareVersion jsUtil vera (some verb) = compareSign (versionKey vera) (versionKey verb) := by
  refine compareLoop_eq (fun j hj => absurd hj j.not_lt_zero) fun j hj => ?_
  rw [Nat.zero_add] at hj
  rw [components_of_length_le ((le_max_left _ _).trans hj),
    components_of_length_le ((le_max_right _ _).trans hj)]

end

/-! ## Components that are zero -/

/-- `n` times the text `.0` -/
def dotZeros (n : ℕ) : JsString :=
  (List.replicate n [dot, 48]).flatten

theorem rank_toNumber_zero : (toNumber [48]).rank = Js.Number.nan.rank := by
  have hzero : digitsVal 10 [48] = 0 := by decide
  rw [toNumber_digits (by decide), hzero, Js.Number.rank_round_nat (by decide)]
  rfl

theorem versionKey_dot_zero (s : JsString) : versionKey (s ++ [dot, 48]) = versionKey s := by
  have hsplit : (s ++ [dot, 48]).splitOn dot = s.splitOn dot ++ [[48]] :=
    List.splitOn_append_cons_self s [48]
  rw [versionKey, hsplit, components, List.map_append, List.map_singleton, rank_toNumber_zero]
  exact congrArg toLex (padded_append_replicate _ 1)

theorem versionKey_dotZeros (s : JsString) (n : ℕ) :
    versionKey (s ++ dotZeros n) = versionKey s := by
  induction n with
  | zero => rw [dotZeros, List.replicate_zero, List.flatten_nil, List.append_nil]
  | succ n ih =>
    rw [dotZeros, List.replicate_succ', List.flatten_append, List.flatten_singleton,
      ← List.append_assoc, versionKey_dot_zero]
    exact ih

/-! ## Decimal components -/

/-- Where a natural number stands. -/
def natRank (n : ℕ) : WithBot (WithTop ℚ) :=
  ((n : ℚ) : WithTop ℚ)

theorem natRank_strictMono : StrictMono natRank := fun m n h => by
  simpa [natRank] using h

theorem natRank_zero : natRank 0 = Js.Number.nan.rank := by
  simp [natRank, Js.Number.rank]

/-- Decimal digits of a number that is represented exactly. -/
structure Decimal where
  digits : JsString
  areDigits : areDigits 10 digits = true
  small : digitsVal 10 digits < 2 ^ 53

namespace Decimal

/-- The number. -/
def val (d : Decimal) : ℕ :=
  digitsVal 10 d.digits

/-- Numbers with dots between them. -/
def dotted (ds : List Decimal) : JsString :=
  [dot].intercalate (ds.map digits)

variable {d : Decimal} {ds : List Decimal}

theorem rank_toNumber (d : Decimal) : (toNumber d.digits).rank = natRank d.val := by
  rw [toNumber_digits d.areDigits, Js.Number.rank_round_nat d.small]
  rfl

theorem dot_notMem (d : Decimal) : dot ∉ d.digits := by
  intro hdot
  have hdigit := (areDigits_iff.mp d.areDigits).2 dot hdot
  exact absurd hdigit (by decide)

theorem splitOn_dotted (hne : ds ≠ []) : (dotted ds).splitOn dot = ds.map digits := by
  refine List.splitOn_intercalate dot (fun l hl => ?_) (by simpa using hne)
  obtain ⟨d, -, rfl⟩ := List.mem_map.mp hl
  exact dot_notMem d

/-- The key of a version of numbers. -/
theorem versionKey_dotted (ds : List Decimal) :
    versionKey (dotted ds) = toLex fun i => natRank (padded 0 (ds.map val) i) := by
  unfold versionKey components
  congr 1
  funext i
  rw [← padded_map natRank, natRank_zero, List.map_map]
  rcases eq_or_ne ds [] with rfl | hne
  · -- no number at all is one empty component
    exact congrFun (padded_append_replicate [] 1) i
  · rw [splitOn_dotted hne, List.map_map]
    congr 1
    exact List.map_congr_left fun d _ => rank_toNumber d

theorem compareVersion_dotted (jsUtil : Option JSUtil) (xs ys : List Decimal) :
    compareVersion jsUtil (dotted xs) (some (dotted ys)) =
      compareSign ((xs.map val).rightpad (max xs.length ys.length) 0)
        ((ys.map val).rightpad (max xs.length ys.length) 0) := by
  rw [compareVersion_eq, versionKey_dotted, versionKey_dotted,
    compareSign_rightpad (by simp) (by simp)]
  exact compareSign_congr (toLex_comp_lt_iff natRank_strictMono)
    (toLex_comp_lt_iff natRank_strictMono)

end Decimal

/-- `compareVersion` is the comparison of a total preorder, for which zeros at the end do not
count and in which versions of numbers stand as their lists do. -/
theorem compareVersion_preorder (jsUtil : Option JSUtil) :
    (∀ a b, compareVersion jsUtil a (some b) = -compareVersion jsUtil b (some a)) ∧
    (∀ a, compareVersion jsUtil a (some a) = 0) ∧
    (∀ a b c, 0 ≤ compareVersion jsUtil a (some b) → 0 ≤ compareVersion jsUtil b (some c) →
      0 ≤ compareVersion jsUtil a (some c)) ∧
    (∀ a b m n, compareVersion jsUtil (a ++ dotZeros m) (some (b ++ dotZeros n)) =
      compareVersion jsUtil a (some b)) ∧
    ∀ xs ys : List Decimal,
      compareVersion jsUtil (Decimal.dotted xs) (some (Decimal.dotted ys)) =
        compareSign ((xs.map Decimal.val).rightpad (max xs.length ys.length) 0)
          ((ys.map Decimal.val).rightpad (max xs.length ys.length) 0) := by
  refine ⟨fun a b => ?_, fun a => ?_, fun a b c => ?_, fun a b m n => ?_,
    Decimal.compareVersion_dotted jsUtil⟩
  · rw [compareVersion_eq, compareVersion_eq, compareSign_swap]
  · rw [compareVersion_eq, compareSign_self]
  · simp only [compareVersion_eq, compareSign_nonneg]
    exact fun hab hbc => hbc.trans hab
  · simp only [compareVersion_eq, versionKey_dotZeros]

/-- `1.10` is later than `1.9`, which is later than `1.x`, which is `1.0`. -/
theorem late_versions : 0 ≤ compareVersion none [49, dot, 49, 48] (some [49, dot, 120]) :=
  (compareVersion_preorder none).2.2.1 [49, dot, 49, 48] [49, dot, 57] [49, dot, 120]
    (by decide +kernel) (by decide +kernel)

end MySocket
