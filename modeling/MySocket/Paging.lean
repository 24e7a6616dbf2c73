import MySocket.LimitClause
import MySocket.Rounding
import MySocket.Slices
import Mathlib.Algebra.Order.Floor.Div

/-!
# Paging a select

`DBEngine.queryPage` reads a page of a select : it reads the LIMIT of the text, rewrites the
text so that it selects the rows of the page, and makes a `ResultPage` of them and of what
`found_rows()` says. The count is that of the select with no LIMIT at all.

* `queryPage_eq` : page `j + 1` is the `j`-th window of the rows that the LIMIT leaves.
* `paged_iff_covers` : the pages are the rows of the select, one after the other, exactly if
  the LIMIT reaches the last page that is counted.

The database enters by the rows and the count that it answers to a text (`Database`), and
by what LIMIT does there (`Database.Answers`); `reading` is one that does it.
-/

namespace MySocket

variable {α : Type}

/-! ## The rows of a clause -/

/-- `Integer.MAX_VALUE` -/
def maxInt : ℕ :=
  2 ^ 31 - 1

namespace Numbers

/-- The rows skipped. -/
def lower : Numbers → ℕ
  | count _ => 0
  | range a _ _ _ _ _ => decimalValue a.digits

/-- The rows left. -/
def size : Numbers → ℕ
  | count b => decimalValue b.digits
  | range _ _ _ _ _ b => decimalValue b.digits

end Numbers

namespace Clause

/-- What LIMIT leaves of the rows of the select. -/
def rows : Clause → List α → List α
  | none _ _, R => R
  | limit _ z, R => (R.drop z.lower).take z.size

/-- `oBegin` -/
def lower : Clause → ℕ
  | none _ _ => 0
  | limit _ z => z.lower

/-- The rows up to `oEnd`. -/
def size : Clause → ℕ
  | none _ _ => maxInt
  | limit _ z => z.size

/-- `oBegin` and `oEnd`, if there is a LIMIT. -/
def limits : Clause → Option (ℤ × ℤ)
  | none _ _ => .none
  | limit _ z => some (z.lower, z.lower + z.size)

theorem getD_limits (c : Clause) :
    c.limits.getD (0, (maxInt : ℤ)) = ((c.lower : ℤ), ((c.lower + c.size : ℕ) : ℤ)) := by
  cases c <;> simp [limits, lower, size]

theorem rows_window (w : List Char) (hw : Blanks w) (p n : ℕ) (R : List α) :
    (window w hw p n).rows R = (R.drop p).take n := by
  simp only [window, rows, Numbers.lower, Numbers.size, decimalValue_ofNat]

theorem rows_eq (c : Clause) {R : List α} (hR : R.length ≤ maxInt) :
    c.rows R = (R.drop c.lower).take c.size := by
  cases c with
  | none w hw => exact (List.take_of_length_le hR).symm
  | limit k z => rfl

end Clause

namespace DBEngine

/-! ## The code -/

/-- The `int` of the value `n`. -/
def toInt (n : ℤ) : ℤ :=
  n.bmod (2 ^ 32)

inductive Thrown
  | numberFormat
  | sql

/-- What the database answers : the rows of a statement, and `found_rows()` after it. -/
structure Database (α : Type) where
  rows : List Char → List α
  found : List Char → ℕ

structure ResultPage (α : Type) where
  record : List α
  totalRecord : ℤ
  pageSize : ℤ
  pageNo : ℤ

namespace ResultPage

/-- The cast of the double to `int` stops at the bounds. A page of `queryPage` has a positive
`pageSize`. -/
def getPageCount (p : ResultPage α) : ℤ :=
  max (-2 ^ 31) (min ⌈roundDouble ((p.totalRecord : ℚ) / p.pageSize)⌉ maxInt)

def hasNextPage (p : ResultPage α) : Bool :=
  p.pageNo < p.getPageCount

end ResultPage

def parseInt (digits : List Char) : Except Thrown ℤ :=
  if decimalValue digits ≤ maxInt then .ok (decimalValue digits) else .error .numberFormat

/-- `oBegin` and `oEnd`, if there is a LIMIT. -/
def limits (sql : List Char) : Except Thrown (Option (ℤ × ℤ)) :=
  match Re.limitFound.find [] sql with
  | none => .ok none
  | some (_, mc) =>
    if mc.get 2 ≠ [] then do
      let oBegin ← parseInt (mc.get 1)
      let count ← parseInt (mc.get 2)
      return some (oBegin, toInt (oBegin + count))
    else do
      let oEnd ← parseInt (mc.get 1)
      return some (0, oEnd)

/-- `begin` -/
def pageBegin (oBegin oEnd pageSize pageNo : ℤ) : ℤ :=
  let first := toInt (oBegin + toInt (toInt (pageNo - 1) * pageSize))
  if first > oEnd then oEnd else first

/-- `offset` -/
def pageOffset (oBegin oEnd pageSize pageNo : ℤ) : ℤ :=
  let distinct := toInt (oEnd - toInt (oBegin + toInt (pageNo * pageSize)))
  if distinct ≥ 0 then pageSize else toInt (oEnd - pageBegin oBegin oEnd pageSize pageNo)

/-- The statement of the page. -/
def pageSql (isContainLimit : Bool) (first offset : ℤ) (sql : List Char) : List Char :=
  let sql := Re.selectHead.replaceFirst (fun _ => countedHead) sql
  if isContainLimit then
    Re.limitTail.replaceAll (fun mc => mc.get 1 ++ limitText first offset) sql
  else sql ++ limitText first offset

/-- `rs.getInt` -/
def getInt (n : ℕ) : Except Thrown ℤ :=
  if n ≤ maxInt then .ok n else .error .sql

def queryPage (db : Database α) (sql : List Char) (pageSize pageNo : ℤ) :
    Except Thrown (Option (ResultPage α)) := do
  let pageNo := if pageNo > 0 then pageNo else 1
  let limits ← limits sql
  let (oBegin, oEnd) := limits.getD (0, maxInt)
  let first := pageBegin oBegin oEnd pageSize pageNo
  let offset := pageOffset oBegin oEnd pageSize pageNo
  let sql := pageSql limits.isSome first offset sql
  if offset > 0 then
    let totalRecord ← getInt (db.found sql)
    return some ⟨db.rows sql, totalRecord, pageSize, pageNo⟩
  else
    return none

/-! ## What the database answers -/

/-- `q` has the result `R`, the rewritten select has it too, `LIMIT` cuts it, and `found_rows()`
counts it without the `LIMIT`. -/
structure Database.Answers (db : Database α) (q : BaseSelect) (R : List α) : Prop where
  rows : ∀ c : Clause, db.rows (q.text ++ c.text) = c.rows R
  counted : ∀ c : Clause, db.rows (q.counted ++ c.text) = c.rows R
  found : ∀ c : Clause, db.found (q.counted ++ c.text) = R.length

/-! ## Paging -/

/-- The pages counted by the first one are there, their records are `rows`, and all but the last
have a next one. -/
def Paged (db : Database α) (sql : List Char) (s : ℕ) (rows : List α) : Prop :=
  ∃ first, queryPage db sql s 1 = .ok (some first) ∧ ∃ page : ℕ → ResultPage α,
    (∀ j : ℕ, (j : ℤ) < first.getPageCount →
      queryPage db sql s (j + 1) = .ok (some (page j)) ∧
        ((page j).hasNextPage = true ↔ (j : ℤ) + 1 < first.getPageCount)) ∧
      ((List.range first.getPageCount.toNat).flatMap fun j => (page j).record) = rows

/-- No `int` overflows in the calls for the pages of `T` rows, of which there is a first in any
case : page `k` computes with numbers up to `a + b` and `a + k * s`. -/
def NoOverflow (c : Clause) (s T : ℕ) : Prop :=
  c.lower + c.size ≤ maxInt ∧ c.lower + max (T ⌈/⌉ s) 1 * s ≤ maxInt

/-- The rows of a LIMIT reach the last page of `T` rows. -/
def Covers (s T : ℕ) : Clause → Prop
  | .none _ _ => True
  | .limit _ z => 0 < z.size ∧ T ≤ s * (z.size ⌈/⌉ s)

/-! ## The page -/

theorem toInt_eq {n : ℤ} (h : -2 ^ 31 ≤ n) (h' : n ≤ maxInt) : toInt n = n := by
  simp only [maxInt] at h'
  exact Int.bmod_eq_of_le (by omega) (by omega)

theorem parseInt_eq {digits : List Char} (h : decimalValue digits ≤ maxInt) :
    parseInt digits = .ok (decimalValue digits) :=
  if_pos h

theorem limits_eq (q : BaseSelect) (c : Clause) (h : c.lower + c.size ≤ maxInt) :
    limits (q.text ++ c.text) = .ok c.limits := by
  cases c with
  | none w hw =>
    have hnone : ¬Limited (q.text ++ w) := fun hl => q.notLimited (hl.of_append_blanks hw)
    simp only [limits, Clause.text, Re.find_limitFound_none hnone, Clause.limits]
  | limit k z =>
    obtain ⟨skipped, mc, hf, hfst, hsnd⟩ := Re.find_limitFound q.notLimited k z
    have hf' : Re.limitFound.find [] (q.text ++ (Clause.limit k z).text) = some (skipped, mc) := hf
    simp only [limits, hf', hfst, hsnd]
    cases z with
    | count b =>
      have hb : decimalValue b.digits ≤ maxInt := le_trans (Nat.le_add_left _ _) h
      simp [Numbers.snd, Numbers.fst, parseInt_eq hb, Clause.limits, Numbers.lower, Numbers.size, bind,
        Except.bind, pure, Except.pure]
    | range a w w' hw hw' b =>
      have hab : decimalValue a.digits + decimalValue b.digits ≤ maxInt := h
      have ha : decimalValue a.digits ≤ maxInt := le_trans (Nat.le_add_right _ _) hab
      have hb : decimalValue b.digits ≤ maxInt := le_trans (Nat.le_add_left _ _) hab
      have hsum : toInt ((decimalValue a.digits : ℤ) + decimalValue b.digits) = decimalValue a.digits + decimalValue b.digits :=
        toInt_eq (by omega) (by exact_mod_cast hab)
      simp [Numbers.snd, Numbers.fst, b.digits_ne, parseInt_eq ha, parseInt_eq hb, hsum,
        Clause.limits, Numbers.lower, Numbers.size, bind, Except.bind, pure, Except.pure]

/-- The statement of a page is the rewritten select with a LIMIT of its own. -/
theorem exists_pageSql (q : BaseSelect) (c : Clause) (p n : ℕ) :
    ∃ (w : List Char) (hw : Blanks w),
      pageSql c.limits.isSome p n (q.text ++ c.text) = q.counted ++ (Clause.window w hw p n).text := by
  have hhead : Re.selectHead.replaceFirst (fun _ => countedHead) (q.text ++ c.text) =
      q.counted ++ c.text := by
    rw [Re.replaceFirst_selectHead, BaseSelect.counted, List.append_assoc]
  simp only [pageSql, hhead]
  cases c with
  | none w hw =>
    refine ⟨w, hw, ?_⟩
    simp only [Clause.limits, Option.isSome_none, Bool.false_eq_true, if_false]
    rw [← append_limitText hw, ← List.append_assoc, Clause.text]
  | limit k z =>
    simp only [Clause.limits, Option.isSome_some, if_true]
    exact q.exists_replaceAll_limitTail k z p n

section

variable {a b s j : ℕ}

theorem toInt_natCast {n : ℕ} (h : n ≤ maxInt) : toInt n = n :=
  toInt_eq (by omega) (by exact_mod_cast h)

/-- The first row of page `j + 1`. -/
theorem pageBegin_eq (hs : 0 < s) (hpage : a + (j + 1) * s ≤ maxInt) :
    pageBegin a (a + b : ℕ) s (j + 1) = (a + min (j * s) b : ℕ) := by
  have hmul : (j + 1) * s = j * s + s := Nat.succ_mul j s
  have hle : j ≤ j * s := Nat.le_mul_of_pos_right j hs
  have hprod : toInt (toInt ((j : ℤ) + 1 - 1) * s) = (j * s : ℕ) := by
    rw [add_sub_cancel_right, toInt_natCast (by omega), ← Nat.cast_mul, toInt_natCast (by omega)]
  simp only [pageBegin, hprod, ← Nat.cast_add, toInt_natCast (show a + j * s ≤ maxInt by omega)]
  split_ifs with h <;> omega

/-- The rows of page `j + 1`. -/
theorem pageOffset_eq (hs : 0 < s) (hclause : a + b ≤ maxInt) (hpage : a + (j + 1) * s ≤ maxInt) :
    pageOffset a (a + b : ℕ) s (j + 1) = (min s (b - j * s) : ℕ) := by
  have hmul : (j + 1) * s = j * s + s := Nat.succ_mul j s
  have hprod : toInt (((j : ℤ) + 1) * s) = (j * s + s : ℕ) := by
    rw [← hmul, ← toInt_natCast (by omega : (j + 1) * s ≤ maxInt)]
    push_cast
    rfl
  have hmax : (maxInt : ℤ) = 2 ^ 31 - 1 := by decide
  have hdistinct : toInt (((a + b : ℕ) : ℤ) - (a + (j * s + s) : ℕ)) = (b : ℤ) - (j * s + s : ℕ) := by
    rw [toInt_eq (by omega) (by omega)]
    omega
  have hrest : toInt (((a + b : ℕ) : ℤ) - (a + min (j * s) b : ℕ)) = (b - j * s : ℕ) := by
    rw [toInt_eq (by omega) (by omega)]
    omega
  simp only [pageOffset, hprod, ← Nat.cast_add, toInt_natCast (show a + (j * s + s) ≤ maxInt by omega),
    hdistinct, pageBegin_eq hs hpage, hrest]
  split_ifs with h <;> omega

end

section

variable {db : Database α} {q : BaseSelect} {R : List α} {s : ℕ}

/-- Page `j + 1` of a clause's rows. -/
def pageOf (c : Clause) (R : List α) (s j : ℕ) : ResultPage α :=
  ⟨((c.rows R).drop (j * s)).take s, R.length, s, j + 1⟩

/-- A page is a window of the clause's rows, and there is none past their end. -/
theorem queryPage_eq (hdb : db.Answers q R) (c : Clause) (hs : 0 < s) (hR : R.length ≤ maxInt)
    (hclause : c.lower + c.size ≤ maxInt) {j : ℕ} (hpage : c.lower + (j + 1) * s ≤ maxInt) :
    queryPage db (q.text ++ c.text) s (j + 1) =
      .ok (if j * s < c.size then some (pageOf c R s j) else none) := by
  obtain ⟨w, hw, hsql⟩ :=
    exists_pageSql q c (c.lower + min (j * s) c.size) (min s (c.size - j * s))
  have hpos : (j : ℤ) + 1 > 0 := by omega
  simp only [queryPage, hpos, if_true, limits_eq q c hclause, bind, Except.bind, c.getD_limits,
    pageBegin_eq hs hpage, pageOffset_eq hs hclause hpage, hsql, hdb.counted, hdb.found, getInt, hR,
    Clause.rows_window]
  by_cases hj : j * s < c.size
  · have hoffset : ((min s (c.size - j * s) : ℕ) : ℤ) > 0 := by omega
    have hrow : c.lower + min (j * s) c.size = c.lower + j * s := by omega
    have hrecord : ((c.rows R).drop (j * s)).take s =
        (R.drop (c.lower + j * s)).take (min s (c.size - j * s)) := by
      rw [c.rows_eq hR, List.drop_take, List.take_take, List.drop_drop]
    simp only [hoffset, hj, if_true, hrow, pageOf, hrecord]
    rfl
  · have hoffset : ¬((min s (c.size - j * s) : ℕ) : ℤ) > 0 := by omega
    simp only [hoffset, hj, if_false]
    rfl

/-- The pages that `T` rows take. -/
theorem ceil_div_eq (T : ℕ) (hs : 0 < s) : ⌈(T : ℚ) / s⌉ = (T ⌈/⌉ s : ℕ) := by
  have hs' : (0 : ℚ) < s := by exact_mod_cast hs
  refine le_antisymm (Int.ceil_le.mpr ?_) ?_
  · have hle := (ceilDiv_le_iff_le_mul hs).mp (le_refl (T ⌈/⌉ s))
    rw [div_le_iff₀ hs', mul_comm]
    exact_mod_cast hle
  · have hnonneg : 0 ≤ ⌈(T : ℚ) / s⌉ := Int.ceil_nonneg (by positivity)
    obtain ⟨m, hm⟩ := Int.eq_ofNat_of_zero_le hnonneg
    have hle := Int.le_ceil ((T : ℚ) / s)
    rw [hm, div_le_iff₀ hs', mul_comm] at hle
    rw [hm, Nat.cast_le, ceilDiv_le_iff_le_mul hs]
    exact_mod_cast hle

namespace NoOverflow

variable {c : Clause} {T : ℕ}

theorem mul_le (hfit : NoOverflow c s T) : (T ⌈/⌉ s) * s ≤ maxInt := by
  have hle := Nat.mul_le_mul_right s (le_max_left (T ⌈/⌉ s) 1)
  have hlast := hfit.2
  omega

/-- The rows can be counted. -/
theorem length_le (hfit : NoOverflow c s T) (hs : 0 < s) : T ≤ maxInt := by
  have hle := (ceilDiv_le_iff_le_mul hs).mp (le_refl (T ⌈/⌉ s))
  rw [mul_comm] at hle
  exact hle.trans hfit.mul_le

theorem getPageCount_pageOf (hfit : NoOverflow c s R.length) (hs : 0 < s) (j : ℕ) :
    (pageOf c R s j).getPageCount = (R.length ⌈/⌉ s : ℕ) := by
  have hR := hfit.length_le hs
  have hN : R.length ⌈/⌉ s ≤ maxInt := (Nat.le_mul_of_pos_right _ hs).trans hfit.mul_le
  have hround := ceil_roundDouble (t := R.length) (s := s) (by omega)
    (by rw [maxInt] at hR; omega) (by omega)
  have hceil : ⌈roundDouble (((R.length : ℤ) : ℚ) / ((s : ℤ) : ℚ))⌉ = (R.length ⌈/⌉ s : ℕ) := by
    rw [hround, Int.cast_natCast, Int.cast_natCast]
    exact ceil_div_eq R.length hs
  simp only [ResultPage.getPageCount, pageOf, hceil]
  omega

end NoOverflow

/-- A clause reaches the last page if it has rows past those before. -/
theorem covers_iff (c : Clause) (hs : 0 < s) {T : ℕ} (hN : (T ⌈/⌉ s) * s ≤ maxInt) :
    Covers s T c ↔ (T ⌈/⌉ s - 1) * s < c.size := by
  cases c with
  | none w hw =>
    have hmax : 0 < maxInt := by decide
    simp only [Covers, Clause.size, true_iff]
    rcases Nat.eq_zero_or_pos (T ⌈/⌉ s) with h | h
    · rwa [h, Nat.zero_sub, Nat.zero_mul]
    · exact (Nat.mul_lt_mul_of_pos_right (Nat.sub_lt h Nat.one_pos) hs).trans_le hN
  | limit k z =>
    simp only [Covers, Clause.size, ← ceilDiv_le_iff_le_mul hs]
    cases hT : T ⌈/⌉ s with
    | zero => simp
    | succ n =>
      have hle : n + 1 ≤ z.size ⌈/⌉ s ↔ n * s < z.size := by
        rw [Nat.succ_le_iff, ← not_le, ceilDiv_le_iff_le_mul hs, not_le, mul_comm]
      rw [hle, Nat.add_sub_cancel]
      exact ⟨fun h => h.2, fun h => ⟨Nat.zero_lt_of_lt h, h⟩⟩

/-- The pages of a call within the bounds. -/
theorem NoOverflow.queryPage_eq {c : Clause} (hfit : NoOverflow c s R.length)
    (hdb : db.Answers q R) (hs : 0 < s) {j : ℕ} (hj : j < max (R.length ⌈/⌉ s) 1) :
    queryPage db (q.text ++ c.text) s (j + 1) =
      .ok (if j * s < c.size then some (pageOf c R s j) else none) := by
  have hle := Nat.mul_le_mul_right s (show j + 1 ≤ max (R.length ⌈/⌉ s) 1 from hj)
  have hlast := hfit.2
  exact DBEngine.queryPage_eq hdb c hs (hfit.length_le hs) hfit.1 (by omega)

/-- If all pages are there, so is the last one. -/
theorem covers_of_paged (hdb : db.Answers q R) {c : Clause} (hs : 0 < s)
    (hfit : NoOverflow c s R.length) {rows : List α} (h : Paged db (q.text ++ c.text) s rows) :
    Covers s R.length c := by
  obtain ⟨first, hq, page, hpages, -⟩ := h
  have hfirst := hfit.queryPage_eq hdb hs (j := 0) (by omega)
  rw [Nat.cast_zero, zero_add, hq, Nat.zero_mul] at hfirst
  rw [covers_iff c hs hfit.mul_le]
  by_cases hsize : 0 < c.size
  · rw [if_pos hsize, Except.ok.injEq, Option.some.injEq] at hfirst
    subst hfirst
    rw [hfit.getPageCount_pageOf hs] at hpages
    cases hN : R.length ⌈/⌉ s with
    | zero => simpa using hsize
    | succ n =>
      have hlast := (hpages n (by omega)).1
      rw [hfit.queryPage_eq hdb hs (by omega)] at hlast
      by_contra hout
      rw [Nat.add_sub_cancel] at hout
      simp [hout] at hlast
  · simp [hsize] at hfirst

theorem paged_of_covers (hdb : db.Answers q R) {c : Clause} (hs : 0 < s)
    (hfit : NoOverflow c s R.length) (h : Covers s R.length c) :
    Paged db (q.text ++ c.text) s (db.rows (q.text ++ c.text)) := by
  rw [covers_iff c hs hfit.mul_le] at h
  have hpage : ∀ j, j < max (R.length ⌈/⌉ s) 1 →
      queryPage db (q.text ++ c.text) s (j + 1) = .ok (some (pageOf c R s j)) := by
    intro j hj
    have hle := Nat.mul_le_mul_right s (show j ≤ R.length ⌈/⌉ s - 1 by omega)
    rw [hfit.queryPage_eq hdb hs hj, if_pos (by omega)]
  have hfirst := hpage 0 (by omega)
  rw [Nat.cast_zero, zero_add] at hfirst
  refine ⟨pageOf c R s 0, hfirst, pageOf c R s, fun j hj => ⟨hpage j ?_, ?_⟩, ?_⟩
  · rw [hfit.getPageCount_pageOf hs] at hj
    omega
  · rw [ResultPage.hasNextPage, hfit.getPageCount_pageOf hs, hfit.getPageCount_pageOf hs,
      decide_eq_true_iff]
    rfl
  · have hT : R.length ≤ (R.length ⌈/⌉ s) * s := by
      rw [mul_comm, ← ceilDiv_le_iff_le_mul hs]
    have hlen : (c.rows R).length ≤ (R.length ⌈/⌉ s) * s := by
      rw [c.rows_eq (hfit.length_le hs), List.length_take, List.length_drop]
      omega
    rw [hfit.getPageCount_pageOf hs, Int.toNat_natCast, hdb.rows]
    exact (flatMap_windows (c.rows R) s (R.length ⌈/⌉ s)).trans (List.take_of_length_le hlen)

/-- Paging is a partition exactly if the LIMIT reaches the last page that `found_rows()`
counts. -/
theorem paged_iff_covers (hdb : db.Answers q R) (c : Clause) (hs : 0 < s)
    (hfit : NoOverflow c s R.length) :
    Paged db (q.text ++ c.text) s (db.rows (q.text ++ c.text)) ↔ Covers s R.length c :=
  ⟨covers_of_paged hdb hs hfit, paged_of_covers hdb hs hfit⟩

end

/-! ## A database -/

/-- The rows `R`, cut by the LIMIT in the text. -/
def readSelect (R : List α) (sql : List Char) : List α :=
  match Re.limitFound.find [] sql with
  | none => R
  | some (_, mc) =>
    if mc.get 2 ≠ [] then (R.drop (decimalValue (mc.get 1))).take (decimalValue (mc.get 2))
    else R.take (decimalValue (mc.get 1))

/-- The database whose every select has the result `R`. -/
def reading (R : List α) : Database α :=
  ⟨readSelect R, fun _ => R.length⟩

theorem readSelect_append {u : List Char} (hu : ¬Limited u) (c : Clause) (R : List α) :
    readSelect R (u ++ c.text) = c.rows R := by
  cases c with
  | none w hw =>
    have hnone : ¬Limited (u ++ w) := fun hl => hu (hl.of_append_blanks hw)
    simp only [readSelect, Clause.text, Re.find_limitFound_none hnone, Clause.rows]
  | limit k z =>
    obtain ⟨skipped, mc, hf, hfst, hsnd⟩ := Re.find_limitFound hu k z
    simp only [readSelect, hf, hfst, hsnd, Clause.rows]
    cases z with
    | count b => rfl
    | range a w w' hw hw' b => exact if_pos b.digits_ne

theorem reading_answers (q : BaseSelect) (R : List α) : (reading R).Answers q R where
  rows c := readSelect_append q.notLimited c R
  counted c := by
    simp only [reading, readSelect_append q.counted_notLimited c R]
  found _ := rfl

/-! ## A LIMIT that does not reach the last page -/

theorem notLimited_of_no_i {cs : List Char} (h : (cs.all fun c => c ≠ 'i' && c ≠ 'I') = true) :
    ¬Limited cs := by
  rintro ⟨x, c, l, y, rfl, -, hl, -⟩
  have hword : "limit".toList = 'l' :: 'i' :: ['m', 'i', 't'] := by decide
  rw [Spells, anyCase, hword, List.forall₂_map_left_iff, List.forall₂_cons_left_iff] at hl
  obtain ⟨e, l, -, hl, rfl⟩ := hl
  obtain ⟨d, l, hd, -, rfl⟩ := List.forall₂_cons_left_iff.mp hl
  have hno := List.all_eq_true.mp h d (by simp)
  simp only [ne_eq, Bool.and_eq_true, decide_eq_true_eq] at hno
  have hupper : 'i'.toUpper = 'I' := by decide
  simp [hno, hupper] at hd

/-- `select a from t` -/
def plain : BaseSelect where
  lead := []
  select := "select".toList
  gap := [' ']
  body := "a from t".toList
  lead_blank := blanks_nil
  select_spells := .cons rfl (.cons rfl (.cons rfl (.cons rfl (.cons rfl (.cons rfl .nil)))))
  gap_blank := blanks_space
  gap_ne := space_ne
  body_ne := by decide
  head_solid c hc := Option.some.inj (show some 'a' = some c from hc) ▸ rfl
  last_solid c hc := Option.some.inj (show some 't' = some c from hc) ▸ rfl
  notLimited := notLimited_of_no_i (by decide)

/-- ` limit b` -/
def limitCount (b : ℕ) : Clause :=
  .limit ⟨[' '], "limit".toList, [' '], blanks_space, space_ne, spells_limit, blanks_space, space_ne⟩
    (.count (Number.ofNat b))

def fiveRows : List ℕ :=
  [11, 12, 13, 14, 15]

/-- With `limit 2` and pages of two, the first page counts three pages, and the second is not
there. -/
theorem limit_not_covering :
    NoOverflow (limitCount 2) 2 fiveRows.length ∧ (reading fiveRows).Answers plain fiveRows ∧
      plain.text ++ (limitCount 2).text = "select a from t limit 2".toList ∧
      queryPage (reading fiveRows) (plain.text ++ (limitCount 2).text) 2 2 = .ok none ∧
      ¬Paged (reading fiveRows) (plain.text ++ (limitCount 2).text) 2
        ((reading fiveRows).rows (plain.text ++ (limitCount 2).text)) := by
  have hdb := reading_answers plain fiveRows
  have hfit : NoOverflow (limitCount 2) 2 fiveRows.length := ⟨by decide, by decide⟩
  have hsecond := hfit.queryPage_eq hdb (by decide) (j := 1) (by decide)
  rw [if_neg (by decide), Nat.cast_one, one_add_one_eq_two] at hsecond
  exact ⟨hfit, hdb, by decide, hsecond,
    fun h => absurd (covers_of_paged hdb (by decide) hfit h).2 (by decide)⟩

/-- `limit 1,5` reaches the last page. -/
theorem limit_covering :
    plain.text ++ (Clause.window [] blanks_nil 1 5).text = "select a from t limit 1,5".toList ∧
      Paged (reading fiveRows) (plain.text ++ (Clause.window [] blanks_nil 1 5).text) 2
        ((reading fiveRows).rows (plain.text ++ (Clause.window [] blanks_nil 1 5).text)) :=
  ⟨by decide, (paged_iff_covers (reading_answers plain fiveRows) _ (by decide)
    ⟨by decide, by decide⟩).mpr ⟨by decide, by decide⟩⟩

end DBEngine

end MySocket
