import Mathlib.Data.List.Basic

/-!
# Tables with a unique key

A table is a list of rows of which no two have the same key. A key can be missing, and `=`
in a condition holds of no missing value, so rows without a key do not meet. The three
statements on one key are a selection, a deletion, and an insertion that replaces the row
that has the key; the lemmas say what a selection finds after the other two.
-/

namespace MySocket

variable {R K : Type*} [DecidableEq K]

/-- `=` in a condition : it does not hold of a value that is missing. -/
def sqlEq : Option K → Option K → Bool
  | some a, some b => a = b
  | _, _ => false

@[simp] theorem sqlEq_some (a b : K) : sqlEq (some a) (some b) = decide (a = b) :=
  rfl

@[simp] theorem sqlEq_none (a : Option K) : sqlEq a none = false := by
  cases a <;> rfl

theorem eq_of_sqlEq {a b : Option K} (h : sqlEq a b = true) : a = b := by
  revert h
  cases a <;> cases b <;> simp [sqlEq]

/-- Rows of which no two have the same key. -/
structure Table (key : R → Option K) where
  rows : List R
  unique : ∀ k, (rows.filter fun r => sqlEq (key r) k).length ≤ 1

namespace Table

variable {key : R → Option K}

def empty : Table key where
  rows := []
  unique _ := Nat.zero_le _

/-- The rows that have the key `k`. -/
def select (t : Table key) (k : Option K) : List R :=
  t.rows.filter fun r => sqlEq (key r) k

/-- The rows without those that have the key `k`. -/
def delete (t : Table key) (k : Option K) : Table key where
  rows := t.rows.filter fun r => !sqlEq (key r) k
  unique k' := Nat.le_trans (List.filter_sublist.filter _).length_le (t.unique k')

theorem select_delete_self (t : Table key) (k : Option K) : (t.delete k).select k = [] := by
  simp [select, delete]

theorem select_delete_of_ne (t : Table key) {k k' : Option K} (hne : k ≠ k') :
    (t.delete k).select k' = t.select k' := by
  rw [select, delete, List.filter_filter, select]
  refine List.filter_congr fun r _ => ?_
  by_cases hk' : sqlEq (key r) k' = true
  · have hk : ¬sqlEq (key r) k = true := fun hk =>
      hne ((eq_of_sqlEq hk).symm.trans (eq_of_sqlEq hk'))
    simp [hk, hk']
  · simp [hk']

/-- No row has a key that is missing. -/
@[simp] theorem select_none (t : Table key) : t.select none = [] :=
  List.filter_eq_nil_iff.mpr fun r _ => by simp

/-- A row takes the place of the one that has its key. -/
def insertOrReplace (t : Table key) (row : R) : Table key where
  rows := (t.delete (key row)).rows ++ [row]
  unique k := by
    have hold := (t.delete (key row)).unique k
    rw [List.filter_append, List.length_append]
    by_cases hk : sqlEq (key row) k = true
    · have hsame : k = key row := (eq_of_sqlEq hk).symm
      have hnone : ((t.delete (key row)).rows.filter fun r => sqlEq (key r) k) = [] :=
        hsame ▸ t.select_delete_self (key row)
      simp [hnone, hk]
    · simpa [hk] using hold

theorem select_insertOrReplace_self (t : Table key) {row : R} {k : K} (hk : key row = some k) :
    (t.insertOrReplace row).select (some k) = [row] := by
  have hold : (t.delete (some k)).rows.filter (fun r => sqlEq (key r) (some k)) = [] :=
    t.select_delete_self (some k)
  simp [select, insertOrReplace, List.filter_append, hk, hold]

theorem select_insertOrReplace_of_ne (t : Table key) {row : R} {k : Option K}
    (hne : key row ≠ k) : (t.insertOrReplace row).select k = t.select k := by
  have hrow : ¬sqlEq (key row) k = true := fun hk => hne (eq_of_sqlEq hk)
  rw [← t.select_delete_of_ne hne]
  simp [select, insertOrReplace, List.filter_append, hrow]

end Table

end MySocket
