import Mathlib.Data.List.Infix
import Mathlib.Data.Nat.Find

/-!
# Searching a list for a list

`indexOf d xs` is the first place where `d` occurs in `xs`, as `String.indexOf` finds it.
-/

namespace MySocket

variable {α : Type*} {d xs ys : List α} {i j : ℕ}

/-- `d` occurs in `xs` at `i`. -/
def OccursAt (d xs : List α) (i : ℕ) : Prop :=
  d <+: xs.drop i

theorem OccursAt.le_length (h : OccursAt d xs i) (hd : d ≠ []) : i + d.length ≤ xs.length := by
  have hlen := h.length_le
  have hpos := List.length_pos_of_ne_nil hd
  rw [List.length_drop] at hlen
  omega

/-- What occurs in the first part of a list occurs in the list. -/
theorem OccursAt.append (h : OccursAt d xs i) (hd : d ≠ []) (ys : List α) :
    OccursAt d (xs ++ ys) i := by
  have hle := h.le_length hd
  unfold OccursAt
  rw [List.drop_append_of_le_length (by omega)]
  exact h.trans (List.prefix_append _ _)

theorem occursAt_append_of_le (h : i + d.length ≤ xs.length) :
    OccursAt d (xs ++ ys) i ↔ OccursAt d xs i := by
  unfold OccursAt
  rw [List.drop_append_of_le_length (by omega)]
  refine ⟨fun hp => ?_, fun hp => hp.trans (List.prefix_append _ _)⟩
  refine List.prefix_of_prefix_length_le hp (List.prefix_append _ _) ?_
  rw [List.length_drop]
  omega

/-- What occurs in the second part of a list. -/
@[simp] theorem occursAt_length_add :
    OccursAt d (xs ++ ys) (xs.length + i) ↔ OccursAt d ys i := by
  unfold OccursAt
  rw [List.drop_length_add_append]

theorem occursAt_cons_succ {x : α} : OccursAt d (x :: xs) (i + 1) ↔ OccursAt d xs i :=
  Iff.rfl

/-! ## In chunks -/

section

variable {chunk : List α} {before after chunks : List (List α)} {m : ℕ}

/-- An occurrence in a chunk is one in the text. -/
theorem OccursAt.flatten (h : OccursAt d chunk i) (hd : d ≠ []) :
    OccursAt d (before ++ chunk :: after).flatten (before.flatten.length + i) := by
  rw [List.flatten_append, List.flatten_cons, occursAt_length_add]
  exact h.append hd _

/-- An occurrence within a chunk is one in that chunk. -/
theorem occursAt_chunk (h : OccursAt d (before ++ chunk :: after).flatten i)
    (hlow : before.flatten.length ≤ i) (hhigh : i + d.length ≤ before.flatten.length + chunk.length) :
    OccursAt d chunk (i - before.flatten.length) := by
  have hi : before.flatten.length + (i - before.flatten.length) = i := by omega
  rw [List.flatten_append, List.flatten_cons, ← hi, occursAt_length_add,
    occursAt_append_of_le (by omega)] at h
  exact h

/-- The text of the first chunks is at most that of the chunks up to a later one. -/
theorem length_flatten_take_le (after : List (List α)) (h : m ≤ before.length) :
    ((before ++ after).take m).flatten.length ≤ before.flatten.length := by
  rw [List.take_append_of_le_length h]
  conv_rhs => rw [← List.take_append_drop m before, List.flatten_append, List.length_append]
  omega

theorem OccursAt.of_take (h : OccursAt d (chunks.take m).flatten i) (hd : d ≠ []) :
    OccursAt d chunks.flatten i := by
  rw [← List.take_append_drop m chunks, List.flatten_append]
  exact h.append hd _

end

/-! ## The first occurrence -/

section

variable [DecidableEq α]

instance : Decidable (OccursAt d xs i) :=
  inferInstanceAs (Decidable (d <+: xs.drop i))

/-- `xs.indexOf(d)`, `none` for -1. -/
def indexOf (d : List α) : List α → Option ℕ
  | [] => if d = [] then some 0 else none
  | x :: xs => if d <+: x :: xs then some 0 else (indexOf d xs).map (· + 1)

theorem indexOf_eq_some :
    indexOf d xs = some i ↔ OccursAt d xs i ∧ ∀ j < i, ¬OccursAt d xs j := by
  induction xs generalizing i with
  | nil =>
    by_cases hd : d = []
    · subst hd
      simp only [indexOf, if_true, Option.some.injEq]
      refine ⟨fun h => by subst h; exact ⟨List.nil_prefix, by simp⟩, fun h => ?_⟩
      by_contra hne
      exact h.2 0 (by omega) List.nil_prefix
    · simp only [indexOf, if_neg hd, reduceCtorEq, false_iff]
      rintro ⟨h, -⟩
      rw [OccursAt, List.drop_nil, List.prefix_nil] at h
      exact hd h
  | cons x xs ih =>
    by_cases hp : d <+: x :: xs
    · simp only [indexOf, if_pos hp, Option.some.injEq]
      refine ⟨fun h => by subst h; exact ⟨hp, by simp⟩, fun h => ?_⟩
      by_contra hne
      exact h.2 0 (by omega) hp
    · simp only [indexOf, if_neg hp, Option.map_eq_some_iff]
      constructor
      · rintro ⟨k, hk, rfl⟩
        obtain ⟨hocc, hfirst⟩ := ih.mp hk
        refine ⟨occursAt_cons_succ.mpr hocc, fun j hj => ?_⟩
        cases j with
        | zero => exact hp
        | succ j => exact hfirst j (by omega)
      · rintro ⟨hocc, hfirst⟩
        cases i with
        | zero => exact absurd hocc hp
        | succ i =>
          refine ⟨i, ih.mpr ⟨hocc, fun j hj => ?_⟩, rfl⟩
          exact hfirst (j + 1) (by omega)

theorem indexOf_eq_none : indexOf d xs = none ↔ ∀ i, ¬OccursAt d xs i := by
  constructor
  · intro h i hocc
    -- the first occurrence is the least one
    have hex : ∃ i, OccursAt d xs i := ⟨i, hocc⟩
    have hsome : indexOf d xs = some (Nat.find hex) :=
      indexOf_eq_some.mpr ⟨Nat.find_spec hex, fun j hj => Nat.find_min hex hj⟩
    rw [hsome] at h
    exact absurd h (by simp)
  · intro h
    rcases hi : indexOf d xs with _ | i
    · rfl
    · exact absurd (indexOf_eq_some.mp hi).1 (h i)

end

end MySocket
