import Mathlib.Data.List.Basic

/-!
# Removing from a table by moving its last entry

`swapRemove l i` is `l` with its last entry in place of the one at `i`, and none at the end.

* `getElem?_swapRemove` : what is at each place.
* `drop_swapRemove` : what is from place `i` on.
-/

namespace MySocket

variable {α : Type*}

def swapRemove (l : List α) (i : ℕ) : List α :=
  match l.getLast? with
  | none => []
  | some a => (l.set i a).dropLast

theorem swapRemove_concat (l : List α) (a : α) (i : ℕ) :
    swapRemove (l ++ [a]) i = ((l ++ [a]).set i a).dropLast := by
  rw [swapRemove, List.getLast?_concat]

@[simp] theorem length_swapRemove (l : List α) (i : ℕ) :
    (swapRemove l i).length = l.length - 1 := by
  rcases List.eq_nil_or_concat l with rfl | ⟨l, a, rfl⟩
  · rfl
  · rw [List.concat_eq_append, swapRemove_concat]
    simp

theorem getElem?_swapRemove {l : List α} {a : α} (ha : l.getLast? = some a) (i j : ℕ) :
    (swapRemove l i)[j]? =
      if j + 1 < l.length then if i = j then some a else l[j]? else none := by
  rw [swapRemove, ha]
  simp only [List.getElem?_dropLast, List.length_set, List.getElem?_set]
  split_ifs <;> first | rfl | omega

/-- The entries from place `i` on, if `e` is there and `rest` after it. -/
theorem drop_swapRemove {l rest : List α} {e : α} {i : ℕ} (h : l.drop i = e :: rest) :
    (swapRemove l i).drop i = rest.getLast?.toList ++ rest.dropLast := by
  obtain ⟨before, rfl, rfl⟩ : ∃ before, l = before ++ e :: rest ∧ before.length = i := by
    have hlt : i < l.length := by
      have hlen := congrArg List.length h
      rw [List.length_drop, List.length_cons] at hlen
      omega
    exact ⟨l.take i, by rw [← h, List.take_append_drop], List.length_take_of_le (Nat.le_of_lt hlt)⟩
  rcases List.eq_nil_or_concat rest with rfl | ⟨rest, a, rfl⟩
  · rw [swapRemove_concat]
    simp
  · rw [List.concat_eq_append, ← List.cons_append, ← List.append_assoc, swapRemove_concat]
    rw [List.set_append_left _ _ (by simp), List.dropLast_concat]
    simp

end MySocket
