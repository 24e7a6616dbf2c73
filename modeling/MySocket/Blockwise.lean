import Mathlib.Data.List.Basic

/-!
# Functions that take their input block by block

`foldBlocks n step h l` takes the whole blocks of `n` items of `l`, one after the other. `Absorbs` is
the state of a machine that gets the items in pieces : what comes of the whole blocks so far, and
the items after them.

* `foldBlocks_append` : blocks may be taken in two goes.
* `Absorbs.put` : a piece is put after the items that are kept, and the block taken if it is whole.
-/

namespace MySocket

variable {α H : Type*}

/-- The whole blocks of a list, one after the other. -/
def foldBlocks (n : ℕ) (step : H → List α → H) (h : H) (l : List α) : H :=
  (List.range (l.length / n)).foldl (fun h i => step h ((l.drop (n * i)).take n)) h

section

variable {n : ℕ} {step : H → List α → H}

@[simp] theorem foldBlocks_nil (h : H) : foldBlocks n step h [] = h := by
  simp [foldBlocks]

/-- The first block is taken first. -/
theorem foldBlocks_cons (hn : 0 < n) (h : H) {b : List α} (hb : b.length = n) (l : List α) :
    foldBlocks n step h (b ++ l) = foldBlocks n step (step h b) l := by
  have hlen : (b ++ l).length / n = l.length / n + 1 := by
    rw [List.length_append, hb, Nat.add_comm, Nat.add_div_right _ hn]
  rw [foldBlocks, hlen, List.range_succ_eq_map, List.foldl_cons, List.foldl_map, foldBlocks]
  congr 1
  · funext h' i
    have hdrop : (b ++ l).drop (n * (i + 1)) = l.drop (n * i) := by
      rw [Nat.mul_succ, Nat.add_comm, ← List.drop_drop, List.drop_left' hb]
    rw [hdrop]
  · rw [Nat.mul_zero, List.drop_zero, List.take_left' hb]

/-- Blocks are taken in two goes. -/
theorem foldBlocks_append (hn : 0 < n) : ∀ (k : ℕ) (h : H) {whole : List α},
    whole.length = n * k → ∀ l,
      foldBlocks n step h (whole ++ l) = foldBlocks n step (foldBlocks n step h whole) l
  | 0, h, whole, hk, l => by
    obtain rfl := List.eq_nil_of_length_eq_zero hk
    rw [List.nil_append, foldBlocks_nil]
  | k + 1, h, whole, hk, l => by
    have hb : (whole.take n).length = n := by
      rw [List.length_take, hk, Nat.mul_succ]
      exact Nat.min_eq_left (Nat.le_add_left n _)
    have hrest : (whole.drop n).length = n * k := by
      rw [List.length_drop, hk, Nat.mul_succ, Nat.add_sub_cancel]
    have hsplit := List.take_append_drop n whole
    have hboth := foldBlocks_append hn k (step h (whole.take n)) hrest l
    have hwhole := @foldBlocks_cons _ _ n step hn h _ hb (whole.drop n)
    have hall := @foldBlocks_cons _ _ n step hn h _ hb (whole.drop n ++ l)
    rw [← List.append_assoc, hsplit] at hall
    rw [hsplit] at hwhole
    rw [hall, hboth, hwhole]

end

/-- `s.1` is what comes of the whole blocks of `l`, and `s.2` are the items after them. -/
def Absorbs (n : ℕ) (step : H → List α → H) (h : H) (l : List α) (s : H × List α) : Prop :=
  ∃ k whole, l = whole ++ s.2 ∧ whole.length = n * k ∧ s.2.length < n ∧
    s.1 = foldBlocks n step h whole

namespace Absorbs

variable {n : ℕ} {step : H → List α → H} {h : H} {l : List α} {s : H × List α}

theorem nil (hn : 0 < n) (h : H) : Absorbs n step h [] (h, []) :=
  ⟨0, [], rfl, rfl, hn, (foldBlocks_nil h).symm⟩

/-- A piece that does not fill the block. -/
theorem keep (hs : Absorbs n step h l s) {p : List α} (hp : s.2.length + p.length < n) :
    Absorbs n step h (l ++ p) (s.1, s.2 ++ p) := by
  obtain ⟨k, whole, rfl, hk, -, hfold⟩ := hs
  exact ⟨k, whole, List.append_assoc _ _ _, hk, by rwa [List.length_append], hfold⟩

/-- A piece that fills it. -/
theorem fill (hs : Absorbs n step h l s) {p : List α} (hp : s.2.length + p.length = n) :
    Absorbs n step h (l ++ p) (step s.1 (s.2 ++ p), []) := by
  obtain ⟨k, whole, rfl, hk, hlt, hfold⟩ := hs
  have hn : 0 < n := Nat.lt_of_le_of_lt (Nat.zero_le _) hlt
  have hb : (s.2 ++ p).length = n := by rwa [List.length_append]
  refine ⟨k + 1, whole ++ (s.2 ++ p), by simp, ?_, hn, ?_⟩
  · rw [List.length_append, hb, hk, Nat.mul_succ]
  · have hlast := @foldBlocks_cons _ _ n step hn (foldBlocks n step h whole) _ hb []
    rw [List.append_nil, foldBlocks_nil] at hlast
    rw [foldBlocks_append hn k h hk, hlast, hfold]

/-- When all blocks are whole, nothing is left. -/
theorem eq_foldBlocks (hs : Absorbs n step h l s) {k : ℕ} (hl : l.length = n * k) :
    s = (foldBlocks n step h l, []) := by
  obtain ⟨j, whole, rfl, hj, hlt, hfold⟩ := hs
  have hrest : s.2 = [] := by
    refine List.eq_nil_of_length_eq_zero ?_
    rw [List.length_append, hj] at hl
    have hmod := congrArg (· % n) hl
    simp only [Nat.mul_add_mod, Nat.mul_mod_right, Nat.mod_eq_of_lt hlt] at hmod
    exact hmod
  rw [hrest, List.append_nil]
  exact Prod.ext hfold hrest

end Absorbs

end MySocket
