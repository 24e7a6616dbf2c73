import Mathlib.Data.Set.Finite.List
import Mathlib.Data.Set.Finite.Basic

/-!
# Following references

`f : α → Option α` says what an element refers to. `walk f n a` is the element reached from
`a` in `n` steps, and `Halts f a` says that the walk from `a` comes to an element without a
reference. If only finitely many elements have one, a walk ends exactly if it meets no
element twice (`halts_iff_noRepeat`).
-/

namespace MySocket

variable {α : Type*} (f : α → Option α)

/-- The element reached in `n` steps. -/
def walk : ℕ → α → Option α
  | 0, a => some a
  | n + 1, a => (f a).bind (walk n)

/-- The walk comes to an end. -/
def Halts (a : α) : Prop :=
  ∃ n, walk f n a = none

/-- The walk meets no element twice. -/
def NoRepeat (a : α) : Prop :=
  ∀ i j, i < j → ∀ b, walk f i a = some b → walk f j a ≠ some b

variable {f} {a b : α}

theorem walk_add (m n : ℕ) (a : α) : walk f (m + n) a = (walk f m a).bind (walk f n) := by
  induction m generalizing a with
  | zero => rw [Nat.zero_add, walk, Option.bind_some]
  | succ m ih =>
    rw [Nat.succ_add, walk, walk, Option.bind_assoc]
    congr 1
    exact funext fun b => ih b

/-- Past its end a walk stays ended. -/
theorem walk_eq_none_of_le {m n : ℕ} (hle : m ≤ n) (h : walk f m a = none) :
    walk f n a = none := by
  obtain ⟨k, rfl⟩ := Nat.exists_eq_add_of_le hle
  rw [walk_add, h, Option.bind_none]

theorem walk_mul {p : ℕ} (h : walk f p b = some b) (k : ℕ) : walk f (p * k) b = some b := by
  induction k with
  | zero => rfl
  | succ k ih => rw [Nat.mul_succ, walk_add, ih, Option.bind_some, h]

/-- A walk that comes back goes round for ever. -/
theorem walk_ne_none {i j : ℕ} (hij : i < j) (hi : walk f i a = some b) (hj : walk f j a = some b)
    (n : ℕ) : walk f n a ≠ none := fun hn => by
  have hround : walk f (j - i) b = some b := by
    rw [← Nat.add_sub_cancel' hij.le, walk_add, hi, Option.bind_some] at hj
    exact hj
  have hle : n ≤ i + (j - i) * n :=
    (Nat.le_mul_of_pos_left n (Nat.sub_pos_of_lt hij)).trans (Nat.le_add_left _ _)
  have hfar := walk_eq_none_of_le hle hn
  rw [walk_add, hi, Option.bind_some, walk_mul hround] at hfar
  cases hfar

/-- A walk that does not end has a next element, from which it does not end either. -/
theorem exists_of_not_halts (h : ¬Halts f a) : ∃ b, f a = some b ∧ ¬Halts f b := by
  cases hnext : f a with
  | none => exact absurd ⟨1, by rw [walk, hnext, Option.bind_none]⟩ h
  | some b =>
    refine ⟨b, rfl, fun ⟨n, hn⟩ => h ⟨n + 1, ?_⟩⟩
    rw [walk, hnext, Option.bind_some, hn]

theorem halts_iff_noRepeat {dom : List α} (hdom : ∀ a b, f a = some b → a ∈ dom) (a : α) :
    Halts f a ↔ NoRepeat f a := by
  constructor
  · rintro ⟨n, hn⟩ i j hij b hi hj
    exact walk_ne_none hij hi hj n hn
  · intro h
    by_contra hhalts
    have hsome : ∀ n, ∃ b, walk f n a = some b := fun n =>
      Option.ne_none_iff_exists'.mp fun hn => hhalts ⟨n, hn⟩
    choose g hg using hsome
    -- the elements met are all different, and all in `dom`
    have hinj : Function.Injective g := fun i j hgij => by
      rcases Nat.lt_trichotomy i j with hij | hij | hij
      · exact absurd (hgij ▸ hg j) (h i j hij (g i) (hg i))
      · exact hij
      · exact absurd (hgij ▸ hg i) (h j i hij (g j) (hg j))
    have hmem : ∀ n, g n ∈ dom := fun n => by
      have hnext := hg (n + 1)
      rw [walk_add, hg n, Option.bind_some] at hnext
      obtain ⟨c, hc, -⟩ := Option.bind_eq_some_iff.mp hnext
      exact hdom _ _ hc
    exact Set.infinite_of_injective_forall_mem hinj hmem dom.finite_toSet

section

variable {β : Type*} {g : β → Option β} {e : α → β}

/-- References renamed by `e`. -/
theorem walk_map (hg : ∀ a, g (e a) = (f a).map e) (n : ℕ) (a : α) :
    walk g n (e a) = (walk f n a).map e := by
  induction n generalizing a with
  | zero => rfl
  | succ n ih =>
    rw [walk, walk, hg]
    cases f a with
    | none => rfl
    | some b => simp [ih]

theorem noRepeat_map (he : Function.Injective e) (hg : ∀ a, g (e a) = (f a).map e) (a : α) :
    NoRepeat g (e a) ↔ NoRepeat f a := by
  simp only [NoRepeat, walk_map hg, Option.map_eq_some_iff, ne_eq]
  constructor
  · intro h i j hij b hi hj
    exact h i j hij (e b) ⟨b, hi, rfl⟩ ⟨b, hj, rfl⟩
  · rintro h i j hij _ ⟨b, hi, rfl⟩ ⟨c, hj, hc⟩
    exact h i j hij b hi (he hc ▸ hj)

end

end MySocket
