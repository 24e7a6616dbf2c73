import MySocket.JsNumber
import Mathlib.Data.List.SplitBy
import Mathlib.Data.List.Sort

/-!
# `Array.prototype.sort`

ECMAScript asks of a comparison function that it is `Consistent`; an array is then a
permutation in its order, where elements that compare equal can come in any order. An
`ArraySort` is an engine's way to do it, stable or not, and `mergeSort` is one.

* `pairwise_sort_sub` : the comparison by the difference of a field sorts by the field.
* `pairwise_splitBy` : a list in the order of a key is split into runs of one key each, in
  strictly increasing order.
-/

namespace MySocket

namespace Js

variable {α : Type*}

/-! ## Comparison functions -/

/-- What a comparison function has to do on the elements of `l`. -/
structure Consistent (compare : α → α → Number) (l : List α) : Prop where
  ne_nan : ∀ a ∈ l, ∀ b ∈ l, compare a b ≠ .nan
  refl : ∀ a ∈ l, compare a a = .zero
  symm : ∀ a ∈ l, ∀ b ∈ l, compare a b = .zero → compare b a = .zero
  trans : ∀ a ∈ l, ∀ b ∈ l, ∀ c ∈ l,
    compare a b = .zero → compare b c = .zero → compare a c = .zero
  trans_lt : ∀ a ∈ l, ∀ b ∈ l, ∀ c ∈ l,
    (compare a b).lt .zero = true → (compare b c).lt .zero = true → (compare a c).lt .zero = true
  trans_gt : ∀ a ∈ l, ∀ b ∈ l, ∀ c ∈ l,
    Number.zero.lt (compare a b) = true → Number.zero.lt (compare b c) = true →
      Number.zero.lt (compare a c) = true

variable {compare : α → α → Number} {l : List α}

namespace Consistent

/-- The comparison the other way. -/
theorem flip (h : Consistent compare l) : Consistent (fun a b => compare b a) l where
  ne_nan a ha b hb := h.ne_nan b hb a ha
  refl := h.refl
  symm a ha b hb := h.symm b hb a ha
  trans a ha b hb c hc hab hbc := h.trans c hc b hb a ha hbc hab
  trans_lt a ha b hb c hc hab hbc := h.trans_lt c hc b hb a ha hbc hab
  trans_gt a ha b hb c hc hab hbc := h.trans_gt c hc b hb a ha hbc hab

/-- A field that is finite can be compared by its difference. -/
theorem sub {f : α → Number} (hf : ∀ a ∈ l, (f a).IsFinite) :
    Consistent (fun a b => (f a).sub (f b)) l where
  ne_nan a ha b hb := (hf a ha).sub_ne_nan (hf b hb)
  refl a ha := ((hf a ha).sub_eq_zero_iff (hf a ha)).mpr rfl
  symm a ha b hb := by
    rw [(hf a ha).sub_eq_zero_iff (hf b hb), (hf b hb).sub_eq_zero_iff (hf a ha)]
    exact Eq.symm
  trans a ha b hb c hc := by
    rw [(hf a ha).sub_eq_zero_iff (hf b hb), (hf b hb).sub_eq_zero_iff (hf c hc),
      (hf a ha).sub_eq_zero_iff (hf c hc)]
    exact Eq.trans
  trans_lt a ha b hb c hc := by
    rw [(hf a ha).sub_lt_zero (hf b hb), (hf b hb).sub_lt_zero (hf c hc),
      (hf a ha).sub_lt_zero (hf c hc)]
    exact lt_trans
  trans_gt a ha b hb c hc := by
    rw [(hf a ha).zero_lt_sub (hf b hb), (hf b hb).zero_lt_sub (hf c hc),
      (hf a ha).zero_lt_sub (hf c hc)]
    exact fun hab hbc => hbc.trans hab

theorem lt_of_gt (h : Consistent compare l) {a b : α} (ha : a ∈ l) (hb : b ∈ l)
    (hab : Number.zero.lt (compare a b) = true) : (compare b a).lt .zero = true := by
  rcases Number.lt_zero_or (h.ne_nan b hb a ha) with hlt | heq | hgt
  · exact hlt
  · rw [h.symm b hb a ha heq] at hab
    exact absurd hab Number.not_lt_self
  · have haa := h.trans_gt a ha b hb a ha hab hgt
    rw [h.refl a ha] at haa
    exact absurd haa Number.not_lt_self

/-- Not to be greater is an order with ties. -/
theorem total (h : Consistent compare l) {a b : α} (ha : a ∈ l) (hb : b ∈ l) :
    Number.zero.lt (compare a b) = false ∨ Number.zero.lt (compare b a) = false := by
  by_contra hnot
  rw [not_or, Bool.not_eq_false, Bool.not_eq_false] at hnot
  have haa := h.trans_gt a ha b hb a ha hnot.1 hnot.2
  rw [h.refl a ha] at haa
  exact absurd haa Number.not_lt_self

theorem trans_not_gt (h : Consistent compare l) {a b c : α} (ha : a ∈ l) (hb : b ∈ l) (hc : c ∈ l)
    (hab : Number.zero.lt (compare a b) = false) (hbc : Number.zero.lt (compare b c) = false) :
    Number.zero.lt (compare a c) = false := by
  by_contra hac
  have hca := h.lt_of_gt ha hc (Bool.eq_true_of_not_eq_false hac)
  have hle : ∀ {x : Number}, x ≠ .nan → Number.zero.lt x = false →
      x.lt .zero = true ∨ x = .zero := fun hx hgt =>
    (Number.lt_zero_or hx).imp_right (Or.resolve_right · (by simp [hgt]))
  have hab := hle (h.ne_nan a ha b hb) hab
  have hbc := hle (h.ne_nan b hb c hc) hbc
  rcases hab with hab | hab
  · have hcb := h.trans_lt c hc a ha b hb hca hab
    rcases hbc with hbc | hbc
    · have hcc := h.trans_lt c hc b hb c hc hcb hbc
      rw [h.refl c hc] at hcc
      exact absurd hcc Number.not_lt_self
    · rw [h.symm b hb c hc hbc] at hcb
      exact absurd hcb Number.not_lt_self
  · rcases hbc with hbc | hbc
    · have hba := h.trans_lt b hb c hc a ha hbc hca
      rw [h.symm a ha b hb hab] at hba
      exact absurd hba Number.not_lt_self
    · rw [h.symm a ha c hc (h.trans a ha b hb c hc hab hbc)] at hca
      exact absurd hca Number.not_lt_self

end Consistent

/-! ## Sorting -/

/-- A way to sort an array. -/
structure ArraySort (α : Type*) where
  sort : (α → α → Number) → List α → List α
  perm : ∀ compare l, (sort compare l).Perm l
  ordered : ∀ compare l, Consistent compare l →
    (sort compare l).Pairwise fun a b => Number.zero.lt (compare a b) = false

namespace ArraySort

theorem pairwise_mergeSort (h : Consistent compare l) :
    (l.mergeSort fun a b => !Number.zero.lt (compare a b)).Pairwise fun a b =>
      Number.zero.lt (compare a b) = false := by
  let le : {a // a ∈ l} → {a // a ∈ l} → Bool := fun a b => !Number.zero.lt (compare a b)
  have hsorted : (l.attach.mergeSort le).Pairwise fun a b => le a b = true := by
    refine List.pairwise_mergeSort (fun a b c hab hbc => ?_) (fun a b => ?_) l.attach
    · simp only [le, Bool.not_eq_true'] at hab hbc ⊢
      exact h.trans_not_gt a.2 b.2 c.2 hab hbc
    · simpa [le] using h.total a.2 b.2
  have hmap := List.map_mergeSort (r := le) (s := fun a b => !Number.zero.lt (compare a b))
    (f := Subtype.val) (l := l.attach) fun a _ b _ => rfl
  rw [List.attach_map_subtype_val] at hmap
  rw [← hmap]
  exact List.pairwise_map.mpr (hsorted.imp fun {a b} hab => by simpa [le] using hab)

/-- Merge sort is one. -/
def mergeSort (α : Type*) : ArraySort α where
  sort compare l := l.mergeSort fun a b => !Number.zero.lt (compare a b)
  perm _ l := List.mergeSort_perm l _
  ordered _ _ h := pairwise_mergeSort h

variable (S : ArraySort α) {f : α → Number}

theorem mem_sort {a : α} : a ∈ S.sort compare l ↔ a ∈ l :=
  (S.perm compare l).mem_iff

/-- The difference of a field sorts by the field. -/
theorem pairwise_sort_sub (hf : ∀ a ∈ l, (f a).IsFinite) :
    (S.sort (fun a b => (f a).sub (f b)) l).Pairwise fun a b => (f a).val ≤ (f b).val := by
  refine (S.ordered _ l (Consistent.sub hf)).imp_of_mem fun {a b} ha hb hab => ?_
  rw [← Bool.not_eq_true, (hf a (S.mem_sort.mp ha)).zero_lt_sub (hf b (S.mem_sort.mp hb))] at hab
  exact not_lt.mp hab

theorem pairwise_sort_sub_flip (hf : ∀ a ∈ l, (f a).IsFinite) :
    (S.sort (fun a b => (f b).sub (f a)) l).Pairwise fun a b => (f b).val ≤ (f a).val := by
  refine (S.ordered _ l (Consistent.sub hf).flip).imp_of_mem fun {a b} ha hb hab => ?_
  rw [← Bool.not_eq_true, (hf b (S.mem_sort.mp hb)).zero_lt_sub (hf a (S.mem_sort.mp ha))] at hab
  exact not_lt.mp hab

end ArraySort

/-! ## Runs of one key -/

section

variable {β : Type*} [LinearOrder β] {key : α → β}

theorem key_eq_of_mem_splitBy {r : List α} (hr : r ∈ l.splitBy fun a b => key a = key b) :
    ∀ a ∈ r, ∀ b ∈ r, key a = key b := by
  have hchain := List.isChain_of_mem_splitBy hr
  simp only [decide_eq_true_eq] at hchain
  have : Trans (fun a b : α => key a = key b) (fun a b => key a = key b) fun a b => key a = key b :=
    ⟨Eq.trans⟩
  have : Std.Symm fun a b : α => key a = key b := ⟨fun _ _ => Eq.symm⟩
  exact hchain.pairwise.forall_of_forall fun _ _ => rfl

/-- The runs are in strictly increasing order where the last key of one is not the first of the
next. -/
theorem pairwise_lt_of_isChain {L : List (List α)}
    (hle : L.flatten.Pairwise fun a b => key a ≤ key b)
    (hrun : ∀ r ∈ L, ∀ a ∈ r, ∀ b ∈ r, key a = key b)
    (hchain : L.IsChain fun r r' => ∃ hr hr', key (r.getLast hr) ≠ key (r'.head hr')) :
    L.Pairwise fun r r' => ∀ a ∈ r, ∀ b ∈ r', key a < key b := by
  induction L with
  | nil => exact .nil
  | cons r L ih =>
    rw [List.flatten_cons, List.pairwise_append] at hle
    obtain ⟨-, hflatten, hcross⟩ := hle
    rw [List.forall_mem_cons] at hrun
    refine List.pairwise_cons.mpr ⟨fun r' hr' a ha b hb => ?_, ih hflatten hrun.2 hchain.tail⟩
    obtain ⟨r₁, L, rfl⟩ := List.exists_cons_of_ne_nil (List.ne_nil_of_mem hr')
    obtain ⟨⟨hr, hr₁, hne⟩, -⟩ := List.isChain_cons_cons.mp hchain
    -- the first element of the next run is above this run and below all that comes later
    have hb' : b ∈ (r₁ :: L).flatten := List.mem_flatten_of_mem hr' hb
    have hhead : key (r₁.head hr₁) ≤ key b := by
      obtain ⟨c, t, rfl⟩ := List.exists_cons_of_ne_nil hr₁
      rcases List.mem_cons.mp hb' with rfl | hb'
      · exact le_rfl
      · exact (List.pairwise_cons.mp hflatten).1 b hb'
    rw [hrun.1 a ha _ (List.getLast_mem hr)]
    exact (lt_of_le_of_ne (hcross _ (List.getLast_mem hr) _ (by simp)) hne).trans_le hhead

/-- A list in the order of a key is split into runs of strictly increasing keys. -/
theorem pairwise_splitBy (h : l.Pairwise fun a b => key a ≤ key b) :
    (l.splitBy fun a b => key a = key b).Pairwise fun r r' => ∀ a ∈ r, ∀ b ∈ r', key a < key b := by
  refine pairwise_lt_of_isChain ?_ (fun r => key_eq_of_mem_splitBy) ?_
  · rwa [List.flatten_splitBy]
  · simpa using List.isChain_getLast_head_splitBy (fun a b => decide (key a = key b)) l

end

end Js

end MySocket
