import Mathlib.Data.List.Perm.Basic
import Mathlib.Data.Nat.Find
import MySocket.Slices

/-!
# Arrangements in an order with ties

A list is arranged by an order `le`, in which `le a b` says that `a` may stand before `b`. Elements
that may stand in either order are tied, and can come in any order : one table has many
arrangements. A query with `ORDER BY` and `LIMIT` answers with a window of one of them
(`Answers`), and another time with one of another.

* `exists_rest_merge` : of two arranged lists the first `n` elements of each are enough to find
  the first `n` of both.
* `collects_iff` : the windows of one size add up to the table, whatever the answers are,
  exactly if no two tied elements can come on different sides of the end of a window.
-/

namespace MySocket

variable {α : Type*}

/-- An order with ties. -/
structure TieOrder (le : α → α → Bool) : Prop where
  trans : ∀ a b c, le a b → le b c → le a c
  total : ∀ a b, le a b || le b a

/-- `l` is the table in the order `le`. -/
structure Arranged (le : α → α → Bool) (table l : List α) : Prop where
  perm : l.Perm table
  pairwise : l.Pairwise fun a b => le a b

variable {le : α → α → Bool} {table l l' : List α}

theorem TieOrder.refl (h : TieOrder le) (a : α) : le a a := by
  simpa using h.total a a

theorem TieOrder.arranged_mergeSort (h : TieOrder le) (table : List α) :
    Arranged le table (table.mergeSort le) :=
  ⟨List.mergeSort_perm table le, List.pairwise_mergeSort h.trans h.total table⟩

/-- A key in descending order. -/
theorem TieOrder.descending {β : Type*} (h : TieOrder le) (key : β → α) :
    TieOrder fun a b => le (key b) (key a) where
  trans _ _ _ hab hbc := h.trans _ _ _ hbc hab
  total _ _ := h.total _ _

theorem Arranged.map {β : Type*} {le' : β → β → Bool} {f : α → β} (h : Arranged le table l)
    (hf : ∀ a b, le a b → le' (f a) (f b)) : Arranged le' (table.map f) (l.map f) where
  perm := h.perm.map f
  pairwise := List.pairwise_map.mpr (h.pairwise.imp fun {a b} => hf a b)

/-! ## The first elements of two lists -/

theorem take_merge_take {n a b : ℕ} (ha : n ≤ a) (hb : n ≤ b) (xs ys : List α) :
    ((xs.take a).merge (ys.take b) le).take n = (xs.merge ys le).take n := by
  induction n generalizing a b xs ys with
  | zero => rw [List.take_zero, List.take_zero]
  | succ n ih =>
    obtain ⟨a, rfl⟩ := Nat.exists_eq_add_of_le' (Nat.one_le_of_lt ha)
    obtain ⟨b, rfl⟩ := Nat.exists_eq_add_of_le' (Nat.one_le_of_lt hb)
    cases xs with
    | nil => simp [List.take_take, Nat.min_eq_left hb]
    | cons x xs =>
      cases ys with
      | nil => simp [List.take_take, Nat.min_eq_left (Nat.le_of_succ_le_succ ha)]
      | cons y ys =>
        rw [List.take_succ_cons, List.take_succ_cons, List.cons_merge_cons, List.cons_merge_cons]
        split
        · have hrest := ih (Nat.le_of_succ_le_succ ha) (Nat.le_of_succ_le hb) xs (y :: ys)
          rw [List.take_succ_cons] at hrest
          rw [List.take_succ_cons, List.take_succ_cons, hrest]
        · have hrest := ih (Nat.le_of_succ_le ha) (Nat.le_of_succ_le_succ hb) (x :: xs) ys
          rw [List.take_succ_cons] at hrest
          rw [List.take_succ_cons, List.take_succ_cons, hrest]

/-- What is merged from the first elements comes before all the others. -/
theorem exists_rest_merge {s t xs ys : List α} (h : TieOrder le) (hxs : Arranged le s xs)
    (hys : Arranged le t ys) (n : ℕ) :
    ∃ rest, (((xs.take n).merge (ys.take n) le).take n ++ rest).Perm (s ++ t) ∧
      (((xs.take n).merge (ys.take n) le).take n).Pairwise (fun a b => le a b) ∧
      ∀ a ∈ ((xs.take n).merge (ys.take n) le).take n, ∀ b ∈ rest, le a b := by
  rw [take_merge_take (Nat.le_refl n) (Nat.le_refl n)]
  have hmerge := List.pairwise_merge h.trans h.total xs ys hxs.pairwise hys.pairwise
  rw [← List.take_append_drop n (xs.merge ys le)] at hmerge
  obtain ⟨htake, -, hbefore⟩ := List.pairwise_append.mp hmerge
  refine ⟨(xs.merge ys le).drop n, ?_, htake, hbefore⟩
  rw [List.take_append_drop]
  exact (List.merge_perm_append le).trans (hxs.perm.append hys.perm)

/-! ## Where an element can stand -/

/-- How many elements stand before `x` in every arrangement, and how many can. -/
def countBefore (le : α → α → Bool) (table : List α) (x : α) : ℕ :=
  table.countP fun y => !le x y

def countUpTo (le : α → α → Bool) (table : List α) (x : α) : ℕ :=
  table.countP fun y => le y x

theorem filter_append_filter_of_pairwise {p : α → Bool} (h : l.Pairwise fun a b => p b → p a) :
    l.filter p ++ l.filter (fun a => !p a) = l := by
  induction l with
  | nil => rfl
  | cons a l ih =>
    obtain ⟨ha, hl⟩ := List.pairwise_cons.mp h
    by_cases hp : p a
    · rw [List.filter_cons_of_pos hp, List.filter_cons_of_neg (by simp [hp]), List.cons_append,
        ih hl]
    · have hnone : ∀ b ∈ a :: l, ¬p b := by
        intro b hb hpb
        rcases List.mem_cons.mp hb with rfl | hb
        · exact hp hpb
        · exact hp (ha b hb hpb)
      rw [List.filter_eq_nil_iff.mpr hnone, List.nil_append, List.filter_eq_self.mpr]
      simpa using hnone

/-- A list is cut where a property ends. -/
theorem take_countP {p : α → Bool} (h : l.Pairwise fun a b => p b → p a) :
    l.take (l.countP p) = l.filter p := by
  have hsplit := congrArg (List.take (l.filter p).length) (filter_append_filter_of_pairwise h)
  rw [List.take_left] at hsplit
  rw [List.countP_eq_length_filter]
  exact hsplit.symm

theorem drop_countP {p : α → Bool} (h : l.Pairwise fun a b => p b → p a) :
    l.drop (l.countP p) = l.filter fun a => !p a := by
  have hsplit := congrArg (List.drop (l.filter p).length) (filter_append_filter_of_pairwise h)
  rw [List.drop_left] at hsplit
  rw [List.countP_eq_length_filter]
  exact hsplit.symm

namespace Arranged

theorem pairwise_countBefore (hle : TieOrder le) (h : Arranged le table l) (x : α) :
    l.Pairwise fun a b => !le x b → !le x a := h.pairwise.imp fun {a b} hab hb => by
  simp only [Bool.not_eq_true', ← Bool.not_eq_true] at hb ⊢
  exact fun ha => hb (hle.trans x a b ha hab)

theorem pairwise_countUpTo (hle : TieOrder le) (h : Arranged le table l) (x : α) :
    l.Pairwise fun a b => le b x → le a x :=
  h.pairwise.imp fun {a b} hab hb => hle.trans a b x hab hb

theorem take_countBefore (hle : TieOrder le) (h : Arranged le table l) (x : α) :
    l.take (countBefore le table x) = l.filter fun y => !le x y := by
  rw [countBefore, ← h.perm.countP_eq, take_countP (h.pairwise_countBefore hle x)]

theorem take_countUpTo (hle : TieOrder le) (h : Arranged le table l) (x : α) :
    l.take (countUpTo le table x) = l.filter fun y => le y x := by
  rw [countUpTo, ← h.perm.countP_eq, take_countP (h.pairwise_countUpTo hle x)]

theorem le_of_mem_drop_countBefore (hle : TieOrder le) (h : Arranged le table l) {x y : α}
    (hy : y ∈ l.drop (countBefore le table x)) : le x y := by
  rw [countBefore, ← h.perm.countP_eq, drop_countP (h.pairwise_countBefore hle x)] at hy
  simpa using (List.mem_filter.mp hy).2

theorem not_le_of_mem_drop_countUpTo (hle : TieOrder le) (h : Arranged le table l) {x y : α}
    (hy : y ∈ l.drop (countUpTo le table x)) : ¬le y x := by
  rw [countUpTo, ← h.perm.countP_eq, drop_countP (h.pairwise_countUpTo hle x)] at hy
  simpa using (List.mem_filter.mp hy).2

end Arranged

theorem countBefore_le_countUpTo (hle : TieOrder le) (table : List α) (x : α) :
    countBefore le table x ≤ countUpTo le table x :=
  List.countP_mono_left fun y _ hxy =>
    ((Bool.or_eq_true _ _).mp (hle.total x y)).resolve_left (by simpa using hxy)

/-! ## The end of a window -/

/-- Two tied elements can come on different sides of position `c`. -/
def Straddles (le : α → α → Bool) (table : List α) (c : ℕ) : Prop :=
  ∃ x ∈ table, ∃ y ∈ table, x ≠ y ∧ le x y ∧ le y x ∧
    countBefore le table x < c ∧ c < countUpTo le table x

/-- Within equal elements, a position cuts every arrangement in the same way. -/
theorem Arranged.take_eq (hle : TieOrder le) (h : Arranged le table l) {x : α} {c : ℕ}
    (hbefore : countBefore le table x ≤ c) (hupTo : c ≤ countUpTo le table x)
    (hsame : ∀ y ∈ table, le x y → le y x → y = x) :
    l.take c = (l.filter fun y => !le x y) ++ List.replicate (c - countBefore le table x) x := by
  have hlength : c ≤ l.length := hupTo.trans (h.perm.length_eq ▸ List.countP_le_length)
  rw [← List.take_append_drop (countBefore le table x) (l.take c), List.take_take,
    min_eq_left hbefore, h.take_countBefore hle]
  congr 1
  refine List.eq_replicate_iff.mpr ⟨by rw [List.length_drop, List.length_take]; omega, ?_⟩
  intro y hy
  have hdrop : y ∈ l.drop (countBefore le table x) := by
    rw [List.drop_take] at hy
    exact List.mem_of_mem_take hy
  have htake : y ∈ l.take (countUpTo le table x) :=
    (List.take_prefix_take_left hupTo).subset (List.mem_of_mem_drop hy)
  rw [h.take_countUpTo hle, List.mem_filter, h.perm.mem_iff] at htake
  exact hsame y htake.1 (h.le_of_mem_drop_countBefore hle hdrop) htake.2

/-- If no tied elements come on different sides, what comes before a position is always the same. -/
theorem Arranged.take_perm (hle : TieOrder le) (h : Arranged le table l) (h' : Arranged le table l')
    {c : ℕ} (hc : ¬Straddles le table c) : (l.take c).Perm (l'.take c) := by
  have hlength := h.perm.length_eq
  rcases Nat.lt_or_ge l.length c with hlong | hshort
  · rw [List.take_of_length_le hlong.le, List.take_of_length_le (by rw [h'.perm.length_eq]; omega)]
    exact h.perm.trans h'.perm.symm
  cases c with
  | zero => exact .refl []
  | succ c =>
    -- the last element before the position
    have hxl : l[c] ∈ l := List.getElem_mem hshort
    generalize hx : l[c] = x at hxl
    have hbefore : countBefore le table x ≤ c := by
      by_contra hlt
      have htake : x ∈ l.take (countBefore le table x) :=
        List.mem_take_iff_getElem.mpr ⟨c, by omega, hx⟩
      rw [h.take_countBefore hle, List.mem_filter, hle.refl] at htake
      exact absurd htake.2 nofun
    have hupTo : c + 1 ≤ countUpTo le table x := by
      by_contra hlt
      have hindex : countUpTo le table x + (c - countUpTo le table x) = c := by omega
      have hdrop : x ∈ l.drop (countUpTo le table x) :=
        List.mem_drop_iff_getElem.mpr ⟨c - countUpTo le table x, by omega, by simpa only [hindex]⟩
      exact h.not_le_of_mem_drop_countUpTo hle hdrop (hle.refl x)
    have hfilter (p : α → Bool) : (l.filter p).Perm (l'.filter p) :=
      (h.perm.trans h'.perm.symm).filter p
    rcases Nat.eq_or_lt_of_le hupTo with heq | hlt
    · rw [heq, h.take_countUpTo hle, h'.take_countUpTo hle]
      exact hfilter _
    · have hsame : ∀ y ∈ table, le x y → le y x → y = x := fun y hy hxy hyx => by
        by_contra hne
        exact hc ⟨x, h.perm.mem_iff.mp hxl, y, hy, Ne.symm hne, hxy, hyx, Nat.lt_succ_of_le hbefore,
          hlt⟩
      rw [h.take_eq hle (hbefore.trans c.le_succ) hupTo hsame,
        h'.take_eq hle (hbefore.trans c.le_succ) hupTo hsame]
      exact (hfilter _).append_right _

/-! ## Windows -/

/-- The answers to the queries for `len` rows from `offset` on. Each answer is a window of some
arrangement. -/
structure Answers (le : α → α → Bool) (table : List α) where
  rows : ℕ → ℕ → List α
  lawful : ∀ offset len, ∃ l, Arranged le table l ∧ rows offset len = (l.drop offset).take len

/-- The answers from one arrangement. -/
def Arranged.answers (h : Arranged le table l) : Answers le table where
  rows offset len := (l.drop offset).take len
  lawful _ _ := ⟨l, h, rfl⟩

/-- The windows of size `s` up to the first empty one hold the records, each of them once. -/
def Collects (load : ℕ → ℕ → List α) (s : ℕ) (records : List α) : Prop :=
  ∃ m, load (m * s) s = [] ∧ (∀ k < m, load (k * s) s ≠ []) ∧
    ((List.range m).flatMap fun k => load (k * s) s).Perm records

theorem Answers.rows_eq_nil_iff (answers : Answers le table) {s : ℕ} (hs : 0 < s) (offset : ℕ) :
    answers.rows offset s = [] ↔ table.length ≤ offset := by
  obtain ⟨l, hl, hrows⟩ := answers.lawful offset s
  rw [hrows, List.take_eq_nil_iff, List.drop_eq_nil_iff, hl.perm.length_eq]
  exact or_iff_right hs.ne'

theorem perm_windows (hle : TieOrder le) {s : ℕ} (hno : ∀ k, ¬Straddles le table (k * s))
    (l : ℕ → List α) (hl : ∀ k, Arranged le table (l k)) (m : ℕ) :
    ((List.range m).flatMap fun k => ((l k).drop (k * s)).take s).Perm ((l m).take (m * s)) := by
  induction m with
  | zero => simp
  | succ m ih =>
    have hsame := (hl m).take_perm hle (hl (m + 1)) (hno (m + 1))
    rw [List.range_succ, List.flatMap_append, List.flatMap_singleton]
    refine (ih.append_right _).trans ?_
    rwa [← List.take_add, ← Nat.succ_mul]

theorem collects_of_not_straddles (hle : TieOrder le) {s : ℕ} (hs : 0 < s)
    (hno : ∀ k, ¬Straddles le table (k * s)) (answers : Answers le table) :
    Collects answers.rows s table := by
  choose l hl hrows using fun k => answers.lawful (k * s) s
  have hend : ∃ m, table.length ≤ m * s := ⟨table.length, Nat.le_mul_of_pos_right _ hs⟩
  classical
  refine ⟨Nat.find hend, ?_, fun k hk => ?_, ?_⟩
  · exact (answers.rows_eq_nil_iff hs _).mpr (Nat.find_spec hend)
  · exact mt (answers.rows_eq_nil_iff hs _).mp (Nat.find_min hend hk)
  · simp only [hrows]
    refine (perm_windows hle hno l hl _).trans ?_
    rw [List.take_of_length_le ((hl _).perm.length_eq.le.trans (Nat.find_spec hend))]
    exact (hl _).perm

/-- The windows before `k` are of one arrangement, and the others of another. -/
theorem flatMap_two_arrangements (l₁ l₂ : List α) (s k d : ℕ) :
    ((List.range (k + d)).flatMap fun j =>
        if j < k then (l₁.drop (j * s)).take s else (l₂.drop (j * s)).take s) =
      l₁.take (k * s) ++ (l₂.drop (k * s)).take (d * s) := by
  induction d with
  | zero =>
    rw [Nat.add_zero, Nat.zero_mul, List.take_zero, List.append_nil, ← flatMap_windows]
    exact List.flatMap_congr fun j hj => if_pos (List.mem_range.mp hj)
  | succ d ih =>
    rw [← Nat.add_assoc, List.range_succ, List.flatMap_append, ih, List.flatMap_singleton,
      if_neg (by omega), List.append_assoc, Nat.succ_mul, List.take_add, List.drop_drop,
      ← Nat.add_mul]

/-- If the windows add up whatever the answers are, all arrangements have the same elements before
the end of a window. -/
theorem take_perm_of_collects {s : ℕ} (hs : 0 < s)
    (h : ∀ answers : Answers le table, Collects answers.rows s table) {l₁ l₂ : List α}
    (h₁ : Arranged le table l₁) (h₂ : Arranged le table l₂) (k : ℕ) :
    (l₁.take (k * s)).Perm (l₂.take (k * s)) := by
  let answers : Answers le table :=
    { rows := fun offset len =>
        if offset < k * s then (l₁.drop offset).take len else (l₂.drop offset).take len
      lawful := fun offset len => by
        split_ifs
        · exact ⟨l₁, h₁, rfl⟩
        · exact ⟨l₂, h₂, rfl⟩ }
  have hrows (j : ℕ) : answers.rows (j * s) s =
      if j < k then (l₁.drop (j * s)).take s else (l₂.drop (j * s)).take s := by
    simp only [answers, Nat.mul_lt_mul_right hs]
  obtain ⟨m, hend, -, hperm⟩ := h answers
  have hlength := (answers.rows_eq_nil_iff hs _).mp hend
  rcases Nat.lt_or_ge (k * s) table.length with hlt | hge
  · obtain ⟨d, rfl⟩ : ∃ d, m = k + d :=
      Nat.exists_eq_add_of_le (Nat.le_of_mul_le_mul_right (hlt.le.trans hlength) hs)
    have hrest : (l₂.drop (k * s)).length ≤ d * s := by
      rw [List.length_drop, h₂.perm.length_eq]
      rw [Nat.add_mul] at hlength
      omega
    simp only [hrows] at hperm
    rw [flatMap_two_arrangements, List.take_of_length_le hrest] at hperm
    have htable := h₂.perm
    rw [← List.take_append_drop (k * s) l₂] at htable
    exact (List.perm_append_right_iff _).mp (hperm.trans htable.symm)
  · rw [List.take_of_length_le (h₁.perm.length_eq ▸ hge),
      List.take_of_length_le (h₂.perm.length_eq ▸ hge)]
    exact h₁.perm.trans h₂.perm.symm

/-! ## Two arrangements that differ -/

/-- The elements tied with `x` can be put in any order. -/
theorem Arranged.replace_tied (hle : TieOrder le) {a b b' c : List α} {x : α}
    (h : Arranged le table (a ++ b ++ c)) (hb : b'.Perm b) (htied : ∀ y ∈ b, le x y ∧ le y x) :
    Arranged le table (a ++ b' ++ c) where
  perm := ((hb.append_left a).append_right c).trans h.perm
  pairwise := by
    obtain ⟨hab, hc, habc⟩ := List.pairwise_append.mp h.pairwise
    obtain ⟨ha, -, hab⟩ := List.pairwise_append.mp hab
    have hb' : b'.Pairwise fun y z => le y z :=
      List.pairwise_of_forall_mem_list fun y hy z hz =>
        hle.trans y x z (htied y (hb.mem_iff.mp hy)).2 (htied z (hb.mem_iff.mp hz)).1
    refine List.pairwise_append.mpr ⟨List.pairwise_append.mpr ⟨ha, hb', ?_⟩, hc, ?_⟩
    · exact fun y hy z hz => hab y hy z (hb.mem_iff.mp hz)
    · exact fun y hy z hz => habc y (((hb.append_left a).mem_iff).mp hy) z hz

/-- An arrangement has the elements tied with `x` in one piece. -/
theorem Arranged.exists_tied (hle : TieOrder le) (h : Arranged le table l) (x : α) :
    ∃ a b c, l = a ++ b ++ c ∧ a.length = countBefore le table x ∧
      b.length = countUpTo le table x - countBefore le table x ∧
      ∀ y, y ∈ b ↔ y ∈ table ∧ le x y ∧ le y x := by
  have hle' : countBefore le table x ≤ countUpTo le table x := countBefore_le_countUpTo hle table x
  have hlength : countUpTo le table x ≤ l.length := h.perm.length_eq ▸ List.countP_le_length
  have hsplit : l = l.take (countBefore le table x) ++
      (l.take (countUpTo le table x)).drop (countBefore le table x) ++
        l.drop (countUpTo le table x) := by
    conv_lhs => rw [← List.take_append_drop (countUpTo le table x) l,
      ← List.take_append_drop (countBefore le table x) (l.take (countUpTo le table x)),
      List.take_take, min_eq_left hle']
  refine ⟨_, _, _, hsplit, ?_, ?_, fun y => ⟨fun hy => ?_, fun ⟨hy, hxy, hyx⟩ => ?_⟩⟩
  · rw [List.length_take, min_eq_left (hle'.trans hlength)]
  · rw [List.length_drop, List.length_take, min_eq_left hlength]
  · have htake := List.mem_of_mem_drop hy
    rw [h.take_countUpTo hle, List.mem_filter, h.perm.mem_iff] at htake
    rw [List.drop_take] at hy
    exact ⟨htake.1, h.le_of_mem_drop_countBefore hle (List.mem_of_mem_take hy), htake.2⟩
  · have hmem := h.perm.mem_iff.mpr hy
    rw [hsplit, List.mem_append, List.mem_append] at hmem
    rcases hmem with (hmem | hmem) | hmem
    · rw [h.take_countBefore hle, List.mem_filter, hxy] at hmem
      exact absurd hmem.2 nofun
    · exact hmem
    · exact absurd hyx (h.not_le_of_mem_drop_countUpTo hle hmem)

theorem exists_perm_cons_cons {x y : α} (hx : x ∈ l) (hy : y ∈ l) (hne : x ≠ y) :
    ∃ l', l.Perm (x :: y :: l') := by
  obtain ⟨s, t, rfl⟩ := List.append_of_mem hx
  have hrest : y ∈ s ++ t := by
    rcases List.mem_append.mp hy with hy | hy
    · exact List.mem_append_left _ hy
    · exact List.mem_append_right _ ((List.mem_cons.mp hy).resolve_left (Ne.symm hne))
  obtain ⟨s', t', hst⟩ := List.append_of_mem hrest
  refine ⟨s' ++ t', List.perm_middle.trans (.cons x ?_)⟩
  rw [hst]
  exact List.perm_middle

/-- Tied elements that can come on different sides of `c` do so in two arrangements. -/
theorem exists_arranged_of_straddles (hle : TieOrder le) {c : ℕ} (h : Straddles le table c) :
    ∃ l₁ l₂, Arranged le table l₁ ∧ Arranged le table l₂ ∧ ¬(l₁.take c).Perm (l₂.take c) := by
  obtain ⟨x, hx, y, hy, hne, hxy, hyx, hbefore, hupTo⟩ := h
  obtain ⟨a, b, d, hl, ha, hb, htied⟩ := (hle.arranged_mergeSort table).exists_tied hle x
  have hl' := hle.arranged_mergeSort table
  rw [hl] at hl'
  obtain ⟨rest, hrest⟩ := exists_perm_cons_cons ((htied x).mpr ⟨hx, hle.refl x, hle.refl x⟩)
    ((htied y).mpr ⟨hy, hxy, hyx⟩) hne
  have hlength := hrest.length_eq
  rw [List.length_cons, List.length_cons] at hlength
  have hb' := fun y hy => ((htied y).mp hy).2
  obtain ⟨p, hp⟩ : ∃ p, c = a.length + (p + 1) := ⟨c - a.length - 1, by omega⟩
  have hput (u v : α) (huv : [u, v].Perm [x, y]) :
      ∃ l', Arranged le table l' ∧ l'.take c = a ++ rest.take p ++ [u] := by
    refine ⟨a ++ (rest.take p ++ [u, v] ++ rest.drop p) ++ d, hl'.replace_tied hle ?_ hb', ?_⟩
    · have hfront : (rest.take p ++ [u, v] ++ rest.drop p).Perm ([u, v] ++ rest) := by
        refine (List.perm_append_comm.append_right _).trans ?_
        rw [List.append_assoc, List.take_append_drop]
      exact (hfront.trans (huv.append_right rest)).trans hrest.symm
    · have hassoc : a ++ (rest.take p ++ [u, v] ++ rest.drop p) ++ d =
          (a ++ rest.take p ++ [u]) ++ ([v] ++ rest.drop p ++ d) := by
        simp
      rw [hassoc]
      refine List.take_left' ?_
      rw [List.length_append, List.length_append, List.length_take, List.length_singleton]
      omega
  obtain ⟨l₁, h₁, htake₁⟩ := hput x y (.refl _)
  obtain ⟨l₂, h₂, htake₂⟩ := hput y x (.swap ..)
  refine ⟨l₁, l₂, h₁, h₂, fun hperm => hne ?_⟩
  rw [htake₁, htake₂] at hperm
  exact List.singleton_perm_singleton.mp ((List.perm_append_left_iff _).mp hperm)

/-- Whatever the answers are, the windows add up exactly if no tied elements can come on different
sides of the end of a window. -/
theorem collects_iff (hle : TieOrder le) {s : ℕ} (hs : 0 < s) :
    (∀ answers : Answers le table, Collects answers.rows s table) ↔
      ∀ k, ¬Straddles le table (k * s) := by
  constructor
  · intro h k hk
    obtain ⟨l₁, l₂, h₁, h₂, hdiffer⟩ := exists_arranged_of_straddles hle hk
    exact hdiffer (take_perm_of_collects hs h h₁ h₂ k)
  · exact fun hno answers => collects_of_not_straddles hle hs hno answers

end MySocket
