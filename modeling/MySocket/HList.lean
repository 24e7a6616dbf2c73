import Mathlib.Tactic.Ring
import Mathlib.Tactic.Linarith
import Mathlib.Algebra.Order.Group.Int
import MySocket.Trace

/-!
# The horizontally scrolling list

`moveLeft` and `moveRight` of `common.js` move the highlight of a list by one item. They
keep the column of the highlight in the attribute `data-list-pos` and the scroll offset
in the style `left` : at the edge of the visible columns the list scrolls by a whole page,
or to its end when less than a page is left.

* `Synced.step`, `edge_of_synced` : the column agrees with the highlighted item, and the
  item stays visible, exactly as long as no `moveRight` at the right edge finds between
  two items and a page less one to the right of the highlight : there the list scrolls to
  its end, and the attribute is set to the last column whatever the item.
* `always_synced_iff_whole` : no sequence of moves goes wrong exactly when the list fits the
  screen or its length leaves remainder `0` or `1` by the number of columns.
-/

namespace MySocket

/-- A rendered list : the number of items, the outer width of one, the number of visible
columns, and the width of the search box if the list has one. -/
structure HList where
  total : ℤ
  width : ℤ
  maxCol : ℤ
  search : Option ℤ
  total_pos : 1 ≤ total
  width_pos : 0 < width
  maxCol_pos : 1 ≤ maxCol

/-- The highlighted item, the attribute `data-list-pos` and the style `left`. -/
@[ext]
structure HState where
  idx : ℤ
  pos : ℤ
  left : ℤ
  deriving DecidableEq

/-- A key that moves the highlight. -/
inductive HMove
  | left
  | right

namespace HList

variable (l : HList)

/-- `moveLeft`. -/
def moveLeft (s : HState) : HState :=
  let idx := s.idx - 1
  if s.pos = 0 then
    -- the highlight is in the first column : scroll a page back, or to the start
    if idx - l.maxCol ≥ 0 then ⟨idx, l.maxCol - 1, s.left + l.width * l.maxCol⟩
    else ⟨idx, idx, 0⟩
  else ⟨idx, if s.pos - 1 < 0 then l.maxCol - 1 else s.pos - 1, s.left⟩

/-- The offset at which the last item is the last visible one. -/
def endLeft : ℤ :=
  match l.search with
  | some searchWidth => -l.width * (l.total - l.maxCol) + (searchWidth - l.width)
  | none => -l.width * (l.total - l.maxCol)

/-- `moveRight`, without a callback that loads more items. -/
def moveRight (s : HState) : HState :=
  let idx := s.idx + 1
  if s.pos = l.maxCol - 1 then
    -- the highlight is in the last column : scroll a page on, or to the end
    if l.total - idx ≥ l.maxCol then
      ⟨idx, (s.pos + 1).tmod l.maxCol, s.left - l.width * l.maxCol⟩
    else ⟨idx, l.maxCol - 1, l.endLeft⟩
  else ⟨idx, (s.pos + 1).tmod l.maxCol, s.left⟩

/-- The callers do not move past either end. -/
def step (s : HState) : HMove → Option HState
  | .left => if 0 < s.idx then some (l.moveLeft s) else none
  | .right => if s.idx < l.total - 1 then some (l.moveRight s) else none

/-- The list as it is rendered. -/
def start : HState :=
  ⟨0, 0, 0⟩

/-- The first visible item. -/
def first (s : HState) : ℤ :=
  -s.left / l.width

/-- The highlighted item is visible, in the column that the attribute says. -/
structure Synced (s : HState) : Prop where
  first_le : l.first s ≤ s.idx
  lt_last : s.idx < l.first s + l.maxCol
  pos_nonneg : 0 ≤ s.pos
  pos_lt : s.pos < l.maxCol
  pos_eq : s.pos = s.idx - l.first s

/-- At the right edge a whole page is left to the right of the highlight, or one item. -/
def Edge (s : HState) : HMove → Prop
  | .right => s.pos = l.maxCol - 1 →
      l.maxCol ≤ l.total - 1 - s.idx ∨ l.total - 1 - s.idx = 1
  | .left => True

/-- The list is scrolled by whole items, and the highlight is an item in column `pos`. -/
structure Scrolled (s : HState) (f : ℤ) : Prop where
  left : s.left = -(f * l.width)
  pos : s.pos = s.idx - f
  pos_nonneg : 0 ≤ s.pos
  pos_lt : s.pos < l.maxCol
  first_nonneg : 0 ≤ f
  idx_lt : s.idx < l.total

variable {l} {s s' : HState} {f : ℤ}

theorem first_eq (h : s.left = -(f * l.width)) : l.first s = f := by
  rw [first, h, neg_neg, Int.mul_ediv_cancel _ l.width_pos.ne']

theorem Scrolled.synced (h : l.Scrolled s f) : l.Synced s := by
  have hf := first_eq h.left
  obtain ⟨-, hpos, hnonneg, hlt, -, -⟩ := h
  exact ⟨by omega, by omega, hnonneg, hlt, by omega⟩

theorem start_scrolled : l.Scrolled start 0 := by
  have := l.total_pos
  have := l.maxCol_pos
  exact ⟨by simp [start], by simp [start], le_rfl, by simp [start]; omega, le_rfl,
    by simp [start]; omega⟩

/-- The column after the next one, inside the visible columns. -/
theorem tmod_succ (h0 : 0 ≤ s.pos) (h : s.pos < l.maxCol - 1) :
    (s.pos + 1).tmod l.maxCol = s.pos + 1 :=
  Int.tmod_eq_of_lt (by omega) (by omega)

/-- `moveLeft` keeps the list in step; from the first column it scrolls a page back or to
the start, and sets the column to match. -/
theorem Scrolled.moveLeft (h : l.Scrolled s f) (hidx : 0 < s.idx) :
    ∃ f', l.Scrolled (l.moveLeft s) f' ∧
      (f' = f ∨ f' = f - l.maxCol ∨ f' = 0) := by
  obtain ⟨hleft, hpos, hnonneg, hlt, hf, hn⟩ := h
  have hm := l.maxCol_pos
  unfold HList.moveLeft
  by_cases h0 : s.pos = 0
  · by_cases hpage : s.idx - 1 - l.maxCol ≥ 0
    · refine ⟨f - l.maxCol, ?_, .inr (.inl rfl)⟩
      simp only [h0, hpage, if_true]
      exact ⟨by rw [hleft]; ring, by dsimp only; omega, by dsimp only; omega, by dsimp only; omega,
        by omega, by dsimp only; omega⟩
    · refine ⟨0, ?_, .inr (.inr rfl)⟩
      simp only [h0, hpage, if_true, if_false]
      exact ⟨by simp, by simp, by dsimp only; omega, by dsimp only; omega, le_rfl,
        by dsimp only; omega⟩
  · refine ⟨f, ?_, .inl rfl⟩
    have hneg : ¬s.pos - 1 < 0 := by omega
    simp only [h0, hneg, if_false]
    exact ⟨hleft, by dsimp only; omega, by dsimp only; omega, by dsimp only; omega, hf,
      by dsimp only; omega⟩

/-- `moveRight` keeps the list in step where the condition holds. -/
theorem Scrolled.moveRight (h : l.Scrolled s f) (hsearch : l.search = none)
    (hidx : s.idx < l.total - 1) (hedge : l.Edge s .right) :
    ∃ f', l.Scrolled (l.moveRight s) f' ∧
      (f' = f ∨ f' = f + l.maxCol ∨ f' = l.total - l.maxCol ∧ s.idx = l.total - 2) := by
  obtain ⟨hleft, hpos, hnonneg, hlt, hf, hn⟩ := h
  have hm := l.maxCol_pos
  unfold HList.moveRight
  by_cases hlast : s.pos = l.maxCol - 1
  · by_cases hpage : l.total - (s.idx + 1) ≥ l.maxCol
    · refine ⟨f + l.maxCol, ?_, .inr (.inl rfl)⟩
      simp only [hlast, hpage, if_true, sub_add_cancel, Int.tmod_self]
      exact ⟨by rw [hleft]; ring, by dsimp only; omega, le_rfl, by dsimp only; omega, by omega,
        by dsimp only; omega⟩
    · have hone : l.total - 1 - s.idx = 1 := by
        rcases hedge hlast with h | h
        · omega
        · exact h
      refine ⟨l.total - l.maxCol, ?_, .inr (.inr ⟨rfl, by omega⟩)⟩
      simp only [hlast, hpage, if_true, if_false, endLeft, hsearch]
      exact ⟨by ring, by dsimp only; omega, by dsimp only; omega, by dsimp only; omega, by omega,
        by dsimp only; omega⟩
  · refine ⟨f, ?_, .inl rfl⟩
    simp only [hlast, if_false, tmod_succ hnonneg (by omega : s.pos < l.maxCol - 1)]
    exact ⟨hleft, by dsimp only; omega, by dsimp only; omega, by dsimp only; omega, hf,
      by dsimp only; omega⟩

theorem Scrolled.step {e : HMove} (hsearch : l.search = none) (h : ∃ f, l.Scrolled s f)
    (hedge : l.Edge s e) (hstep : l.step s e = some s') : ∃ f, l.Scrolled s' f := by
  obtain ⟨f, h⟩ := h
  cases e with
  | left =>
    simp only [HList.step, Option.ite_none_right_eq_some, Option.some.injEq] at hstep
    obtain ⟨hidx, rfl⟩ := hstep
    obtain ⟨f', h', -⟩ := h.moveLeft hidx
    exact ⟨f', h'⟩
  | right =>
    simp only [HList.step, Option.ite_none_right_eq_some, Option.some.injEq] at hstep
    obtain ⟨hidx, rfl⟩ := hstep
    obtain ⟨f', h', -⟩ := h.moveRight hsearch hidx hedge
    exact ⟨f', h'⟩

/-- A move that leaves the column right met the condition : scrolled to its end, the list
shows the highlight in the last column only if it is the last item. -/
theorem edge_of_synced {e : HMove} (hsearch : l.search = none)
    (hstep : l.step s e = some s') (h' : l.Synced s') : l.Edge s e := by
  cases e with
  | left => trivial
  | right =>
    simp only [HList.step, Option.ite_none_right_eq_some, Option.some.injEq] at hstep
    obtain ⟨hidx, rfl⟩ := hstep
    intro hlast
    by_cases hpage : l.total - (s.idx + 1) ≥ l.maxCol
    · exact .inl (by omega)
    · have hend : l.moveRight s = ⟨s.idx + 1, l.maxCol - 1, l.endLeft⟩ := by
        simp only [HList.moveRight, hlast, hpage, if_true, if_false]
      have hfirst : l.first (l.moveRight s) = l.total - l.maxCol := by
        refine first_eq ?_
        simp only [hend, endLeft, hsearch]
        ring
      have hpos := h'.pos_eq
      rw [hfirst, hend] at hpos
      dsimp only at hpos
      exact .inr (by omega)

/-- In a list without a search box, the highlighted item is visible in the column kept in
the attribute in every state of a sequence of moves, if and only if each `moveRight` made
in the last column finds a whole page or just one item to the right of the highlight. -/
theorem synced_iff_edge (hsearch : l.search = none) (es : List HMove) :
    Always l.step l.Synced start es ↔ Each l.step l.Edge start es :=
  always_iff_each (I := fun s => ∃ f, l.Scrolled s f)
    (fun _ _ _ h hedge hstep => Scrolled.step hsearch h hedge hstep)
    (fun _ h => h.choose_spec.synced)
    (fun _ _ _ _ hstep h' => edge_of_synced hsearch hstep h') ⟨0, start_scrolled⟩

end HList

/-- Five items, three of them visible. -/
def fiveByThree : HList :=
  ⟨5, 100, 3, none, by decide, by decide, by decide⟩

/-- Three moves to the right and two back : items 2 to 4 are visible, and item 1 is
highlighted. -/
theorem highlight_lost :
    ∃ s, run fiveByThree.step HList.start [.right, .right, .right, .left, .left] = some s ∧
      s.idx = 1 ∧ fiveByThree.first s = 2 ∧ ¬fiveByThree.Synced s :=
  ⟨_, rfl, rfl, rfl, fun h => absurd h.first_le (by decide)⟩

/-- Two moves to the right from the first column, and back. -/
theorem highlight_kept :
    Always fiveByThree.step fiveByThree.Synced HList.start [.right, .right, .left] :=
  (HList.synced_iff_edge (l := fiveByThree) rfl _).mpr
    (.cons rfl (fun h => absurd h (by decide)) (.cons rfl (fun h => absurd h (by decide))
      (.cons rfl trivial trivial)))

/-! ## Which lists scroll right

The first visible item is a multiple of the number of columns, until the list scrolls to
its end; then it is a multiple less than the last page. -/

namespace HList

variable {l : HList} {s s' : HState} {f : ℤ}

/-- The list fits the screen, or it ends on a full page or one item after it. -/
def Whole (l : HList) : Prop :=
  l.total ≤ l.maxCol ∨ l.total % l.maxCol ≤ 1

/-- Whole pages lie before the first visible item, or from it on. -/
def Paged (l : HList) (f : ℤ) : Prop :=
  l.maxCol ∣ f ∨ l.maxCol ∣ l.total - f

/-- A positive multiple of the page is a page at least. -/
theorem page_le {r : ℤ} (h : l.maxCol ∣ r) (hr : 0 < r) : l.maxCol ≤ r :=
  Int.le_of_dvd hr h

theorem Scrolled.edge (h : l.Scrolled s f) (hwhole : l.Whole) (hf : l.Paged f)
    (hidx : s.idx < l.total - 1) : l.Edge s .right := by
  intro hlast
  have hrest : l.total - 1 - s.idx = l.total - f - l.maxCol := by
    have := h.pos
    omega
  have hpos : 0 < l.total - 1 - s.idx := by omega
  rw [hrest] at hpos ⊢
  rcases hf with hf | hf
  · rcases hwhole with hfit | hmod
    · have := h.first_nonneg
      omega
    · -- what is left is the remainder of the length, up to whole pages
      have hsplit : l.maxCol ∣ l.total - f - l.maxCol - l.total % l.maxCol := by
        have hdiv := @Int.dvd_self_sub_emod l.total l.maxCol
        have : l.total - f - l.maxCol - l.total % l.maxCol =
            l.total - l.total % l.maxCol - f - l.maxCol := by ring
        rw [this]
        exact Int.dvd_sub (Int.dvd_sub hdiv hf) (Int.dvd_refl _)
      have hmod0 := Int.emod_nonneg l.total (by have := l.maxCol_pos; omega : l.maxCol ≠ 0)
      by_cases hzero : l.total - f - l.maxCol - l.total % l.maxCol = 0
      · exact .inr (by omega)
      · exact .inl (by
          have := page_le hsplit (by omega)
          omega)
  · exact .inl (page_le (Int.dvd_sub hf (Int.dvd_refl _)) hpos)

theorem Paged.shift {d : ℤ} (hf : l.Paged f) (h : d = f ∨ d = f - l.maxCol ∨ d = f + l.maxCol) :
    l.Paged d := by
  have hdiv : l.maxCol ∣ d - f := by
    rcases h with rfl | rfl | rfl <;> simp
  rcases hf with hf | hf
  · exact .inl (by simpa using Int.dvd_add hdiv hf)
  · exact .inr (by simpa using Int.dvd_sub hf hdiv)

theorem Scrolled.paged_step {e : HMove} (hsearch : l.search = none) (hwhole : l.Whole)
    (h : ∃ f, l.Scrolled s f ∧ l.Paged f) (hstep : l.step s e = some s') :
    ∃ f, l.Scrolled s' f ∧ l.Paged f := by
  obtain ⟨f, h, hf⟩ := h
  cases e with
  | left =>
    simp only [HList.step, Option.ite_none_right_eq_some, Option.some.injEq] at hstep
    obtain ⟨hidx, rfl⟩ := hstep
    obtain ⟨f', h', rfl | rfl | rfl⟩ := h.moveLeft hidx
    · exact ⟨_, h', hf⟩
    · exact ⟨_, h', hf.shift (.inr (.inl rfl))⟩
    · exact ⟨_, h', .inl (dvd_zero _)⟩
  | right =>
    simp only [HList.step, Option.ite_none_right_eq_some, Option.some.injEq] at hstep
    obtain ⟨hidx, rfl⟩ := hstep
    obtain ⟨f', h', rfl | rfl | ⟨rfl, -⟩⟩ :=
      h.moveRight hsearch hidx (h.edge hwhole hf hidx)
    · exact ⟨_, h', hf⟩
    · exact ⟨_, h', hf.shift (.inr (.inr rfl))⟩
    · exact ⟨_, h', .inr (by simp)⟩

/-- Moving right from the start reaches column `b` of page `a`, as long as the page is full. -/
theorem reach_column (a b : ℕ) (ha : l.maxCol * (a + 1) ≤ l.total) (hb : (b : ℤ) < l.maxCol) :
    ∃ es, run l.step start es =
      some ⟨l.maxCol * a + b, b, -(l.maxCol * a * l.width)⟩ := by
  have hm := l.maxCol_pos
  induction a generalizing b with
  | zero =>
    induction b with
    | zero => exact ⟨[], by simp [start]⟩
    | succ b ih =>
      obtain ⟨es, hes⟩ := ih (by push_cast at hb; omega)
      refine ⟨es ++ [.right], ?_⟩
      push_cast at hb ha ⊢
      have hidx : l.maxCol * 0 + (b : ℤ) < l.total - 1 := by omega
      have hcol : ((b : ℤ) + 1).tmod l.maxCol = b + 1 := Int.tmod_eq_of_lt (by omega) (by omega)
      have hlast : (b : ℤ) ≠ l.maxCol - 1 := by omega
      rw [run_append, hes]
      simp [run_cons, HList.step, HList.moveRight, hcol, hlast]
      omega
  | succ a iha =>
    have hpage : l.maxCol * (a + 1) + l.maxCol ≤ l.total := by
      push_cast at ha
      linarith [mul_add l.maxCol (a + 1) 1]
    induction b with
    | zero =>
      obtain ⟨es, hes⟩ := iha (l.maxCol - 1).toNat (by omega) (by omega)
      refine ⟨es ++ [.right], ?_⟩
      rw [Int.toNat_of_nonneg (by omega)] at hes
      rw [run_append, hes]
      have hidx : l.maxCol * a + (l.maxCol - 1) < l.total - 1 := by
        linarith [mul_add l.maxCol a 1]
      have hmore : l.maxCol ≤ l.total - (l.maxCol * a + (l.maxCol - 1) + 1) := by
        linarith [mul_add l.maxCol a 1]
      simp only [Option.bind_some, run_cons, HList.step, hidx, if_true, HList.moveRight, hmore,
        ge_iff_le, run_nil, Option.some.injEq, sub_add_cancel, Int.tmod_self]
      ext
      · push_cast
        ring
      · rfl
      · push_cast
        ring
    | succ b ih =>
      obtain ⟨es, hes⟩ := ih (by push_cast at hb; omega)
      refine ⟨es ++ [.right], ?_⟩
      rw [run_append, hes]
      push_cast at hb hpage ⊢
      have hidx : l.maxCol * (a + 1) + (b : ℤ) < l.total - 1 := by omega
      have hcol : ((b : ℤ) + 1).tmod l.maxCol = b + 1 := Int.tmod_eq_of_lt (by omega) (by omega)
      have hlast : (b : ℤ) ≠ l.maxCol - 1 := by omega
      simp [run_cons, HList.step, HList.moveRight, hcol, hlast, hidx]
      ring

/-- No sequence of moves loses the highlight if and only if the list fits the screen or its
length leaves remainder `0` or `1` by the number of columns. -/
theorem always_synced_iff_whole (hsearch : l.search = none) :
    (∀ es, Always l.step l.Synced start es) ↔ l.Whole := by
  have hm := l.maxCol_pos
  constructor
  · intro h
    by_contra hwhole
    obtain ⟨hfit, hmod⟩ := not_or.mp hwhole
    have hdiv := Int.mul_ediv_add_emod l.total l.maxCol
    have hlt := Int.emod_lt_of_pos l.total (by omega : 0 < l.maxCol)
    have hq : 0 < l.total / l.maxCol := by
      by_contra hq
      have : l.maxCol * (l.total / l.maxCol) ≤ 0 :=
        mul_nonpos_of_nonneg_of_nonpos (by omega) (by omega)
      omega
    -- the last full page, with the highlight in its last column
    obtain ⟨es, hes⟩ := reach_column (l := l) (l.total / l.maxCol - 1).toNat
      (l.maxCol - 1).toNat (by rw [Int.toNat_of_nonneg (by omega), sub_add_cancel]; omega) (by omega)
    rw [Int.toNat_of_nonneg (by omega), Int.toNat_of_nonneg (by omega)] at hes
    have hpage : l.maxCol * (l.total / l.maxCol - 1) + (l.maxCol - 1) =
        l.total - l.total % l.maxCol - 1 := by
      rw [mul_sub_one]
      omega
    rw [hpage] at hes
    have hsnoc := h (es ++ [.right])
    obtain ⟨s', hs'⟩ : ∃ s', l.step ⟨l.total - l.total % l.maxCol - 1, l.maxCol - 1,
        -(l.maxCol * (l.total / l.maxCol - 1) * l.width)⟩ .right = some s' :=
      ⟨_, if_pos (by dsimp only; omega)⟩
    have hlast := hsnoc.last (t := s') (by rw [run_append, hes]; simp [run_cons, hs'])
    have hedge := edge_of_synced hsearch hs' hlast rfl
    dsimp only at hedge
    omega
  · intro hwhole es
    exact (always_of_step (I := fun s => ∃ f, l.Scrolled s f ∧ l.Paged f)
      (fun _ _ _ h hstep => Scrolled.paged_step hsearch hwhole h hstep)
      ⟨0, start_scrolled, .inl (dvd_zero _)⟩ es).mono fun _ ⟨_, h, _⟩ => h.synced

end HList

end MySocket
