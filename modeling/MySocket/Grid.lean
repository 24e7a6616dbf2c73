import Mathlib.Algebra.Order.Ring.Int
import Mathlib.Tactic.Ring
import MySocket.Trace
import MySocket.Slices

/-!
# The windowed grid

`listKeyLogic` and `updateList` of `common.js` move the focus in a list of media laid out
in rows of `maxCol`. Only `totalRow` rows are rendered at a time, from the item `start`
on; the list is rendered again `maxRow` rows further up or down when the focus leaves them.
`offset` is meant to be the position of the focus in the rendered window.

`Grid.Plain` is the same grid without a window. For each key, `Grid.left_spec` to
`Grid.down_spec` say when a key moves the focus as in the plain grid and leaves `offset`
right; `Grid.Fits` collects these conditions, and `Grid.moves_of_fits` turns them into a
simulation of whole runs.
-/

namespace MySocket

/-- The keys that move the focus. -/
inductive Key
  | left
  | right
  | up
  | down
  deriving DecidableEq

/-- The fields of `resMap` that no key changes. -/
structure Grid (α : Type*) where
  medias : List α
  total : ℤ
  maxCol : ℤ
  maxRow : ℤ
  totalRow : ℤ
  maxCol_pos : 1 ≤ maxCol
  maxRow_pos : 1 ≤ maxRow
  maxRow_le : maxRow ≤ totalRow

/-- The other fields of `resMap`, the rendered items and the focused one. -/
structure Window (α : Type*) where
  start : ℤ
  offset : ℤ
  stop : ℤ
  reachEnd : Bool
  list : List α
  focused : ℤ
  deriving DecidableEq

variable {α : Type*}

/-- `focus` : the item at `index`, counted from the end if negative, else the last one. -/
def Window.focus (s : Window α) (index : ℤ) : Window α :=
  let eq := if index < 0 then index + s.list.length else index
  { s with focused := if 0 ≤ eq ∧ eq < s.list.length then eq else s.list.length - 1 }

theorem Window.focus_eq {s : Window α} {index : ℤ} (h : 0 ≤ index) :
    s.focus index =
      { s with focused := if index < s.list.length then index else s.list.length - 1 } := by
  simp only [Window.focus, if_neg (not_lt.mpr h), h, true_and]

theorem Window.focus_of_lt {s : Window α} {index : ℤ} (h : 0 ≤ index) (hlt : index < s.list.length) :
    s.focus index = { s with focused := index } := by
  rw [Window.focus_eq h, if_pos hlt]

namespace Grid

variable (g : Grid α)

/-- The items of the rows before the window is moved (`maxViewTotal` in `updateList`). -/
def page : ℤ :=
  g.maxCol * g.maxRow

/-- The items rendered (`maxTotal` in `updateList`, `maxViewTotal` in `listKeyLogic`). -/
def view : ℤ :=
  g.maxCol * g.totalRow

/-- `updateList`, without a callback. -/
def updateList (idx : ℤ) (keyMove : Key) (s : Window α) : Window α :=
  let row := idx / g.maxCol + 1
  match keyMove with
  | .up | .left =>
    if row ≤ g.maxRow then
      if s.start > 0 then
        let start := if s.start - g.page < 0 then 0 else s.start - g.page
        let stop := start + g.view
        let offset := idx.tmod g.maxCol + g.maxCol
        { s with start, stop, offset, list := slice g.medias start stop : Window α }.focus offset
      else s.focus idx
    else s
  | .down | .right =>
    if row > g.maxRow then
      let start := s.start + g.page
      let stop := start + g.view
      let res := slice g.medias start stop
      if res ≠ [] then
        let offset := idx.tmod g.maxCol
        { s with
          start, offset, list := res
          stop := if g.medias.length ≥ stop then stop else g.medias.length
          reachEnd := if g.medias.length ≥ stop then s.reachEnd else true : Window α }.focus offset
      else { s with reachEnd := true }
    else s.focus idx

/-- `listKeyLogic` with its default settings, called with the focused item and the length
of the rendered list. -/
def listKeyLogic (keyMove : Key) (idx total : ℤ) (s : Window α) : Window α :=
  match keyMove with
  | .left =>
    let idx := idx - 1
    if s.start = 0 ∧ idx < 0 then { s with offset := 0 }
    else if idx < 0 then g.updateList (g.view - 1) .left { s with offset := 0 }
    else { s with offset := idx.tmod g.view : Window α }.focus idx
  | .right =>
    let idx := idx + 1
    if s.start + s.offset ≥ g.total - 1 then s
    else if idx = g.view then g.updateList idx .right { s with offset := idx.tmod g.view }
    else { s with offset := idx.tmod g.view : Window α }.focus idx
  | .up =>
    if s.start ≤ 0 ∧ idx < g.maxCol then { s with offset := 0 }
    else
      let idx := if s.start = 0 then idx - g.maxCol else idx
      let s := { s with offset := idx.tmod g.maxCol }
      if idx ≥ g.maxCol then s.focus (idx - g.maxCol)
      else if s.start = 0 then s.focus (idx.tmod g.maxCol)
      else g.updateList idx .up s
  | .down =>
    let idx := idx + g.maxCol
    if s.start + s.offset = g.medias.length then s.focus (total - 1)
    else g.updateList idx .down { s with offset := idx.tmod g.view }

/-- The list as it is first rendered, with the focus on the first item. -/
def start : Window α :=
  let stop := min (g.medias.length : ℤ) g.view
  ⟨0, 0, stop, false, slice g.medias 0 stop, 0⟩

/-- A key, with the arguments that the page passes. -/
def press (s : Window α) (key : Key) : Window α :=
  g.listKeyLogic key s.focused s.list.length s

def step (s : Window α) (key : Key) : Option (Window α) :=
  some (g.press s key)

/-! ## The plain grid -/

/-- The position of the focused item among all media. -/
def position (s : Window α) : ℤ :=
  s.start + s.focused

/-- The grid without a window. -/
def Plain (a : ℤ) : Key → ℤ → Prop
  | .left, b => 1 ≤ a ∧ b = a - 1 ∨ a < 1 ∧ b = a
  | .right, b => a + 1 < g.medias.length ∧ b = a + 1 ∨ g.medias.length ≤ a + 1 ∧ b = a
  | .up, b => g.maxCol ≤ a ∧ b = a - g.maxCol ∨ a < g.maxCol ∧ b = a
  | .down, b =>
    a + g.maxCol < g.medias.length ∧ b = a + g.maxCol ∨
      g.medias.length ≤ a + g.maxCol ∧ (b = a ∨ b = g.medias.length - 1)

/-- The focus moves as in the plain grid, and `start + offset` is its position. -/
def Refines (s : Window α) (key : Key) (s' : Window α) : Prop :=
  g.Plain (position s) key (position s') ∧ s'.start + s'.offset = position s'

/-- The presses that move the window as the plain grid moves.

* LEFT on the first rendered item needs windows of two rows that move by both.
* RIGHT on the last rendered item needs windows that move by all their rows.
* UP needs the first two rendered rows, and in the first one either the very first item or
  windows that move by two rows.
* DOWN to a row that exists needs the rows before the window moves; where that row does not
  exist, the focus has to be in the row after these, or the window is a single row. -/
def Fits (s : Window α) : Key → Prop
  | .left => 0 < s.focused ∨ s.start = 0 ∨ g.maxRow = 2 ∧ g.totalRow = 2
  | .right =>
    g.medias.length ≤ position s + 1 ∨ s.focused + 1 < g.view ∨ g.maxRow = g.totalRow
  | .up =>
    s.focused < 2 * g.maxCol ∧
      (g.maxCol ≤ s.focused ∨ s.start = 0 ∧ s.focused = 0 ∨ 0 < s.start ∧ g.maxRow = 2)
  | .down =>
    s.focused < g.page ∧ position s + g.maxCol < g.medias.length ∨
      (g.page ≤ s.focused ∧ s.focused < g.page + g.maxCol ∧
        g.medias.length ≤ position s + g.maxCol) ∨
      g.totalRow = 1 ∧ g.medias.length ≤ s.start + g.maxCol

instance (a b : ℤ) : ∀ key, Decidable (g.Plain a key b)
  | .left | .right | .up => inferInstanceAs (Decidable (_ ∧ _ ∨ _ ∧ _))
  | .down => inferInstanceAs (Decidable (_ ∧ _ ∨ _ ∧ (_ ∨ _)))

instance (s : Window α) (key : Key) (s' : Window α) : Decidable (g.Refines s key s') :=
  inferInstanceAs (Decidable (_ ∧ _))

instance (s : Window α) : ∀ key, Decidable (g.Fits s key)
  | .left | .right | .down => inferInstanceAs (Decidable (_ ∨ _ ∨ _))
  | .up => inferInstanceAs (Decidable (_ ∧ _))

/-- The window starts a whole number of pages down the list, its length is what is left of
the list up to `view`, and `offset` is the focused item. -/
structure Laid (s : Window α) : Prop where
  start_nonneg : 0 ≤ s.start
  page_dvd : g.page ∣ s.start
  length : (s.list.length : ℤ) = min g.view (g.medias.length - s.start)
  focused_nonneg : 0 ≤ s.focused
  focused_lt : s.focused < s.list.length
  offset : s.offset = s.focused

variable {g} {s s' : Window α}

/-! ## Rows -/

theorem row_le {a b : ℤ} : g.maxCol * a ≤ g.maxCol * b ↔ a ≤ b :=
  mul_le_mul_iff_of_pos_left (by have := g.maxCol_pos; omega)

theorem row_eq {a b : ℤ} : g.maxCol * a = g.maxCol * b ↔ a = b :=
  mul_right_inj' (by have := g.maxCol_pos; omega)

theorem maxCol_le_page : g.maxCol ≤ g.page := by
  have h := row_le (g := g).mpr g.maxRow_pos
  rwa [mul_one] at h

theorem page_le_view : g.page ≤ g.view :=
  row_le.mpr g.maxRow_le

/-- A row, the rows before the window moves, and those rendered. -/
theorem sizes : 1 ≤ g.maxCol ∧ g.maxCol ≤ g.page ∧ g.page ≤ g.view :=
  ⟨g.maxCol_pos, maxCol_le_page, page_le_view⟩

theorem page_eq_view : g.page = g.view ↔ g.maxRow = g.totalRow :=
  row_eq

theorem page_eq_two : g.page = 2 * g.maxCol ↔ g.maxRow = 2 := by
  rw [mul_comm, page, row_eq]

theorem view_eq_two : g.view = 2 * g.maxCol ↔ g.totalRow = 2 := by
  rw [mul_comm, view, row_eq]

theorem view_eq_one : g.view = g.maxCol ↔ g.totalRow = 1 := by
  rw [view, ← row_eq (g := g) (a := g.totalRow), mul_one]

/-- A window of more than one row has two. -/
theorem two_le_view : g.view = g.maxCol ∨ 2 * g.maxCol ≤ g.view := by
  rw [view_eq_one, mul_comm, view, row_le]
  have := g.maxRow_pos
  have := g.maxRow_le
  omega

/-- The row test of `updateList`. -/
theorem row_gt_iff {i : ℤ} : i / g.maxCol + 1 > g.maxRow ↔ g.page ≤ i := by
  rw [gt_iff_lt, Int.lt_add_one_iff, Int.le_ediv_iff_mul_le (by have := g.maxCol_pos; omega), page,
    mul_comm]

/-- The column of an item in row `r`. -/
theorem tmod_row {i r : ℤ} (hr : 0 ≤ r) (h : g.maxCol * r ≤ i)
    (h' : i < g.maxCol * r + g.maxCol) : i.tmod g.maxCol = i - g.maxCol * r := by
  have hC := g.maxCol_pos
  have hi : 0 ≤ i := (mul_nonneg (by omega) hr).trans h
  rw [Int.tmod_eq_emod_of_nonneg hi]
  have hsplit : i = i - g.maxCol * r + g.maxCol * r := by ring
  conv_lhs => rw [hsplit, Int.add_mul_emod_self_left]
  exact Int.emod_eq_of_lt (by omega) (by omega)

theorem tmod_column {i : ℤ} (h : 0 ≤ i) :
    0 ≤ i.tmod g.maxCol ∧ i.tmod g.maxCol < g.maxCol := by
  have hC := g.maxCol_pos
  rw [Int.tmod_eq_emod_of_nonneg h]
  exact ⟨Int.emod_nonneg _ (by omega), Int.emod_lt_of_pos _ (by omega)⟩

theorem tmod_last : (g.view - 1).tmod g.maxCol = g.maxCol - 1 := by
  have hC := g.maxCol_pos
  have hT := g.maxRow_pos.trans g.maxRow_le
  have hrow : g.maxCol * (g.totalRow - 1) = g.view - g.maxCol := mul_sub_one _ _
  rw [tmod_row (r := g.totalRow - 1) (by omega) (by omega) (by omega)]
  omega

theorem tmod_view {i : ℤ} (h : 0 ≤ i) (h' : i < g.view) : i.tmod g.view = i :=
  Int.tmod_eq_of_lt h h'

theorem tmod_view_next {i : ℤ} (h : g.view ≤ i) (h' : i < 2 * g.view) :
    i.tmod g.view = i - g.view := by
  rw [Int.tmod_eq_emod_of_nonneg (by omega), ← Int.sub_emod_right]
  exact Int.emod_eq_of_lt (by omega) (by omega)

theorem page_le_start (h : g.Laid s) (hs : s.start ≠ 0) : g.page ≤ s.start :=
  Int.le_of_dvd (by have := h.start_nonneg; omega) h.page_dvd

/-! ## The branches -/

theorem length_window {k : ℤ} (hk : 0 ≤ k) (hk' : k ≤ g.medias.length) :
    ((slice g.medias k (k + g.view)).length : ℤ) = min g.view (g.medias.length - k) := by
  obtain ⟨hC, hCP, hPV⟩ := sizes (g := g)
  rw [length_slice hk (by omega)]
  omega

/-- Up a page : the focus goes to the second row of the new window. -/
theorem updateList_back {i : ℤ} {k : Key} (hk : k = .up ∨ k = .left)
    (hi : i < g.page) (hs : 0 < s.start) (hpage : g.page ≤ s.start) :
    g.updateList i k s =
      ({ s with
        start := s.start - g.page, stop := s.start - g.page + g.view
        offset := i.tmod g.maxCol + g.maxCol
        list := slice g.medias (s.start - g.page) (s.start - g.page + g.view) } : Window α).focus
          (i.tmod g.maxCol + g.maxCol) := by
  have hrow : i / g.maxCol + 1 ≤ g.maxRow := not_lt.mp fun h => by
    have := row_gt_iff.mp h
    omega
  have hneg : ¬s.start - g.page < 0 := by omega
  rcases hk with rfl | rfl <;> simp only [updateList, if_pos hrow, if_pos hs, if_neg hneg]

/-- Down a page : the focus goes to the first row of the new window. -/
theorem updateList_next {i : ℤ} {k : Key} (hk : k = .down ∨ k = .right)
    (hi : g.page ≤ i) (hs : 0 ≤ s.start) (hmore : s.start + g.page < g.medias.length) :
    ∃ stop reachEnd, g.updateList i k s =
      ({ s with
        start := s.start + g.page, stop, offset := i.tmod g.maxCol, reachEnd
        list := slice g.medias (s.start + g.page) (s.start + g.page + g.view) } : Window α).focus
          (i.tmod g.maxCol) := by
  obtain ⟨hC, hCP, hPV⟩ := sizes (g := g)
  have hlen := length_window (g := g) (k := s.start + g.page) (by omega) (by omega)
  have hne : slice g.medias (s.start + g.page) (s.start + g.page + g.view) ≠ [] := by
    intro hnil
    rw [hnil, List.length_nil] at hlen
    omega
  rcases hk with rfl | rfl <;>
    exact ⟨_, _, by simp only [updateList, if_pos (row_gt_iff.mpr hi), if_pos hne]; rfl⟩

/-- Down a page, but there is none. -/
theorem updateList_end {i : ℤ} (hi : g.page ≤ i) (hs : 0 ≤ s.start)
    (hend : g.medias.length ≤ s.start + g.page) :
    g.updateList i .down s = { s with reachEnd := true } := by
  obtain ⟨hC, hCP, hPV⟩ := sizes (g := g)
  have hnil : slice g.medias (s.start + g.page) (s.start + g.page + g.view) = [] := by
    refine List.length_eq_zero_iff.mp (Int.natCast_eq_zero.mp ?_)
    rw [length_slice (add_nonneg hs (by omega)) (by omega)]
    omega
  simp only [updateList, if_pos (row_gt_iff.mpr hi), if_neg (not_not.mpr hnil)]

/-! ## One key -/

/-- The focus goes to `offset`, in a window that is laid out. -/
theorem focus_spec {key : Key} {w : Window α} (hstart : 0 ≤ w.start) (hdvd : g.page ∣ w.start)
    (hlen : (w.list.length : ℤ) = min g.view (g.medias.length - w.start)) (hoffset : 0 ≤ w.offset)
    (hfits : g.Fits s key ↔
      w.offset < w.list.length ∧ g.Plain (position s) key (w.start + w.offset)) :
    (g.Fits s key → g.Laid (w.focus w.offset)) ∧
      (g.Refines s key (w.focus w.offset) ↔ g.Fits s key) := by
  by_cases hlt : w.offset < w.list.length
  · rw [Window.focus_of_lt hoffset hlt, hfits]
    exact ⟨fun _ => ⟨hstart, hdvd, hlen, hoffset, hlt, rfl⟩, fun h => ⟨hlt, h.1⟩, fun h => ⟨h.2, rfl⟩⟩
  · have hnot : ¬g.Fits s key := fun h => hlt (hfits.mp h).1
    refine ⟨fun h => absurd h hnot, iff_of_false (fun h => ?_) hnot⟩
    -- it is the last item that has the focus
    have hlast := h.2
    rw [Window.focus_eq hoffset, if_neg hlt] at hlast
    simp only [position] at hlast
    omega

/-- LEFT on the first item of a later window. -/
theorem left_back_spec (h : g.Laid s) (hin : s.focused ≤ 0) (h0 : s.start ≠ 0) :
    (g.Fits s .left → g.Laid (g.press s .left)) ∧
      (g.Refines s .left (g.press s .left) ↔ g.Fits s .left) := by
  obtain ⟨hC, hCP, hPV⟩ := sizes (g := g)
  have hback := page_le_start h
  obtain ⟨hS, hdvd, hlen, hi, hlt, hO⟩ := h
  have hkey : g.press s .left = g.updateList (g.view - 1) .left { s with offset := 0 } := by
    simp only [press, listKeyLogic]
    rw [if_neg (by omega), if_pos (by omega)]
  rw [hkey]
  by_cases hRT : g.maxRow = g.totalRow
  · -- the window before : the last column of its second row
    have hview := page_eq_view.mpr hRT
    have htwo := view_eq_two (g := g)
    have hlen' := length_window (g := g) (k := s.start - g.page) (by omega) (by omega)
    rw [updateList_back (.inr rfl) (by omega) (by dsimp only; omega) (by dsimp only; omega), tmod_last]
    refine focus_spec (by dsimp only; omega) (Int.dvd_sub hdvd (Int.dvd_refl _)) hlen'
      (by dsimp only; omega) ?_
    simp only [Fits, Plain, position]
    omega
  · -- the rows that stay are not left
    have hstay : g.updateList (g.view - 1) .left { s with offset := 0 } = { s with offset := 0 } := by
      have hrow : g.page ≤ g.view - 1 := by
        have := page_eq_view (g := g)
        omega
      simp only [updateList]
      rw [if_neg (not_le.mpr (row_gt_iff.mpr hrow))]
    rw [hstay]
    have hfits : ¬g.Fits s .left := by
      simp only [Fits]
      omega
    refine ⟨fun h => absurd h hfits, iff_of_false ?_ hfits⟩
    simp only [Refines, Plain, position, and_true]
    omega

theorem left_spec (h : g.Laid s) :
    (g.Fits s .left → g.Laid (g.press s .left)) ∧
      (g.Refines s .left (g.press s .left) ↔ g.Fits s .left) := by
  have hCP := maxCol_le_page (g := g)
  have hPV := page_le_view (g := g)
  by_cases hin : 0 < s.focused
  · -- inside the window
    obtain ⟨hS, hdvd, hlen, hi, hlt, hO⟩ := h
    have hpress : g.press s .left =
        ({ s with offset := s.focused - 1 } : Window α).focus (s.focused - 1) := by
      simp only [press, listKeyLogic]
      rw [if_neg (by omega), if_neg (by omega), tmod_view (by omega) (by omega)]
    rw [hpress]
    refine focus_spec hS hdvd hlen (by dsimp only; omega) ?_
    simp only [Fits, Plain, position]
    omega
  by_cases h0 : s.start = 0
  · -- the first item of the list
    obtain ⟨hS, hdvd, hlen, hi, hlt, hO⟩ := h
    have hpress : g.press s .left = { s with offset := 0 } := by
      simp only [press, listKeyLogic]
      rw [if_pos (by omega)]
    rw [hpress]
    refine ⟨fun _ => ⟨hS, hdvd, hlen, hi, hlt, by dsimp only; omega⟩, ?_⟩
    simp only [Refines, Plain, Fits, position, and_true]
    omega
  · exact left_back_spec h (not_lt.mp hin) h0

/-- RIGHT on the last item of a window that is not the last. -/
theorem right_next_spec (h : g.Laid s) (htotal : g.total = g.medias.length)
    (hmore : s.start + s.focused + 1 < g.medias.length) (hedge : s.focused + 1 = g.view) :
    (g.Fits s .right → g.Laid (g.press s .right)) ∧
      (g.Refines s .right (g.press s .right) ↔ g.Fits s .right) := by
  obtain ⟨hC, hCP, hPV⟩ := sizes (g := g)
  obtain ⟨hS, hdvd, hlen, hi, hlt, hO⟩ := h
  have hkey : g.press s .right = g.updateList g.view .right { s with offset := 0 } := by
    simp only [press, listKeyLogic]
    rw [if_neg (by omega), if_pos hedge, hedge, Int.tmod_self]
  have hcol : g.view.tmod g.maxCol = 0 := by
    rw [view, Int.mul_tmod_right]
  have hlen' := length_window (g := g) (k := s.start + g.page) (by omega) (by omega)
  have hrows := page_eq_view (g := g)
  obtain ⟨stop, reachEnd, hnext⟩ := updateList_next (g := g) (s := { s with offset := 0 })
    (i := g.view) (k := .right) (.inr rfl) (by omega) hS (by dsimp only; omega)
  rw [hkey, hnext, hcol]
  refine focus_spec (by dsimp only; omega) (Int.dvd_add hdvd (Int.dvd_refl _)) hlen' le_rfl ?_
  simp only [Fits, Plain, position]
  omega

theorem right_spec (h : g.Laid s) (htotal : g.total = g.medias.length) :
    (g.Fits s .right → g.Laid (g.press s .right)) ∧
      (g.Refines s .right (g.press s .right) ↔ g.Fits s .right) := by
  by_cases hlast : g.medias.length ≤ s.start + s.focused + 1
  · -- the last item of the list
    obtain ⟨hS, hdvd, hlen, hi, hlt, hO⟩ := h
    have hpress : g.press s .right = s := by
      simp only [press, listKeyLogic]
      rw [if_pos (by omega)]
    rw [hpress]
    refine ⟨fun _ => ⟨hS, hdvd, hlen, hi, hlt, hO⟩, ?_⟩
    simp only [Refines, Plain, Fits, position, and_true]
    omega
  by_cases hin : s.focused + 1 < g.view
  · -- inside the window
    obtain ⟨hS, hdvd, hlen, hi, hlt, hO⟩ := h
    have hpress : g.press s .right =
        ({ s with offset := s.focused + 1 } : Window α).focus (s.focused + 1) := by
      simp only [press, listKeyLogic]
      rw [if_neg (by omega), if_neg (by omega), tmod_view (by omega) (by omega)]
    rw [hpress]
    refine focus_spec hS hdvd hlen (by dsimp only; omega) ?_
    simp only [Fits, Plain, position]
    omega
  · have hlen := h.length
    have hlt := h.focused_lt
    exact right_next_spec h htotal (not_le.mp hlast) (by omega)

/-- UP in the first window. -/
theorem up_start_spec (h : g.Laid s) (h0 : s.start = 0) :
    (g.Fits s .up → g.Laid (g.press s .up)) ∧
      (g.Refines s .up (g.press s .up) ↔ g.Fits s .up) := by
  obtain ⟨hC, hCP, hPV⟩ := sizes (g := g)
  obtain ⟨hS, hdvd, hlen, hi, hlt, hO⟩ := h
  by_cases hfirst : s.focused < g.maxCol
  · -- the first row of the list
    have hpress : g.press s .up = { s with offset := 0 } := by
      simp only [press, listKeyLogic]
      rw [if_pos (by omega)]
    rw [hpress]
    simp only [Refines, Plain, Fits, position, and_true]
    exact ⟨fun hfits => ⟨hS, hdvd, hlen, hi, hlt, by dsimp only; omega⟩, by omega⟩
  have hcol' := tmod_column (g := g) (i := s.focused - g.maxCol) (by omega)
  have hkey : g.press s .up =
      let s' := { s with offset := (s.focused - g.maxCol).tmod g.maxCol }
      if s.focused - g.maxCol ≥ g.maxCol then s'.focus (s.focused - g.maxCol - g.maxCol)
      else s'.focus ((s.focused - g.maxCol).tmod g.maxCol) := by
    simp only [press, listKeyLogic]
    rw [if_neg (by omega), if_pos h0, if_pos h0]
  by_cases hsecond : s.focused < 2 * g.maxCol
  · -- its second row
    have hrow : (s.focused - g.maxCol).tmod g.maxCol = s.focused - g.maxCol :=
      Int.tmod_eq_of_lt (by omega) (by omega)
    dsimp only at hkey
    rw [hkey, if_neg (by omega), hrow]
    refine focus_spec hS hdvd hlen (by dsimp only; omega) ?_
    simp only [Fits, Plain, position]
    omega
  · -- below it, `maxCol` is taken off twice
    dsimp only at hkey
    rw [hkey, if_pos (by omega), Window.focus_of_lt (by omega) (by dsimp only; omega)]
    simp only [Refines, Plain, Fits, position]
    exact ⟨fun hfits => by omega, by omega⟩

/-- UP inside a later window. -/
theorem up_inside_spec (h : g.Laid s) (h0 : s.start ≠ 0) (hrow : g.maxCol ≤ s.focused) :
    (g.Fits s .up → g.Laid (g.press s .up)) ∧
      (g.Refines s .up (g.press s .up) ↔ g.Fits s .up) := by
  obtain ⟨hC, hCP, hPV⟩ := sizes (g := g)
  have hback := page_le_start h
  obtain ⟨hS, hdvd, hlen, hi, hlt, hO⟩ := h
  have hpress : g.press s .up =
      { s with offset := s.focused.tmod g.maxCol, focused := s.focused - g.maxCol } := by
    simp only [press, listKeyLogic]
    rw [if_neg (by omega), if_neg h0, if_pos (by omega),
      Window.focus_of_lt (by omega) (by dsimp only; omega)]
  have hsecond : s.focused < 2 * g.maxCol → s.focused.tmod g.maxCol = s.focused - g.maxCol :=
    fun h => by
      have := tmod_row (g := g) (i := s.focused) (r := 1) (by omega) (by omega) (by omega)
      omega
  have hcol := tmod_column (g := g) hi
  rw [hpress]
  simp only [Refines, Plain, Fits, position]
  refine ⟨fun hfits => ⟨hS, hdvd, hlen, by dsimp only; omega, by dsimp only; omega, ?_⟩, ?_⟩
  · exact hsecond hfits.1
  · constructor
    · omega
    · intro hfits
      have := hsecond hfits.1
      omega

/-- UP from the first row of a later window : the second row of the window before. -/
theorem up_back_spec (h : g.Laid s) (h0 : s.start ≠ 0) (hrow : s.focused < g.maxCol) :
    (g.Fits s .up → g.Laid (g.press s .up)) ∧
      (g.Refines s .up (g.press s .up) ↔ g.Fits s .up) := by
  obtain ⟨hC, hCP, hPV⟩ := sizes (g := g)
  have hback := page_le_start h h0
  obtain ⟨hS, hdvd, hlen, hi, hlt, hO⟩ := h
  have hcol : s.focused.tmod g.maxCol = s.focused := Int.tmod_eq_of_lt hi hrow
  have hkey : g.press s .up = g.updateList s.focused .up { s with offset := s.focused } := by
    simp only [press, listKeyLogic]
    rw [if_neg (by omega), if_neg h0, if_neg (by omega), if_neg h0, hcol]
  have hlen' := length_window (g := g) (k := s.start - g.page) (by omega) (by omega)
  have htwo := page_eq_two (g := g)
  have hview := two_le_view (g := g)
  rw [hkey, updateList_back (.inl rfl) (by omega) (by dsimp only; omega) (by dsimp only; omega), hcol]
  refine focus_spec (by dsimp only; omega) (Int.dvd_sub hdvd (Int.dvd_refl _)) hlen'
    (by dsimp only; omega) ?_
  simp only [Fits, Plain, position]
  omega

theorem up_spec (h : g.Laid s) :
    (g.Fits s .up → g.Laid (g.press s .up)) ∧
      (g.Refines s .up (g.press s .up) ↔ g.Fits s .up) := by
  by_cases h0 : s.start = 0
  · exact up_start_spec h h0
  by_cases hrow : g.maxCol ≤ s.focused
  · exact up_inside_spec h h0 hrow
  · exact up_back_spec h h0 (not_le.mp hrow)

theorem press_down (h : g.Laid s) : g.press s .down =
    g.updateList (s.focused + g.maxCol) .down
      { s with offset := (s.focused + g.maxCol).tmod g.view } := by
  obtain ⟨-, -, hlen, hi, hlt, hO⟩ := h
  simp only [press, listKeyLogic]
  rw [if_neg (by omega)]

/-- DOWN inside the window. -/
theorem down_inside_spec (h : g.Laid s) (hpage : s.focused + g.maxCol < g.page) :
    (g.Fits s .down → g.Laid (g.press s .down)) ∧
      (g.Refines s .down (g.press s .down) ↔ g.Fits s .down) := by
  have hC := g.maxCol_pos
  have hPV := page_le_view (g := g)
  have hone := view_eq_one (g := g)
  have hkey := press_down h
  obtain ⟨hS, hdvd, hlen, hi, hlt, hO⟩ := h
  have hin : ¬(s.focused + g.maxCol) / g.maxCol + 1 > g.maxRow := fun h => by
    have := row_gt_iff.mp h
    omega
  have hsame : g.updateList (s.focused + g.maxCol) .down
      { s with offset := (s.focused + g.maxCol).tmod g.view } =
        ({ s with offset := s.focused + g.maxCol } : Window α).focus (s.focused + g.maxCol) := by
    simp only [updateList]
    rw [if_neg hin, tmod_view (by omega) (by omega)]
  rw [hkey, hsame]
  refine focus_spec hS hdvd hlen (by dsimp only; omega) ?_
  simp only [Fits, Plain, position]
  omega

/-- DOWN to the next window : its first row, in the column of the focus. -/
theorem down_page_spec (h : g.Laid s) (hpage : g.page ≤ s.focused + g.maxCol)
    (hmore : s.start + g.page < g.medias.length) :
    (g.Fits s .down → g.Laid (g.press s .down)) ∧
      (g.Refines s .down (g.press s .down) ↔ g.Fits s .down) := by
  obtain ⟨hC, hCP, hPV⟩ := sizes (g := g)
  have hR := g.maxRow_pos
  have hone := view_eq_one (g := g)
  have hkey := press_down h
  obtain ⟨hS, hdvd, hlen, hi, hlt, hO⟩ := h
  have hlen' := length_window (g := g) (k := s.start + g.page) (by omega) (by omega)
  have hcol := tmod_column (g := g) (i := s.focused + g.maxCol) (by omega)
  have hbefore : s.focused < g.page →
      (s.focused + g.maxCol).tmod g.maxCol = s.focused + g.maxCol - g.page := fun h =>
    tmod_row (r := g.maxRow) (by omega) (by rw [← page]; omega) (by rw [← page]; omega)
  have hafter : g.page ≤ s.focused → s.focused < g.page + g.maxCol →
      (s.focused + g.maxCol).tmod g.maxCol = s.focused - g.page := fun h h' => by
    have hrow : g.maxCol * (g.maxRow + 1) = g.page + g.maxCol := mul_add_one _ _
    rw [tmod_row (r := g.maxRow + 1) (by omega) (by omega) (by omega)]
    omega
  obtain ⟨stop, reachEnd, hnext⟩ := updateList_next (g := g)
    (s := { s with offset := (s.focused + g.maxCol).tmod g.view }) (i := s.focused + g.maxCol)
    (.inl rfl) hpage hS hmore
  rw [hkey, hnext]
  refine focus_spec (by dsimp only; omega) (Int.dvd_add hdvd (Int.dvd_refl _)) hlen' hcol.1 ?_
  simp only [Fits, Plain, position]
  omega

/-- DOWN where the window is the last one. -/
theorem down_end_spec (h : g.Laid s) (hpage : g.page ≤ s.focused + g.maxCol)
    (hend : g.medias.length ≤ s.start + g.page) :
    (g.Fits s .down → g.Laid (g.press s .down)) ∧
      (g.Refines s .down (g.press s .down) ↔ g.Fits s .down) := by
  obtain ⟨hC, hCP, hPV⟩ := sizes (g := g)
  have hone := view_eq_one (g := g)
  have hkey := press_down h
  obtain ⟨hS, hdvd, hlen, hi, hlt, hO⟩ := h
  have hin := tmod_view (g := g) (i := s.focused + g.maxCol) (by omega)
  have hout := tmod_view_next (g := g) (i := s.focused + g.maxCol)
  rw [hkey, updateList_end (s := { s with offset := (s.focused + g.maxCol).tmod g.view })
    hpage hS hend]
  simp only [Refines, Plain, Fits, position, true_or, and_true]
  refine ⟨fun hfits => ⟨hS, hdvd, hlen, hi, hlt, ?_⟩, ?_⟩
  · have := hout (by omega) (by omega)
    dsimp only
    omega
  · constructor
    · intro hrefines
      by_cases hwrap : s.focused + g.maxCol < g.view
      · have := hin hwrap
        omega
      · have := hout (by omega) (by omega)
        omega
    · intro hfits
      have := hout (by omega) (by omega)
      omega

theorem down_spec (h : g.Laid s) :
    (g.Fits s .down → g.Laid (g.press s .down)) ∧
      (g.Refines s .down (g.press s .down) ↔ g.Fits s .down) := by
  by_cases hpage : s.focused + g.maxCol < g.page
  · exact down_inside_spec h hpage
  by_cases hmore : s.start + g.page < g.medias.length
  · exact down_page_spec h (not_lt.mp hpage) hmore
  · exact down_end_spec h (not_lt.mp hpage) (not_lt.mp hmore)

/-! ## Runs -/

theorem start_laid (hne : g.medias ≠ []) : g.Laid g.start := by
  obtain ⟨hC, hCP, hPV⟩ := sizes (g := g)
  have hn : 0 < g.medias.length := List.length_pos_of_ne_nil hne
  have hlen : (g.start.list.length : ℤ) = min g.view g.medias.length := by
    rw [start, length_slice le_rfl (by omega)]
    omega
  refine ⟨le_rfl, dvd_zero _, ?_, le_rfl, ?_, rfl⟩
  · rw [hlen, start, sub_zero]
  · rw [hlen]
    change 0 < min g.view (g.medias.length : ℤ)
    omega

theorem press_spec (h : g.Laid s) (htotal : g.total = g.medias.length) (key : Key) :
    (g.Fits s key → g.Laid (g.press s key)) ∧ (g.Refines s key (g.press s key) ↔ g.Fits s key) := by
  cases key with
  | left => exact left_spec h
  | right => exact right_spec h htotal
  | up => exact up_spec h
  | down => exact down_spec h

theorem Laid.step {key : Key} (h : g.Laid s) (htotal : g.total = g.medias.length)
    (hfits : g.Fits s key) (hstep : g.step s key = some s') : g.Laid s' := by
  obtain rfl : g.press s key = s' := Option.some.inj hstep
  exact (press_spec h htotal key).1 hfits

theorem Laid.refines_iff {key : Key} (h : g.Laid s) (htotal : g.total = g.medias.length)
    (hstep : g.step s key = some s') : g.Refines s key s' ↔ g.Fits s key := by
  obtain rfl : g.press s key = s' := Option.some.inj hstep
  exact (press_spec h htotal key).2

/-- From the first item of a non-empty list, every key moves the focus as in the plain grid
and leaves `start + offset` at its position, if and only if every key fits. -/
theorem refines_iff_fits (hne : g.medias ≠ []) (htotal : g.total = g.medias.length)
    (keys : List Key) :
    Steps g.step g.Refines g.start keys ↔ Each g.step g.Fits g.start keys :=
  steps_iff_each (fun _ _ _ h hfits hstep => h.step htotal hfits hstep)
    (fun _ _ _ h hstep => h.refines_iff htotal hstep) (start_laid hne)

/-- A run of fitting keys is a run of the plain grid. -/
theorem moves_of_fits (hne : g.medias ≠ []) (htotal : g.total = g.medias.length) {keys : List Key}
    (h : Each g.step g.Fits g.start keys) (ht : run g.step g.start keys = some s) :
    Moves g.Plain (position g.start) keys (position s) := by
  have hsteps : Steps g.step g.Refines g.start keys :=
    Steps.mono_of_invariant (R := fun s key _ => g.Fits s key)
      (fun _ _ _ hl hstep hfits => hl.step htotal hfits hstep)
      (fun _ _ _ hl hstep hfits => (hl.refines_iff htotal hstep).mpr hfits) (start_laid hne) h
  exact (hsteps.mono fun _ _ _ hrefines => hrefines.1).simulates ht

end Grid

/-- Three rows of one item, all rendered. -/
def column : Grid ℕ :=
  ⟨[0, 1, 2], 3, 1, 2, 3, by decide, by decide, by decide⟩

/-- RIGHT reaches the third row, and UP from there goes to the first. -/
theorem row_skipped :
    ∃ s, run column.step column.start [.right, .right] = some s ∧ Grid.position s = 2 ∧
      Grid.position (column.press s .up) = 0 ∧
      ¬Steps column.step column.Refines column.start [.right, .right, .up] := by
  refine ⟨⟨0, 2, 3, false, [0, 1, 2], 2⟩, by decide, by decide, by decide, fun h => ?_⟩
  obtain ⟨-, h⟩ := h _ rfl
  obtain ⟨-, h⟩ := h _ rfl
  exact absurd (h _ rfl).1 (by decide)

/-- DOWN and UP between the first two rows. -/
theorem rows_kept :
    Steps column.step column.Refines column.start [.down, .up] :=
  (Grid.refines_iff_fits (by decide) rfl _).mpr
    (.cons rfl (by decide) (.cons rfl (by decide) trivial))

end MySocket
