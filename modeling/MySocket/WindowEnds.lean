import MySocket.Grid

/-!
# The ends of the rendered window

`resMap` keeps three records of what part of the list is rendered : the items, `start` and
`end`, and `reachEnd`, which `makeMiddle` reads as "the last media are shown". Here
`listKeyLogic` is called with any item and any length, not only with those of the page.

Moving down keeps the three in agreement. Moving up sets `end` without looking at the
length of the list and leaves `reachEnd` alone; `Grid.Kept` says where that is harmless.
-/

namespace MySocket

variable {α : Type*}

/-- A call of `listKeyLogic` : the key, the item it is pressed on and the length of the
rendered list. -/
structure KeyCall where
  key : Key
  idx : ℤ
  total : ℤ

@[simp] theorem Window.focus_start (s : Window α) (i : ℤ) : (s.focus i).start = s.start :=
  rfl

@[simp] theorem Window.focus_stop (s : Window α) (i : ℤ) : (s.focus i).stop = s.stop :=
  rfl

@[simp] theorem Window.focus_reachEnd (s : Window α) (i : ℤ) :
    (s.focus i).reachEnd = s.reachEnd :=
  rfl

namespace Grid

variable (g : Grid α)

def call (s : Window α) (c : KeyCall) : Option (Window α) :=
  some (g.listKeyLogic c.key c.idx c.total s)

/-- The items rendered are those from `start` to `end`, `end` is as far as the window and
the list go, and `reachEnd` is only set when the last media are among them. -/
structure Bookkept (s : Window α) : Prop where
  list : s.list = slice g.medias s.start s.stop
  stop : s.stop = min (s.start + g.view) g.medias.length
  reachEnd : s.reachEnd = true → s.stop = g.medias.length

/-- The call moves the window up : UP in its first row, or LEFT on its first item where
windows move by all their rows. -/
def MovesBack (s : Window α) (c : KeyCall) : Prop :=
  0 < s.start ∧
    (c.key = .up ∧ c.idx < g.maxCol ∨ c.key = .left ∧ c.idx < 1 ∧ g.maxRow = g.totalRow)

/-- A call that moves the window up needs a full window there, and one that ends the list if
`reachEnd` has been set before. -/
def Kept (s : Window α) (c : KeyCall) : Prop :=
  g.MovesBack s c → s.start - g.page + g.view ≤ g.medias.length ∧
    (s.reachEnd = true → s.start - g.page + g.view = g.medias.length)

/-- The bookkeeping of a window that starts a whole number of pages down the list. -/
structure Tracked (s : Window α) : Prop extends g.Bookkept s where
  start_nonneg : 0 ≤ s.start
  page_dvd : g.page ∣ s.start

variable {g} {s s' : Window α}

theorem movesBack_up {idx total : ℤ} :
    g.MovesBack s ⟨.up, idx, total⟩ ↔ 0 < s.start ∧ idx < g.maxCol := by
  simp [MovesBack]

theorem movesBack_left {idx total : ℤ} :
    g.MovesBack s ⟨.left, idx, total⟩ ↔ 0 < s.start ∧ idx < 1 ∧ g.maxRow = g.totalRow := by
  simp [MovesBack]

/-- The focus and its offset are not part of the bookkeeping. -/
theorem Tracked.congr (h : g.Tracked s) (hstart : s'.start = s.start) (hstop : s'.stop = s.stop)
    (hreach : s'.reachEnd = s.reachEnd) (hlist : s'.list = s.list) : g.Tracked s' where
  list := by rw [hlist, hstart, hstop, h.list]
  stop := by rw [hstop, hstart, h.stop]
  reachEnd := by rw [hreach, hstop]; exact h.reachEnd
  start_nonneg := hstart ▸ h.start_nonneg
  page_dvd := hstart ▸ h.page_dvd

theorem Tracked.focus (h : g.Tracked s) (i : ℤ) : g.Tracked (s.focus i) :=
  h.congr rfl rfl rfl rfl

theorem Tracked.setOffset (h : g.Tracked s) (o : ℤ) : g.Tracked { s with offset := o } :=
  h.congr rfl rfl rfl rfl

theorem Tracked.page_le (h : g.Tracked s) (hs : 0 < s.start) : g.page ≤ s.start :=
  Int.le_of_dvd hs h.page_dvd

/-- Moving down. Past the last page only `reachEnd` is set, and the window does reach the
end there. -/
theorem Tracked.forward {i : ℤ} {k : Key} (h : g.Tracked s) (hk : k = .down ∨ k = .right) :
    g.Tracked (g.updateList i k s) := by
  obtain ⟨hC, hCP, hPV⟩ := sizes (g := g)
  have hstop := h.stop
  have hstart := h.start_nonneg
  have hmove : g.updateList i k s = g.updateList i .down s := by
    rcases hk with rfl | rfl <;> rfl
  rw [hmove]
  by_cases hi : i / g.maxCol + 1 > g.maxRow
  · by_cases hres : slice g.medias (s.start + g.page) (s.start + g.page + g.view) = []
    · have hlen : g.medias.length ≤ s.start + g.page := by
        by_contra hmore
        have hlen := length_window (g := g) (k := s.start + g.page) (by omega) (by omega)
        rw [hres, List.length_nil] at hlen
        omega
      simp only [updateList, if_pos hi, hres, ne_eq, not_true_eq_false, if_false]
      exact { h with reachEnd := fun _ => by dsimp only; omega }
    · simp only [updateList, if_pos hi, if_pos hres]
      refine Tracked.focus ⟨⟨?_, ?_, ?_⟩, ?_, Int.dvd_add h.page_dvd (Int.dvd_refl _)⟩ _
      · have hmin : (if (g.medias.length : ℤ) ≥ s.start + g.page + g.view then
            s.start + g.page + g.view else (g.medias.length : ℤ)) =
              min (s.start + g.page + g.view) g.medias.length := by
          split <;> omega
        dsimp only
        rw [hmin, slice_min_length (by omega)]
      · dsimp only
        split <;> omega
      · have := h.reachEnd
        dsimp only
        split
        · intro hreach
          have := this hreach
          omega
        · exact fun _ => rfl
      · dsimp only
        omega
  · simp only [updateList, if_neg hi]
    exact h.focus i

/-- Moving up from a later window keeps the bookkeeping only where the window before is full. -/
theorem Tracked.back {c : KeyCall} {i : ℤ} {k : Key} (h : g.Tracked s)
    (hk : k = .up ∨ k = .left) (hm : g.MovesBack s c) (hi : i < g.page) :
    (g.Bookkept (g.updateList i k s) ↔ g.Kept s c) ∧
      (g.Kept s c → g.Tracked (g.updateList i k s)) := by
  have hpage := h.page_le hm.1
  rw [updateList_back hk hi hm.1 hpage]
  refine ⟨⟨fun hb _ => ?_, fun hkept => ?_⟩, fun hkept => ⟨?_, ?_, ?_⟩⟩
  · have hstop := hb.stop
    have hreach := hb.reachEnd
    dsimp only [Window.focus_stop, Window.focus_start, Window.focus_reachEnd] at hstop hreach
    exact ⟨by omega, hreach⟩
  · obtain ⟨hfull, hreach⟩ := hkept hm
    exact ⟨rfl, by dsimp only [Window.focus_stop, Window.focus_start]; omega, hreach⟩
  · obtain ⟨hfull, hreach⟩ := hkept hm
    exact ⟨rfl, by dsimp only [Window.focus_stop, Window.focus_start]; omega, hreach⟩
  · dsimp only [Window.focus_start]
    omega
  · exact Int.dvd_sub h.page_dvd (Int.dvd_refl _)

/-- A call that does not move the window up. -/
theorem Tracked.still {c : KeyCall} (h : g.Tracked s') (hm : ¬g.MovesBack s c) :
    (g.Bookkept s' ↔ g.Kept s c) ∧ (g.Kept s c → g.Tracked s') :=
  ⟨iff_of_true h.toBookkept fun hback => absurd hback hm, fun _ => h⟩

theorem Tracked.left (h : g.Tracked s) (idx total : ℤ) :
    (g.Bookkept (g.listKeyLogic .left idx total s) ↔ g.Kept s ⟨.left, idx, total⟩) ∧
      (g.Kept s ⟨.left, idx, total⟩ → g.Tracked (g.listKeyLogic .left idx total s)) := by
  have hstart := h.start_nonneg
  have hpv := page_eq_view (g := g)
  by_cases hin : 0 ≤ idx - 1
  · have hkey : g.listKeyLogic .left idx total s =
        ({ s with offset := (idx - 1).tmod g.view } : Window α).focus (idx - 1) := by
      simp only [listKeyLogic]
      rw [if_neg (by omega), if_neg (by omega)]
    rw [hkey]
    exact ((h.setOffset _).focus _).still (by rw [movesBack_left]; omega)
  by_cases h0 : s.start = 0
  · have hkey : g.listKeyLogic .left idx total s = { s with offset := 0 } := by
      simp only [listKeyLogic]
      rw [if_pos (by omega)]
    rw [hkey]
    exact (h.setOffset 0).still (by rw [movesBack_left]; omega)
  have hkey : g.listKeyLogic .left idx total s =
      g.updateList (g.view - 1) .left { s with offset := 0 } := by
    simp only [listKeyLogic]
    rw [if_neg (by omega), if_pos (by omega)]
  rw [hkey]
  by_cases hRT : g.maxRow = g.totalRow
  · have hm : g.MovesBack s ⟨.left, idx, total⟩ := movesBack_left.mpr ⟨by omega, by omega, hRT⟩
    exact (h.setOffset 0).back (.inr rfl) hm (by omega)
  · -- the rows that stay are not left
    have hrow : ¬(g.view - 1) / g.maxCol + 1 ≤ g.maxRow := by
      have := page_le_view (g := g)
      exact not_le.mpr (row_gt_iff.mpr (by omega))
    simp only [updateList, if_neg hrow]
    exact (h.setOffset 0).still (by rw [movesBack_left]; omega)

theorem Tracked.up (h : g.Tracked s) (idx total : ℤ) :
    (g.Bookkept (g.listKeyLogic .up idx total s) ↔ g.Kept s ⟨.up, idx, total⟩) ∧
      (g.Kept s ⟨.up, idx, total⟩ → g.Tracked (g.listKeyLogic .up idx total s)) := by
  have hstart := h.start_nonneg
  have hCP := maxCol_le_page (g := g)
  by_cases h0 : s.start = 0
  · -- the first window only moves the focus
    refine Tracked.still ?_ (by rw [movesBack_up]; omega)
    simp only [listKeyLogic, if_pos h0]
    split
    · exact h.setOffset 0
    · split
      · exact (h.setOffset _).focus _
      · exact (h.setOffset _).focus _
  by_cases hin : g.maxCol ≤ idx
  · have hkey : g.listKeyLogic .up idx total s =
        ({ s with offset := idx.tmod g.maxCol } : Window α).focus (idx - g.maxCol) := by
      simp only [listKeyLogic]
      rw [if_neg (by omega), if_neg h0, if_pos hin]
    rw [hkey]
    exact ((h.setOffset _).focus _).still (by rw [movesBack_up]; omega)
  · have hkey : g.listKeyLogic .up idx total s =
        g.updateList idx .up { s with offset := idx.tmod g.maxCol } := by
      simp only [listKeyLogic]
      rw [if_neg (by omega), if_neg h0, if_neg (by omega), if_neg h0]
    have hm : g.MovesBack s ⟨.up, idx, total⟩ := movesBack_up.mpr ⟨by omega, by omega⟩
    rw [hkey]
    exact (h.setOffset _).back (.inl rfl) hm (by omega)

theorem Tracked.right (h : g.Tracked s) (idx total : ℤ) :
    g.Tracked (g.listKeyLogic .right idx total s) := by
  simp only [listKeyLogic]
  split
  · exact h
  · split
    · exact (h.setOffset _).forward (.inr rfl)
    · exact (h.setOffset _).focus _

theorem Tracked.down (h : g.Tracked s) (idx total : ℤ) :
    g.Tracked (g.listKeyLogic .down idx total s) := by
  simp only [listKeyLogic]
  split
  · exact h.focus _
  · exact (h.setOffset _).forward (.inl rfl)

/-- What one call does to the bookkeeping. -/
theorem Tracked.call {c : KeyCall} (h : g.Tracked s) (hcall : g.call s c = some s') :
    (g.Bookkept s' ↔ g.Kept s c) ∧ (g.Kept s c → g.Tracked s') := by
  obtain rfl : g.listKeyLogic c.key c.idx c.total s = s' := Option.some.inj hcall
  obtain ⟨key, idx, total⟩ := c
  cases key with
  | left => exact h.left idx total
  | right => exact (h.right idx total).still (by simp [MovesBack])
  | up => exact h.up idx total
  | down => exact (h.down idx total).still (by simp [MovesBack])

theorem start_tracked (offset focused : ℤ) :
    g.Tracked { g.start with offset := offset, focused := focused } where
  list := rfl
  stop := by
    dsimp only [start]
    omega
  reachEnd := fun hreach => absurd hreach Bool.false_ne_true
  start_nonneg := le_rfl
  page_dvd := dvd_zero _

/-- After every call of every run the rendered items, `end` and `reachEnd` agree, if and only
if each call that moves the window up finds a full window there, and one that ends the list
once `reachEnd` is set. -/
theorem bookkept_iff_kept (offset focused : ℤ) (calls : List KeyCall) :
    Always g.call g.Bookkept { g.start with offset := offset, focused := focused } calls ↔
      Each g.call g.Kept { g.start with offset := offset, focused := focused } calls :=
  always_iff_each (I := g.Tracked) (fun _ _ _ h hkept hcall => (h.call hcall).2 hkept)
    (fun _ h => h.toBookkept) (fun _ _ _ h hcall hb => (h.call hcall).1.mp hb)
    (start_tracked offset focused)

end Grid

/-- Three items in rows of two, one row rendered. -/
def pairs : Grid ℕ :=
  ⟨[0, 1, 2], 3, 2, 1, 1, column.maxRow_pos, column.maxCol_pos, column.maxCol_pos⟩

/-- DOWN to the last row and UP again : the first row is rendered, and `reachEnd` still
says that it is the last. -/
theorem reachEnd_stale :
    ∃ s, run pairs.call pairs.start [⟨.down, 0, 2⟩, ⟨.up, 0, 1⟩] = some s ∧
      s.list = [0, 1] ∧ s.stop = 2 ∧ s.reachEnd = true ∧
      ¬Always pairs.call pairs.Bookkept pairs.start [⟨.down, 0, 2⟩, ⟨.up, 0, 1⟩] := by
  refine ⟨⟨0, 2, 2, true, [0, 1], 1⟩, by decide, rfl, rfl, rfl, fun h => ?_⟩
  have hlast := (h.2 _ rfl).2 _ rfl
  exact absurd (hlast.reachEnd (by decide)) (by decide)

end MySocket
