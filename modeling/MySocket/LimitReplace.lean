import MySocket.PageArithmetic

/-!
# Finding the LIMIT and replacing it

`DBEngine.queryPage` looks for a LIMIT with one pattern, which may match anywhere in the
text, and replaces it with another, which has to reach the end of the text. If the first
finds a LIMIT that the second does not, the page is asked for with the text as it is.

* `consistent_iff` : the statement ends with the clause that was computed, and that clause
  stands for the LIMIT that was found, exactly if there is no LIMIT, or its numbers are too
  large, or it is at the end of the text, with no line terminator between an earlier one and it
  (`Final`).
-/

namespace MySocket

/-! ## The texts -/

/-- The word with its blanks before a text. -/
def Keyword.followedBy (k : Keyword) (v : List Char) : List Char :=
  k.before ++ (k.word ++ (k.after ++ v))

/-- A text starts with a LIMIT and a digit. -/
def LimitHead (v : List Char) : Prop :=
  ∃ (k : Keyword) (d : Char) (y : List Char), v = k.followedBy (d :: y) ∧ isDigit d = true

/-- `\d+\s*,?\s*\d*` -/
def LimitNumbers (z : List Char) : Prop :=
  ∃ a w c w' b, z = a ++ (w ++ (c ++ (w' ++ b))) ∧ a ≠ [] ∧ (∀ d ∈ a, isDigit d = true) ∧ Blanks w ∧
    (c = [','] ∨ c = []) ∧ Blanks w' ∧ ∀ d ∈ b, isDigit d = true

/-- There is a LIMIT somewhere in the text. -/
def HasLimit (sql : List Char) : Prop :=
  ∃ x v, sql = x ++ v ∧ LimitHead v

/-- The text ends with a LIMIT, and from every earlier one on there is no line terminator up to
it. -/
def Final (sql : List Char) : Prop :=
  ∃ (u : List Char) (k : Keyword) (z : List Char), sql = u ++ k.followedBy z ∧ LimitNumbers z ∧
    ∀ x v, u = x ++ v → LimitHead (v ++ k.followedBy z) → ∀ c ∈ v, isTerminator c = false

namespace Re

/-- `\s+(limit\s+`, then `r` and `)`, which is group 0. -/
def limitMarked (r : Re) : Re :=
  seq (plus isBlank) <| group 0 <| seq (lit (anyCase "limit")) <| seq (plus isBlank) r

/-- The pattern that finds, with group 0 from the word LIMIT on. -/
def limitFoundMarked : Re :=
  seq (star isDot) <| limitMarked <| numbersThen 1 2 <| star isDot

/-- The pattern that is replaced, with group 0 from the word LIMIT on. -/
def limitTailMarked : Re :=
  seq (group 1 (star isDot)) <| limitMarked <| numbersThen 2 3 eos

theorem ungroup_limitFoundMarked : limitFoundMarked.ungroup 0 = limitFound :=
  rfl

theorem ungroup_limitTailMarked : limitTailMarked.ungroup 0 = limitTail :=
  rfl

/-- The text from the word LIMIT of the match on. -/
def fromLimit (r : Re) (cs : List Char) : Option (List Char) :=
  (r.find [] cs).map fun s => s.2.get 0 ++ s.2.rest

end Re

namespace DBEngine

/-- A database that answers a statement with its text. -/
def texts : Database (List Char) where
  rows sql := [sql]
  found _ := 0

/-- The clause that `queryPage` computes. -/
def window (limits : Option (ℤ × ℤ)) (pageSize pageNo : ℤ) : List Char :=
  let pageNo := if pageNo > 0 then pageNo else 1
  let (oBegin, oEnd) := limits.getD (0, maxInt)
  limitText (pageBegin oBegin oEnd pageSize pageNo) (pageOffset oBegin oEnd pageSize pageNo)

/-- What `queryPage` executes ends with the clause it computes, and if it finds a LIMIT, that is
the one it replaces. -/
structure Replaces (sql : List Char) (lim : Option (ℤ × ℤ)) : Prop where
  executed : ∀ pageSize pageNo : ℤ, 1 ≤ pageSize → pageSize ≤ maxInt → -2 ^ 31 ≤ pageNo →
    pageNo ≤ maxInt → ∀ page, queryPage texts sql pageSize pageNo = .ok (some page) →
      ∀ text ∈ page.record, window lim pageSize pageNo <:+ text
  same : ∀ v, Re.fromLimit Re.limitFoundMarked sql = some v →
    Re.fromLimit Re.limitTailMarked (Re.selectHead.replaceFirst (fun _ => countedHead) sql) = some v

/-- Finding and replacing agree, if the numbers found are `int`s. -/
def Consistent (sql : List Char) : Prop :=
  ∀ lim, limits sql = .ok lim → Replaces sql lim

/-- A number of the LIMIT that is found is no `int`. -/
def TooLarge (sql : List Char) : Prop :=
  ∃ skipped mc, Re.limitFound.find [] sql = some (skipped, mc) ∧
    (maxInt < decimalValue (mc.get 1) ∨ maxInt < decimalValue (mc.get 2))

end DBEngine

/-! ## The words -/

/-- A text of blanks, digits, commas and line terminators. -/
def Inert (y : List Char) : Prop :=
  ∀ c ∈ y, isBlank c = true ∨ isDigit c = true ∨ c = ',' ∨ isTerminator c = true

theorem Inert.append {y y' : List Char} (h : Inert y) (h' : Inert y') : Inert (y ++ y') :=
  List.forall_mem_append.mpr ⟨h, h'⟩

theorem Blanks.inert {w : List Char} (h : Blanks w) : Inert w :=
  fun c hc => .inl (h c hc)

theorem inert_of_isDigit {a : List Char} (h : ∀ c ∈ a, isDigit c = true) : Inert a :=
  fun c hc => .inr (.inl (h c hc))

theorem LimitNumbers.inert {z : List Char} (h : LimitNumbers z) : Inert z := by
  obtain ⟨a, w, c, w', b, rfl, -, ha, hw, hc, hw', hb⟩ := h
  have hcomma : Inert c := by
    rcases hc with rfl | rfl
    · exact List.forall_mem_singleton.mpr (.inr (.inr (.inl rfl)))
    · exact fun c hc => absurd hc List.not_mem_nil
  exact (inert_of_isDigit ha).append (hw.inert.append (hcomma.append
    (hw'.inert.append (inert_of_isDigit hb))))

theorem Inert.limit_notMem {y l : List Char} (hy : Inert y) (h : Spells (anyCase "limit") l)
    {c : Char} (hc : c ∈ l) : c ∉ y := by
  intro hcy
  have hletter := all_of_spells
    (p := fun d => !isBlank d && !isDigit d && d ≠ ',' && !isTerminator d) (by decide) h c hc
  simp only [ne_eq, Bool.and_eq_true, Bool.not_eq_true', decide_eq_true_eq] at hletter
  obtain ⟨⟨⟨hblank, hdigit⟩, hcomma⟩, hterminator⟩ := hletter
  rcases hy c hcy with h | h | h | h
  · simp [hblank] at h
  · simp [hdigit] at h
  · exact hcomma h
  · simp [hterminator] at h

/-- Where only inert text follows the word, it does not stand again further on. -/
theorem length_le_of_word {x l y x' l' y' : List Char} (hl : Spells (anyCase "limit") l)
    (hl' : Spells (anyCase "limit") l') (hy : Inert y) (h : x ++ (l ++ y) = x' ++ (l' ++ y')) :
    x'.length ≤ x.length := by
  have hlength : l.length = l'.length := hl.length_eq.symm.trans hl'.length_eq
  rcases List.append_eq_append_iff.mp h with ⟨e, rfl, hword⟩ | ⟨e, rfl, -⟩
  · by_contra hlt
    rw [List.length_append] at hlt
    rw [← List.append_assoc] at hword
    rcases List.append_eq_append_iff.mp hword with ⟨f, hf, rfl⟩ | ⟨f, hf, -⟩
    · -- the last letter of the word found is in `y`
      obtain ⟨l', d, rfl⟩ := l'.eq_nil_or_concat'.resolve_left (limit_ne_nil hl')
      rcases f.eq_nil_or_concat' with rfl | ⟨f, c, rfl⟩
      · have hf := congrArg List.length hf
        simp only [List.length_append, List.length_nil] at hf hlength hlt
        omega
      · have hlast : (e ++ l') ++ [d] = (l ++ f) ++ [c] := by simpa using hf
        obtain rfl : d = c := by simpa using (List.append_inj' hlast rfl).2
        exact hy.limit_notMem hl' (List.mem_append_right l' List.mem_cons_self)
          (List.mem_append_left _ (List.mem_append_right f List.mem_cons_self))
    · have hf := congrArg List.length hf
      simp only [List.length_append] at hf hlt
      omega
  · rw [List.length_append]
    exact Nat.le_add_right _ _

/-- The word before inert text is unique. -/
theorem word_unique {x l y x' l' y' : List Char} (hl : Spells (anyCase "limit") l)
    (hl' : Spells (anyCase "limit") l') (hy : Inert y) (hy' : Inert y')
    (h : x ++ (l ++ y) = x' ++ (l' ++ y')) : x = x' ∧ l = l' ∧ y = y' := by
  obtain ⟨rfl, hword⟩ := List.append_inj h
    (Nat.le_antisymm (length_le_of_word hl' hl hy' h.symm) (length_le_of_word hl hl' hy h))
  obtain ⟨rfl, rfl⟩ := List.append_inj hword (hl.length_eq.symm.trans hl'.length_eq)
  exact ⟨rfl, rfl, rfl⟩

theorem limit_head {l : List Char} (h : Spells (anyCase "limit") l) :
    ∃ c s, l = c :: s ∧ (c = 'l' ∨ c = 'L') := by
  have hword : "limit".toList = 'l' :: ['i', 'm', 'i', 't'] := by decide
  have hupper : 'l'.toUpper = 'L' := by decide
  exact hupper ▸ exists_cons_of_spells hword h

theorem digit_head {d : Char} (hd : isDigit d = true) (y : List Char) :
    ∀ c ∈ (d :: y).head?, isBlank c = false := fun c hc => by
  obtain rfl : d = c := by simpa using hc
  exact isBlank_of_isDigit hd

/-- After the word, the blanks end with the first digit. -/
theorem blanks_digit_unique {w w' y y' : List Char} {d d' : Char} (hw : Blanks w) (hw' : Blanks w')
    (hd : isDigit d = true) (hd' : isDigit d' = true) (h : w ++ d :: y = w' ++ d' :: y') :
    w = w' ∧ d :: y = d' :: y' :=
  blanks_unique hw hw' (digit_head hd y) (digit_head hd' y') h

/-! ## The patterns -/

namespace Re

section

variable {r : Re} {before cs v : List Char} {h : Hit} {i j : ℕ}

theorem exists_of_head_run_group {n : ℕ} (hr : ((group n r).run before cs).head? = some h) :
    ∃ h', (r.run before cs).head? = some h' ∧
      h = { h' with groups := (n, h'.taken) :: h'.groups } := by
  rw [run, List.head?_map] at hr
  obtain ⟨h', hr', rfl⟩ := Option.map_eq_some_iff.mp hr
  exact ⟨h', hr', rfl⟩

/-- A way through `\s+(limit\s+` and the rest. -/
theorem exists_of_head_run_limitMarked (hr : ((limitMarked r).run before cs).head? = some h) :
    ∃ (k : Keyword) (v : List Char) (h' : Hit), cs = k.followedBy v ∧
      (∃ before', (r.run before' v).head? = some h') ∧
      h = ⟨k.followedBy h'.taken, h'.rest, (0, k.word ++ (k.after ++ h'.taken)) :: h'.groups⟩ := by
  obtain ⟨h₁, hr₁, h₁', hrest₁, rfl⟩ := exists_of_head_run_seq hr
  obtain ⟨g, cs, rfl, hg, hblank, rfl⟩ := mem_run_plus.mp hr₁
  obtain ⟨h₀, hgroup, rfl⟩ := exists_of_head_run_group hrest₁
  obtain ⟨h₂, hr₂, h₂', hrest₂, rfl⟩ := exists_of_head_run_seq hgroup
  obtain ⟨l, cs, rfl, hl, rfl⟩ := mem_run_lit.mp hr₂
  obtain ⟨h₃, hr₃, h', hrest₃, rfl⟩ := exists_of_head_run_seq hrest₂
  obtain ⟨w, v, rfl, hw, hwb, rfl⟩ := mem_run_plus.mp hr₃
  exact ⟨⟨g, l, w, hblank, hg, hl, hwb, hw⟩, v, h', rfl, ⟨_, hrest₃⟩, rfl⟩

theorem run_group_ne_nil {n : ℕ} (hr : r.run before cs ≠ []) : (group n r).run before cs ≠ [] := by
  rw [run]
  exact fun hnil => hr (List.map_eq_nil_iff.mp hnil)

theorem run_limitMarked_ne_nil (k : Keyword) (hr : ∀ before, r.run before v ≠ []) (before : List Char) :
    (limitMarked r).run before (k.followedBy v) ≠ [] :=
  run_seq_ne_nil (mem_run_plus.mpr ⟨k.before, _, rfl, k.before_ne, k.before_blank, rfl⟩)
    (run_group_ne_nil (run_seq_ne_nil (mem_run_lit.mpr ⟨k.word, _, rfl, k.word_spells, rfl⟩)
      (run_seq_ne_nil (mem_run_plus.mpr ⟨k.after, _, rfl, k.after_ne, k.after_blank, rfl⟩) (hr _))))

/-- The ways through the numbers. -/
theorem exists_of_mem_run_numbersThen (hr : h ∈ (numbersThen i j r).run before v) :
    ∃ z rest h' before', v = z ++ rest ∧ LimitNumbers z ∧ h' ∈ r.run before' rest ∧
      h.taken = z ++ h'.taken ∧ h.rest = h'.rest := by
  obtain ⟨_, hr₁, h₁, hrest₁, rfl⟩ := mem_run_seq.mp hr
  obtain ⟨_, hplus, rfl⟩ := mem_run_group.mp hr₁
  obtain ⟨a, v, rfl, hane, ha, rfl⟩ := mem_run_plus.mp hplus
  obtain ⟨_, hr₂, h₂, hrest₂, rfl⟩ := mem_run_seq.mp hrest₁
  obtain ⟨w, v, rfl, hw, rfl⟩ := mem_run_star.mp hr₂
  obtain ⟨hc, hr₃, h₃, hrest₃, rfl⟩ := mem_run_seq.mp hrest₂
  obtain ⟨c, v', rfl, hcomma, rfl⟩ : ∃ c v', v = c ++ v' ∧ (c = [','] ∨ c = []) ∧ hc = ⟨c, v', []⟩ := by
    rcases mem_run_opt.mp hr₃ with hr₃ | rfl
    · obtain ⟨t, u, rfl, ht, rfl⟩ := mem_run_lit.mp hr₃
      cases ht with
      | cons hd ht =>
        cases ht
        exact ⟨_, u, rfl, .inl (by rw [of_decide_eq_true hd]), rfl⟩
    · exact ⟨[], v, rfl, .inr rfl, rfl⟩
  obtain ⟨_, hr₄, h₄, hrest₄, rfl⟩ := mem_run_seq.mp hrest₃
  obtain ⟨w', v, rfl, hw', rfl⟩ := mem_run_star.mp hr₄
  obtain ⟨_, hr₅, h₅, hrest₅, rfl⟩ := mem_run_seq.mp hrest₄
  obtain ⟨_, hstar, rfl⟩ := mem_run_group.mp hr₅
  obtain ⟨b, rest, rfl, hb, rfl⟩ := mem_run_star.mp hstar
  exact ⟨a ++ (w ++ (c ++ (w' ++ b))), rest, h₅, _, by simp,
    ⟨a, w, c, w', b, rfl, hane, ha, hw, hcomma, hw', hb⟩, hrest₅, by simp [Hit.append], rfl⟩

/-- At a digit there is a way. -/
theorem run_numbersThen_ne_nil {d : Char} (hd : isDigit d = true) {y : List Char}
    (hr : ∀ before, r.run before y ≠ []) (before : List Char) :
    (numbersThen i j r).run before (d :: y) ≠ [] := by
  have hdigits : (⟨[d], y, [(i, [d])]⟩ : Hit) ∈ (group i (plus isDigit)).run before (d :: y) :=
    mem_run_group.mpr ⟨⟨[d], y, []⟩, mem_run_plus.mpr ⟨[d], y, rfl, by simp, by simpa using hd, rfl⟩, rfl⟩
  have hnone : ∀ (p : Char → Bool) (before : List Char), (⟨[], y, []⟩ : Hit) ∈ (star p).run before y :=
    fun p before => mem_run_star.mpr ⟨[], y, rfl, by simp, rfl⟩
  refine run_seq_ne_nil hdigits (run_seq_ne_nil (hnone isBlank _) ?_)
  refine run_seq_ne_nil (mem_run_opt.mpr (.inr rfl)) (run_seq_ne_nil (hnone isBlank _) ?_)
  exact run_seq_ne_nil (mem_run_group.mpr ⟨_, hnone isDigit _, rfl⟩) (hr _)

/-- Numbers up to the end of the text are taken as a whole. -/
theorem head_run_numbersThen_eos {z : List Char} (hz : LimitNumbers z) (i j : ℕ) (before : List Char) :
    ∃ groups, ((numbersThen i j eos).run before z).head? = some ⟨z, [], groups⟩ := by
  obtain ⟨a, w, c, w', b, rfl, hane, ha, hw, hc, hw', hb⟩ := hz
  have heos : ∀ before, (eos.run before []).head? = some ⟨[], [], []⟩ := fun _ => rfl
  rcases hc with rfl | rfl
  · exact ⟨_, head_run_numbersThen_append i j hane ha hw (.inl rfl) hw' hb (hw.comma_head _)
      (by simp [isBlank]) (heos _)⟩
  · -- without a comma the blanks are one run, and so are the digits if there are none between
    have hblanks : Blanks (w ++ w') := List.forall_mem_append.mpr ⟨hw, hw'⟩
    have hblanks_end : ∀ d ∈ (w ++ w').head?, isDigit d = false := fun d hd =>
      isDigit_of_isBlank (hblanks d (List.mem_of_head? hd))
    by_cases hne : w ++ w' = []
    · obtain ⟨rfl, rfl⟩ := List.append_eq_nil_iff.mp hne
      have hrun : ((numbersThen i j eos).run before ((a ++ b) ++ ([] ++ ([] ++ ([] ++ []))))).head? =
          some ⟨_, [], _⟩ :=
        head_run_numbersThen_append i j (List.append_ne_nil_of_left_ne_nil hane b)
          (List.forall_mem_append.mpr ⟨ha, hb⟩) blanks_nil (.inr ⟨rfl, by simp⟩) blanks_nil (by simp)
          (by simp) (by simp) (heos _)
      exact ⟨_, by simpa using hrun⟩
    · have hrun : ((numbersThen i j eos).run before (a ++ ((w ++ w') ++ ([] ++ ([] ++ b))))).head? =
          some ⟨a ++ ((w ++ w') ++ ([] ++ ([] ++ b))), [], [(i, a), (j, b)]⟩ := by
        refine head_run_numbersThen_append i j hane ha hblanks (.inr ⟨rfl, fun hcomma => ?_⟩) blanks_nil
          hb ?_ ?_ (heos _)
        · exact absurd (hb ',' (List.mem_of_head? hcomma)) (by decide)
        · rw [List.head?_append_of_ne_nil _ hne]
          exact hblanks_end
        · exact fun d hd => isBlank_of_isDigit (hb d (List.mem_of_head? hd))
      exact ⟨_, by simpa using hrun⟩

end

/-! ## What is found -/

section

variable {cs v skipped : List Char} {h : Hit}

theorem fromLimit_eq_some {r : Re} : r.fromLimit cs = some v ↔
    ∃ skipped h, r.find [] cs = some (skipped, h) ∧ h.get 0 ++ h.rest = v := by
  simp [fromLimit, Option.map_eq_some_iff]

theorem isDot_eq_true {c : Char} : isDot c = true ↔ isTerminator c = false := by
  simp [isDot]

/-- A LIMIT and a digit are what the first pattern looks for behind its first part. -/
theorem run_limitMarked_of_limitHead (hv : LimitHead v) (before : List Char) :
    (limitMarked (numbersThen 1 2 (star isDot))).run before v ≠ [] := by
  obtain ⟨k, d, y, rfl, hd⟩ := hv
  refine run_limitMarked_ne_nil k (run_numbersThen_ne_nil hd fun before => ?_) before
  exact List.ne_nil_of_mem (mem_run_star.mpr ⟨[], y, rfl, by simp, rfl⟩)

theorem run_limitFoundMarked_ne_nil (hv : LimitHead v) (before : List Char) :
    limitFoundMarked.run before v ≠ [] :=
  run_seq_ne_nil (mem_run_star.mpr ⟨[], v, rfl, by simp, rfl⟩) (run_limitMarked_of_limitHead hv _)

/-- What the first pattern finds starts as far to the left as possible, and has the last LIMIT that
can be reached from there on the line. -/
theorem exists_of_find_limitFoundMarked (hf : limitFoundMarked.find [] cs = some (skipped, h)) :
    ∃ (t : List Char) (k : Keyword) (d : Char) (y : List Char),
      cs = skipped ++ (t ++ k.followedBy (d :: y)) ∧ isDigit d = true ∧
      (∀ c ∈ t, isTerminator c = false) ∧ h.get 0 ++ h.rest = k.word ++ (k.after ++ d :: y) ∧
      (∀ t' v, t ++ k.followedBy (d :: y) = t' ++ v → (∀ c ∈ t', isTerminator c = false) →
        LimitHead v → t'.length ≤ t.length) ∧
      ∀ x v, cs = x ++ v → LimitHead v → skipped.length ≤ x.length := by
  obtain ⟨hcs, hrun⟩ := find_eq_some hf
  obtain ⟨t, u, h₁, hsplit, ht, hrun₁, rfl, hlongest⟩ := exists_of_head_run_star_seq hrun
  obtain ⟨k, v, h₂, rfl, ⟨before, hrun₂⟩, rfl⟩ := exists_of_head_run_limitMarked hrun₁
  obtain ⟨d, y, rfl, hd⟩ := digit_of_head_run_numbersThen hrun₂
  refine ⟨t, k, d, y, ?_, hd, fun c hc => isDot_eq_true.mp (ht c hc), ?_, ?_, ?_⟩
  · rw [hcs, List.append_assoc, hsplit]
  · rw [append_of_mem_run (List.mem_of_head? hrun₂)]
    simp [Hit.get]
  · intro t' v hv ht' hlimit
    exact hlongest t' v (hsplit.trans hv) (fun c hc => isDot_eq_true.mpr (ht' c hc))
      (run_limitMarked_of_limitHead hlimit _)
  · exact fun x v hxv hlimit => find_leftmost hf x v hxv (run_limitFoundMarked_ne_nil hlimit _)

/-- What the second pattern finds is a LIMIT with its numbers, and a line terminator may be left
behind it. -/
theorem exists_of_find_limitTailMarked {before : List Char}
    (hf : limitTailMarked.find before cs = some (skipped, h)) :
    ∃ (t : List Char) (k : Keyword) (z : List Char), LimitNumbers z ∧
      cs = skipped ++ (t ++ k.followedBy (z ++ h.rest)) ∧ h.taken = t ++ k.followedBy z ∧
      h.get 1 = t ∧ h.get 0 ++ h.rest = k.word ++ (k.after ++ (z ++ h.rest)) ∧
      (∀ c ∈ h.rest, isTerminator c = true) ∧ (LimitNumbers (z ++ h.rest) → h.rest = []) := by
  obtain ⟨hcs, hrun⟩ := find_eq_some hf
  obtain ⟨h₁, hmem, h₂, hrun₂, rfl⟩ := exists_of_head_run_seq hrun
  obtain ⟨h₀, hstar, rfl⟩ := mem_run_group.mp hmem
  obtain ⟨t, u, hsplit, -, rfl⟩ := mem_run_star.mp hstar
  obtain ⟨k, v, h₃, rfl, ⟨before₃, hrun₃⟩, rfl⟩ := exists_of_head_run_limitMarked hrun₂
  obtain ⟨z, rest, h₄, before₄, rfl, hz, heos, htaken, hrest⟩ :=
    exists_of_mem_run_numbersThen (List.mem_of_head? hrun₃)
  obtain ⟨hend, rfl⟩ := mem_run_eos.mp heos
  simp only [List.append_nil] at htaken
  refine ⟨t, k, z, hz, ?_, ?_, ?_, ?_, ?_, fun hnumbers => ?_⟩
  · rw [hcs, List.append_assoc, hsplit, Hit.append, hrest]
  · rw [Hit.append, htaken]
  · rfl
  · change k.word ++ (k.after ++ h₃.taken) ++ h₃.rest = k.word ++ (k.after ++ (z ++ h₃.rest))
    rw [htaken, List.append_assoc, List.append_assoc]
  · rw [Hit.append, hrest]
    exact terminator_of_atEnd hend
  · rw [Hit.append, hrest] at hnumbers ⊢
    obtain ⟨groups, hhead⟩ := head_run_numbersThen_eos hnumbers 2 3 before₃
    rw [hhead, Option.some.injEq] at hrun₃
    rw [← hrest, ← hrun₃]

/-- A LIMIT at the end of the text is found by the second pattern. -/
theorem find_limitTailMarked_ne_none {x z : List Char} (k : Keyword) (hz : LimitNumbers z) :
    limitTailMarked.find [] (x ++ k.followedBy z) ≠ none := by
  refine find_ne_none (run_seq_ne_nil (mem_run_group.mpr
    ⟨_, mem_run_star.mpr ⟨[], _, rfl, by simp, rfl⟩, rfl⟩) ?_)
  refine run_limitMarked_ne_nil k (fun before => ?_) _
  obtain ⟨groups, hhead⟩ := head_run_numbersThen_eos hz 2 3 before
  exact List.ne_nil_of_mem (List.mem_of_head? hhead)

theorem find_limitFoundMarked_eq_none : limitFoundMarked.find [] cs = none ↔ ¬HasLimit cs := by
  constructor
  · rintro hnone ⟨x, v, rfl, hv⟩
    exact find_ne_none (run_limitFoundMarked_ne_nil hv _) hnone
  · intro hno
    by_contra hne
    obtain ⟨⟨skipped, h⟩, hf⟩ := Option.ne_none_iff_exists'.mp hne
    obtain ⟨t, k, d, y, rfl, hd, -⟩ := exists_of_find_limitFoundMarked hf
    exact hno ⟨skipped ++ t, _, (List.append_assoc ..).symm, k, d, y, rfl, hd⟩

theorem find_limitFound_eq (cs : List Char) :
    limitFound.find [] cs = (limitFoundMarked.find [] cs).map fun s => (s.1, s.2.ungroup 0) := by
  rw [← ungroup_limitFoundMarked, find_ungroup]

theorem find_limitTail_eq (before cs : List Char) :
    limitTail.find before cs = (limitTailMarked.find before cs).map fun s => (s.1, s.2.ungroup 0) := by
  rw [← ungroup_limitTailMarked, find_ungroup]

theorem inert_of_terminators (hcs : ∀ c ∈ cs, isTerminator c = true) : Inert cs :=
  fun c hc => .inr (.inr (.inr (hcs c hc)))

/-- There is no LIMIT in a line terminator. -/
theorem find_limitTail_eq_none (hcs : ∀ c ∈ cs, isTerminator c = true) (before : List Char) :
    limitTail.find before cs = none := by
  rw [find_limitTail_eq, Option.map_eq_none_iff]
  by_contra hne
  obtain ⟨⟨skipped, h⟩, hf⟩ := Option.ne_none_iff_exists'.mp hne
  obtain ⟨t, k, z, -, hsplit, -⟩ := exists_of_find_limitTailMarked hf
  obtain ⟨c, l, hword, -⟩ := limit_head k.word_spells
  have hmem : c ∈ k.word := hword ▸ List.mem_cons_self
  refine (inert_of_terminators hcs).limit_notMem k.word_spells hmem ?_
  simp [hsplit, Keyword.followedBy, hmem]

/-- What is put in the place of the match stands before the line terminator that is left. -/
theorem replaceAll_limitTail_of_find (new : List Char)
    (hf : limitTailMarked.find [] cs = some (skipped, h)) :
    limitTail.replaceAll (fun mc => mc.get 1 ++ new) cs = skipped ++ (h.get 1 ++ new) ++ h.rest := by
  obtain ⟨t, k, z, -, -, htaken, -, -, hrest, -⟩ := exists_of_find_limitTailMarked hf
  have hf' : limitTail.find [] cs = some (skipped, h.ungroup 0) := by
    rw [find_limitTail_eq, hf]
    rfl
  have hne : (h.ungroup 0).taken ≠ [] := by
    change h.taken ≠ []
    simp [htaken, Keyword.followedBy, k.before_ne]
  rw [replaceAll_of_find_none hf' hne (find_limitTail_eq_none hrest _), get_ungroup (by decide)]
  rfl

end

section

variable {lead select v new : List Char}

/-- The start of a select is at the start of the text. -/
theorem exists_of_mem_run_selectHead {before cs : List Char} {h : Hit}
    (hr : h ∈ selectHead.run before cs) :
    before = [] ∧ ∃ w s g u, cs = w ++ (s ++ (g ++ u)) ∧ Blanks w ∧ Spells (anyCase "select") s ∧
      Blanks g ∧ g ≠ [] := by
  obtain ⟨h₁, hbos, h₂, hr₂, rfl⟩ := mem_run_seq.mp hr
  obtain ⟨rfl, rfl⟩ : before = [] ∧ h₁ = ⟨[], cs, []⟩ := by
    by_cases hbefore : before = [] <;> simp [run, hbefore] at hbos
    exact ⟨hbefore, hbos⟩
  obtain ⟨h₃, hstar, h₄, hr₄, rfl⟩ := mem_run_seq.mp hr₂
  obtain ⟨w, u, rfl, hw, rfl⟩ := mem_run_star.mp hstar
  obtain ⟨h₅, hlit, h₆, hr₆, rfl⟩ := mem_run_seq.mp hr₄
  obtain ⟨s, u, rfl, hs, rfl⟩ := mem_run_lit.mp hlit
  obtain ⟨g, u, rfl, hne, hg, rfl⟩ := mem_run_plus.mp hr₆
  exact ⟨rfl, w, s, g, u, rfl, hw, hs, hg, hne⟩

/-- Without a blank behind SELECT nothing is replaced. -/
theorem replaceFirst_selectHead_of_solid (hlead : Blanks lead)
    (hselect : Spells (anyCase "select") select) (hv : ∀ c ∈ v.head?, isBlank c = false) :
    selectHead.replaceFirst (fun _ => new) (lead ++ (select ++ v)) = lead ++ (select ++ v) := by
  have hnone : selectHead.find [] (lead ++ (select ++ v)) = none := by
    by_contra hne
    obtain ⟨⟨skipped, h⟩, hf⟩ := Option.ne_none_iff_exists'.mp hne
    obtain ⟨hcs, hrun⟩ := find_eq_some hf
    obtain ⟨rfl, w, s, g, u, hsplit, hw, hs, hg, hgne⟩ :=
      exists_of_mem_run_selectHead (List.mem_of_head? hrun)
    rw [List.append_assoc, hsplit] at hcs
    obtain ⟨-, hword⟩ := blanks_unique hlead hw (select_solid hselect v) (select_solid hs _) hcs
    obtain ⟨-, rfl⟩ := List.append_inj hword (hselect.length_eq.symm.trans hs.length_eq)
    obtain ⟨b, g, rfl⟩ := List.exists_cons_of_ne_nil hgne
    have hsolid := hv b rfl
    rw [hg b List.mem_cons_self] at hsolid
    cases hsolid
  rw [replaceFirst, hnone]

end

end Re

/-! ## The start of the select -/

/-- A text is a run of blanks and a text that starts with none. -/
theorem exists_blanks_append (cs : List Char) :
    ∃ w v, cs = w ++ v ∧ Blanks w ∧ ∀ c ∈ v.head?, isBlank c = false := by
  induction cs with
  | nil => exact ⟨[], [], rfl, blanks_nil, by simp⟩
  | cons c cs ih =>
    by_cases hc : isBlank c = true
    · obtain ⟨w, v, rfl, hw, hv⟩ := ih
      exact ⟨c :: w, v, rfl, List.forall_mem_cons.mpr ⟨hc, hw⟩, hv⟩
    · exact ⟨[], c :: cs, rfl, blanks_nil, by simpa using hc⟩

section

variable {lead select gap rest v : List Char}

/-- Within a word and the blanks behind it, no letter comes after a blank. -/
theorem no_letter_after_blank {word x t : List Char} {b e : Char}
    (hword : ∀ c ∈ word, isBlank c = false) (hgap : Blanks gap) (hb : isBlank b = true)
    (he : isBlank e = false) : word ++ gap ≠ x ++ b :: e :: t := by
  induction word generalizing x with
  | nil =>
    intro h
    rw [List.nil_append] at h
    have hblank := hgap e (by simp [h])
    rw [he] at hblank
    cases hblank
  | cons c word ih =>
    obtain ⟨hc, hword⟩ := List.forall_mem_cons.mp hword
    intro h
    cases x with
    | nil =>
      obtain ⟨rfl, -⟩ := List.cons_eq_cons.mp h
      rw [hb] at hc
      cases hc
    | cons d x => exact ih hword (List.cons_eq_cons.mp h).2

/-- A letter after a blank is the first of its word. -/
theorem head_of_letter_after_blank {word x t : List Char} {b e : Char} (hlead : Blanks lead)
    (hword : ∀ c ∈ word, isBlank c = false) (hne : word ≠ []) (hgap : Blanks gap)
    (hb : isBlank b = true) (he : isBlank e = false)
    (h : lead ++ (word ++ gap) = x ++ b :: e :: t) : word.head? = some e := by
  induction lead generalizing x with
  | nil =>
    rw [List.nil_append] at h
    exact absurd h (no_letter_after_blank hword hgap hb he)
  | cons c lead ih =>
    obtain ⟨hc, hlead⟩ := List.forall_mem_cons.mp hlead
    cases x with
    | cons d x => exact ih hlead (List.cons_eq_cons.mp h).2
    | nil =>
      have htail : lead ++ (word ++ gap) = e :: t := (List.cons_eq_cons.mp h).2
      cases lead with
      | nil =>
        rw [List.nil_append] at htail
        rw [← List.head?_append_of_ne_nil _ hne, htail, List.head?_cons]
      | cons d lead =>
        obtain ⟨rfl, -⟩ := List.cons_eq_cons.mp htail
        rw [(List.forall_mem_cons.mp hlead).1] at he
        cases he

/-- A blank and the word LIMIT come after the word SELECT and its blanks. -/
theorem exists_of_limit_behind_select {x l y : List Char} {b : Char} (hlead : Blanks lead)
    (hselect : Spells (anyCase "select") select) (hgap : Blanks gap) (hb : isBlank b = true)
    (hl : Spells (anyCase "limit") l)
    (h : lead ++ (select ++ gap) ++ v = x ++ [b] ++ (l ++ y)) :
    ∃ as, x ++ [b] = lead ++ (select ++ gap) ++ as ∧ v = as ++ (l ++ y) := by
  rcases List.append_eq_append_iff.mp h with ⟨as, hx, hv⟩ | ⟨bs, hhead, hword⟩
  · exact ⟨as, hx, hv⟩
  cases bs with
  | nil => exact ⟨[], by simpa using hhead.symm, by simpa using hword.symm⟩
  | cons e bs =>
    -- the word would start within SELECT, where only an S comes after a blank
    exfalso
    obtain ⟨e', l, rfl, he⟩ := limit_head hl
    obtain ⟨rfl, -⟩ := List.cons_eq_cons.mp hword
    have hsolid := (limit_letters hl e' List.mem_cons_self).1
    obtain ⟨s, t, rfl, hs⟩ := select_head hselect
    have hfirst := head_of_letter_after_blank hlead (select_letters hselect) (List.cons_ne_nil _ _) hgap
      hb hsolid (by rw [hhead, List.append_assoc]; rfl)
    obtain rfl := Option.some.inj hfirst
    rcases hs with rfl | rfl <;> simp at he

/-- The rewritten text has the same LIMIT. -/
theorem exists_replaceFirst_selectHead {x : List Char} (hlead : Blanks lead)
    (hselect : Spells (anyCase "select") select) (k : Keyword)
    (h : lead ++ (select ++ rest) = x ++ k.followedBy v) :
    ∃ (x' : List Char) (k' : Keyword), k'.word = k.word ∧ k'.after = k.after ∧
      Re.selectHead.replaceFirst (fun _ => countedHead) (lead ++ (select ++ rest)) =
        x' ++ k'.followedBy v := by
  obtain ⟨gap, v', rfl, hgap, hv'⟩ := exists_blanks_append rest
  by_cases hne : gap = []
  · subst hne
    rw [List.nil_append] at h ⊢
    exact ⟨x, k, rfl, rfl, (Re.replaceFirst_selectHead_of_solid hlead hselect hv').trans h⟩
  · rw [Re.replaceFirst_selectHead_append hlead hselect hgap hne hv']
    obtain ⟨g, b, hbefore⟩ := k.before.eq_nil_or_concat'.resolve_left k.before_ne
    have hb : isBlank b = true := k.before_blank b (by simp [hbefore])
    have hsplit : lead ++ (select ++ gap) ++ v' = x ++ g ++ [b] ++ (k.word ++ (k.after ++ v)) := by
      simpa [Keyword.followedBy, hbefore] using h
    obtain ⟨as, hx, rfl⟩ := exists_of_limit_behind_select hlead hselect hgap hb k.word_spells hsplit
    -- the blank before the word is the last one of the text before it
    have hlast : ∃ y c, countedHead ++ as = y ++ [c] ∧ isBlank c = true := by
      rcases as.eq_nil_or_concat' with rfl | ⟨as, c, rfl⟩
      · exact ⟨"select SQL_CALC_FOUND_ROWS".toList, ' ', by decide, rfl⟩
      · have hc := (List.append_inj' (hx.trans (List.append_assoc ..).symm) rfl).2
        obtain rfl : b = c := by simpa using hc
        exact ⟨countedHead ++ as, b, (List.append_assoc ..).symm, hb⟩
    obtain ⟨y, c, hy, hc⟩ := hlast
    refine ⟨y, { k with before := [c], before_blank := ?_, before_ne := by simp }, rfl, rfl, ?_⟩
    · exact List.forall_mem_singleton.mpr hc
    · rw [← List.append_assoc, hy, List.append_assoc]
      rfl

end

/-! ## The LIMIT at the end -/

theorem LimitNumbers.exists_digit {z : List Char} (hz : LimitNumbers z) :
    ∃ d y, z = d :: y ∧ isDigit d = true := by
  obtain ⟨a, w, c, w', b, rfl, hane, ha, -⟩ := hz
  obtain ⟨d, a, rfl⟩ := List.exists_cons_of_ne_nil hane
  exact ⟨d, _, rfl, ha d List.mem_cons_self⟩

theorem LimitNumbers.limitHead {z : List Char} (hz : LimitNumbers z) (k : Keyword) :
    LimitHead (k.followedBy z) := by
  obtain ⟨d, y, rfl, hd⟩ := hz.exists_digit
  exact ⟨k, d, y, rfl, hd⟩

/-- A LIMIT before inert text is known by its word. -/
theorem Keyword.eq_of_followedBy {x x' z z' : List Char} {k k' : Keyword} (hz : LimitNumbers z)
    (hz' : Inert z') (hd : ∃ d y, z' = d :: y ∧ isDigit d = true)
    (h : x ++ k.followedBy z = x' ++ k'.followedBy z') :
    k.word = k'.word ∧ k.after = k'.after ∧ z = z' := by
  have hsplit : (x ++ k.before) ++ (k.word ++ (k.after ++ z)) =
      (x' ++ k'.before) ++ (k'.word ++ (k'.after ++ z')) := by
    simpa [Keyword.followedBy] using h
  obtain ⟨-, hword, hafter⟩ := word_unique k.word_spells k'.word_spells
    (k.after_blank.inert.append hz.inert) (k'.after_blank.inert.append hz') hsplit
  obtain ⟨d, y, rfl, hd⟩ := hd
  obtain ⟨d', y', rfl, hd'⟩ := hz.exists_digit
  obtain ⟨hblanks, hdigits⟩ := blanks_digit_unique k.after_blank k'.after_blank hd' hd hafter
  exact ⟨hword, hblanks, hdigits⟩

/-- A LIMIT at the end of the text is what the second pattern finds. -/
theorem exists_find_limitTailMarked {x z : List Char} (k : Keyword) (hz : LimitNumbers z) :
    ∃ skipped h, Re.limitTailMarked.find [] (x ++ k.followedBy z) = some (skipped, h) ∧
      h.rest = [] ∧ h.get 0 ++ h.rest = k.word ++ (k.after ++ z) := by
  obtain ⟨⟨skipped, h⟩, hf⟩ :=
    Option.ne_none_iff_exists'.mp (Re.find_limitTailMarked_ne_none (x := x) k hz)
  obtain ⟨t, k', z', hz', hsplit, -, -, hget, hrest, hfits⟩ := Re.exists_of_find_limitTailMarked hf
  obtain ⟨d, y, rfl, hd⟩ := hz'.exists_digit
  rw [← List.append_assoc] at hsplit
  obtain ⟨hword, hafter, rfl⟩ := Keyword.eq_of_followedBy hz
    (hz'.inert.append (Re.inert_of_terminators hrest)) ⟨d, _, rfl, hd⟩ hsplit
  exact ⟨skipped, h, hf, hfits hz, by rw [hget, hword, hafter]⟩

/-- A letter before the end of the blanks behind a text is in the text. -/
theorem exists_append_of_letter {u w x es : List Char} {e : Char} (hw : Blanks w)
    (he : isBlank e = false) (h : u ++ w = x ++ e :: es) :
    ∃ bs, u = x ++ bs ∧ e :: es = bs ++ w := by
  rcases List.append_eq_append_iff.mp h with ⟨as, -, hblanks⟩ | ⟨bs, hu, hbs⟩
  · have hblank := hw e (hblanks ▸ List.mem_append_right as List.mem_cons_self)
    rw [he] at hblank
    cases hblank
  · exact ⟨bs, hu, hbs⟩

/-- If no line terminator stands between an earlier LIMIT and the one at the end, the first pattern
finds the one at the end. -/
theorem fromLimit_limitFoundMarked {u z v : List Char} (k : Keyword) (hz : LimitNumbers z)
    (hlines : ∀ x v, u = x ++ v → LimitHead (v ++ k.followedBy z) → ∀ c ∈ v, isTerminator c = false)
    (h : Re.limitFoundMarked.fromLimit (u ++ k.followedBy z) = some v) :
    v = k.word ++ (k.after ++ z) := by
  obtain ⟨skipped, h₁, hf, rfl⟩ := Re.fromLimit_eq_some.mp h
  obtain ⟨t, k₁, d, y, hsplit, hd, ht, hget, hlongest, -⟩ := Re.exists_of_find_limitFoundMarked hf
  rw [hget]
  have hwords : (u ++ k.before) ++ (k.word ++ (k.after ++ z)) =
      (skipped ++ t ++ k₁.before) ++ (k₁.word ++ (k₁.after ++ d :: y)) := by
    simpa [Keyword.followedBy] using hsplit
  rcases List.append_eq_append_iff.mp hwords with ⟨e, hx, hword⟩ | ⟨e, hx, hword⟩
  · -- nothing is found behind the last LIMIT
    have hlength := length_le_of_word k.word_spells k₁.word_spells
      (k.after_blank.inert.append hz.inert) hwords
    rw [hx, List.length_append] at hlength
    obtain rfl := List.length_eq_zero_iff.mp (by omega : e.length = 0)
    exact hword.symm
  · cases e with
    | nil => exact hword
    | cons e es =>
      -- an earlier LIMIT : from there on the first pattern could take the whole line
      exfalso
      obtain ⟨c, l, hk₁, -⟩ := limit_head k₁.word_spells
      rw [hk₁, List.cons_append, List.cons_append, List.cons_eq_cons] at hword
      obtain ⟨rfl, hword⟩ := hword
      have hsolid : isBlank c = false :=
        (limit_letters k₁.word_spells c (hk₁ ▸ List.mem_cons_self)).1
      obtain ⟨bs, hu, hbs⟩ := exists_append_of_letter k.before_blank hsolid hx
      have hline : t ++ k₁.followedBy (d :: y) = (t ++ (k₁.before ++ bs)) ++ k.followedBy z := by
        have hrest : c :: (l ++ (k₁.after ++ d :: y)) =
            bs ++ (k.before ++ (k.word ++ (k.after ++ z))) := by
          rw [hword, ← List.cons_append, hbs, List.append_assoc]
        simp only [Keyword.followedBy, hk₁, List.cons_append, List.append_assoc, hrest]
      have hhead : LimitHead ((k₁.before ++ bs) ++ k.followedBy z) := by
        refine ⟨k₁, d, y, ?_, hd⟩
        rw [List.append_assoc t] at hline
        exact (List.append_cancel_left hline).symm
      have hdots := hlines (skipped ++ t) (k₁.before ++ bs) (by rw [hu, List.append_assoc]) hhead
      have hle := hlongest _ _ hline (List.forall_mem_append.mpr ⟨ht, hdots⟩) (hz.limitHead k)
      have hpos := List.length_pos_iff.mpr k₁.before_ne
      simp only [List.length_append] at hle
      omega

/-! ## The statement executed -/

namespace DBEngine

section

variable {sql : List Char} {lim : Option (ℤ × ℤ)} {pageSize pageNo : ℤ}

theorem find_limitFound_eq_none : Re.limitFound.find [] sql = none ↔ ¬HasLimit sql := by
  rw [Re.find_limitFound_eq, Option.map_eq_none_iff, Re.find_limitFoundMarked_eq_none]

/-- What the numbers found make of the limits. -/
theorem limits_cases (sql : List Char) :
    (¬HasLimit sql ∧ limits sql = .ok none) ∨ (TooLarge sql ∧ ∃ e, limits sql = .error e) ∨
      (¬TooLarge sql ∧ HasLimit sql ∧ ∃ lim, limits sql = .ok (some lim)) := by
  cases hf : Re.limitFound.find [] sql with
  | none => exact .inl ⟨find_limitFound_eq_none.mp hf, by simp [limits, hf]⟩
  | some s =>
    obtain ⟨skipped, mc⟩ := s
    have hlimit : HasLimit sql := by
      by_contra hno
      rw [find_limitFound_eq_none.mpr hno] at hf
      cases hf
    have hlarge : TooLarge sql ↔ maxInt < decimalValue (mc.get 1) ∨ maxInt < decimalValue (mc.get 2) := by
      simp [TooLarge, hf]
    rw [hlarge]
    simp only [limits, hf]
    by_cases hfst : decimalValue (mc.get 1) ≤ maxInt
    · by_cases hsnd : decimalValue (mc.get 2) ≤ maxInt
      · refine .inr (.inr ⟨by omega, hlimit, ?_⟩)
        split_ifs <;> simp [parseInt, hfst, hsnd, bind, Except.bind, pure, Except.pure]
      · have hne : mc.get 2 ≠ [] := fun hnil => hsnd (by rw [hnil]; decide)
        refine .inr (.inl ⟨.inr (by omega), ?_⟩)
        simp [parseInt, hfst, hsnd, hne, bind, Except.bind]
    · refine .inr (.inl ⟨.inl (by omega), ?_⟩)
      split_ifs <;> simp [parseInt, hfst, bind, Except.bind]

/-- The database `texts` gets the rewritten text. -/
theorem queryPage_texts (hlim : limits sql = .ok lim) (pageSize pageNo : ℤ) :
    ∃ first offset, window lim pageSize pageNo = limitText first offset ∧
      offset = pageOffset (lim.getD (0, maxInt)).1 (lim.getD (0, maxInt)).2 pageSize
        (if pageNo > 0 then pageNo else 1) ∧
      queryPage texts sql pageSize pageNo = .ok (if offset > 0 then
        some ⟨[pageSql lim.isSome first offset sql], 0, pageSize, if pageNo > 0 then pageNo else 1⟩
        else none) := by
  refine ⟨pageBegin (lim.getD (0, maxInt)).1 (lim.getD (0, maxInt)).2 pageSize
      (if pageNo > 0 then pageNo else 1),
    pageOffset (lim.getD (0, maxInt)).1 (lim.getD (0, maxInt)).2 pageSize
      (if pageNo > 0 then pageNo else 1), rfl, rfl, ?_⟩
  simp only [queryPage, hlim, bind, Except.bind]
  split_ifs <;> rfl

theorem mem_record {page : ResultPage (List Char)} {text : List Char} (hlim : limits sql = .ok lim)
    (hpage : queryPage texts sql pageSize pageNo = .ok (some page)) (htext : text ∈ page.record) :
    ∃ first offset, window lim pageSize pageNo = limitText first offset ∧
      text = pageSql lim.isSome first offset sql := by
  obtain ⟨first, offset, hwindow, -, hquery⟩ := queryPage_texts hlim pageSize pageNo
  rw [hquery, Except.ok.injEq] at hpage
  by_cases hoffset : offset > 0
  · rw [if_pos hoffset] at hpage
    obtain rfl := Option.some.inj hpage
    exact ⟨first, offset, hwindow, List.mem_singleton.mp htext⟩
  · rw [if_neg hoffset] at hpage
    cases hpage

/-- With pages of `2 ^ 16` rows, page `2 ^ 16` is asked for whatever the LIMIT is. -/
theorem exists_executed (hlim : limits sql = .ok lim) :
    ∃ first page, window lim 65536 65536 = limitText first 65536 ∧
      queryPage texts sql 65536 65536 = .ok (some page) ∧
      pageSql lim.isSome first 65536 sql ∈ page.record := by
  obtain ⟨first, offset, hwindow, hoffset, hquery⟩ := queryPage_texts hlim 65536 65536
  obtain ⟨a, b, ha, hb, hgetD⟩ := exists_limits hlim
  have hsize : offset = 65536 := by
    rw [hoffset, hgetD, if_pos (by decide)]
    have hwrap : toInt (65536 * 65536) = 0 := by decide
    have hdistinct : 0 ≤ toInt (toInt ((a : ℤ) + b) - toInt ((a : ℤ) + 0)) := by
      rw [maxInt] at ha hb
      simp only [toInt_eq_emod]
      omega
    simp only [pageOffset, hwrap, hdistinct, if_true]
  subst hsize
  rw [if_pos (by decide)] at hquery
  exact ⟨first, _, hwindow, hquery, List.mem_singleton_self _⟩

/-- The last character of the clause is a digit. -/
theorem getLast?_limitText (first : ℤ) : (limitText first 65536).getLast? = some '6' := by
  have hlast : (",".toList ++ (toString (65536 : ℤ)).toList).getLast? = some '6' := by decide
  rw [limitText, String.toList_append, String.toList_append, List.append_assoc,
    List.getLast?_append, hlast, Option.some_or]

/-- A LIMIT at the end of the text is replaced. -/
theorem replaces_of_final {lead select rest : List Char} {lim : ℤ × ℤ} (hlead : Blanks lead)
    (hselect : Spells (anyCase "select") select) (hfinal : Final (lead ++ (select ++ rest)))
    (hlim : limits (lead ++ (select ++ rest)) = .ok (some lim)) :
    Replaces (lead ++ (select ++ rest)) (some lim) := by
  obtain ⟨u, k, z, hsql, hz, hlines⟩ := hfinal
  obtain ⟨x, k', hword, hafter, hrewritten⟩ := exists_replaceFirst_selectHead hlead hselect k hsql
  obtain ⟨skipped, h, hf, hrest, hget⟩ := exists_find_limitTailMarked (x := x) k' hz
  refine ⟨fun pageSize pageNo _ _ _ _ page hpage text htext => ?_, fun v hv => ?_⟩
  · obtain ⟨first, offset, hwindow, rfl⟩ := mem_record hlim hpage htext
    rw [hwindow, pageSql, hrewritten]
    simp only [Option.isSome_some, if_true]
    rw [Re.replaceAll_limitTail_of_find (limitText first offset) hf, hrest, List.append_nil,
      ← List.append_assoc]
    exact List.suffix_append _ _
  · rw [hsql] at hv
    rw [fromLimit_limitFoundMarked k hz hlines hv, hrewritten, ← hword, ← hafter, ← hget]
    exact Re.fromLimit_eq_some.mpr ⟨skipped, h, hf, rfl⟩

/-- The page of `2 ^ 16` rows shows that nothing is left behind the clause. -/
theorem Replaces.rest_eq_nil {lim : ℤ × ℤ} {skipped : List Char} {mc : Hit}
    (h : Replaces sql (some lim)) (hlim : limits sql = .ok (some lim))
    (hf : Re.limitTailMarked.find [] (Re.selectHead.replaceFirst (fun _ => countedHead) sql) =
      some (skipped, mc)) : mc.rest = [] := by
  obtain ⟨first, page, hwindow, hquery, hmem⟩ := exists_executed hlim
  have hsuffix := h.executed 65536 65536 (by decide) (by decide) (by decide) (by decide) page hquery
    _ hmem
  rw [hwindow, pageSql] at hsuffix
  simp only [Option.isSome_some, if_true] at hsuffix
  rw [Re.replaceAll_limitTail_of_find (limitText first 65536) hf] at hsuffix
  obtain ⟨before, hbefore⟩ := hsuffix
  rcases mc.rest.eq_nil_or_concat' with hnil | ⟨cs, c, hconcat⟩
  · exact hnil
  · -- a line terminator would stand where the clause has a digit
    have hlast := congrArg List.getLast? hbefore
    rw [hconcat, List.getLast?_append, getLast?_limitText, ← List.append_assoc,
      List.getLast?_concat, Option.some_or, Option.some.injEq] at hlast
    obtain ⟨t, k, z, -, -, -, -, -, hrest, -⟩ := Re.exists_of_find_limitTailMarked hf
    have hterminator := hrest c (by simp [hconcat])
    rw [← hlast] at hterminator
    cases hterminator

/-- A LIMIT that is replaced is at the end of the text. -/
theorem Replaces.final {lim : ℤ × ℤ} (h : Replaces sql (some lim)) (hlim : limits sql = .ok (some lim))
    (hlimit : HasLimit sql) : Final sql := by
  obtain ⟨⟨skipped, h₁⟩, hf⟩ :=
    Option.ne_none_iff_exists'.mp (mt Re.find_limitFoundMarked_eq_none.mp (not_not.mpr hlimit))
  obtain ⟨t, k, d, y, hsql, hd, ht, hget, -, hleftmost⟩ := Re.exists_of_find_limitFoundMarked hf
  obtain ⟨skipped', h₂, hf', hget'⟩ :=
    Re.fromLimit_eq_some.mp (h.same _ (Re.fromLimit_eq_some.mpr ⟨skipped, h₁, hf, rfl⟩))
  obtain ⟨t', k', z, hz, -, -, -, hget₂, -⟩ := Re.exists_of_find_limitTailMarked hf'
  have hnone := h.rest_eq_nil hlim hf'
  rw [hnone, List.append_nil] at hget₂
  rw [hget, hnone, List.append_nil, hget₂] at hget'
  obtain ⟨hword, hafter⟩ :=
    List.append_inj hget' (k'.word_spells.length_eq.symm.trans k.word_spells.length_eq)
  obtain ⟨d', y', rfl, hd'⟩ := hz.exists_digit
  obtain ⟨-, hnumbers⟩ := blanks_digit_unique k'.after_blank k.after_blank hd' hd hafter
  have hz' : LimitNumbers (d :: y) := by
    rw [← hnumbers]
    simpa using hz
  refine ⟨skipped ++ t, k, d :: y, by rw [hsql, List.append_assoc], hz', fun x v hxv hhead => ?_⟩
  have hle := hleftmost x _ (by rw [hsql, ← List.append_assoc, hxv, List.append_assoc]) hhead
  obtain ⟨x', rfl, rfl⟩ : ∃ x', x = skipped ++ x' ∧ t = x' ++ v := by
    rcases List.append_eq_append_iff.mp hxv with ⟨as, hx, ht⟩ | ⟨bs, hskipped, hv⟩
    · exact ⟨as, hx, ht⟩
    · have hlength := congrArg List.length hskipped
      rw [List.length_append] at hlength
      obtain rfl := List.length_eq_zero_iff.mp (by omega : bs.length = 0)
      exact ⟨[], by simpa using hskipped.symm, by simpa using hv.symm⟩
  exact fun c hc => ht c (List.mem_append_right x' hc)

/-- Without a LIMIT the clause is appended. -/
theorem replaces_of_not_hasLimit (hno : ¬HasLimit sql) (hlim : limits sql = .ok none) :
    Replaces sql none := by
  refine ⟨fun pageSize pageNo _ _ _ _ page hpage text htext => ?_, fun v hv => ?_⟩
  · obtain ⟨first, offset, hwindow, rfl⟩ := mem_record hlim hpage htext
    rw [hwindow, pageSql]
    exact List.suffix_append _ _
  · obtain ⟨skipped, h, hf, -⟩ := Re.fromLimit_eq_some.mp hv
    rw [Re.find_limitFoundMarked_eq_none.mpr hno] at hf
    cases hf

/-- For every text that starts with SELECT, whatever follows it : the clause computed is at the end
of what is executed, in the place of the LIMIT found, exactly if there is none, or its numbers are
too large, or it is at the end of the text and found from every earlier one. -/
theorem consistent_iff {lead select rest : List Char} (hlead : Blanks lead)
    (hselect : Spells (anyCase "select") select) :
    Consistent (lead ++ (select ++ rest)) ↔
      ¬HasLimit (lead ++ (select ++ rest)) ∨ TooLarge (lead ++ (select ++ rest)) ∨
        Final (lead ++ (select ++ rest)) := by
  rcases limits_cases (lead ++ (select ++ rest)) with ⟨hno, hlim⟩ | ⟨hlarge, e, hlim⟩ |
    ⟨hlarge, hlimit, lim, hlim⟩
  · refine iff_of_true (fun lim h => ?_) (.inl hno)
    obtain rfl := Except.ok.inj (hlim.symm.trans h)
    exact replaces_of_not_hasLimit hno hlim
  · refine iff_of_true (fun lim h => ?_) (.inr (.inl hlarge))
    rw [hlim] at h
    cases h
  · constructor
    · exact fun h => .inr (.inr ((h _ hlim).final hlim hlimit))
    · rintro (hno | hlarge' | hfinal) lim' h
      · exact absurd hlimit hno
      · exact absurd hlarge' hlarge
      · obtain rfl := Except.ok.inj (hlim.symm.trans h)
        exact replaces_of_final hlead hselect hfinal hlim

end

/-- A LIMIT at the end, and no other. -/
theorem final_limit_consistent : Consistent "select a from t limit 5".toList := by
  have hrest : "select a from t limit 5".toList =
      [] ++ ("select".toList ++ " a from t limit 5".toList) := by decide
  rw [hrest]
  refine (consistent_iff blanks_nil ?_).mpr (.inr (.inr ?_))
  · exact .cons rfl (.cons rfl (.cons rfl (.cons rfl (.cons rfl (.cons rfl .nil)))))
  · refine ⟨"select a from t".toList, ⟨[' '], "limit".toList, [' '], blanks_space, space_ne,
      spells_limit, blanks_space, space_ne⟩, ['5'],
      by decide, ⟨['5'], [], [], [], [], rfl, by decide, List.forall_mem_singleton.mpr rfl, blanks_nil,
      .inr rfl, blanks_nil, List.forall_mem_nil _⟩, fun x v hxv _ c hc => ?_⟩
    have hline : ("select a from t".toList.all fun c => !isTerminator c) = true := by decide
    rw [hxv, List.all_append, Bool.and_eq_true] at hline
    simpa using List.all_eq_true.mp hline.2 c hc

/-- The LIMIT of a subquery is found and not replaced, and the statement has no LIMIT of its own. -/
theorem subquery_not_replaced :
    limits "select * from (select 1 limit 5) x".toList = .ok (some (0, 5)) ∧
      queryPage texts "select * from (select 1 limit 5) x".toList 2 1 =
        .ok (some ⟨["select SQL_CALC_FOUND_ROWS * from (select 1 limit 5) x".toList], 0, 2, 1⟩) ∧
      window (some (0, 5)) 2 1 = " limit 0,2".toList ∧
      ¬Consistent "select * from (select 1 limit 5) x".toList := by
  have hlim : limits "select * from (select 1 limit 5) x".toList = .ok (some (0, 5)) := rfl
  have hquery : queryPage texts "select * from (select 1 limit 5) x".toList 2 1 =
      .ok (some ⟨["select SQL_CALC_FOUND_ROWS * from (select 1 limit 5) x".toList], 0, 2, 1⟩) := rfl
  refine ⟨hlim, hquery, by decide, fun h => ?_⟩
  have hsuffix := (h _ hlim).executed 2 1 (by decide) (by decide) (by decide) (by decide) _ hquery _
    (List.mem_singleton_self _)
  exact absurd hsuffix (by decide)

end DBEngine

end MySocket
