import MySocket.Regex
import Mathlib.Data.Int.Notation

/-!
# The LIMIT clause of a select

`DBEngine.queryPage` rewrites the text of a select with three regular expressions : one
finds a LIMIT clause and reads its numbers, one puts `SQL_CALC_FOUND_ROWS` after `select`,
one replaces the clause at the end of the text.

* `limit_unique` : behind a text with no LIMIT there is one place where the word follows a
  blank.
* `find_limitFound` : there the clause is found, and the groups hold its numbers.
* `replaceAll_limitTail` : the clause is replaced, up to blanks before it.
-/

namespace MySocket

/-! ## The patterns -/

/-- `\s` -/
def isBlank (c : Char) : Bool :=
  c = ' ' || c = '\t' || c = '\n' || c = Char.ofNat 0x0B || c = Char.ofNat 0x0C || c = '\r'

/-- `\d` -/
def isDigit (c : Char) : Bool :=
  c.isDigit

/-- `.` -/
def isDot (c : Char) : Bool :=
  !isTerminator c

/-- The characters of a word in small letters, in any case. -/
def anyCase (word : String) : List (Char → Bool) :=
  word.toList.map fun c d => d = c || d = c.toUpper

namespace Re

/-- At least one character of a class. -/
def plus (p : Char → Bool) : Re :=
  seq (lit [p]) (star p)

/-- `^\s*select\s+` -/
def selectHead : Re :=
  seq bos <| seq (star isBlank) <| seq (lit (anyCase "select")) <| plus isBlank

/-- `\s+limit\s+`, then `r`. -/
def limitThen (r : Re) : Re :=
  seq (plus isBlank) <| seq (lit (anyCase "limit")) <| seq (plus isBlank) r

/-- `(\d+)\s*,?\s*(\d*)` with groups `i` and `j`, then `r`. -/
def numbersThen (i j : ℕ) (r : Re) : Re :=
  seq (group i (plus isDigit)) <| seq (star isBlank) <| seq (opt (lit [(· = ',')])) <|
    seq (star isBlank) <| seq (group j (star isDigit)) r

/-- `.*\s+limit\s+(\d+)\s*,?\s*(\d*).*` -/
def limitFound : Re :=
  seq (star isDot) <| limitThen <| numbersThen 1 2 <| star isDot

/-- `(.*)\s+limit\s+(\d+)\s*,?\s*(\d*)$` -/
def limitTail : Re :=
  seq (group 1 (star isDot)) <| limitThen <| numbersThen 2 3 eos

end Re

/-! ## The texts -/

/-- A run of blanks. -/
abbrev Blanks (w : List Char) : Prop :=
  ∀ c ∈ w, isBlank c = true

theorem blanks_nil : Blanks [] :=
  fun _ hc => absurd hc List.not_mem_nil

theorem blanks_space : Blanks [' '] :=
  List.forall_mem_singleton.mpr rfl

theorem space_ne : [' '] ≠ [] :=
  List.cons_ne_nil _ _

theorem spells_limit : Spells (anyCase "limit") "limit".toList :=
  .cons rfl (.cons rfl (.cons rfl (.cons rfl (.cons rfl .nil))))

theorem Blanks.head {w : List Char} (hw : Blanks w) (hne : w ≠ []) (v : List Char) :
    ∀ c ∈ (w ++ v).head?, isBlank c = true := by
  rw [List.head?_append_of_ne_nil _ hne]
  exact fun c hc => hw c (List.mem_of_head? hc)

/-- A number in decimal. -/
structure Number where
  digits : List Char
  digits_ne : digits ≠ []
  isDigit : ∀ c ∈ digits, isDigit c = true

/-- The value of a run of digits. -/
def decimalValue (digits : List Char) : ℕ :=
  Nat.ofDigitChars 10 digits 0

/-- A number as it is printed. -/
def Number.ofNat (n : ℕ) : Number where
  digits := Nat.toDigits 10 n
  digits_ne := Nat.toDigits_ne_nil
  isDigit _ hc := Nat.isDigit_of_mem_toDigits (by decide) (by decide) hc

/-- A text contains the word LIMIT, behind a blank and before a blank or the end. -/
def Limited (cs : List Char) : Prop :=
  ∃ x c l y, cs = x ++ c :: (l ++ y) ∧ isBlank c = true ∧ Spells (anyCase "limit") l ∧
    ∀ d ∈ y.head?, isBlank d = true

/-- A select with no LIMIT, up to its last character. -/
structure BaseSelect where
  lead : List Char
  select : List Char
  gap : List Char
  body : List Char
  lead_blank : Blanks lead
  select_spells : Spells (anyCase "select") select
  gap_blank : Blanks gap
  gap_ne : gap ≠ []
  body_ne : body ≠ []
  head_solid : ∀ c ∈ body.head?, isBlank c = false
  last_solid : ∀ c ∈ body.getLast?, isBlank c = false
  notLimited : ¬Limited (lead ++ (select ++ (gap ++ body)))

def BaseSelect.text (q : BaseSelect) : List Char :=
  q.lead ++ (q.select ++ (q.gap ++ q.body))

/-- What stands for `select` in the rewritten text. -/
def countedHead : List Char :=
  "select SQL_CALC_FOUND_ROWS ".toList

/-- The rewritten select. -/
def BaseSelect.counted (q : BaseSelect) : List Char :=
  countedHead ++ q.body

/-- The word LIMIT between blanks. -/
structure Keyword where
  before : List Char
  word : List Char
  after : List Char
  before_blank : Blanks before
  before_ne : before ≠ []
  word_spells : Spells (anyCase "limit") word
  after_blank : Blanks after
  after_ne : after ≠ []

/-- The numbers of a clause : `b`, or `a,b` with blanks about the comma. -/
inductive Numbers
  | count (b : Number)
  | range (a : Number) (w w' : List Char) (hw : Blanks w) (hw' : Blanks w') (b : Number)

namespace Numbers

def text : Numbers → List Char
  | count b => b.digits
  | range a w w' _ _ b => a.digits ++ (w ++ ',' :: (w' ++ b.digits))

/-- The digits up to the comma. -/
def fst : Numbers → List Char
  | count b => b.digits
  | range a _ _ _ _ _ => a.digits

/-- The digits behind the comma. -/
def snd : Numbers → List Char
  | count _ => []
  | range _ _ _ _ _ b => b.digits

end Numbers

/-- What may follow a base select : blanks, or a LIMIT. -/
inductive Clause
  | none (w : List Char) (hw : Blanks w)
  | limit (k : Keyword) (z : Numbers)

def Clause.text : Clause → List Char
  | none w _ => w
  | limit k z => k.before ++ (k.word ++ (k.after ++ z.text))

/-- The clause ` limit p,n` behind some blanks. -/
def Clause.window (w : List Char) (hw : Blanks w) (p n : ℕ) : Clause :=
  limit
    { before := w ++ [' '], word := "limit".toList, after := [' ']
      before_blank := List.forall_mem_append.mpr ⟨hw, blanks_space⟩
      before_ne := by simp
      word_spells := spells_limit
      after_blank := blanks_space
      after_ne := space_ne }
    (.range (Number.ofNat p) [] [] blanks_nil blanks_nil (Number.ofNat n))

/-! ## Characters -/

theorem isDigit_of_isBlank {c : Char} (h : isBlank c = true) : isDigit c = false := by
  simp only [isBlank, Bool.or_eq_true, decide_eq_true_eq] at h
  rcases h with ((((rfl | rfl) | rfl) | rfl) | rfl) | rfl <;> decide

theorem isBlank_of_isDigit {c : Char} (h : isDigit c = true) : isBlank c = false := by
  by_contra hb
  have := isDigit_of_isBlank (Bool.not_eq_false _ ▸ hb)
  simp [h] at this

theorem Number.head_solid (n : Number) : ∀ c ∈ n.digits.head?, isBlank c = false :=
  fun c hc => isBlank_of_isDigit (n.isDigit c (List.mem_of_head? hc))

/-- Blanks and a comma do not start with a digit. -/
theorem Blanks.comma_head {w : List Char} (hw : Blanks w) (v : List Char) :
    ∀ c ∈ (w ++ ([','] ++ v)).head?, isDigit c = false := by
  intro c hc
  cases w with
  | nil =>
    obtain rfl : ',' = c := by simpa using hc
    decide
  | cons d w =>
    obtain rfl : d = c := by simpa using hc
    exact isDigit_of_isBlank (hw d List.mem_cons_self)

/-- What holds of the letters of a word in small and in capitals holds of the word in any case. -/
theorem all_of_spells {p : Char → Bool} {word : String} {l : List Char}
    (hall : (word.toList.all fun d => p d && p d.toUpper) = true) (h : Spells (anyCase word) l) :
    ∀ c ∈ l, p c = true := by
  rw [Spells, anyCase, List.forall₂_map_left_iff] at h
  generalize word.toList = ds at h hall
  induction h with
  | nil => exact fun c hc => absurd hc List.not_mem_nil
  | @cons d c ds l hd _ ih =>
    rw [List.all_cons, Bool.and_eq_true, Bool.and_eq_true] at hall
    refine List.forall_mem_cons.mpr ⟨?_, ih hall.2⟩
    rcases Bool.or_eq_true_iff.mp hd with hd | hd
    · rw [of_decide_eq_true hd]
      exact hall.1.1
    · rw [of_decide_eq_true hd]
      exact hall.1.2

/-- The first letter of a word, in any case. -/
theorem exists_cons_of_spells {word : String} {l t : List Char} {d : Char}
    (hword : word.toList = d :: t) (h : Spells (anyCase word) l) :
    ∃ c s, l = c :: s ∧ (c = d ∨ c = d.toUpper) := by
  rw [Spells, anyCase, hword, List.map_cons, List.forall₂_cons_left_iff] at h
  obtain ⟨c, s, hc, -, rfl⟩ := h
  exact ⟨c, s, rfl, by simpa using hc⟩

/-- The letters of LIMIT are no blanks, digits or commas. -/
theorem limit_letters {l : List Char} (h : Spells (anyCase "limit") l) :
    ∀ c ∈ l, isBlank c = false ∧ isDigit c = false ∧ c ≠ ',' := by
  intro c hc
  have := all_of_spells (p := fun d => !isBlank d && !isDigit d && d ≠ ',') (by decide) h c hc
  simpa [and_assoc] using this

/-- The letters of SELECT are no blanks. -/
theorem select_letters {l : List Char} (h : Spells (anyCase "select") l) :
    ∀ c ∈ l, isBlank c = false := by
  intro c hc
  have := all_of_spells (p := fun d => !isBlank d) (by decide) h c hc
  simpa using this

theorem select_head {select : List Char} (h : Spells (anyCase "select") select) :
    ∃ c s, select = c :: s ∧ (c = 's' ∨ c = 'S') := by
  have hword : "select".toList = 's' :: ['e', 'l', 'e', 'c', 't'] := by decide
  have hupper : 's'.toUpper = 'S' := by decide
  exact hupper ▸ exists_cons_of_spells hword h

theorem select_solid {select : List Char} (hselect : Spells (anyCase "select") select) (v : List Char) :
    ∀ c ∈ (select ++ v).head?, isBlank c = false := by
  obtain ⟨c, s, rfl, -⟩ := select_head hselect
  intro d hd
  obtain rfl : c = d := by simpa using hd
  exact select_letters hselect c List.mem_cons_self

theorem limit_ne_nil {l : List Char} (h : Spells (anyCase "limit") l) : l ≠ [] := by
  rintro rfl
  have := h.length_eq
  simp [anyCase] at this

/-- A text of blanks, digits and commas. -/
def Numeric (z : List Char) : Prop :=
  ∀ c ∈ z, isBlank c = true ∨ isDigit c = true ∨ c = ','

theorem Numeric.limit_notMem {z l : List Char} (hz : Numeric z) (h : Spells (anyCase "limit") l)
    {c : Char} (hc : c ∈ l) : c ∉ z := by
  intro hcz
  obtain ⟨hb, hd, hcomma⟩ := limit_letters h c hc
  rcases hz c hcz with h | h | h
  · simp [hb] at h
  · simp [hd] at h
  · exact hcomma h

/-- Behind a text with no LIMIT and a run of blanks, the word LIMIT before a numeric text is the
only one between blanks. -/
theorem limit_unique {u g l z x l' y : List Char} {c : Char} (hu : ¬Limited u) (hg : Blanks g)
    (hne : g ≠ []) (hl : Spells (anyCase "limit") l) (hz : Numeric z) (hc : isBlank c = true)
    (hl' : Spells (anyCase "limit") l') (hy : ∀ d ∈ y.head?, isBlank d = true)
    (h : x ++ [c] ++ (l' ++ y) = u ++ g ++ (l ++ z)) :
    x ++ [c] = u ++ g ∧ l' ++ y = l ++ z := by
  obtain ⟨e, t, rfl⟩ := List.exists_cons_of_ne_nil (limit_ne_nil hl')
  have he : isBlank e = false := (limit_letters hl' e List.mem_cons_self).1
  rcases List.append_eq_append_iff.mp h with ⟨as, hug, hrest⟩ | ⟨bs, hxg, hrest⟩
  · -- the word found starts in `u`, or in the blanks behind it
    cases as with
    | nil => exact ⟨by simpa using hug.symm, by simpa using hrest⟩
    | cons e' as =>
      exfalso
      obtain ⟨rfl, -⟩ := List.cons_eq_cons.mp hrest
      rcases List.append_eq_append_iff.mp hug with ⟨bs, -, hbs⟩ | ⟨bs, hx, hbs⟩
      · have := hg e (by simp [hbs])
        simp [he] at this
      · -- the word found starts in `u` : it ends there, or covers a blank of `g`
        rw [hbs, List.append_assoc] at hrest
        rcases List.append_eq_append_iff.mp hrest with ⟨ds, rfl, rfl⟩ | ⟨ds, hword, hds⟩
        · refine hu ⟨x, c, e :: t, ds, by simpa using hx, hc, hl', fun d hd => hy d ?_⟩
          rw [List.head?_append, Option.mem_def.mp hd, Option.some_or, Option.mem_some_iff]
        · cases ds with
          | nil => exact hu ⟨x, c, e :: t, [], by simp [hx, hword], hc, hl', by simp⟩
          | cons d ds =>
            obtain ⟨b, g, rfl⟩ := List.exists_cons_of_ne_nil hne
            obtain ⟨rfl, -⟩ := List.cons_eq_cons.mp hds
            have hb := hg b List.mem_cons_self
            have := (limit_letters hl' b (by simp [hword])).1
            simp [hb] at this
  · -- the word found starts behind that of the clause
    rcases bs.eq_nil_or_concat' with rfl | ⟨bs, c', rfl⟩
    · exact ⟨by simpa using hxg, by simpa using hrest.symm⟩
    exfalso
    rw [← List.append_assoc] at hxg
    obtain rfl : c = c' := by simpa using (List.append_inj' hxg rfl).2
    rcases List.append_eq_append_iff.mp hrest with ⟨ds, hds, hz'⟩ | ⟨ds, rfl, hds⟩
    · exact hz.limit_notMem hl' List.mem_cons_self (by simp [hz'])
    · have := (limit_letters hl c (by simp)).1
      simp [hc] at this


theorem Limited.append {v : List Char} (h : Limited v) (u : List Char) : Limited (u ++ v) := by
  obtain ⟨x, c, l, y, rfl, hc, hl, hy⟩ := h
  exact ⟨u ++ x, c, l, y, by simp, hc, hl, hy⟩

/-- Blanks at the end do not make the word. -/
theorem Limited.of_append_blanks {u w : List Char} (hw : Blanks w) (h : Limited (u ++ w)) :
    Limited u := by
  obtain ⟨x, c, l, y, heq, hc, hl, hy⟩ := h
  have heq' : u ++ w = x ++ c :: l ++ y := by simpa using heq
  rcases List.append_eq_append_iff.mp heq' with ⟨as, hword, rfl⟩ | ⟨bs, rfl, rfl⟩
  · rcases as.eq_nil_or_concat' with rfl | ⟨as, d, rfl⟩
    · exact ⟨x, c, l, [], by simpa using hword.symm, hc, hl, by simp⟩
    · -- the last letter of the word would be a blank
      exfalso
      obtain ⟨l, e, rfl⟩ := l.eq_nil_or_concat'.resolve_left (limit_ne_nil hl)
      have hlast : x ++ c :: l ++ [e] = u ++ as ++ [d] := by simpa using hword
      obtain rfl : e = d := by simpa using (List.append_inj' hlast rfl).2
      have he := (limit_letters hl e (by simp)).1
      have hd := hw e (by simp)
      simp [he] at hd
  · refine ⟨x, c, l, bs, by simp, hc, hl, fun d hd => hy d ?_⟩
    rw [List.head?_append, Option.mem_def.mp hd, Option.some_or, Option.mem_some_iff]

/-- The word starts behind the first blank at the earliest. -/
theorem Limited.of_append_solid {u v : List Char} (hu : ∀ c ∈ u, isBlank c = false)
    (h : Limited (u ++ v)) : Limited v := by
  obtain ⟨x, c, l, y, heq, hc, hl, hy⟩ := h
  rcases List.append_eq_append_iff.mp heq with ⟨as, rfl, rfl⟩ | ⟨bs, rfl, hbs⟩
  · exact ⟨as, c, l, y, rfl, hc, hl, hy⟩
  · cases bs with
    | nil => exact ⟨[], c, l, y, by simpa using hbs.symm, hc, hl, hy⟩
    | cons d bs =>
      obtain ⟨rfl, -⟩ := List.cons_eq_cons.mp hbs
      have := hu c (by simp)
      simp [hc] at this

theorem limited_cons {d : Char} {v : List Char} (h : Limited (d :: v)) :
    (∃ l y, v = l ++ y ∧ Spells (anyCase "limit") l ∧ ∀ e ∈ y.head?, isBlank e = true) ∨
      Limited v := by
  obtain ⟨x, c, l, y, heq, hc, hl, hy⟩ := h
  cases x with
  | nil =>
    obtain ⟨-, rfl⟩ := List.cons_eq_cons.mp heq
    exact .inl ⟨l, y, rfl, hl, hy⟩
  | cons d' x =>
    obtain ⟨-, rfl⟩ := List.cons_eq_cons.mp heq
    exact .inr ⟨x, c, l, y, rfl, hc, hl, hy⟩

/-- A run of blanks and what follows it are told apart by the first character that is no blank. -/
theorem blanks_unique {w w' v v' : List Char} (hw : Blanks w) (hw' : Blanks w')
    (hv : ∀ c ∈ v.head?, isBlank c = false) (hv' : ∀ c ∈ v'.head?, isBlank c = false)
    (h : w ++ v = w' ++ v') : w = w' ∧ v = v' := by
  have hsplit := Re.head_splits (p := isBlank) hw hv
  rw [h, Re.head_splits hw' hv', Option.some.injEq, Prod.mk.injEq] at hsplit
  exact ⟨hsplit.1.symm, hsplit.2.symm⟩

namespace Numbers

theorem head_solid (z : Numbers) : ∀ c ∈ z.text.head?, isBlank c = false := by
  have hhead : ∀ (n : Number) (v : List Char), ∀ c ∈ (n.digits ++ v).head?, isBlank c = false := by
    intro n v c hc
    rw [List.head?_append_of_ne_nil _ n.digits_ne] at hc
    exact n.head_solid c hc
  cases z with
  | count b => exact b.head_solid
  | range a w w' hw hw' b => exact hhead a _

theorem numeric (z : Numbers) : Numeric z.text := by
  cases z with
  | count b => exact fun c hc => .inr (.inl (b.isDigit c hc))
  | range a w w' hw hw' b =>
    intro c hc
    simp only [text, List.mem_append, List.mem_cons] at hc
    rcases hc with hc | hc | rfl | hc | hc
    · exact .inr (.inl (a.isDigit c hc))
    · exact .inl (hw c hc)
    · exact .inr (.inr rfl)
    · exact .inl (hw' c hc)
    · exact .inr (.inl (b.isDigit c hc))

end Numbers

namespace BaseSelect

variable (q : BaseSelect)

theorem body_notLimited : ¬Limited q.body := fun h =>
  q.notLimited (by simpa using h.append (q.lead ++ (q.select ++ q.gap)))

/-- Behind a blank the body does not start with the word either. -/
theorem blank_notLimited {d : Char} : ¬Limited (d :: q.body) := by
  intro h
  rcases limited_cons h with ⟨l, y, hbody, hl, hy⟩ | h
  · obtain ⟨g, c, hgap⟩ := q.gap.eq_nil_or_concat'.resolve_left q.gap_ne
    refine q.notLimited ⟨q.lead ++ (q.select ++ g), c, l, y, ?_, q.gap_blank c (by simp [hgap]), hl, hy⟩
    simp [hgap, hbody]
  · exact q.body_notLimited h

theorem counted_notLimited : ¬Limited q.counted := by
  intro h
  have hhead : q.counted =
      "select".toList ++ ' ' :: 'S' :: ("QL_CALC_FOUND_ROWS".toList ++ ' ' :: q.body) := by
    rfl
  rw [hhead] at h
  have hsolid : ∀ u : List Char, (u.all fun c => !isBlank c) = true → ∀ c ∈ u, isBlank c = false := by
    intro u hu c hc
    simpa using List.all_eq_true.mp hu c hc
  rcases limited_cons (h.of_append_solid (hsolid _ (by decide))) with ⟨l, y, hword, hl, -⟩ | h
  · -- no letter of LIMIT is an S
    obtain ⟨e, l, rfl⟩ := List.exists_cons_of_ne_nil (limit_ne_nil hl)
    obtain ⟨rfl, -⟩ := List.cons_eq_cons.mp hword
    have := all_of_spells (p := fun d => d ≠ 'S') (by decide) hl 'S' List.mem_cons_self
    simp at this
  · exact q.blank_notLimited
      (h.of_append_solid (u := "SQL_CALC_FOUND_ROWS".toList) (hsolid _ (by decide)))

end BaseSelect

/-! ## The two halves of the patterns -/

namespace Re

variable {p : Char → Bool} {r : Re} {before cs : List Char} {h : Hit}

theorem mem_run_plus : h ∈ (plus p).run before cs ↔
    ∃ t u, cs = t ++ u ∧ t ≠ [] ∧ (∀ c ∈ t, p c = true) ∧ h = ⟨t, u, []⟩ := by
  constructor
  · intro hr
    obtain ⟨h₁, hr₁, h₂, hr₂, rfl⟩ := mem_run_seq.mp hr
    obtain ⟨t, u, rfl, ht, rfl⟩ := mem_run_lit.mp hr₁
    obtain ⟨t', u', rfl, ht', rfl⟩ := mem_run_star.mp hr₂
    obtain ⟨c, hc, rfl⟩ : ∃ c, p c = true ∧ t = [c] := by
      cases ht with
      | cons hc ht =>
        cases ht
        exact ⟨_, hc, rfl⟩
    exact ⟨c :: t', u', rfl, by simp, List.forall_mem_cons.mpr ⟨hc, ht'⟩, rfl⟩
  · rintro ⟨t, u, rfl, hne, ht, rfl⟩
    obtain ⟨c, t, rfl⟩ := List.exists_cons_of_ne_nil hne
    obtain ⟨hc, ht⟩ := List.forall_mem_cons.mp ht
    exact mem_run_seq.mpr ⟨⟨[c], t ++ u, []⟩, mem_run_lit.mpr ⟨[c], t ++ u, rfl, .cons hc .nil, rfl⟩,
      ⟨t, u, []⟩, mem_run_star.mpr ⟨t, u, rfl, ht, rfl⟩, rfl⟩

theorem head_run_plus (before : List Char) {t u : List Char} (hne : t ≠ []) (ht : ∀ c ∈ t, p c = true)
    (hu : ∀ c ∈ u.head?, p c = false) : ((plus p).run before (t ++ u)).head? = some ⟨t, u, []⟩ := by
  obtain ⟨c, t, rfl⟩ := List.exists_cons_of_ne_nil hne
  obtain ⟨hc, ht⟩ := List.forall_mem_cons.mp ht
  have hlit : ((lit [p]).run before ([c] ++ (t ++ u))).head? = some ⟨[c], t ++ u, []⟩ :=
    head_run_lit _ (.cons hc .nil)
  exact head_run_seq hlit (head_run_star _ ht hu)

/-- A way through `\s+limit\s+`. -/
theorem exists_of_head_run_limitThen (hr : ((limitThen r).run before cs).head? = some h) :
    ∃ g c l w v h', cs = g ++ [c] ++ (l ++ (w ++ v)) ∧ Blanks g ∧ isBlank c = true ∧
      Spells (anyCase "limit") l ∧ Blanks w ∧ w ≠ [] ∧
      (r.run (before ++ (g ++ [c]) ++ l ++ w) v).head? = some h' ∧
      h = ⟨g ++ [c] ++ (l ++ (w ++ h'.taken)), h'.rest, h'.groups⟩ := by
  obtain ⟨h₁, hr₁, h₁', hrest₁, rfl⟩ := exists_of_head_run_seq hr
  obtain ⟨t, cs, rfl, ht, hblank, rfl⟩ := mem_run_plus.mp hr₁
  obtain ⟨h₂, hr₂, h₂', hrest₂, rfl⟩ := exists_of_head_run_seq hrest₁
  obtain ⟨l, cs, rfl, hl, rfl⟩ := mem_run_lit.mp hr₂
  obtain ⟨h₃, hr₃, h', hrest₃, rfl⟩ := exists_of_head_run_seq hrest₂
  obtain ⟨w, v, rfl, hw, hwb, rfl⟩ := mem_run_plus.mp hr₃
  obtain ⟨g, c, rfl⟩ : ∃ g c, t = g ++ [c] :=
    ⟨t.dropLast, t.getLast ht, (List.dropLast_concat_getLast ht).symm⟩
  refine ⟨g, c, l, w, v, h', rfl, fun d hd => hblank d (List.mem_append_left _ hd),
    hblank c (by simp), hl, hwb, hw, by simpa using hrest₃, ?_⟩
  simp [Hit.append]

/-- The numbers start with a digit. -/
theorem digit_of_head_run_numbersThen {i j : ℕ}
    (hr : ((numbersThen i j r).run before cs).head? = some h) : ∃ d v, cs = d :: v ∧ isDigit d = true := by
  obtain ⟨h₁, hr₁, -⟩ := exists_of_head_run_seq hr
  obtain ⟨h₂, hr₂, -⟩ := mem_run_group.mp hr₁
  obtain ⟨t, u, rfl, hne, ht, -⟩ := mem_run_plus.mp hr₂
  obtain ⟨d, t, rfl⟩ := List.exists_cons_of_ne_nil hne
  exact ⟨d, t ++ u, rfl, ht d List.mem_cons_self⟩

/-- The first way through the numbers, if each part ends where the next begins. -/
theorem head_run_numbersThen_append {a w c w' b : List Char} (i j : ℕ) (hane : a ≠ [])
    (ha : ∀ d ∈ a, isDigit d = true) (hw : Blanks w)
    (hc : c = [','] ∨ c = [] ∧ (w' ++ b).head? ≠ some ',') (hw' : Blanks w')
    (hb : ∀ d ∈ b, isDigit d = true)
    (ha_end : ∀ d ∈ (w ++ (c ++ (w' ++ b))).head?, isDigit d = false)
    (hw_end : ∀ d ∈ (c ++ (w' ++ b)).head?, isBlank d = false)
    (hr : (r.run (before ++ (a ++ (w ++ (c ++ (w' ++ b))))) []).head? = some ⟨[], [], []⟩) :
    ((numbersThen i j r).run before (a ++ (w ++ (c ++ (w' ++ b))))).head? =
      some ⟨a ++ (w ++ (c ++ (w' ++ b))), [], [(i, a), (j, b)]⟩ := by
  have hw'_end : ∀ d ∈ b.head?, isBlank d = false := fun d hd =>
    isBlank_of_isDigit (hb d (List.mem_of_head? hd))
  have hopt : ((opt (lit [(· = ',')])).run (before ++ a ++ w) (c ++ (w' ++ b))).head? =
      some ⟨c, w' ++ b, []⟩ := by
    rcases hc with rfl | ⟨rfl, hne⟩
    · exact head_run_opt (head_run_lit _ (.cons (by decide) .nil))
    · refine head_run_opt_none (List.eq_nil_iff_forall_not_mem.mpr fun h hmem => ?_)
      obtain ⟨t, u, ht, hspells, -⟩ := mem_run_lit.mp hmem
      cases hspells with
      | cons hd _ => exact hne (by rw [← List.nil_append (w' ++ b), ht, of_decide_eq_true hd]; rfl)
  have hj := head_run_seq (head_run_group (n := j)
    (head_run_star (before ++ a ++ w ++ c ++ w') hb (u := []) (by simp))) (by simpa using hr)
  have hw' := head_run_seq (head_run_star (before ++ a ++ w ++ c) hw' hw'_end) (by simpa using hj)
  have hc := head_run_seq hopt (by simpa using hw')
  have hw := head_run_seq (head_run_star (before ++ a) hw hw_end) (by simpa using hc)
  have hi := head_run_group (n := i) (head_run_plus before hane ha ha_end)
  simpa [Hit.append, numbersThen] using head_run_seq hi hw

/-- At the numbers of a clause, the groups take them as they stand. -/
theorem head_run_numbersThen (z : Numbers) (i j : ℕ)
    (hr : (r.run (before ++ z.text) []).head? = some ⟨[], [], []⟩) :
    ((numbersThen i j r).run before z.text).head? =
      some ⟨z.text, [], [(i, z.fst), (j, z.snd)]⟩ := by
  cases z with
  | count b =>
    have hrun := head_run_numbersThen_append (a := b.digits) (b := []) i j b.digits_ne b.isDigit
      blanks_nil (.inr ⟨rfl, by simp⟩) blanks_nil (by simp) (by simp) (by simp)
      (by simpa [Numbers.text] using hr)
    simpa [Numbers.text, Numbers.fst, Numbers.snd] using hrun
  | range a w w' hw hw' b =>
    have hrun := head_run_numbersThen_append (c := [',']) i j a.digits_ne a.isDigit hw (.inl rfl) hw'
      b.isDigit (hw.comma_head _) (by simp [isBlank]) (by simpa [Numbers.text] using hr)
    simpa only [Numbers.text, Numbers.fst, Numbers.snd, List.singleton_append] using hrun

/-- What is found by a pattern with `\s+limit\s+` after its first part. -/
theorem exists_of_find_limitThen {r₁ : Re} {skipped : List Char}
    (hf : (seq r₁ (limitThen r)).find [] cs = some (skipped, h)) :
    ∃ h₁ g c l w v h', cs = skipped ++ h₁.taken ++ g ++ [c] ++ (l ++ (w ++ v)) ∧ Blanks g ∧
      isBlank c = true ∧ Spells (anyCase "limit") l ∧ Blanks w ∧ w ≠ [] ∧
      (∃ cs', h₁ ∈ r₁.run skipped cs') ∧ (∃ before, (r.run before v).head? = some h') ∧
      h = h₁.append ⟨g ++ [c] ++ (l ++ (w ++ h'.taken)), h'.rest, h'.groups⟩ := by
  obtain ⟨hcs, hrun⟩ := find_eq_some hf
  obtain ⟨h₁, hmem, h₂, hrun₂, rfl⟩ := exists_of_head_run_seq hrun
  obtain ⟨g, c, l, w, v, h', hrest, hg, hc, hl, hw, hwne, hrun', rfl⟩ :=
    exists_of_head_run_limitThen hrun₂
  have htaken := append_of_mem_run hmem
  rw [hrest] at htaken
  rw [List.append_assoc skipped, htaken] at hcs
  exact ⟨h₁, g, c, l, w, v, h', by simpa using hcs, hg, hc, hl, hw, hwne, ⟨_, by simpa using hmem⟩,
    ⟨_, hrun'⟩, rfl⟩

theorem run_seq_ne_nil {r₁ r₂ : Re} {h₁ : Hit} (hr₁ : h₁ ∈ r₁.run before cs)
    (hr₂ : r₂.run (before ++ h₁.taken) h₁.rest ≠ []) : (seq r₁ r₂).run before cs ≠ [] := by
  obtain ⟨h₂, hmem⟩ := List.exists_mem_of_ne_nil _ hr₂
  exact List.ne_nil_of_mem (mem_run_seq.mpr ⟨h₁, hr₁, h₂, hmem, rfl⟩)

theorem run_limitThen_ne_nil (k : Keyword) {v : List Char}
    (hr : ∀ before, r.run before v ≠ []) :
    (limitThen r).run before (k.before ++ (k.word ++ (k.after ++ v))) ≠ [] :=
  run_seq_ne_nil (mem_run_plus.mpr ⟨k.before, _, rfl, k.before_ne, k.before_blank, rfl⟩)
    (run_seq_ne_nil (mem_run_lit.mpr ⟨k.word, _, rfl, k.word_spells, rfl⟩)
      (run_seq_ne_nil (mem_run_plus.mpr ⟨k.after, _, rfl, k.after_ne, k.after_blank, rfl⟩) (hr _)))

/-- A clause behind a text with no LIMIT is found where it is. -/
theorem find_limit (r₁ r₂ : Re) {u : List Char} (hu : ¬Limited u) (k : Keyword) (z : Numbers)
    (i j : ℕ) (hr₁ : ∀ before cs, ∃ h ∈ r₁.run before cs, h.taken = [] ∧ h.rest = cs)
    (hr₂ : ∀ before, (r₂.run before []).head? = some ⟨[], [], []⟩) :
    ∃ skipped h₁ w,
      (seq r₁ (limitThen (numbersThen i j r₂))).find [] (u ++ (Clause.limit k z).text) =
          some (skipped, h₁.append ⟨w ++ (k.word ++ (k.after ++ z.text)), [],
            [(i, z.fst), (j, z.snd)]⟩) ∧
        (∃ cs, h₁ ∈ r₁.run skipped cs) ∧ w ≠ [] ∧ Blanks w ∧
        skipped ++ h₁.taken ++ w = u ++ k.before := by
  have hnum : ∀ before, ((numbersThen i j r₂).run before z.text).head? =
      some ⟨z.text, [], [(i, z.fst), (j, z.snd)]⟩ := fun before =>
    head_run_numbersThen z i j (hr₂ _)
  have hne : (seq r₁ (limitThen (numbersThen i j r₂))).find [] (u ++ (Clause.limit k z).text) ≠
      none := by
    refine find_ne_none ?_
    obtain ⟨h₁, hmem, htaken, hrest⟩ := hr₁ ([] ++ u) (Clause.limit k z).text
    refine run_seq_ne_nil hmem ?_
    rw [hrest]
    refine run_limitThen_ne_nil k fun before hnil => ?_
    simpa [hnil] using hnum before
  obtain ⟨⟨skipped, h⟩, hf⟩ := Option.ne_none_iff_exists'.mp hne
  obtain ⟨h₁, g, c, l, w, v, h', hcs, hg, hc, hl, hw, hwne, hmem, ⟨before, hrun⟩, rfl⟩ :=
    exists_of_find_limitThen hf
  have heq : skipped ++ h₁.taken ++ g ++ [c] ++ (l ++ (w ++ v)) =
      u ++ k.before ++ (k.word ++ (k.after ++ z.text)) := by
    simpa [Clause.text] using hcs.symm
  have hblank : Numeric (k.after ++ z.text) := by
    intro d hd
    rcases List.mem_append.mp hd with hd | hd
    · exact .inl (k.after_blank d hd)
    · exact z.numeric d hd
  obtain ⟨hpos, hword⟩ :=
    limit_unique hu k.before_blank k.before_ne k.word_spells hblank hc hl (hw.head hwne v) heq
  obtain ⟨rfl, hafter⟩ :=
    List.append_inj hword (hl.length_eq.symm.trans k.word_spells.length_eq)
  obtain ⟨d, v', rfl, hd⟩ := digit_of_head_run_numbersThen hrun
  have hsolid : ∀ c ∈ (d :: v').head?, isBlank c = false := by
    intro c hc
    obtain rfl : d = c := by simpa using hc
    exact isBlank_of_isDigit hd
  obtain ⟨rfl, hv⟩ := blanks_unique hw k.after_blank hsolid z.head_solid hafter
  rw [hv, hnum, Option.some.injEq] at hrun
  subst hrun
  refine ⟨skipped, h₁, g ++ [c], hf, hmem, by simp, ?_, by simpa using hpos⟩
  exact List.forall_mem_append.mpr ⟨hg, List.forall_mem_singleton.mpr hc⟩

/-- With no LIMIT there is none to find. -/
theorem find_limitFound_none {cs : List Char} (h : ¬Limited cs) : limitFound.find [] cs = none := by
  by_contra hne
  obtain ⟨⟨skipped, hit⟩, hf⟩ := Option.ne_none_iff_exists'.mp hne
  obtain ⟨h₁, g, c, l, w, v, h', hcs, -, hc, hl, hw, hwne, -⟩ := exists_of_find_limitThen hf
  exact h ⟨skipped ++ h₁.taken ++ g, c, l, w ++ v, by simpa using hcs, hc, hl, hw.head hwne v⟩

/-- The numbers of a clause are found. -/
theorem find_limitFound {u : List Char} (hu : ¬Limited u) (k : Keyword) (z : Numbers) :
    ∃ skipped h, limitFound.find [] (u ++ (Clause.limit k z).text) = some (skipped, h) ∧
      h.get 1 = z.fst ∧ h.get 2 = z.snd := by
  obtain ⟨skipped, h₁, w, hf, ⟨cs, hmem⟩, -⟩ := find_limit (star isDot) (star isDot)
    hu k z 1 2 (fun before cs => ⟨_, mem_run_star.mpr ⟨[], cs, rfl, by simp, rfl⟩, rfl, rfl⟩)
    fun before => rfl
  obtain ⟨t, v, -, -, rfl⟩ := mem_run_star.mp hmem
  exact ⟨skipped, _, hf, rfl, rfl⟩

/-- The clause is replaced, with some of the blanks before it. -/
theorem replaceAll_limitTail {u : List Char} (hu : ¬Limited u) (k : Keyword) (z : Numbers)
    (new : List Char) :
    ∃ t w, limitTail.replaceAll (fun h => h.get 1 ++ new) (u ++ (Clause.limit k z).text) = t ++ new ∧
      w ≠ [] ∧ Blanks w ∧ t ++ w = u ++ k.before := by
  obtain ⟨skipped, h₁, w, hf, ⟨cs, hmem⟩, hne, hw, hpos⟩ :=
    find_limit (group 1 (star isDot)) eos hu k z 2 3
      (fun before cs => ⟨_, mem_run_group.mpr ⟨_, mem_run_star.mpr ⟨[], cs, rfl, by simp, rfl⟩, rfl⟩,
        rfl, rfl⟩)
      fun before => rfl
  obtain ⟨h₂, hmem₂, rfl⟩ := mem_run_group.mp hmem
  obtain ⟨t, v, -, -, rfl⟩ := mem_run_star.mp hmem₂
  refine ⟨skipped ++ t, w, ?_, hne, hw, hpos⟩
  rw [limitTail, replaceAll_of_find hf (by simp [Hit.append, hne]) rfl fun before => rfl,
    List.append_assoc]
  rfl

/-- The start of the select is replaced, whatever follows it. -/
theorem replaceFirst_selectHead_append {lead select gap v new : List Char} (hlead : Blanks lead)
    (hselect : Spells (anyCase "select") select) (hgap : Blanks gap) (hne : gap ≠ [])
    (hv : ∀ c ∈ v.head?, isBlank c = false) :
    selectHead.replaceFirst (fun _ => new) (lead ++ (select ++ (gap ++ v))) = new ++ v := by
  have hgap := head_run_plus (lead ++ select) hne hgap hv
  have hword := head_run_seq (head_run_lit lead hselect) (by simpa using hgap)
  have hlead := head_run_seq (head_run_star [] hlead (select_solid hselect _)) (by simpa using hword)
  have hbos : (bos.run [] (lead ++ (select ++ (gap ++ v)))).head? =
      some ⟨[], lead ++ (select ++ (gap ++ v)), []⟩ := rfl
  rw [selectHead, replaceFirst_of_head_run (head_run_seq hbos (by simpa using hlead))]
  rfl

theorem replaceFirst_selectHead (q : BaseSelect) (v new : List Char) :
    selectHead.replaceFirst (fun _ => new) (q.text ++ v) = new ++ (q.body ++ v) := by
  have hbody : ∀ c ∈ (q.body ++ v).head?, isBlank c = false := by
    rw [List.head?_append_of_ne_nil _ q.body_ne]
    exact q.head_solid
  simpa [BaseSelect.text] using
    replaceFirst_selectHead_append q.lead_blank q.select_spells q.gap_blank q.gap_ne hbody

end Re

/-! ## The rewritten text -/

/-- ` limit p,n` -/
def limitText (p n : ℤ) : List Char :=
  (" limit " ++ toString p ++ "," ++ toString n).toList

theorem decimalValue_ofNat (n : ℕ) : decimalValue (Number.ofNat n).digits = n :=
  Nat.ofDigitChars_ten_toDigits

theorem toList_toString_natCast (n : ℕ) : (toString (n : ℤ)).toList = Nat.toDigits 10 n :=
  Nat.toList_repr

/-- What is appended to the select is a clause. -/
theorem append_limitText {w : List Char} (hw : Blanks w) (p n : ℕ) :
    w ++ limitText p n = (Clause.window w hw p n).text := by
  have hlimit : " limit ".toList = ' ' :: ("limit".toList ++ [' ']) := by decide
  have hcomma : ",".toList = [','] := by decide
  simp only [limitText, String.toList_append, toList_toString_natCast, hlimit, hcomma]
  simp [Clause.window, Clause.text, Numbers.text, Number.ofNat]

namespace BaseSelect

variable (q : BaseSelect)

theorem last_counted : ∀ c ∈ q.counted.getLast?, isBlank c = false := by
  rw [counted, List.getLast?_append_of_ne_nil _ q.body_ne]
  exact q.last_solid

/-- Cutting blanks off the end does not reach the body. -/
theorem counted_of_append {t w v : List Char} (hw : Blanks w) (h : t ++ w = q.counted ++ v) :
    ∃ v', t = q.counted ++ v' ∧ v = v' ++ w := by
  rcases List.append_eq_append_iff.mp h with ⟨as, hcounted, rfl⟩ | ⟨bs, rfl, rfl⟩
  · rcases as.eq_nil_or_concat' with rfl | ⟨as, d, rfl⟩
    · exact ⟨[], by simpa using hcounted.symm, by simp⟩
    · have hd := q.last_counted d (by simp [hcounted])
      have := hw d (by simp)
      simp [hd] at this
  · exact ⟨bs, rfl, rfl⟩

/-- With the clause replaced, the text is the rewritten select and the new clause. -/
theorem exists_replaceAll_limitTail (k : Keyword) (z : Numbers) (p n : ℕ) :
    ∃ (w : List Char) (hw : Blanks w),
      Re.limitTail.replaceAll (fun mc => mc.get 1 ++ limitText p n)
        (q.counted ++ (Clause.limit k z).text) = q.counted ++ (Clause.window w hw p n).text := by
  obtain ⟨t, w, hreplace, -, hw, hpos⟩ :=
    Re.replaceAll_limitTail q.counted_notLimited k z (limitText p n)
  obtain ⟨v, rfl, hbefore⟩ := q.counted_of_append hw hpos
  have hv : Blanks v := fun c hc => k.before_blank c (by simp [hbefore, hc])
  refine ⟨v, hv, ?_⟩
  rw [hreplace, ← append_limitText hv, List.append_assoc]

end BaseSelect

end MySocket
