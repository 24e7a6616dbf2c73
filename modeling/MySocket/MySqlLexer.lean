import Mathlib.Data.List.Basic

/-!
# The lexer of MySQL

A statement is taken apart into words, symbols and texts in quotes; comments are dropped. In a
text a doubled quote stands for one, and a backslash escapes the next character. The lexer reads
one character at a time (`Mode.next`), so a statement can be followed piece by piece
(`lexFrom_append`).

* `lexFrom_one_iff`, `lexFrom_two_iff` : where one text, or two, are put between quotes into a
  statement, they come out as they are exactly if they are `faithful`.

The forms with a letter before the quote, and comments that hold code, are left out.
-/

namespace MySocket

namespace MySql

/-! ## The lexer -/

def quote : Char :=
  Char.ofNat 39

def doubleQuote : Char :=
  Char.ofNat 34

def backtick : Char :=
  Char.ofNat 96

def backslash : Char :=
  Char.ofNat 92

inductive Token
  /-- A keyword, a name or a number. -/
  | word (text : List Char)
  | symbol (c : Char)
  /-- A text in quotes, by its value. -/
  | text (value : List Char)
  /-- A name in backticks. -/
  | name (value : List Char)
  /-- A text or a comment that does not end. -/
  | unterminated
  deriving DecidableEq

/-- What a quote ends. -/
def quotedToken (q : Char) (value : List Char) : Token :=
  if q = backtick then .name value else .text value

/-- Where the lexer stands. -/
inductive Mode
  | plain
  | word (text : List Char)
  | quoted (q : Char) (value : List Char)
  /-- After a backslash. -/
  | escaped (q : Char) (value : List Char)
  /-- After a quote that is the end, or the first of two. -/
  | closing (q : Char) (value : List Char)
  | dash
  | dashes
  | slash
  | line
  | block
  /-- After a star in a comment. -/
  | star
  deriving DecidableEq

def isBlank (c : Char) : Bool :=
  c = ' ' || (9 ≤ c.toNat && c.toNat ≤ 13)

def isControl (c : Char) : Bool :=
  c.toNat < 32 || c.toNat = 127

def isWord (c : Char) : Bool :=
  c.isAlphanum || c = '_' || c = '$' || 128 ≤ c.toNat

/-- The value of a character after a backslash. -/
def unescape (c : Char) : List Char :=
  if c = '%' || c = '_' then [backslash, c]
  else if c = 'n' then ['\n']
  else if c = 't' then ['\t']
  else if c = 'r' then ['\r']
  else if c = 'b' then [Char.ofNat 8]
  else if c = '0' then [Char.ofNat 0]
  else if c = 'Z' then [Char.ofNat 26]
  else [c]

/-- A character that begins something. -/
def enter (c : Char) : Mode × List Token :=
  if isBlank c then (.plain, [])
  else if isWord c then (.word [c], [])
  else if c = quote || c = doubleQuote || c = backtick then (.quoted c [], [])
  else if c = '-' then (.dash, [])
  else if c = '/' then (.slash, [])
  else if c = '#' then (.line, [])
  else (.plain, [.symbol c])

/-- Tokens that end before the character. -/
def endBefore (tokens : List Token) (c : Char) : Mode × List Token :=
  ((enter c).1, tokens ++ (enter c).2)

/-- What the lexer does with a character. -/
def Mode.next : Mode → Char → Mode × List Token
  | plain, c => enter c
  | word text, c => if isWord c then (word (text ++ [c]), []) else endBefore [.word text] c
  | quoted q value, c =>
    if c = q then (closing q value, [])
    else if c = backslash && q ≠ backtick then (escaped q value, [])
    else (quoted q (value ++ [c]), [])
  | escaped q value, c => (quoted q (value ++ unescape c), [])
  | closing q value, c =>
    if c = q then (quoted q (value ++ [q]), []) else endBefore [quotedToken q value] c
  | dash, c => if c = '-' then (dashes, []) else endBefore [.symbol '-'] c
  | dashes, c =>
    -- two dashes are a comment only before a blank
    if c = '\n' then (plain, [])
    else if isBlank c || isControl c then (line, [])
    else if c = '-' then (dashes, [.symbol '-'])
    else endBefore [.symbol '-', .symbol '-'] c
  | slash, c => if c = '*' then (block, []) else endBefore [.symbol '/'] c
  | line, c => if c = '\n' then (plain, []) else (line, [])
  | block, c => if c = '*' then (star, []) else (block, [])
  | star, c => if c = '/' then (plain, []) else if c = '*' then (star, []) else (block, [])

/-- What is left at the end. -/
def Mode.finish : Mode → List Token
  | plain | line | dashes => []
  | word text => [.word text]
  | closing q value => [quotedToken q value]
  | dash => [.symbol '-']
  | slash => [.symbol '/']
  | quoted _ _ | escaped _ _ | block | star => [.unterminated]

/-- Where the lexer stands after some characters, and the tokens that have ended. -/
def Mode.read : Mode → List Char → Mode × List Token
  | m, [] => (m, [])
  | m, c :: cs => (((m.next c).1.read cs).1, (m.next c).2 ++ ((m.next c).1.read cs).2)

def lexFrom (m : Mode) (cs : List Char) : List Token :=
  (m.read cs).2 ++ (m.read cs).1.finish

def lex (sql : String) : List Token :=
  lexFrom .plain sql.toList

theorem read_cons (m : Mode) (c : Char) (cs : List Char) :
    m.read (c :: cs) = (((m.next c).1.read cs).1, (m.next c).2 ++ ((m.next c).1.read cs).2) :=
  rfl

/-- No token ends. -/
theorem read_cons_of_next {m m' : Mode} {c : Char} (h : m.next c = (m', [])) (cs : List Char) :
    m.read (c :: cs) = m'.read cs := by
  rw [read_cons, h, List.nil_append]

theorem read_append (m : Mode) (s t : List Char) :
    m.read (s ++ t) = (((m.read s).1.read t).1, (m.read s).2 ++ ((m.read s).1.read t).2) := by
  induction s generalizing m with
  | nil => rfl
  | cons c s ih => rw [List.cons_append, read_cons, ih, read_cons, List.append_assoc]

theorem lexFrom_append (m : Mode) (s t : List Char) :
    lexFrom m (s ++ t) = (m.read s).2 ++ lexFrom (m.read s).1 t := by
  rw [lexFrom, read_append, List.append_assoc, ← lexFrom]

theorem lexFrom_cons (m : Mode) (c : Char) (cs : List Char) :
    lexFrom m (c :: cs) = (m.next c).2 ++ lexFrom (m.next c).1 cs := by
  rw [lexFrom, read_cons, List.append_assoc, ← lexFrom]

/-! ## Sizes -/

/-- The characters that the texts of a statement take up at least. -/
def Token.size : Token → ℕ
  | text value | name value => value.length + 2
  | word _ | symbol _ | unterminated => 0

def size : List Token → ℕ
  | [] => 0
  | t :: ts => t.size + size ts

/-- The characters that the text has taken up so far at least. -/
def Mode.size : Mode → ℕ
  | quoted _ value => value.length + 1
  | escaped _ value | closing _ value => value.length + 2
  | plain | word _ | dash | dashes | slash | line | block | star => 0

@[simp] theorem size_nil : size [] = 0 :=
  rfl

@[simp] theorem size_cons (t : Token) (ts : List Token) : size (t :: ts) = t.size + size ts :=
  rfl

@[simp] theorem size_append (ts us : List Token) : size (ts ++ us) = size ts + size us := by
  induction ts with
  | nil => exact (Nat.zero_add _).symm
  | cons t ts ih => rw [List.cons_append, size_cons, ih, size_cons, Nat.add_assoc]

@[simp] theorem size_quotedToken (q : Char) (value : List Char) :
    (quotedToken q value).size = value.length + 2 := by
  unfold quotedToken
  split_ifs <;> rfl

theorem size_enter (c : Char) : (enter c).1.size + size (enter c).2 ≤ 1 := by
  unfold enter
  split_ifs <;> simp [Mode.size, Token.size]

theorem size_endBefore (ts : List Token) (c : Char) :
    (endBefore ts c).1.size + size (endBefore ts c).2 ≤ size ts + 1 := by
  have henter := size_enter c
  simp only [endBefore, size_append]
  omega

theorem length_unescape_le (c : Char) : (unescape c).length ≤ 2 := by
  unfold unescape
  split_ifs <;> simp

/-- A character makes a text longer by one at most. -/
theorem size_next (m : Mode) (c : Char) : (m.next c).1.size + size (m.next c).2 ≤ m.size + 1 := by
  cases m with
  | plain => exact Nat.le_trans (size_enter c) (Nat.le_add_left _ _)
  | word text =>
    rw [Mode.next]
    split_ifs
    · exact Nat.zero_le _
    · exact size_endBefore _ c
  | quoted q value =>
    rw [Mode.next]
    split_ifs <;> simp [Mode.size]
  | escaped q value =>
    have hlength := length_unescape_le c
    simp only [Mode.next, Mode.size, List.length_append, size_nil]
    omega
  | closing q value =>
    rw [Mode.next]
    split_ifs
    · simp [Mode.size]
    · simpa [Mode.size] using size_endBefore [quotedToken q value] c
  | dash | slash =>
    rw [Mode.next]
    split_ifs
    · exact Nat.zero_le _
    · exact size_endBefore _ c
  | dashes =>
    rw [Mode.next]
    split_ifs
    · exact Nat.zero_le _
    · exact Nat.zero_le _
    · exact Nat.zero_le _
    · exact size_endBefore _ c
  | line | block | star =>
    rw [Mode.next]
    split_ifs <;> exact Nat.zero_le _

theorem size_read (m : Mode) (cs : List Char) :
    (m.read cs).1.size + size (m.read cs).2 ≤ m.size + cs.length := by
  induction cs generalizing m with
  | nil => exact Nat.le_refl _
  | cons c cs ih =>
    have hnext := size_next m c
    have hrest := ih (m.next c).1
    simp only [read_cons, size_append, List.length_cons]
    omega

theorem size_finish_le (m : Mode) : size m.finish ≤ m.size := by
  cases m with
  | closing q value => simp [Mode.finish, Mode.size]
  | plain | word | quoted | escaped | dash | dashes | slash | line | block | star =>
    exact Nat.zero_le _

theorem size_lexFrom_le (m : Mode) (cs : List Char) : size (lexFrom m cs) ≤ m.size + cs.length := by
  have hread := size_read m cs
  have hfinish := size_finish_le (m.read cs).1
  rw [lexFrom, size_append]
  omega

/-! ## Texts -/

/-- Inside the quotes `q`, or after them. -/
def Mode.inText (q : Char) : Mode → Prop
  | quoted q' _ | escaped q' _ | closing q' _ => q' = q
  | plain | word _ | dash | dashes | slash | line | block | star => False

/-- A text goes on, or ends before the character. -/
theorem next_of_inText {q : Char} {m : Mode} (h : m.inText q) (c : Char) :
    (m.next c).2 = [] ∧ (m.next c).1.inText q ∨ ∃ t, m.next c = endBefore [t] c := by
  cases m with
  | quoted q value =>
    left
    rw [Mode.next]
    split_ifs <;> exact ⟨rfl, h⟩
  | escaped q value => exact .inl ⟨rfl, h⟩
  | closing q value =>
    rw [Mode.next]
    split_ifs
    · exact .inl ⟨rfl, h⟩
    · exact .inr ⟨_, rfl⟩
  | plain | word | dash | dashes | slash | line | block | star => cases h

theorem read_of_inText {q : Char} {m : Mode} (h : m.inText q) {cs : List Char}
    (hnone : (m.read cs).2 = []) : (m.read cs).1.inText q := by
  induction cs generalizing m with
  | nil => exact h
  | cons c cs ih =>
    rw [read_cons] at hnone
    obtain ⟨hnext, hrest⟩ := List.append_eq_nil_iff.mp hnone
    rcases next_of_inText h c with ⟨-, hin⟩ | ⟨t, ht⟩
    · exact ih hin hrest
    · rw [ht] at hnext
      cases hnext

/-- What comes after a text is in the characters that are left. -/
theorem size_tail_lexFrom_le {q : Char} {m : Mode} (h : m.inText q) (cs : List Char) :
    size (lexFrom m cs).tail ≤ cs.length := by
  induction cs generalizing m with
  | nil =>
    cases m with
    | quoted | escaped | closing => exact Nat.le_refl _
    | plain | word | dash | dashes | slash | line | block | star => cases h
  | cons c cs ih =>
    rw [lexFrom_cons, List.length_cons]
    rcases next_of_inText h c with ⟨hnext, hin⟩ | ⟨t, ht⟩
    · rw [hnext, List.nil_append]
      exact Nat.le_succ_of_le (ih hin)
    · have henter := size_enter c
      have hrest := size_lexFrom_le (enter c).1 cs
      simp only [ht, endBefore, List.cons_append, List.nil_append, List.tail_cons, size_append]
      omega

/-- No quote, and only such backslashes as are kept, together with the character after them. -/
def faithful : List Char → Bool
  | [] => true
  | c :: cs =>
    if c = quote then false
    else if c = backslash then (cs.head? = some '%' || cs.head? = some '_') && faithful cs
    else faithful cs

theorem faithful_cons_of_ne {c : Char} (hquote : c ≠ quote) (hbackslash : c ≠ backslash)
    (cs : List Char) : faithful (c :: cs) = faithful cs := by
  rw [faithful, if_neg hquote, if_neg hbackslash]

theorem next_quoted_of_ne {c : Char} (hquote : c ≠ quote) (hbackslash : c ≠ backslash)
    (value : List Char) :
    (Mode.quoted quote value).next c = (.quoted quote (value ++ [c]), []) := by
  rw [Mode.next, if_neg hquote, if_neg (by simp [hbackslash])]

theorem next_quoted_backslash (value : List Char) :
    (Mode.quoted quote value).next backslash = (.escaped quote value, []) :=
  rfl

theorem next_quoted_quote (value : List Char) :
    (Mode.quoted quote value).next quote = (.closing quote value, []) :=
  rfl

theorem next_closing_quote (value : List Char) :
    (Mode.closing quote value).next quote = (.quoted quote (value ++ [quote]), []) :=
  rfl

/-- The characters that keep the backslash before them. -/
def Kept (d : Char) : Prop :=
  d = '%' ∨ d = '_'

theorem Kept.unescape {d : Char} (h : Kept d) : unescape d = [backslash, d] := by
  rcases h with rfl | rfl <;> rfl

theorem Kept.ne {d : Char} (h : Kept d) : d ≠ quote ∧ d ≠ backslash := by
  rcases h with rfl | rfl <;> decide

theorem length_unescape {d : Char} (h : ¬Kept d) : (unescape d).length = 1 := by
  rw [Kept] at h
  simp only [MySql.unescape, Bool.or_eq_true, decide_eq_true_eq, if_neg h]
  split_ifs <;> rfl

theorem faithful_backslash {cs : List Char} :
    faithful (backslash :: cs) ↔ ∃ d ds, cs = d :: ds ∧ Kept d ∧ faithful ds := by
  rw [faithful, if_neg (by decide), if_pos rfl]
  cases cs with
  | nil => simp
  | cons d ds =>
    by_cases hd : Kept d
    · have hhead : ((d :: ds).head? = some '%' || (d :: ds).head? = some '_') = true := by
        simpa [Kept] using hd
      rw [hhead, Bool.true_and, faithful_cons_of_ne hd.ne.1 hd.ne.2]
      simp [hd]
    · refine iff_of_false ?_ ?_
      · simpa [Kept] using fun h => absurd h hd
      · rintro ⟨_, _, ⟨⟩, hd', -⟩
        exact hd hd'

/-- Between quotes a faithful text is its own value. -/
theorem read_of_faithful : ∀ {cs : List Char}, faithful cs → ∀ value,
    (Mode.quoted quote value).read cs = (.quoted quote (value ++ cs), [])
  | [], _, value => by rw [List.append_nil]; rfl
  | c :: cs, h, value => by
    by_cases hquote : c = quote
    · rw [faithful, if_pos hquote] at h
      cases h
    by_cases hbackslash : c = backslash
    · subst hbackslash
      obtain ⟨d, ds, rfl, hd, hds⟩ := faithful_backslash.mp h
      rw [read_cons_of_next (next_quoted_backslash value), read_cons_of_next rfl, hd.unescape,
        read_of_faithful hds, List.append_assoc]
      rfl
    · rw [faithful_cons_of_ne hquote hbackslash] at h
      rw [read_cons_of_next (next_quoted_of_ne hquote hbackslash value), read_of_faithful h,
        List.append_assoc]
      rfl

/-- A text that is not faithful and does not end has a shorter value. -/
theorem length_lt_of_not_faithful : ∀ {cs value value' : List Char}, ¬faithful cs →
    (Mode.quoted quote value).read cs = (.quoted quote value', []) →
      value'.length < value.length + cs.length
  | [], _, _, h, _ => absurd rfl h
  | c :: cs, value, value', h, hread => by
    by_cases hquote : c = quote
    · subst hquote
      rw [read_cons_of_next (next_quoted_quote value)] at hread
      cases cs with
      | nil => cases hread
      | cons d ds =>
        by_cases hd : d = quote
        · subst hd
          rw [read_cons_of_next (next_closing_quote value)] at hread
          have hsize := size_read (.quoted quote (value ++ [quote])) ds
          rw [hread] at hsize
          simp [Mode.size] at hsize ⊢
          omega
        · rw [read_cons, Mode.next, if_neg hd] at hread
          cases congrArg Prod.snd hread
    by_cases hbackslash : c = backslash
    · subst hbackslash
      rw [read_cons_of_next (next_quoted_backslash value)] at hread
      cases cs with
      | nil => cases hread
      | cons d ds =>
        rw [read_cons_of_next rfl] at hread
        by_cases hd : Kept d
        · have hds : ¬faithful ds := fun hds => h (faithful_backslash.mpr ⟨d, ds, rfl, hd, hds⟩)
          have hlt := length_lt_of_not_faithful hds hread
          simp only [hd.unescape, List.length_append, List.length_cons, List.length_nil] at hlt ⊢
          omega
        · have hsize := size_read (.quoted quote (value ++ unescape d)) ds
          rw [hread] at hsize
          simp [Mode.size, length_unescape hd] at hsize ⊢
          omega
    · rw [faithful_cons_of_ne hquote hbackslash] at h
      rw [read_cons_of_next (next_quoted_of_ne hquote hbackslash value)] at hread
      have hlt := length_lt_of_not_faithful h hread
      simp only [List.length_append, List.length_cons, List.length_nil] at hlt ⊢
      omega

/-! ## Texts put into a statement -/

theorem lexFrom_closing (value : List Char) {r : List Char} (hr : r.head? ≠ some quote) :
    lexFrom (.closing quote value) r = .text value :: lexFrom .plain r := by
  cases r with
  | nil => rfl
  | cons c cs =>
    have hnext : (Mode.closing quote value).next c = endBefore [.text value] c :=
      if_neg fun hc => hr (congrArg some hc)
    rw [lexFrom_cons, hnext, lexFrom_cons]
    rfl

/-- A text comes out as it is only if it is faithful, or the quote after it does not end it. -/
theorem faithful_or_overrun {s r : List Char} {tokens : List Token} (hr : r.head? ≠ some quote)
    (h : lexFrom (.quoted quote []) (s ++ quote :: r) = .text s :: tokens) :
    faithful s ∨ ∃ value,
      lexFrom (.quoted quote []) (s ++ quote :: r) = lexFrom (.quoted quote value) r := by
  rw [lexFrom_append] at h ⊢
  have hsize := size_read (.quoted quote []) s
  have hread : ((Mode.quoted quote []).read s).2 = [] →
      ((Mode.quoted quote []).read s).1.inText quote :=
    read_of_inText (m := .quoted quote []) rfl
  rcases hs : (Mode.quoted quote []).read s with ⟨m, out⟩
  rw [hs] at h hsize hread
  cases out with
  | cons t ts =>
    obtain rfl := (List.cons.inj h).1
    simp [Mode.size, Token.size] at hsize
    omega
  | nil =>
    have hin := hread rfl
    rw [lexFrom_cons] at h ⊢
    cases m with
    | quoted q value =>
      obtain rfl := hin
      by_contra hnot
      have hlt := length_lt_of_not_faithful (fun hf => hnot (.inl hf)) hs
      rw [next_quoted_quote] at h
      rw [List.nil_append, List.nil_append, lexFrom_closing value hr] at h
      obtain ⟨⟩ := (List.cons.inj h).1
      simp at hlt
    | escaped q value =>
      obtain rfl := hin
      exact .inr ⟨_, rfl⟩
    | closing q value =>
      obtain rfl := hin
      exact .inr ⟨_, rfl⟩
    | plain | word | dash | dashes | slash | line | block | star => exact hin.elim

/-- A text at the end of a statement. -/
theorem lexFrom_one_iff (s : List Char) :
    lexFrom (.quoted quote []) (s ++ [quote]) = [.text s] ↔ faithful s := by
  constructor
  · intro h
    rcases faithful_or_overrun (r := []) nofun h with hs | ⟨value, hover⟩
    · exact hs
    · rw [hover] at h
      cases h
  · intro hs
    rw [lexFrom_append, read_of_faithful hs]
    rfl

/-- Two texts, the second one at the end of the statement, and what is written between them. -/
theorem lexFrom_two_iff {between : List Char} {tokens : List Token} (hne : between ≠ [])
    (hbetween : faithful between) (hread : (Mode.plain).read (between ++ [quote]) =
      (.quoted quote [], tokens)) (s t : List Char) :
    lexFrom (.quoted quote []) (s ++ quote :: (between ++ quote :: (t ++ [quote]))) =
        .text s :: (tokens ++ [.text t]) ↔ faithful s ∧ faithful t := by
  have hhead : (between ++ quote :: (t ++ [quote])).head? ≠ some quote := by
    cases between with
    | nil => exact absurd rfl hne
    | cons c cs =>
      rintro ⟨⟩
      rw [faithful, if_pos rfl] at hbetween
      cases hbetween
  have hrest : lexFrom .plain (between ++ quote :: (t ++ [quote])) =
      tokens ++ lexFrom (.quoted quote []) (t ++ [quote]) := by
    rw [List.append_cons, lexFrom_append, hread]
  constructor
  · intro h
    rcases faithful_or_overrun hhead h with hs | ⟨value, hover⟩
    · rw [lexFrom_append, read_of_faithful hs, List.nil_append, lexFrom_cons, next_quoted_quote,
        List.nil_append, lexFrom_closing _ hhead, hrest, List.nil_append] at h
      have ht := List.append_cancel_left (List.cons.inj h).2
      exact ⟨hs, (lexFrom_one_iff t).mp ht⟩
    · -- the second text is then in the first, and too few characters are left for it
      rw [hover, lexFrom_append, read_of_faithful hbetween, List.nil_append, lexFrom_cons,
        next_quoted_quote, List.nil_append] at h
      have hsize := size_tail_lexFrom_le (m := .closing quote (value ++ between)) rfl (t ++ [quote])
      rw [h] at hsize
      simp [Token.size] at hsize
      omega
  · rintro ⟨hs, ht⟩
    rw [lexFrom_append, read_of_faithful hs, List.nil_append, lexFrom_cons, next_quoted_quote,
      List.nil_append, lexFrom_closing _ hhead, hrest, List.nil_append, (lexFrom_one_iff t).mpr ht]

end MySql

end MySocket
