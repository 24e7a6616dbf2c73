import MySocket.Json

/-!
# Literals of JavaScript

`eval` is what JavaScript makes of a literal in parentheses : strings in both kinds of quotes with
their escapes, decimal numbers, arrays, and objects whose keys are names, numbers or strings. It is
`none` for every other text. It is not all of a JavaScript : literals are without white space,
comments, escapes by number and computed keys here. An `Engine` says where the editions differ in
what is left.

* `Denotes` : what is read of a text that something follows, with `denotes_array` and
  `denotes_object` for the literals that are put together from others.
* `propertyName_of_isKey` : which keys need no quotes.
-/

namespace MySocket

namespace Js

/-! ## The evaluator -/

/-- `"` -/
def quotationMark : UInt16 := 0x22

/-- `'` -/
def apostrophe : UInt16 := 0x27

/-- `\` -/
def backslash : UInt16 := 0x5C

def isQuote (c : UInt16) : Bool :=
  c = quotationMark || c = apostrophe

/-- A letter of ASCII, `$` or `_`. -/
def isNameStart (c : UInt16) : Bool :=
  65 ≤ c && c ≤ 90 || 97 ≤ c && c ≤ 122 || c = unit '$' || c = unit '_'

def isNamePart (c : UInt16) : Bool :=
  isNameStart c || isDigit 10 c

def isAscii (c : UInt16) : Bool :=
  c < 0x80

/-- What an edition of JavaScript decides about literals. -/
structure Engine where
  /-- Whether a text that is not all of ASCII is an identifier name. -/
  names : JsString → Bool
  /-- Whether U+2028 and U+2029 may stand in a string literal. -/
  separators : Bool
  ascii : ∀ s, names s = true → ∀ c ∈ s, isAscii c = true → isNamePart c = true

namespace Engine

/-- An identifier name. -/
def isName (e : Engine) (s : JsString) : Bool :=
  if s.all isAscii then s.head?.any isNameStart && s.all isNamePart else e.names s

/-- A line and a paragraph separator. -/
def isSeparator (c : UInt16) : Bool :=
  c = 0x2028 || c = 0x2029

/-- What may not stand in a string literal as it is. -/
def isLineEnd (e : Engine) (c : UInt16) : Bool :=
  c = 10 || c = 13 || !e.separators && isSeparator c

end Engine

/-- The unit that is meant by a letter behind a backslash. -/
def escaped (c : UInt16) : Option UInt16 :=
  if c = unit 'n' then some 10
  else if c = unit 'r' then some 13
  else if c = unit 't' then some 9
  else if c = unit 'b' then some 8
  else if c = unit 'v' then some 11
  else if c = unit 'f' then some 12
  else if isDigit 10 c || c = unit 'x' || c = unit 'u' || c = 10 || c = 13 || Engine.isSeparator c
    then none
  else some c

/-- The string up to the quote, and what follows. -/
def stringBody (e : Engine) (quote : UInt16) : JsString → Option (JsString × JsString)
  | [] => none
  | c :: s =>
    if c = quote then some ([], s)
    else if c = backslash then
      match s with
      | [] => none
      | d :: s => (escaped d).bind fun u => (stringBody e quote s).map fun r => (u :: r.1, r.2)
    else if e.isLineEnd c then none
    else (stringBody e quote s).map fun r => (c :: r.1, r.2)

/-- What may stand behind a value. -/
def isDelimiter (c : UInt16) : Bool :=
  c = unit ',' || c = unit ']' || c = unit '}' || c = unit ')'

def notDelimiter (c : UInt16) : Bool :=
  !isDelimiter c

def notColon (c : UInt16) : Bool :=
  c ≠ unit ':'

/-- `null` -/
def nullText : JsString :=
  text "null"

/-- `toString` of a boolean. -/
def boolText (b : Bool) : JsString :=
  if b then [116, 114, 117, 101] else [102, 97, 108, 115, 101]

/-- A literal without parts that is no string. -/
def atom (s : JsString) : Option Json :=
  if s = nullText then some .null
  else if s = boolText true then some (.bool true)
  else if s = boolText false then some (.bool false)
  else if s.head? = some (unit '-') then (literalNumber s.tail).map fun d => .num d.neg
  else (literalNumber s).map .num

/-- `toString` of a number. -/
def Number.text : Number → JsString
  | nan => [78, 97, 78]
  | infinity negative => if negative then unit '-' :: infinityText else infinityText
  | finite d => numberText d

/-- The key that is meant by a name or a number. -/
def propertyName (e : Engine) (s : JsString) : Option JsString :=
  if e.isName s then some s else (numericLiteral s).map fun q => (Number.round q).text

/-- A key with a colon behind it. -/
def beforeColon (k : JsString) : JsString → Option (JsString × JsString)
  | [] => none
  | c :: s => if c = unit ':' then some (k, s) else none

/-- The key of a member, and what follows the colon. -/
def memberName (e : Engine) : JsString → Option (JsString × JsString)
  | [] => none
  | c :: s =>
    if isQuote c then (stringBody e c s).bind fun r => beforeColon r.1 r.2
    else
      (propertyName e ((c :: s).takeWhile notColon)).bind fun k =>
        beforeColon k ((c :: s).dropWhile notColon)

/-- A member, with what reads a value. -/
def memberOf (e : Engine) (value : JsString → Option (Json × JsString)) (s : JsString) :
    Option ((JsString × Json) × JsString) :=
  (memberName e s).bind fun k => (value k.2).map fun r => ((k.1, r.1), r.2)

section

variable {α : Type}

/-- What follows an item : a comma and more items, or the end. -/
def afterItem (close : UInt16) (x : α) (more : JsString → Option (List α × JsString)) :
    JsString → Option (List α × JsString)
  | [] => none
  | c :: s =>
    if c = unit ',' then (more s).map fun r => (x :: r.1, r.2)
    else if c = close then some ([x], s)
    else none

/-- Items with commas between them, and one may stand at the end. -/
def items (item : JsString → Option (α × JsString)) (close : UInt16) :
    ℕ → JsString → Option (List α × JsString)
  | 0, _ => none
  | _ + 1, [] => none
  | fuel + 1, c :: s =>
    if c = close then some ([], s)
    else (item (c :: s)).bind fun r => afterItem close r.1 (items item close fuel) r.2

end

/-- A member is added, or it takes the place of the one with its key. -/
def setMember (ms : List (JsString × Json)) (m : JsString × Json) : List (JsString × Json) :=
  if m.1 ∈ ms.map Prod.fst then ms.map fun n => if n.1 = m.1 then m else n else ms ++ [m]

/-- `__proto__` -/
def protoText : JsString :=
  [95, 95, 112, 114, 111, 116, 111, 95, 95]

/-- The object with the members. `__proto__` is no member, it sets the prototype. -/
def objectOf (ms : List (JsString × Json)) : Option Json :=
  if protoText ∈ ms.map Prod.fst then none else some (.obj (ms.foldl setMember []))

/-- A value and what follows it, for a text that is not longer than the first argument. -/
def value (e : Engine) : ℕ → JsString → Option (Json × JsString)
  | 0, _ => none
  | _ + 1, [] => none
  | fuel + 1, c :: s =>
    if isQuote c then (stringBody e c s).map fun r => (.str r.1, r.2)
    else if c = unit '[' then
      (items (value e fuel) (unit ']') (fuel + 1) s).map fun r => (.arr r.1, r.2)
    else if c = unit '{' then
      (items (memberOf e (value e fuel)) (unit '}') (fuel + 1) s).bind fun r =>
        (objectOf r.1).map fun v => (v, r.2)
    else
      (atom ((c :: s).takeWhile notDelimiter)).map fun v => (v, (c :: s).dropWhile notDelimiter)

/-- What a literal in parentheses is. -/
def eval (e : Engine) : JsString → Option Json
  | [] => none
  | c :: s =>
    if c = unit '(' then
      (value e s.length s).bind fun r => if r.2 = [unit ')'] then some r.1 else none
    else none

/-! ## What is read of a text -/

section

variable {α : Type} {item : JsString → Option (α × JsString)} {close sep c : UInt16}
  {s t u : JsString} {ts : List JsString} {r : Option α} {rs : List (Option α)} {fuel : ℕ}

theorem mapM_id_cons (r : Option α) (rs : List (Option α)) :
    (r :: rs).mapM id = r.bind fun x => (rs.mapM id).map (x :: ·) := by
  rw [List.mapM_cons]
  cases r with
  | none => rfl
  | some x => cases rs.mapM id <;> simp

/-- The end of a string. -/
theorem stringBody_quote (e : Engine) (c : UInt16) (s : JsString) :
    stringBody e c (c :: s) = some ([], s) := by
  rw [stringBody.eq_def]
  exact if_pos rfl

/-- A unit that stands for itself. -/
theorem stringBody_unit (e : Engine) {quote : UInt16} (s : JsString) (hquote : c ≠ quote)
    (hback : c ≠ backslash) :
    stringBody e quote (c :: s) =
      if e.isLineEnd c then none else (stringBody e quote s).map fun r => (c :: r.1, r.2) := by
  rw [stringBody.eq_def]
  exact (if_neg hquote).trans (if_neg hback)

/-- The text is read as the item, or it cannot be read. -/
structure Reads (item : JsString → Option (α × JsString)) (close : UInt16) (t : JsString)
    (r : Option α) : Prop where
  starts : ∃ c s, t = c :: s ∧ c ≠ close
  reads : ∀ c s, c = unit ',' ∨ c = close → item (t ++ c :: s) = r.map fun x => (x, c :: s)

/-- Items are read one by one. -/
theorem items_join (hclose : close ≠ unit ',') (h : List.Forall₂ (Reads item close) ts rs)
    (hfuel : ts.length < fuel) (s : JsString) :
    items item close fuel (join [unit ','] ts ++ close :: s) =
      (rs.mapM id).map fun xs => (xs, s) := by
  induction h generalizing fuel with
  | nil =>
    obtain ⟨fuel, rfl⟩ : ∃ n, fuel = n + 1 := ⟨fuel - 1, by simp at hfuel; omega⟩
    exact if_pos rfl
  | @cons t r ts rs ht hts ih =>
    obtain ⟨fuel, rfl⟩ : ∃ n, fuel = n + 1 := ⟨fuel - 1, by omega⟩
    obtain ⟨⟨c, front, rfl, hc⟩, hreads⟩ := ht
    rw [List.length_cons] at hfuel
    cases hts with
    | nil =>
      rw [join_singleton, List.cons_append, items, if_neg hc, ← List.cons_append,
        hreads close s (.inr rfl)]
      cases r with
      | none => rfl
      | some x =>
        rw [Option.map_some, Option.bind_some, afterItem, if_neg hclose, if_pos rfl]
        rfl
    | @cons u r' ts rs' hu hts =>
      rw [join_cons_cons, List.append_assoc, List.append_assoc, List.singleton_append,
        List.cons_append, items, if_neg hc, ← List.cons_append, hreads _ _ (.inl rfl)]
      cases r with
      | none => rfl
      | some x =>
        rw [Option.map_some, Option.bind_some, afterItem, if_pos rfl, ih (by omega)]
        rw [mapM_id_cons (some x), Option.bind_some, Option.map_map, Option.map_map]
        rfl

/-- A text that is not longer than the fuel holds items that are not. -/
theorem items_of_reads {item : ℕ → JsString → Option (α × JsString)} (hclose : close ≠ unit ',')
    (h : List.Forall₂ (fun t r => ∀ fuel, t.length ≤ fuel → Reads (item fuel) close t r) ts rs)
    (hfuel : (join [unit ','] ts).length ≤ fuel) (s : JsString) :
    items (item fuel) close (fuel + 1) (join [unit ','] ts ++ close :: s) =
      (rs.mapM id).map fun xs => (xs, s) := by
  have hbound : ∀ t ∈ ts, t.length ≤ fuel := fun t ht => (length_le_join_of_mem ht).trans hfuel
  have hreads : List.Forall₂ (Reads (item fuel) close) ts rs :=
    ((List.forall₂_and_left _ _).mpr ⟨hbound, h⟩).imp fun t r ht => ht.2 fuel ht.1
  have hne : ∀ t ∈ ts, t ≠ [] := by
    intro t ht
    obtain ⟨r, -, hr⟩ := exists_mem_of_forall₂ h ht
    obtain ⟨c, s, hcons, -⟩ := (hr _ le_rfl).starts
    exact fun hnil => List.cons_ne_nil c s (hcons.symm.trans hnil)
  have hcount := (length_le_join hne).trans hfuel
  exact items_join hclose hreads (by omega) s

end

/-- The text stands for what is read of it, whatever follows. It cannot be read if that is
`none`. -/
structure Denotes (e : Engine) (t : JsString) (r : Option Json) : Prop where
  starts : ∃ c s, t = c :: s ∧ isDelimiter c = false
  reads : ∀ fuel c s, t.length ≤ fuel → isDelimiter c = true →
    value e fuel (t ++ c :: s) = r.map fun v => (v, c :: s)

section

variable {e : Engine} {c : UInt16} {s t : JsString} {ts : List JsString} {r : Option Json}
  {rs : List (Option Json)} {fuel : ℕ}

theorem Denotes.ne_nil (h : Denotes e t r) : t ≠ [] := by
  obtain ⟨c, s, rfl, -⟩ := h.starts
  exact List.cons_ne_nil c s

/-- In parentheses it is evaluated. -/
theorem Denotes.eval_eq (h : Denotes e t r) : eval e (unit '(' :: (t ++ [unit ')'])) = r := by
  have hlen : t.length ≤ (t ++ [unit ')']).length := by
    rw [List.length_append]
    omega
  rw [eval, if_pos rfl, h.reads _ _ _ hlen (by decide)]
  cases r <;> rfl

theorem takeWhile_notDelimiter (ht : ∀ c ∈ t, isDelimiter c = false) (hc : isDelimiter c = true) :
    (t ++ c :: s).takeWhile notDelimiter = t := by
  rw [List.takeWhile_append_of_pos fun c hc => by simp [notDelimiter, ht c hc],
    List.takeWhile_cons_of_neg (by simp [notDelimiter, hc]), List.append_nil]

theorem dropWhile_notDelimiter (ht : ∀ c ∈ t, isDelimiter c = false) (hc : isDelimiter c = true) :
    (t ++ c :: s).dropWhile notDelimiter = c :: s := by
  rw [List.dropWhile_append_of_pos fun c hc => by simp [notDelimiter, ht c hc],
    List.dropWhile_cons_of_neg (by simp [notDelimiter, hc])]

theorem denotes_atom (ht : ∀ c ∈ t, isDelimiter c = false)
    (hstart : ∃ c s, t = c :: s ∧ isQuote c = false ∧ c ≠ unit '[' ∧ c ≠ unit '{') :
    Denotes e t (atom t) := by
  obtain ⟨c, front, rfl, hquote, harr, hobj⟩ := hstart
  refine ⟨⟨c, front, rfl, ht c List.mem_cons_self⟩, fun fuel d s hfuel hd => ?_⟩
  obtain ⟨fuel, rfl⟩ : ∃ n, fuel = n + 1 := ⟨fuel - 1, by simp at hfuel; omega⟩
  rw [List.cons_append, value, if_neg (by simp [hquote]), if_neg harr, if_neg hobj,
    ← List.cons_append, takeWhile_notDelimiter ht hd, dropWhile_notDelimiter ht hd]

theorem denotes_string {b : Option JsString}
    (h : ∀ s, stringBody e quotationMark (t ++ quotationMark :: s) = b.map fun x => (x, s)) :
    Denotes e (quotationMark :: (t ++ [quotationMark])) (b.map .str) := by
  refine ⟨⟨quotationMark, t ++ [quotationMark], rfl, by decide⟩, fun fuel d s hfuel hd => ?_⟩
  obtain ⟨fuel, rfl⟩ : ∃ n, fuel = n + 1 := ⟨fuel - 1, by simp at hfuel; omega⟩
  rw [List.cons_append, value, if_pos (by decide), List.append_assoc, List.singleton_append, h,
    Option.map_map, Option.map_map]
  rfl

/-- A text is read as an item where it stands for a value. -/
theorem Denotes.reads_value (h : Denotes e t r) {close : UInt16} (hclose : isDelimiter close = true)
    (hfuel : t.length ≤ fuel) : Reads (value e fuel) close t r := by
  obtain ⟨c, s, rfl, hc⟩ := h.starts
  refine ⟨⟨c, s, rfl, ?_⟩, fun d s hd => h.reads fuel d s hfuel ?_⟩
  · rintro rfl
    rw [hclose] at hc
    cases hc
  · rcases hd with rfl | rfl
    · decide
    · exact hclose

theorem denotes_array (h : List.Forall₂ (Denotes e) ts rs) :
    Denotes e (unit '[' :: (join [unit ','] ts ++ [unit ']'])) ((rs.mapM id).map .arr) := by
  refine ⟨⟨unit '[', _, rfl, by decide⟩, fun fuel d s hfuel hd => ?_⟩
  obtain ⟨fuel, rfl⟩ : ∃ n, fuel = n + 1 := ⟨fuel - 1, by simp at hfuel; omega⟩
  rw [List.length_cons, List.length_append, List.length_singleton] at hfuel
  have hreads : List.Forall₂
      (fun t r => ∀ fuel, t.length ≤ fuel → Reads (value e fuel) (unit ']') t r) ts rs := by
    refine h.imp ?_
    intro t r ht fuel hfuel
    exact ht.reads_value (by decide) hfuel
  have hlen : (join [unit ','] ts).length ≤ fuel := by omega
  have hitems := items_of_reads (by decide) hreads hlen (d :: s)
  rw [List.cons_append, value, if_neg (by decide), if_pos rfl, List.append_assoc,
    List.singleton_append, hitems, Option.map_map, Option.map_map]
  rfl

end

/-! ### Keys -/

/-- A key that is a name, or the text of a number that is not negative. -/
def IsKey (e : Engine) (k : JsString) : Prop :=
  e.isName k = true ∧ k ≠ protoText ∨ ∃ d : Double, 0 ≤ d.val ∧ k = numberText d

/-- A quote, a colon or a delimiter. -/
def isMark (c : UInt16) : Bool :=
  isQuote c || c = unit ':' || isDelimiter c

section

variable {e : Engine} {c : UInt16} {k s t : JsString} {r : Option Json} {fuel : ℕ}

theorem not_isMark (h : isAscii c = true → isNamePart c = true ∨ isNumberUnit c = true) :
    isMark c = false := by
  by_contra hmark
  simp only [isMark, isQuote, isDelimiter, Bool.or_eq_true, decide_eq_true_eq, Bool.not_eq_false]
    at hmark
  rcases hmark with ((rfl | rfl) | rfl) | ((rfl | rfl) | rfl) | rfl <;> revert h <;> decide

theorem not_isMark_iff :
    isMark c = false ↔ isQuote c = false ∧ c ≠ unit ':' ∧ isDelimiter c = false := by
  rw [isMark, Bool.or_eq_false_iff, Bool.or_eq_false_iff, decide_eq_false_iff_not, and_assoc]

theorem ne_nil_of_isName (h : e.isName s = true) : s ≠ [] := by
  rintro rfl
  cases h

theorem not_isMark_of_isName (h : e.isName s = true) : ∀ c ∈ s, isMark c = false := by
  refine fun c hc => not_isMark fun hascii => .inl ?_
  unfold Engine.isName at h
  split_ifs at h with hall
  · rw [Bool.and_eq_true, List.all_eq_true] at h
    exact h.2 c hc
  · exact e.ascii s h c hc hascii

theorem not_isMark_of_unsignedDecimal {q : ℚ} (h : unsignedDecimal s = some q) :
    ∀ c ∈ s, isMark c = false :=
  fun c hc => not_isMark fun _ => .inr (isNumberUnit_of_unsignedDecimal h c hc)

theorem not_isMark_of_literalNumber {d : Double} (h : literalNumber s = some d) :
    ∀ c ∈ s, isMark c = false := by
  obtain ⟨q, hq⟩ := unsignedDecimal_of_literalNumber h
  exact not_isMark_of_unsignedDecimal hq

theorem numberText_of_nonneg {d : Double} (hd : 0 ≤ d.val) : numberText d = positiveText d :=
  if_neg hd.not_gt

theorem IsKey.ne_nil (h : IsKey e k) : k ≠ [] := by
  rcases h with ⟨hname, -⟩ | ⟨d, hd, rfl⟩
  · exact ne_nil_of_isName hname
  · obtain ⟨q, hq⟩ := unsignedDecimal_of_literalNumber (literalNumber_positiveText hd)
    obtain ⟨c, t, heq, -⟩ := exists_cons_of_unsignedDecimal hq
    rw [numberText_of_nonneg hd, heq]
    exact List.cons_ne_nil c t

theorem IsKey.not_isMark (h : IsKey e k) : ∀ c ∈ k, isMark c = false := by
  rcases h with ⟨hname, -⟩ | ⟨d, hd, rfl⟩
  · exact not_isMark_of_isName hname
  · rw [numberText_of_nonneg hd]
    exact not_isMark_of_literalNumber (literalNumber_positiveText hd)

theorem IsKey.ne_protoText (h : IsKey e k) : k ≠ protoText := by
  rcases h with ⟨-, hne⟩ | ⟨d, hd, rfl⟩
  · exact hne
  · obtain ⟨q, hq⟩ := unsignedDecimal_of_literalNumber (literalNumber_positiveText hd)
    rw [numberText_of_nonneg hd]
    intro heq
    have hunit := isNumberUnit_of_unsignedDecimal hq (unit '_') (heq ▸ List.mem_cons_self)
    exact absurd hunit (by decide)

/-- Such a key is what is meant by it without quotes. -/
theorem propertyName_of_isKey (h : IsKey e k) : propertyName e k = some k := by
  unfold propertyName
  split_ifs with hname
  · rfl
  · rcases h with ⟨hname', -⟩ | ⟨d, hd, rfl⟩
    · exact absurd hname' hname
    · have hread := literalNumber_positiveText hd
      rw [← numberText_of_nonneg hd] at hread
      obtain ⟨q, hq, hround⟩ := Option.bind_eq_some_iff.mp hread
      rw [hq, Option.map_some]
      cases hnum : Number.round q with
      | nan => simp [hnum] at hround
      | infinity negative => simp [hnum] at hround
      | finite d' =>
        simp only [hnum, Option.some.injEq] at hround
        rw [hround]
        rfl

theorem memberName_of_isKey (h : IsKey e k) (s : JsString) :
    memberName e (k ++ unit ':' :: s) = some (k, s) := by
  obtain ⟨c, t, rfl⟩ := List.exists_cons_of_ne_nil h.ne_nil
  have hmark := h.not_isMark
  have hquote : ¬isQuote c = true :=
    Bool.eq_false_iff.mp (not_isMark_iff.mp (hmark c List.mem_cons_self)).1
  have hcolon : ∀ d ∈ c :: t, notColon d = true := fun d hd =>
    decide_eq_true (not_isMark_iff.mp (hmark d hd)).2.1
  have htake : (c :: t ++ unit ':' :: s).takeWhile notColon = c :: t := by
    rw [List.takeWhile_append_of_pos hcolon, List.takeWhile_cons_of_neg (by decide),
      List.append_nil]
  have hdrop : (c :: t ++ unit ':' :: s).dropWhile notColon = unit ':' :: s := by
    rw [List.dropWhile_append_of_pos hcolon, List.dropWhile_cons_of_neg (by decide)]
  rw [List.cons_append] at htake hdrop ⊢
  rw [memberName, if_neg hquote, htake, hdrop, propertyName_of_isKey h, Option.bind_some,
    beforeColon, if_pos rfl]

theorem Denotes.reads_member (h : Denotes e t r) (hk : IsKey e k)
    (hfuel : (k ++ unit ':' :: t).length ≤ fuel) :
    Reads (memberOf e (value e fuel)) (unit '}') (k ++ unit ':' :: t)
      (r.map fun v => (k, v)) := by
  constructor
  · obtain ⟨c, s, rfl⟩ := List.exists_cons_of_ne_nil hk.ne_nil
    refine ⟨c, _, rfl, ?_⟩
    rintro rfl
    exact absurd (hk.not_isMark _ List.mem_cons_self) (by decide)
  · intro c s hc
    have hlen : t.length ≤ fuel := by
      rw [List.length_append, List.length_cons] at hfuel
      omega
    have hdelimiter : isDelimiter c = true := by
      rcases hc with rfl | rfl <;> decide
    rw [List.append_assoc, List.cons_append, memberOf, memberName_of_isKey hk, Option.bind_some,
      h.reads fuel c s hlen hdelimiter, Option.map_map, Option.map_map]
    rfl

/-- The text stands for a member with such a key. -/
def MemberDenotes (e : Engine) (t : JsString) (r : Option (JsString × Json)) : Prop :=
  ∃ k u x, t = k ++ unit ':' :: u ∧ IsKey e k ∧ Denotes e u x ∧ r = x.map fun v => (k, v)

theorem denotes_object {ts : List JsString} {rs : List (Option (JsString × Json))}
    (h : List.Forall₂ (MemberDenotes e) ts rs) :
    Denotes e (unit '{' :: (join [unit ','] ts ++ [unit '}']))
      ((rs.mapM id).bind objectOf) := by
  refine ⟨⟨unit '{', _, rfl, by decide⟩, fun fuel d s hfuel hd => ?_⟩
  obtain ⟨fuel, rfl⟩ : ∃ n, fuel = n + 1 := ⟨fuel - 1, by simp at hfuel; omega⟩
  rw [List.length_cons, List.length_append, List.length_singleton] at hfuel
  have hreads : List.Forall₂
      (fun t r => ∀ fuel, t.length ≤ fuel → Reads (memberOf e (value e fuel)) (unit '}') t r)
      ts rs := by
    refine h.imp ?_
    rintro t r ⟨k, u, x, rfl, hkey, hu, rfl⟩ fuel hfuel
    exact hu.reads_member hkey hfuel
  have hlen : (join [unit ','] ts).length ≤ fuel := by omega
  have hitems := items_of_reads (by decide) hreads hlen (d :: s)
  rw [List.cons_append, value, if_neg (by decide), if_neg (by decide), if_pos rfl,
    List.append_assoc, List.singleton_append, hitems]
  cases rs.mapM id <;> rfl

end

/-- Every key can be written without quotes. -/
def NamedKeys (e : Engine) (v : Json) : Prop :=
  v.All fun w => ∀ k ∈ w.keys, IsKey e k

section

variable {e : Engine}

theorem namedKeys_obj {ms : List (JsString × Json)} :
    NamedKeys e (.obj ms) ↔ ∀ m ∈ ms, IsKey e m.1 ∧ NamedKeys e m.2 := by
  rw [NamedKeys, Json.all_obj, Json.keys, List.forall_mem_map, ← forall₂_and]
  rfl

theorem namedKeys_arr {xs : List Json} : NamedKeys e (.arr xs) ↔ ∀ x ∈ xs, NamedKeys e x := by
  rw [NamedKeys, Json.all_arr]
  exact and_iff_right fun k hk => absurd hk List.not_mem_nil

theorem namedKeys_null : NamedKeys e .null :=
  Json.all_null.mpr fun _ hk => absurd hk List.not_mem_nil

theorem namedKeys_bool (b : Bool) : NamedKeys e (.bool b) :=
  Json.all_bool.mpr fun _ hk => absurd hk List.not_mem_nil

theorem namedKeys_num (d : Double) : NamedKeys e (.num d) :=
  Json.all_num.mpr fun _ hk => absurd hk List.not_mem_nil

theorem namedKeys_str (s : JsString) : NamedKeys e (.str s) :=
  Json.all_str.mpr fun _ hk => absurd hk List.not_mem_nil

end

/-! ### Members -/

section

variable {ms acc : List (JsString × Json)} {m : JsString × Json}

theorem mem_setMember {n : JsString × Json} (h : n ∈ setMember ms m) : n ∈ ms ∨ n = m := by
  unfold setMember at h
  split_ifs at h with hmem
  · obtain ⟨n', hn', hn⟩ := List.mem_map.mp h
    split_ifs at hn
    · exact .inr hn.symm
    · exact .inl (hn ▸ hn')
  · rcases List.mem_append.mp h with h | h
    · exact .inl h
    · exact .inr (List.mem_singleton.mp h)

theorem mem_foldl_setMember {n : JsString × Json} (h : n ∈ ms.foldl setMember acc) :
    n ∈ acc ∨ n ∈ ms := by
  induction ms generalizing acc with
  | nil => exact .inl h
  | cons m ms ih =>
    rcases ih h with h | h
    · rcases mem_setMember h with h | rfl
      · exact .inl h
      · exact .inr List.mem_cons_self
    · exact .inr (List.mem_cons_of_mem m h)

/-- Members of different keys are added one by one. -/
theorem foldl_setMember (h : ((acc ++ ms).map Prod.fst).Nodup) :
    ms.foldl setMember acc = acc ++ ms := by
  induction ms generalizing acc with
  | nil => exact (List.append_nil acc).symm
  | cons m ms ih =>
    have hnew : m.1 ∉ acc.map Prod.fst := by
      rw [List.map_append, List.map_cons] at h
      intro hmem
      exact (List.nodup_append.mp h).2.2 _ hmem _ List.mem_cons_self rfl
    have hset : setMember acc m = acc ++ [m] := if_neg hnew
    have happend : acc ++ m :: ms = acc ++ [m] ++ ms := by simp
    rw [happend] at h
    rw [List.foldl_cons, hset, ih h, happend]

theorem objectOf_of_nodup (hproto : protoText ∉ ms.map Prod.fst) (h : (ms.map Prod.fst).Nodup) :
    objectOf ms = some (.obj ms) := by
  rw [objectOf, if_neg hproto, foldl_setMember (by simpa using h), List.nil_append]

end

end Js

end MySocket
