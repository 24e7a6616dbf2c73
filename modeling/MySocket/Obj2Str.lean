import MySocket.JsLiteral

/-!
# The text of an object

`obj2str` writes a value so that it can be evaluated again, in a browser where `document.all` is not
there. What it takes for an array is what has a `sort`, keys are written without quotes, and
`typeof null` is `object` as well.

`readable_of_literal` : a value whose keys can be written so, without `null` and without a member
`sort` that is true, is read back as it was.
-/

namespace MySocket

namespace Js

/-! ## The code -/

/-- A property of `null` or `undefined` is read, or an object cannot be made a number. -/
inductive ReadError
  | ofNull
  | ofUndefined
  | noPrimitive
  deriving DecidableEq

/-- `replace` of every unit of a kind. -/
def replaceUnits (kind : UInt16 → Bool) (replacement : UInt16 → JsString) (s : JsString) :
    JsString :=
  s.flatMap fun c => if kind c then replacement c else [c]

/-- `['"\]` -/
def needsBackslash (c : UInt16) : Bool :=
  c = apostrophe || c = quotationMark || c = backslash

def escapeMarks : JsString → JsString :=
  replaceUnits needsBackslash fun c => [backslash, c]

def escapeNewlines : JsString → JsString :=
  replaceUnits (· = 10) fun _ => [backslash, unit 'n']

def escapeReturns : JsString → JsString :=
  replaceUnits (· = 13) fun _ => [backslash, unit 'r']

def escapeTabs : JsString → JsString :=
  replaceUnits (· = 9) fun _ => [backslash, unit 't']

/-- A string in quotes. -/
def stringText (s : JsString) : JsString :=
  quotationMark :: (escapeTabs (escapeReturns (escapeNewlines (escapeMarks s))) ++ [quotationMark])

/-- `r = "[" + r.join() + "]"` -/
def arrayText (r : List JsString) : JsString :=
  unit '[' :: (join [unit ','] r ++ [unit ']'])

/-- `r = "{" + r.join() + "}"` -/
def objectText (r : List JsString) : JsString :=
  unit '{' :: (join [unit ','] r ++ [unit '}'])

/-- `sort` -/
def sortText : JsString :=
  text "sort"

/-- `length` -/
def lengthText : JsString :=
  text "length"

/-- `toString` -/
def toStringText : JsString :=
  text "toString"

/-- `[object Object]` -/
def objectTag : JsString :=
  text "[object Object]"

namespace Json

/-- What `!` finds true. -/
def truthy : Json → Bool
  | null => false
  | bool b => b
  | num d => d.val ≠ 0
  | str s => s ≠ []
  | arr _ => true
  | obj _ => true

mutual

/-- What a value is as a string. A member `toString` takes the place of the function. -/
def stringOf : Json → Except ReadError JsString
  | null => .ok nullText
  | bool b => .ok (boolText b)
  | num d => .ok (numberText d)
  | str s => .ok s
  | arr xs => (joinParts xs).map (join [unit ','])
  | obj ms => if (ms.lookup toStringText).isSome then .error .noPrimitive else .ok objectTag

/-- The elements as `join` has them, where `null` is nothing. -/
def joinParts : List Json → Except ReadError (List JsString)
  | [] => .ok []
  | null :: xs => (joinParts xs).map ([] :: ·)
  | x :: xs => (stringOf x).bind fun t => (joinParts xs).map (t :: ·)

end

/-- What a value is as a number. -/
def numberOf : Json → Except ReadError Number
  | null => .ok .zero
  | bool b => .ok (.round (if b then 1 else 0))
  | num d => .ok (.finite d)
  | str s => .ok (toNumber s)
  | v => (stringOf v).map toNumber

end Json

/-- `for (var i = 0; i < o.length; i++)` for an object : it ends at the latest with an index that is
not there. -/
def indexed (limit : Number) (results : List (JsString × Except ReadError JsString)) :
    ℕ → ℕ → Except ReadError (List JsString)
  | 0, _ => .ok []
  | fuel + 1, i =>
    if (Number.round i).lt limit then
      match results.lookup (natText i) with
      | none => .error .ofUndefined
      | some result => result.bind fun t => (indexed limit results fuel (i + 1)).map (t :: ·)
    else .ok []

/-- What is pushed for an object that is taken for an array. -/
def arrayLike (ms : List (JsString × Json))
    (results : List (JsString × Except ReadError JsString)) : Except ReadError (List JsString) :=
  match ms.lookup lengthText with
  | none => .ok []
  | some v => v.numberOf.bind fun limit => indexed limit results (results.length + 1) 0

/-- `r.push(i + ":" + obj2str(o[i]))` -/
def memberText (member : JsString × Except ReadError JsString) : Except ReadError JsString :=
  member.2.map fun t => member.1 ++ unit ':' :: t

mutual

/-- `obj2str` -/
def obj2str : Json → Except ReadError JsString
  | .null => .error .ofNull
  | .bool b => .ok (boolText b)
  | .num d => .ok (numberText d)
  | .str s => .ok (stringText s)
  | .arr xs => ((elementResults xs).mapM id).map arrayText
  | .obj ms =>
    if (ms.lookup sortText).any Json.truthy then (arrayLike ms (memberResults ms)).map arrayText
    else ((memberResults ms).mapM memberText).map objectText

def elementResults : List Json → List (Except ReadError JsString)
  | [] => []
  | x :: xs => obj2str x :: elementResults xs

def memberResults : List (JsString × Json) → List (JsString × Except ReadError JsString)
  | [] => []
  | (i, v) :: ms => (i, obj2str v) :: memberResults ms

end

/-! ## The property -/

/-- It is written without an exception, and evaluated to a value that is deeply equal to it. -/
def Readable (e : Engine) (v : Json) : Prop :=
  ∃ t, obj2str v = .ok t ∧
    ∃ w, eval e (unit '(' :: (t ++ [unit ')'])) = some w ∧ v.deepEq w = true

/-- What is right in itself : it is not `null`, has no separator where the edition allows none in a
string, and has no member `sort` that is true. -/
def Plain (e : Engine) : Json → Prop
  | .null => False
  | .str s => s.any Engine.isSeparator = true → e.separators = true
  | .obj ms => (ms.lookup sortText).any Json.truthy = false
  | _ => True

/-- Every part is right in itself, and every key can be written without quotes. -/
structure Literal (e : Engine) (v : Json) : Prop where
  plain : v.All (Plain e)
  named : NamedKeys e v

/-! ## The results of the elements -/

section

variable {ε α β γ : Type} {e : Engine} {v : Json} {xs : List Json} {ms : List (JsString × Json)}

theorem elementResults_eq (xs : List Json) : elementResults xs = xs.map obj2str := by
  induction xs with
  | nil => rfl
  | cons x xs ih => rw [elementResults, ih, List.map_cons]

theorem memberResults_eq (ms : List (JsString × Json)) :
    memberResults ms = ms.map fun m => (m.1, obj2str m.2) := by
  induction ms with
  | nil => rfl
  | cons m ms ih => rw [memberResults, ih, List.map_cons]

theorem map_eq_ok {f : α → β} {x : Except ε α} {y : β} (h : x.map f = .ok y) :
    ∃ z, x = .ok z ∧ y = f z := by
  cases x with
  | error err => cases h
  | ok z =>
    cases h
    exact ⟨z, rfl, rfl⟩

/-- A loop that raises nothing has a result for each. -/
theorem mapM_eq_ok {f : α → Except ε β} {as : List α} {bs : List β} :
    as.mapM f = .ok bs ↔ List.Forall₂ (fun a b => f a = .ok b) as bs := by
  induction as generalizing bs with
  | nil =>
    rw [List.forall₂_nil_left_iff, List.mapM_nil]
    exact ⟨fun h => (Except.ok.inj h).symm, fun h => congrArg Except.ok h.symm⟩
  | cons a as ih =>
    rw [List.mapM_cons, List.forall₂_cons_left_iff]
    cases ha : f a with
    | error err => exact ⟨nofun, fun ⟨b, _, h, _⟩ => by cases h⟩
    | ok b =>
      cases has : as.mapM f with
      | error err =>
        refine ⟨nofun, fun ⟨_, bs', _, h, _⟩ => ?_⟩
        rw [ih.mpr h] at has
        cases has
      | ok bs' =>
        constructor
        · intro h
          cases h
          exact ⟨b, bs', rfl, ih.mp has, rfl⟩
        · rintro ⟨b', bs'', hb, h, rfl⟩
          cases hb
          rw [ih.mpr h] at has
          cases has
          rfl

/-- Texts that stand for something each, and what is read of all. -/
theorem exists_readings {D : JsString → Option α → Prop} {Q : β → α → Prop} {as : List β}
    {ts : List JsString}
    (h : List.Forall₂ (fun a t => ∃ r, D t r ∧ ∀ y, r = some y → Q a y) as ts) :
    ∃ rs, List.Forall₂ D ts rs ∧ ∀ ys, rs.mapM id = some ys → List.Forall₂ Q as ys := by
  induction h with
  | nil =>
    refine ⟨[], .nil, fun ys hys => ?_⟩
    cases hys
    exact .nil
  | cons hr _ ih =>
    obtain ⟨r, hr, hq⟩ := hr
    obtain ⟨rs, hrs, hqs⟩ := ih
    refine ⟨r :: rs, .cons hr hrs, fun ys hys => ?_⟩
    rw [mapM_id_cons] at hys
    obtain ⟨y, hy, hmap⟩ := Option.bind_eq_some_iff.mp hys
    obtain ⟨zs, hzs, rfl⟩ := Option.map_eq_some_iff.mp hmap
    exact .cons (hq y hy) (hqs zs hzs)

theorem mapM_id_map_some (as : List α) : (as.map some).mapM id = some as := by
  induction as with
  | nil => rfl
  | cons a as ih => rw [List.map_cons, mapM_id_cons, ih, Option.bind_some, Option.map_some]

end

/-! ## Strings -/

section

variable {e : Engine} {c : UInt16} {s t rest : JsString}

/-- How a unit is written. -/
def escape (c : UInt16) : JsString :=
  if needsBackslash c then [backslash, c]
  else if c = 10 then [backslash, unit 'n']
  else if c = 13 then [backslash, unit 'r']
  else if c = 9 then [backslash, unit 't']
  else [c]

/-- The four replacements do not meet. -/
theorem escapes_eq (s : JsString) :
    escapeTabs (escapeReturns (escapeNewlines (escapeMarks s))) = s.flatMap escape := by
  unfold escapeTabs escapeReturns escapeNewlines escapeMarks replaceUnits
  rw [List.flatMap_assoc, List.flatMap_assoc, List.flatMap_assoc]
  refine List.flatMap_congr fun c _ => ?_
  unfold escape
  split_ifs with hmark hnewline hreturn htab
  · have hne : ∀ d : UInt16, needsBackslash d = false → c ≠ d := by
      rintro d hd rfl
      rw [hmark] at hd
      cases hd
    simp only [List.flatMap_cons, List.flatMap_nil, List.append_nil, hne 10 (by decide),
      hne 13 (by decide), hne 9 (by decide), decide_false, Bool.false_eq_true, if_false]
    rfl
  · rw [hnewline]
    decide
  · rw [hreturn]
    decide
  · rw [htab]
    decide
  · simp [hnewline, hreturn, htab]

/-- Whether a string can be written in this edition. -/
def writable (e : Engine) (s : JsString) : Bool :=
  e.separators || !s.any Engine.isSeparator

theorem escaped_of_needsBackslash (h : needsBackslash c = true) :
    escaped c = some c ∧ Engine.isSeparator c = false := by
  simp only [needsBackslash, Bool.or_eq_true, decide_eq_true_eq] at h
  rcases h with (rfl | rfl) | rfl <;> exact ⟨rfl, rfl⟩

theorem isLineEnd_eq (hnewline : c ≠ 10) (hreturn : c ≠ 13) :
    e.isLineEnd c = !writable e [c] := by
  simp only [Engine.isLineEnd, writable, hnewline, hreturn, decide_false, Bool.false_or,
    List.any_cons, List.any_nil, Bool.or_false, Bool.not_or, Bool.not_not]

/-- A unit is read as it was written. -/
theorem stringBody_escape (c : UInt16) (s : JsString) :
    stringBody e quotationMark (escape c ++ s) =
      if writable e [c] then (stringBody e quotationMark s).map fun r => (c :: r.1, r.2)
      else none := by
  have hback : ∀ d, escape c = [backslash, d] → escaped d = some c ∧ Engine.isSeparator c = false →
      stringBody e quotationMark (escape c ++ s) =
        if writable e [c] then (stringBody e quotationMark s).map fun r => (c :: r.1, r.2)
        else none := by
    rintro d hc ⟨hd, hsep⟩
    have hwritable : writable e [c] = true := by simp [writable, hsep]
    rw [hc, if_pos hwritable, List.cons_append, List.singleton_append, stringBody,
      if_neg (by decide), if_pos rfl, hd, Option.bind_some]
  by_cases hmark : needsBackslash c = true
  · exact hback c (if_pos hmark) (escaped_of_needsBackslash hmark)
  by_cases hnewline : c = 10
  · subst hnewline
    exact hback (unit 'n') rfl ⟨rfl, rfl⟩
  by_cases hreturn : c = 13
  · subst hreturn
    exact hback (unit 'r') rfl ⟨rfl, rfl⟩
  by_cases htab : c = 9
  · subst htab
    exact hback (unit 't') rfl ⟨rfl, rfl⟩
  have hself : escape c = [c] := by
    rw [escape, if_neg hmark, if_neg hnewline, if_neg hreturn, if_neg htab]
  simp only [needsBackslash, Bool.or_eq_true, decide_eq_true_eq, not_or] at hmark
  rw [hself, List.singleton_append, stringBody_unit e s hmark.1.2 hmark.2,
    isLineEnd_eq hnewline hreturn]
  cases writable e [c] <;> rfl

/-- A string is read as it was written. -/
theorem stringBody_flatMap_escape (s rest : JsString) :
    stringBody e quotationMark (s.flatMap escape ++ quotationMark :: rest) =
      (if writable e s then some s else none).map fun x => (x, rest) := by
  induction s with
  | nil =>
    have hw : writable e [] = true := by simp [writable]
    rw [hw]
    exact stringBody_quote e quotationMark rest
  | cons c s ih =>
    have hw : writable e (c :: s) = (writable e [c] && writable e s) := by
      simp only [writable, List.any_cons, List.any_nil, Bool.or_false, Bool.not_or]
      exact Bool.or_and_distrib_left _ _ _
    rw [List.flatMap_cons, List.append_assoc, stringBody_escape, ih, hw]
    cases writable e [c]
    · rfl
    · cases writable e s <;> rfl

theorem denotes_stringText (s : JsString) :
    Denotes e (stringText s) (if writable e s then some (.str s) else none) := by
  have h := denotes_string fun rest => stringBody_flatMap_escape (e := e) s rest
  rw [stringText, escapes_eq]
  cases hw : writable e s
  · rw [hw] at h
    exact h
  · rw [hw] at h
    exact h

theorem plain_str : Plain e (.str s) ↔ writable e s = true := by
  cases hsep : e.separators <;> simp [Plain, writable, hsep]

end

/-! ## Booleans and numbers -/

section

variable {e : Engine}

theorem denotes_boolText (b : Bool) : Denotes e (boolText b) (some (.bool b)) := by
  have hmarks : (boolText b).any isDelimiter = false := by cases b <;> decide
  have hatom : atom (boolText b) = some (.bool b) := by cases b <;> rfl
  rw [← hatom]
  refine denotes_atom (fun c hc => Bool.eq_false_iff.mpr (List.any_eq_false.mp hmarks c hc)) ?_
  cases b
  · exact ⟨_, _, rfl, by decide, by decide, by decide⟩
  · exact ⟨_, _, rfl, by decide, by decide, by decide⟩

theorem not_isDelimiter_of_literalNumber {s : JsString} {d : Double}
    (h : literalNumber s = some d) : ∀ c ∈ s, isDelimiter c = false :=
  fun c hc => (not_isMark_iff.mp (not_isMark_of_literalNumber h c hc)).2.2

/-- What begins with a digit, the point or a minus is no word, string, array or object. -/
theorem ne_of_start {c : UInt16} (h : isDigit 10 c = true ∨ c = unit '.' ∨ c = unit '-') :
    isQuote c = false ∧ c ≠ unit '[' ∧ c ≠ unit '{' ∧ c ≠ unit 'n' ∧ c ≠ unit 't' ∧
      c ≠ unit 'f' := by
  refine ⟨Bool.eq_false_iff.mpr fun hquote => ?_, ?_, ?_, ?_, ?_, ?_⟩
  · simp only [isQuote, Bool.or_eq_true, decide_eq_true_eq] at hquote
    rcases hquote with rfl | rfl <;> revert h <;> decide
  all_goals
    rintro rfl
    revert h
    decide

theorem atom_of_start {c : UInt16} {s : JsString}
    (h : isDigit 10 c = true ∨ c = unit '.' ∨ c = unit '-') :
    atom (c :: s) = if c = unit '-' then (literalNumber s).map fun d => .num d.neg
      else (literalNumber (c :: s)).map .num := by
  obtain ⟨-, -, -, hn, ht, hf⟩ := ne_of_start h
  have hword : ∀ {w : JsString} {d : UInt16}, w.head? = some d → c ≠ d → c :: s ≠ w := by
    rintro w d hw hne rfl
    exact hne (Option.some.inj hw)
  have hnull : c :: s ≠ nullText := hword (by decide) hn
  have htrue : c :: s ≠ boolText true := hword rfl ht
  have hfalse : c :: s ≠ boolText false := hword rfl hf
  rw [atom, if_neg hnull, if_neg htrue, if_neg hfalse]
  simp only [List.head?_cons, Option.some.injEq, List.tail_cons]

theorem denotes_numberText (d : Double) : Denotes e (numberText d) (some (.num d)) := by
  have hdenotes : ∀ {c : UInt16} {s : JsString}, numberText d = c :: s →
      isDigit 10 c = true ∨ c = unit '.' ∨ c = unit '-' →
      (∀ c ∈ numberText d, isDelimiter c = false) →
      atom (numberText d) = some (.num d) → Denotes e (numberText d) (some (.num d)) := by
    intro c s heq hstart hdelimiter hatom
    obtain ⟨hquote, harr, hobj, -⟩ := ne_of_start hstart
    rw [← hatom]
    exact denotes_atom hdelimiter ⟨c, s, heq, hquote, harr, hobj⟩
  by_cases hneg : d.val < 0
  · have hread := literalNumber_positiveText (d := d.neg) (neg_nonneg.mpr hneg.le)
    have heq : numberText d = unit '-' :: positiveText d.neg := if_pos hneg
    have hneg_neg : d.neg.neg = d := by
      obtain ⟨q, hq⟩ := d
      simp [Double.neg]
    refine hdenotes heq (.inr (.inr rfl)) ?_ ?_
    · rw [heq]
      exact List.forall_mem_cons.mpr ⟨by decide, not_isDelimiter_of_literalNumber hread⟩
    · rw [heq, atom_of_start (.inr (.inr rfl)), if_pos rfl, hread, Option.map_some, hneg_neg]
  · have hread := literalNumber_positiveText (not_lt.mp hneg)
    obtain ⟨q, hq⟩ := unsignedDecimal_of_literalNumber hread
    obtain ⟨c, s, hcons, hstart⟩ := exists_cons_of_unsignedDecimal hq
    have heq : numberText d = c :: s := (if_neg hneg).trans hcons
    have hstart' : isDigit 10 c = true ∨ c = unit '.' ∨ c = unit '-' := by
      rcases hstart with h | h
      · exact .inl h
      · exact .inr (.inl h)
    have hminus : c ≠ unit '-' := by
      rintro rfl
      revert hstart
      decide
    rw [hcons] at hread
    refine hdenotes heq hstart' ?_ ?_
    · rw [heq]
      exact not_isDelimiter_of_literalNumber hread
    · rw [heq, atom_of_start hstart', if_neg hminus, hread, Option.map_some]

end

/-! ## Values that are read back -/

section

variable {α β : Type} {e : Engine} {v : Json} {t : JsString} {xs : List Json}
  {ms : List (JsString × Json)}

theorem exists_forall₂ {p : α → β → Prop} {as : List α} (h : ∀ a ∈ as, ∃ b, p a b) :
    ∃ bs, List.Forall₂ p as bs := by
  induction as with
  | nil => exact ⟨[], .nil⟩
  | cons a as ih =>
    rw [List.forall_mem_cons] at h
    obtain ⟨b, hb⟩ := h.1
    obtain ⟨bs, hbs⟩ := ih h.2
    exact ⟨b :: bs, .cons hb hbs⟩

theorem obj2str_arr_eq_ok :
    obj2str (.arr xs) = .ok t ↔
      ∃ ts, List.Forall₂ (fun x t => obj2str x = .ok t) xs ts ∧ t = arrayText ts := by
  rw [obj2str, elementResults_eq, List.mapM_map]
  constructor
  · intro h
    obtain ⟨ts, hts, rfl⟩ := map_eq_ok h
    exact ⟨ts, mapM_eq_ok.mp hts, rfl⟩
  · rintro ⟨ts, hts, rfl⟩
    have hmap : xs.mapM (id ∘ obj2str) = .ok ts := mapM_eq_ok.mpr hts
    rw [hmap]
    rfl

theorem obj2str_obj_eq_ok (hsort : (ms.lookup sortText).any Json.truthy = false) :
    obj2str (.obj ms) = .ok t ↔
      ∃ ts, List.Forall₂ (fun m t => ∃ u, obj2str m.2 = .ok u ∧ t = m.1 ++ unit ':' :: u) ms ts ∧
        t = objectText ts := by
  have hmember : ∀ (m : JsString × Json) (t : JsString),
      (memberText ∘ fun m => (m.1, obj2str m.2)) m = .ok t ↔
        ∃ u, obj2str m.2 = .ok u ∧ t = m.1 ++ unit ':' :: u := by
    intro m t
    refine ⟨map_eq_ok, ?_⟩
    rintro ⟨u, hu, rfl⟩
    rw [Function.comp_apply, memberText, hu]
    rfl
  rw [obj2str, if_neg (by simp [hsort]), memberResults_eq, List.mapM_map]
  constructor
  · intro h
    obtain ⟨ts, hts, rfl⟩ := map_eq_ok h
    exact ⟨ts, (mapM_eq_ok.mp hts).imp fun m t => (hmember m t).mp, rfl⟩
  · rintro ⟨ts, hts, rfl⟩
    have hmap : ms.mapM (memberText ∘ fun m => (m.1, obj2str m.2)) = .ok ts :=
      mapM_eq_ok.mpr (hts.imp fun m t => (hmember m t).mpr)
    rw [hmap]
    rfl

theorem nodup_keys (hv : (Json.obj ms).Distinct) : (ms.map Prod.fst).Nodup :=
  hv.self

theorem protoText_notMem (h : NamedKeys e (.obj ms)) : protoText ∉ ms.map Prod.fst := by
  intro hproto
  obtain ⟨m, hm, heq⟩ := List.mem_map.mp hproto
  exact (namedKeys_obj.mp h m hm).1.ne_protoText heq

/-- A literal is written, and stands for the value itself. -/
theorem denotes_of_literal (hv : v.Distinct) (h : Literal e v) :
    ∃ t, obj2str v = .ok t ∧ Denotes e t (some v) := by
  induction v using Json.induction with
  | null => exact h.plain.self.elim
  | bool b => exact ⟨boolText b, rfl, denotes_boolText b⟩
  | num d => exact ⟨numberText d, rfl, denotes_numberText d⟩
  | str s =>
    have hdenotes := denotes_stringText (e := e) s
    rw [if_pos (plain_str.mp h.plain.self)] at hdenotes
    exact ⟨stringText s, rfl, hdenotes⟩
  | arr xs ih =>
    have hplain := (Json.all_arr.mp h.plain).2
    obtain ⟨ts, hts⟩ := exists_forall₂ fun x hx =>
      ih x hx ((Json.all_arr.mp hv).2 x hx) ⟨hplain x hx, namedKeys_arr.mp h.named x hx⟩
    refine ⟨arrayText ts, obj2str_arr_eq_ok.mpr ⟨ts, hts.imp fun x t ht => ht.1, rfl⟩, ?_⟩
    have hdenotes : List.Forall₂ (Denotes e) ts (xs.map some) :=
      List.forall₂_map_right_iff.mpr (hts.flip.imp fun t x ht => ht.2)
    have harray := denotes_array hdenotes
    rwa [mapM_id_map_some] at harray
  | obj ms ih =>
    obtain ⟨hsort, hplain⟩ := Json.all_obj.mp h.plain
    have hnamed := namedKeys_obj.mp h.named
    have hmember : ∀ m ∈ ms, ∃ t,
        (∃ u, obj2str m.2 = .ok u ∧ t = m.1 ++ unit ':' :: u) ∧ MemberDenotes e t (some m) := by
      intro m hm
      obtain ⟨u, hu, hdenotes⟩ := ih m hm ((Json.all_obj.mp hv).2 m hm)
        ⟨hplain m hm, (hnamed m hm).2⟩
      exact ⟨_, ⟨u, hu, rfl⟩, m.1, u, some m.2, rfl, (hnamed m hm).1, hdenotes, rfl⟩
    obtain ⟨ts, hts⟩ := exists_forall₂ hmember
    refine ⟨objectText ts, (obj2str_obj_eq_ok hsort).mpr ⟨ts, hts.imp fun m t ht => ht.1, rfl⟩, ?_⟩
    have hdenotes : List.Forall₂ (MemberDenotes e) ts (ms.map some) :=
      List.forall₂_map_right_iff.mpr (hts.flip.imp fun t m ht => ht.2)
    have hobject := denotes_object hdenotes
    rwa [mapM_id_map_some, Option.bind_some,
      objectOf_of_nodup (protoText_notMem h.named) (nodup_keys hv)] at hobject

theorem readable_of_literal (hv : v.Distinct) (h : Literal e v) : Readable e v := by
  obtain ⟨t, ht, hdenotes⟩ := denotes_of_literal hv h
  exact ⟨t, ht, v, hdenotes.eval_eq, Json.deepEq_refl hv⟩

end

end Js

end MySocket
