import MySocket.Obj2Str
import MySocket.UnquotedKeys

/-!
# Which values `obj2str` writes so that they can be read

Where a part of a value is not right, `obj2str` raises an exception, or its text is no literal or one
for another value. For a key with a quote in it this is left open, since its text can go on as a
string with what follows.

* `indexed_fuel` : the loop over an object that is taken for an array ends by itself.
* `plain_of_readable` : what is read back has no part that is not right, if its keys need no quotes.
* `namedKeys_of_readable` : and they need none, if they have none in them.
* `obj2str_readable` : exactly the literals are readable, among the values without quotes in keys.
-/

namespace MySocket

namespace Js

/-! ## Values that are not right -/

section

variable {e : Engine} {v : Json} {t : JsString} {xs : List Json} {ms : List (JsString × Json)}

/-- There are more indices than members, so the loop ends by itself. -/
theorem indexed_fuel {limit : Number} {results : List (JsString × Except ReadError JsString)}
    {fuel i : ℕ} (hkeys : ∀ j < i, natText j ∈ results.map Prod.fst)
    (hfuel : results.length < fuel + i) :
    indexed limit results (fuel + 1) i = indexed limit results fuel i := by
  induction fuel generalizing i with
  | zero =>
    -- the indices so far are as many different keys
    have hnodup : ((List.range i).map natText).Nodup :=
      List.nodup_range.map natText_injective
    have hsubset : (List.range i).map natText ⊆ results.map Prod.fst := by
      intro k hk
      obtain ⟨j, hj, rfl⟩ := List.mem_map.mp hk
      exact hkeys j (List.mem_range.mp hj)
    have hlen := (hnodup.subperm hsubset).length_le
    rw [List.length_map, List.length_map, List.length_range] at hlen
    omega
  | succ fuel ih =>
    rw [indexed.eq_2 limit results i (fuel + 1), indexed.eq_2 limit results i fuel]
    split_ifs with hlt
    · cases hlookup : results.lookup (natText i) with
      | none => rfl
      | some result =>
        obtain ⟨front, back, rfl, -⟩ := List.lookup_eq_some_iff.mp hlookup
        have hnext : ∀ j < i + 1, natText j ∈
            (front ++ (natText i, result) :: back).map Prod.fst := by
          intro j hj
          rcases Nat.lt_succ_iff_lt_or_eq.mp hj with hj | rfl
          · exact hkeys j hj
          · exact List.mem_map_of_mem (List.mem_append_right _ List.mem_cons_self)
        simp only [ih hnext (by omega)]
    · rfl

/-- What is pushed by index is the text of a member. -/
theorem mem_of_indexed {limit : Number} {results : List (JsString × Except ReadError JsString)}
    {fuel i : ℕ} {ts : List JsString} (h : indexed limit results fuel i = .ok ts) :
    ∀ t ∈ ts, ∃ k, (k, .ok t) ∈ results := by
  induction fuel generalizing i ts with
  | zero =>
    cases h
    exact fun t ht => absurd ht List.not_mem_nil
  | succ fuel ih =>
    rw [indexed] at h
    split_ifs at h with hlt
    · cases hlookup : results.lookup (natText i) with
      | none =>
        rw [hlookup] at h
        cases h
      | some result =>
        rw [hlookup] at h
        cases result with
        | error err => cases h
        | ok t =>
          obtain ⟨rest, hrest, rfl⟩ := map_eq_ok h
          obtain ⟨front, back, rfl, -⟩ := List.lookup_eq_some_iff.mp hlookup
          refine List.forall_mem_cons.mpr ⟨⟨natText i, ?_⟩, ih hrest⟩
          exact List.mem_append_right _ List.mem_cons_self
    · cases h
      exact fun t ht => absurd ht List.not_mem_nil

theorem obj2str_sort_eq_ok (hsort : (ms.lookup sortText).any Json.truthy = true)
    (h : obj2str (.obj ms) = .ok t) :
    ∃ ts, t = arrayText ts ∧ ∀ t ∈ ts, ∃ m ∈ ms, obj2str m.2 = .ok t := by
  rw [obj2str, if_pos hsort, memberResults_eq] at h
  obtain ⟨ts, hts, rfl⟩ := map_eq_ok h
  refine ⟨ts, rfl, fun t ht => ?_⟩
  unfold arrayLike at hts
  cases hlength : ms.lookup lengthText with
  | none =>
    rw [hlength] at hts
    cases hts
    cases ht
  | some length =>
    simp only [hlength] at hts
    cases hnumber : length.numberOf with
    | error err =>
      rw [hnumber] at hts
      cases hts
    | ok limit =>
      rw [hnumber] at hts
      obtain ⟨k, hk⟩ := mem_of_indexed hts t ht
      obtain ⟨m, hm, heq⟩ := List.mem_map.mp hk
      exact ⟨m, hm, (Prod.mk.inj heq).2⟩

/-- The text is read as a value that is not equal, or cannot be read, unless all is right. -/
def Reading (e : Engine) (v : Json) (t : JsString) : Prop :=
  ∃ r, Denotes e t r ∧ ∀ w, r = some w → v.deepEq w = true → v.All (Plain e)

theorem reading_arr (h : ∀ x ∈ xs, ∀ t, obj2str x = .ok t → Reading e x t)
    (ht : obj2str (.arr xs) = .ok t) : Reading e (.arr xs) t := by
  obtain ⟨ts, hts, rfl⟩ := obj2str_arr_eq_ok.mp ht
  have hreadings : List.Forall₂ (Reading e) xs ts :=
    ((List.forall₂_and_left _ _).mpr ⟨h, hts⟩).imp fun x t hx => hx.1 t hx.2
  obtain ⟨rs, hrs, hall⟩ := exists_readings hreadings
  refine ⟨_, denotes_array hrs, fun w hw heq => Json.all_arr.mpr ⟨trivial, ?_⟩⟩
  obtain ⟨ys, hys, rfl⟩ := Option.map_eq_some_iff.mp hw
  rw [Json.deepEq, Json.elementsEq_iff] at heq
  intro x hx
  obtain ⟨i, rfl⟩ := List.mem_iff_get.mp hx
  have hi : (i : ℕ) < ys.length := heq.length_eq ▸ i.2
  exact (hall ys hys).get i.2 hi (heq.get i.2 hi)

/-- An object that is taken for an array is read as one. -/
theorem reading_sort (hsort : (ms.lookup sortText).any Json.truthy = true)
    (h : ∀ m ∈ ms, ∀ t, obj2str m.2 = .ok t → Reading e m.2 t)
    (ht : obj2str (.obj ms) = .ok t) : Reading e (.obj ms) t := by
  obtain ⟨ts, rfl, hts⟩ := obj2str_sort_eq_ok hsort ht
  have hdenotes : ∀ t ∈ ts, ∃ r, Denotes e t r := by
    intro t ht
    obtain ⟨m, hm, hmt⟩ := hts t ht
    obtain ⟨r, hr, -⟩ := h m hm t hmt
    exact ⟨r, hr⟩
  obtain ⟨rs, hrs⟩ := exists_forall₂ hdenotes
  refine ⟨_, denotes_array hrs, fun w hw heq => ?_⟩
  obtain ⟨ys, -, rfl⟩ := Option.map_eq_some_iff.mp hw
  cases heq

theorem reading_obj (hsort : (ms.lookup sortText).any Json.truthy = false)
    (hkeys : (ms.map Prod.fst).Nodup) (hnamed : NamedKeys e (.obj ms))
    (h : ∀ m ∈ ms, ∀ t, obj2str m.2 = .ok t → Reading e m.2 t)
    (ht : obj2str (.obj ms) = .ok t) : Reading e (.obj ms) t := by
  obtain ⟨ts, hts, rfl⟩ := (obj2str_obj_eq_ok hsort).mp ht
  have hreadings : List.Forall₂ (fun m t => ∃ r, MemberDenotes e t r ∧
      ∀ n, r = some n → n.1 = m.1 ∧ (m.2.deepEq n.2 = true → m.2.All (Plain e))) ms ts := by
    have hmem : ∀ m ∈ ms, m ∈ ms := fun m hm => hm
    refine ((List.forall₂_and_left _ _).mpr ⟨hmem, hts⟩).imp ?_
    rintro m t ⟨hm, u, hu, rfl⟩
    obtain ⟨r, hr, hall⟩ := h m hm u hu
    refine ⟨_, ⟨m.1, u, r, rfl, (namedKeys_obj.mp hnamed m hm).1, hr, rfl⟩, fun n hn => ?_⟩
    obtain ⟨w, hw, rfl⟩ := Option.map_eq_some_iff.mp hn
    exact ⟨rfl, hall w hw⟩
  obtain ⟨rs, hrs, hall⟩ := exists_readings hreadings
  refine ⟨_, denotes_object hrs, fun w hw heq => Json.all_obj.mpr ⟨hsort, ?_⟩⟩
  obtain ⟨ns, hns, hobject⟩ := Option.bind_eq_some_iff.mp hw
  have hpairs := hall ns hns
  have hsame : ns.map Prod.fst = ms.map Prod.fst := by
    rw [← List.forall₂_eq_eq_eq, List.forall₂_map_left_iff, List.forall₂_map_right_iff]
    exact hpairs.flip.imp fun n m h => h.1
  have hnodup : (ns.map Prod.fst).Nodup := hsame ▸ hkeys
  rw [objectOf_of_nodup (hsame ▸ protoText_notMem hnamed) hnodup] at hobject
  cases hobject
  rw [Json.deepEq, Bool.and_eq_true, Json.membersEq_iff] at heq
  intro m hm
  obtain ⟨n, hn, hkey, hplain⟩ := exists_mem_of_forall₂ hpairs hm
  obtain ⟨w, hlookup, hw⟩ := heq.1 m hm
  -- the keys differ, so the member that was read is the one of this key
  rw [← hkey, Json.lookup_of_mem hnodup hn] at hlookup
  cases hlookup
  exact hplain hw

theorem reading_of_namedKeys (hv : v.Distinct) (hnamed : NamedKeys e v) (ht : obj2str v = .ok t) :
    Reading e v t := by
  induction v using Json.induction generalizing t with
  | null => cases ht
  | bool b =>
    cases ht
    exact ⟨_, denotes_boolText b, fun _ _ _ => Json.all_bool.mpr trivial⟩
  | num d =>
    cases ht
    exact ⟨_, denotes_numberText d, fun _ _ _ => Json.all_num.mpr trivial⟩
  | str s =>
    cases ht
    refine ⟨_, denotes_stringText s, fun w hw _ => Json.all_str.mpr (plain_str.mpr ?_)⟩
    split_ifs at hw with hwritable
    exact hwritable
  | arr xs ih =>
    exact reading_arr (fun x hx t hxt =>
      ih x hx ((Json.all_arr.mp hv).2 x hx) (namedKeys_arr.mp hnamed x hx) hxt) ht
  | obj ms ih =>
    have hmembers : ∀ m ∈ ms, ∀ t, obj2str m.2 = .ok t → Reading e m.2 t := fun m hm t hmt =>
      ih m hm ((Json.all_obj.mp hv).2 m hm) (namedKeys_obj.mp hnamed m hm).2 hmt
    cases hsort : (ms.lookup sortText).any Json.truthy with
    | true => exact reading_sort hsort hmembers ht
    | false => exact reading_obj hsort (nodup_keys hv) hnamed hmembers ht

/-- With keys that can be written without quotes, all must be right. -/
theorem plain_of_readable (hv : v.Distinct) (hnamed : NamedKeys e v) (h : Readable e v) :
    v.All (Plain e) := by
  obtain ⟨t, ht, w, hw, heq⟩ := h
  obtain ⟨r, hr, hall⟩ := reading_of_namedKeys hv hnamed ht
  exact hall w (hr.eval_eq ▸ hw) heq

end

/-! ## Keys without quotes -/

/-- No key has a quote in it. -/
def QuoteFree (v : Json) : Prop :=
  v.All fun w => ∀ k ∈ w.keys, k.any isQuote = false

/-- With anything but a colon behind it, no string in the text stands before a colon. -/
def Transparent (e : Engine) (t : JsString) : Prop :=
  ∀ rest, Unquoted e rest → (∀ k, beforeColon k rest = none) → Unquoted e (t ++ rest)

section

variable {e : Engine} {v : Json} {s t : JsString} {ts : List JsString}

theorem transparent_of_not_isQuote (h : ∀ c ∈ t, isQuote c = false) : Transparent e t :=
  fun _ hrest _ => hrest.append h

theorem transparent_stringText (s : JsString) : Transparent e (stringText s) := by
  intro rest hrest hcolon
  have hbody := stringBody_flatMap_escape (e := e) s rest
  rw [stringText, escapes_eq, List.cons_append, List.append_assoc, List.singleton_append]
  cases hw : writable e s with
  | false =>
    rw [hw] at hbody
    exact .broken (by decide) hbody
  | true =>
    rw [hw] at hbody
    exact .string (by decide) hbody hcolon hrest

theorem transparent_join (h : ∀ t ∈ ts, Transparent e t) :
    Transparent e (join [unit ','] ts) := by
  induction ts with
  | nil => exact fun rest hrest _ => hrest
  | cons t ts ih =>
    rw [List.forall_mem_cons] at h
    cases ts with
    | nil =>
      rw [join_singleton]
      exact h.1
    | cons u ts =>
      intro rest hrest hcolon
      rw [join_cons_cons, List.append_assoc, List.append_assoc, List.singleton_append]
      exact h.1 _ (.unit (by decide) (ih h.2 rest hrest hcolon)) fun k => rfl

theorem transparent_brackets {front back : UInt16} (h : Transparent e t)
    (hfront : isQuote front = false) (hback : isQuote back = false)
    (hcolon : ∀ k rest, beforeColon k (back :: rest) = none) :
    Transparent e (front :: (t ++ [back])) := by
  intro rest hrest _
  rw [List.cons_append, List.append_assoc, List.singleton_append]
  exact .unit hfront (h _ (.unit hback hrest) fun k => hcolon k rest)

theorem transparent_arrayText (h : ∀ t ∈ ts, Transparent e t) : Transparent e (arrayText ts) :=
  transparent_brackets (transparent_join h) (by decide) (by decide) fun _ _ => rfl

theorem transparent_objectText (h : ∀ t ∈ ts, Transparent e t) : Transparent e (objectText ts) :=
  transparent_brackets (transparent_join h) (by decide) (by decide) fun _ _ => rfl

theorem transparent_numberText (d : Double) : Transparent e (numberText d) := by
  refine transparent_of_not_isQuote ?_
  unfold numberText
  split_ifs with hneg
  · have hread := literalNumber_positiveText (d := d.neg) (neg_nonneg.mpr hneg.le)
    exact List.forall_mem_cons.mpr ⟨by decide, not_isQuote_of_literalNumber hread⟩
  · exact not_isQuote_of_literalNumber (literalNumber_positiveText (not_lt.mp hneg))

theorem transparent_obj2str (hv : QuoteFree v) (ht : obj2str v = .ok t) : Transparent e t := by
  induction v using Json.induction generalizing t with
  | null => cases ht
  | bool b =>
    cases ht
    exact transparent_of_not_isQuote (not_isQuote_of_any (by cases b <;> decide))
  | num d =>
    cases ht
    exact transparent_numberText d
  | str s =>
    cases ht
    exact transparent_stringText s
  | arr xs ih =>
    obtain ⟨ts, hts, rfl⟩ := obj2str_arr_eq_ok.mp ht
    refine transparent_arrayText fun t ht => ?_
    obtain ⟨x, hx, hxt⟩ := exists_mem_of_forall₂ hts.flip ht
    exact ih x hx ((Json.all_arr.mp hv).2 x hx) hxt
  | obj ms ih =>
    obtain ⟨hkeys, hmembers⟩ := Json.all_obj.mp hv
    cases hsort : (ms.lookup sortText).any Json.truthy with
    | true =>
      obtain ⟨ts, rfl, hts⟩ := obj2str_sort_eq_ok hsort ht
      refine transparent_arrayText fun t ht => ?_
      obtain ⟨m, hm, hmt⟩ := hts t ht
      exact ih m hm (hmembers m hm) hmt
    | false =>
      obtain ⟨ts, hts, rfl⟩ := (obj2str_obj_eq_ok hsort).mp ht
      refine transparent_objectText fun t ht => ?_
      obtain ⟨m, hm, u, hu, rfl⟩ := exists_mem_of_forall₂ hts.flip ht
      have hkey := not_isQuote_of_any (hkeys _ (List.mem_map_of_mem hm))
      intro rest hrest hcolon
      rw [List.append_assoc, List.cons_append]
      exact .append (.unit (by decide) (ih m hm (hmembers m hm) hu rest hrest hcolon)) hkey

/-- What is read back has no key that is not a name or a number. -/
theorem namedKeys_of_readable (hv : QuoteFree v) (h : Readable e v) : NamedKeys e v := by
  obtain ⟨t, ht, w, hw, heq⟩ := h
  have hunquoted : Unquoted e (unit '(' :: (t ++ [unit ')'])) :=
    .unit (by decide) (transparent_obj2str hv ht _ (.unit (by decide) .nil) fun k => rfl)
  exact (eval_unquoted hw hunquoted).of_deepEq heq

end

/-! ## Which values are readable -/

/-- A value as a program has it, where no object has two members of one key. -/
structure JsonValue where
  json : Json
  distinct : json.Distinct

/-- A literal is readable, and nothing else that has no quote in a key : nothing else for `eval`,
which reads no computed keys, comments and white space. -/
theorem obj2str_readable (e : Engine) (v : JsonValue) :
    (Literal e v.json → Readable e v.json) ∧
      (QuoteFree v.json → Readable e v.json → Literal e v.json) := by
  refine ⟨readable_of_literal v.distinct, fun hquote h => ?_⟩
  have hnamed := namedKeys_of_readable hquote h
  exact ⟨plain_of_readable v.distinct hnamed h, hnamed⟩

/-- An edition with names of ASCII only, where no separator may stand in a string. -/
def asciiEngine : Engine :=
  ⟨fun _ => false, false, fun _ h => by cases h⟩

/-- `{a: [true, "it's"]}` -/
def quotedExample : JsonValue :=
  ⟨.obj [([97], .arr [.bool true, .str [105, 116, 39, 115]])], by
    simp [Json.Distinct, Json.all_obj, Json.all_arr, Json.all_bool, Json.all_str, Json.keys]⟩

theorem readable_quotedExample : Readable asciiEngine quotedExample.json := by
  refine (obj2str_readable asciiEngine quotedExample).1 ⟨?_, ?_⟩
  · refine Json.all_obj.mpr ⟨rfl, List.forall_mem_singleton.mpr ?_⟩
    refine Json.all_arr.mpr ⟨trivial, List.forall_mem_cons.mpr ⟨Json.all_bool.mpr trivial, ?_⟩⟩
    exact List.forall_mem_singleton.mpr (Json.all_str.mpr (plain_str.mpr (by decide)))
  · refine namedKeys_obj.mpr (List.forall_mem_singleton.mpr ⟨.inl ⟨rfl, by decide⟩, ?_⟩)
    refine namedKeys_arr.mpr (List.forall_mem_cons.mpr ⟨namedKeys_bool true, ?_⟩)
    exact List.forall_mem_singleton.mpr (namedKeys_str _)

/-- `null` -/
def nullExample : JsonValue :=
  ⟨.null, Json.all_null.mpr List.nodup_nil⟩

/-- `{"a-b": true}` -/
def hyphenExample : JsonValue :=
  ⟨.obj [([97, 45, 98], .bool true)], by
    simp [Json.Distinct, Json.all_obj, Json.all_bool, Json.keys]⟩

/-- `{sort: true}` -/
def sortExample : JsonValue :=
  ⟨.obj [([115, 111, 114, 116], .bool true)], by
    simp [Json.Distinct, Json.all_obj, Json.all_bool, Json.keys]⟩

/-- `null` raises an exception, `{a-b:true}` is no literal, and of `{sort: true}` there is `[]`. -/
theorem not_readable_examples :
    obj2str nullExample.json = .error .ofNull ∧ ¬Readable asciiEngine nullExample.json ∧
      ¬Readable asciiEngine hyphenExample.json ∧ ¬Readable asciiEngine sortExample.json := by
  refine ⟨rfl, ?_, ?_, ?_⟩
  · rintro ⟨t, ht, -⟩
    cases ht
  · rintro ⟨t, ht, w, hw, -⟩
    have htext : obj2str hyphenExample.json =
        .ok [123, 97, 45, 98, 58, 116, 114, 117, 101, 125] := by
      decide +kernel
    cases htext.symm.trans ht
    have heval : (eval asciiEngine (unit '(' ::
        ([123, 97, 45, 98, 58, 116, 114, 117, 101, 125] ++ [unit ')']))).isNone = true := by
      decide +kernel
    rw [hw] at heval
    cases heval
  · rintro ⟨t, ht, w, hw, heq⟩
    have htext : obj2str sortExample.json = .ok [unit '[', unit ']'] := by decide +kernel
    cases htext.symm.trans ht
    have heval : eval asciiEngine (unit '(' :: ([unit '[', unit ']'] ++ [unit ')'])) =
        some (.arr []) := rfl
    cases heval.symm.trans hw
    cases heq

end Js

end MySocket
