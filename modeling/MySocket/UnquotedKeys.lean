import MySocket.JsLiteral

/-!
# Literals without quoted keys

Where no string of a text stands before a colon, strings are not used as keys.

* `eval_unquoted` : every key of the value is then one that needs no quotes.
* `NamedKeys.of_deepEq` : and so are the keys of all values that are equal to it.
-/

namespace MySocket

namespace Js

/-- No string in the text stands before a colon. -/
inductive Unquoted (e : Engine) : JsString → Prop
  | nil : Unquoted e []
  | unit {c : UInt16} {s : JsString} (hc : isQuote c = false) (h : Unquoted e s) :
      Unquoted e (c :: s)
  | string {c : UInt16} {s x rest : JsString} (hc : isQuote c = true)
      (hs : stringBody e c s = some (x, rest)) (hcolon : ∀ k, beforeColon k rest = none)
      (h : Unquoted e rest) : Unquoted e (c :: s)
  | broken {c : UInt16} {s : JsString} (hc : isQuote c = true) (hs : stringBody e c s = none) :
      Unquoted e (c :: s)

section

variable {e : Engine} {c : UInt16} {k s t x rest : JsString} {v : Json} {fuel : ℕ}

theorem Unquoted.tail (h : Unquoted e (c :: s)) (hc : isQuote c = false) : Unquoted e s := by
  cases h with
  | unit _ h => exact h
  | string hc' => rw [hc] at hc'; cases hc'
  | broken hc' => rw [hc] at hc'; cases hc'

theorem Unquoted.after (h : Unquoted e (c :: s)) (hc : isQuote c = true)
    (hs : stringBody e c s = some (x, rest)) :
    (∀ k, beforeColon k rest = none) ∧ Unquoted e rest := by
  cases h with
  | unit hc' => rw [hc] at hc'; cases hc'
  | string _ hs' hcolon h =>
    obtain ⟨rfl, rfl⟩ := Prod.mk.inj (Option.some.inj (hs'.symm.trans hs))
    exact ⟨hcolon, h⟩
  | broken _ hs' => rw [hs] at hs'; cases hs'

theorem Unquoted.drop (h : Unquoted e (t ++ s)) (ht : ∀ c ∈ t, isQuote c = false) :
    Unquoted e s := by
  induction t with
  | nil => exact h
  | cons c t ih =>
    rw [List.forall_mem_cons] at ht
    exact ih (h.tail ht.1) ht.2

theorem Unquoted.append (h : Unquoted e s) (ht : ∀ c ∈ t, isQuote c = false) :
    Unquoted e (t ++ s) := by
  induction t with
  | nil => exact h
  | cons c t ih =>
    rw [List.forall_mem_cons] at ht
    exact .unit ht.1 (ih ht.2)

theorem nonneg_of_round_eq {q : ℚ} {d : Double} (hq : 0 ≤ q) (h : Number.round q = .finite d) :
    0 ≤ d.val := by
  unfold Number.round at h
  split_ifs at h
  have hsign : 0 ≤ significand q := by
    refine le_roundHalfEven ?_
    rw [Int.cast_zero]
    exact div_nonneg hq (two_zpow_pos _).le
  rw [← Number.finite.inj h]
  exact mul_nonneg (Int.cast_nonneg hsign) (two_zpow_pos _).le

theorem unsignedDecimal_nonneg {q : ℚ} (h : unsignedDecimal s = some q) : 0 ≤ q := by
  simp only [unsignedDecimal] at h
  split_ifs at h
  obtain ⟨e, -, rfl⟩ := Option.map_eq_some_iff.mp h
  exact mul_nonneg (Nat.cast_nonneg _) (zpow_nonneg (by norm_num) _)

/-- What is meant by a text without quotes is such a key. -/
theorem isKey_of_propertyName (h : propertyName e s = some k) :
    (∀ c ∈ s, isQuote c = false) ∧ (IsKey e k ∨ k = protoText) := by
  unfold propertyName at h
  split_ifs at h with hname
  · cases h
    refine ⟨fun c hc => (not_isMark_iff.mp (not_isMark_of_isName hname c hc)).1, ?_⟩
    by_cases hproto : k = protoText
    · exact .inr hproto
    · exact .inl (.inl ⟨hname, hproto⟩)
  · obtain ⟨q, hq, rfl⟩ := Option.map_eq_some_iff.mp h
    have hread := unsignedDecimal_of_numericLiteral hq
    refine ⟨fun c hc => (not_isMark_iff.mp (not_isMark_of_unsignedDecimal hread c hc)).1, .inl ?_⟩
    cases hround : Number.round q with
    | nan => exact absurd hround (Number.round_ne_nan q)
    | infinity negative =>
      have hpos : negative = false := by
        unfold Number.round at hround
        split_ifs at hround
        exact (Number.infinity.inj hround).symm.trans
          (decide_eq_false (unsignedDecimal_nonneg hread).not_gt)
      rw [hpos]
      exact .inl ⟨rfl, by decide⟩
    | finite d => exact .inr ⟨d, nonneg_of_round_eq (unsignedDecimal_nonneg hread) hround, rfl⟩

theorem beforeColon_eq_some {x k : JsString} (h : beforeColon x s = some (k, rest)) :
    x = k ∧ s = Js.unit ':' :: rest := by
  cases s with
  | nil => cases h
  | cons c s =>
    simp only [beforeColon] at h
    split_ifs at h with hc
    cases h
    exact ⟨rfl, by rw [hc]⟩

theorem memberName_unquoted (h : memberName e s = some (k, rest)) (hs : Unquoted e s) :
    Unquoted e rest ∧ (IsKey e k ∨ k = protoText) := by
  cases s with
  | nil => cases h
  | cons c s =>
    simp only [memberName] at h
    split_ifs at h with hc
    · obtain ⟨⟨x, back⟩, hbody, hcolon⟩ := Option.bind_eq_some_iff.mp h
      rw [(hs.after hc hbody).1] at hcolon
      cases hcolon
    · obtain ⟨x, hx, hcolon⟩ := Option.bind_eq_some_iff.mp h
      obtain ⟨hquote, hkey⟩ := isKey_of_propertyName hx
      obtain ⟨rfl, hrest⟩ := beforeColon_eq_some hcolon
      rw [← List.takeWhile_append_dropWhile (p := notColon) (l := c :: s), hrest] at hs
      exact ⟨(hs.drop hquote).tail (by decide), hkey⟩

/-- Where a string is no key, what holds of each item holds of all. -/
theorem items_unquoted {α : Type} {p : α → Prop} {item : JsString → Option (α × JsString)}
    {close : UInt16} {xs : List α} (hclose : isQuote close = false)
    (hitem : ∀ {s x rest}, item s = some (x, rest) → Unquoted e s → Unquoted e rest ∧ p x)
    (h : items item close fuel s = some (xs, rest)) (hs : Unquoted e s) :
    Unquoted e rest ∧ ∀ x ∈ xs, p x := by
  induction fuel generalizing s xs rest with
  | zero => cases h
  | succ fuel ih =>
    cases s with
    | nil => cases h
    | cons c s =>
      simp only [items] at h
      split_ifs at h with hend
      · cases h
        exact ⟨hs.tail (hend ▸ hclose), fun x hx => absurd hx List.not_mem_nil⟩
      · obtain ⟨⟨x, back⟩, hx, hafter⟩ := Option.bind_eq_some_iff.mp h
        obtain ⟨hback, hp⟩ := hitem hx hs
        cases back with
        | nil => cases hafter
        | cons d back =>
          simp only [afterItem] at hafter
          split_ifs at hafter with hcomma hend'
          · obtain ⟨⟨ys, back'⟩, hys, heq⟩ := Option.map_eq_some_iff.mp hafter
            cases heq
            obtain ⟨hrest, hall⟩ := ih hys (hback.tail (hcomma ▸ by decide))
            exact ⟨hrest, List.forall_mem_cons.mpr ⟨hp, hall⟩⟩
          · cases hafter
            exact ⟨hback.tail (hend' ▸ hclose), List.forall_mem_singleton.mpr hp⟩

theorem not_isQuote_of_any (h : s.any isQuote = false) : ∀ c ∈ s, isQuote c = false :=
  fun c hc => Bool.eq_false_iff.mpr (List.any_eq_false.mp h c hc)

theorem not_isQuote_of_literalNumber {d : Double} (h : literalNumber s = some d) :
    ∀ c ∈ s, isQuote c = false :=
  fun c hc => (not_isMark_iff.mp (not_isMark_of_literalNumber h c hc)).1

theorem atom_unquoted (h : atom s = some v) : (∀ c ∈ s, isQuote c = false) ∧ NamedKeys e v := by
  unfold atom at h
  split_ifs at h with hnull htrue hfalse hminus
  · cases h
    exact ⟨not_isQuote_of_any (hnull ▸ by decide), namedKeys_null⟩
  · cases h
    exact ⟨not_isQuote_of_any (htrue ▸ by decide), namedKeys_bool true⟩
  · cases h
    exact ⟨not_isQuote_of_any (hfalse ▸ by decide), namedKeys_bool false⟩
  · obtain ⟨d, hd, rfl⟩ := Option.map_eq_some_iff.mp h
    refine ⟨?_, namedKeys_num d.neg⟩
    cases s with
    | nil => cases hminus
    | cons c s =>
      cases hminus
      exact List.forall_mem_cons.mpr ⟨by decide, not_isQuote_of_literalNumber hd⟩
  · obtain ⟨d, hd, rfl⟩ := Option.map_eq_some_iff.mp h
    exact ⟨not_isQuote_of_literalNumber hd, namedKeys_num d⟩

/-- Where no string stands before a colon, every key that is read can be written without quotes. -/
theorem value_unquoted (h : value e fuel s = some (v, rest)) (hs : Unquoted e s) :
    Unquoted e rest ∧ NamedKeys e v := by
  induction fuel generalizing s v rest with
  | zero => cases h
  | succ fuel ih =>
    cases s with
    | nil => cases h
    | cons c s =>
      simp only [value] at h
      split_ifs at h with hquote harr hobj
      · obtain ⟨⟨x, back⟩, hbody, heq⟩ := Option.map_eq_some_iff.mp h
        cases heq
        exact ⟨(hs.after hquote hbody).2, namedKeys_str x⟩
      · obtain ⟨⟨xs, back⟩, hxs, heq⟩ := Option.map_eq_some_iff.mp h
        cases heq
        obtain ⟨hrest, hall⟩ := items_unquoted (by decide) ih hxs (hs.tail (harr ▸ by decide))
        exact ⟨hrest, namedKeys_arr.mpr hall⟩
      · obtain ⟨⟨ms, back⟩, hms, hobject⟩ := Option.bind_eq_some_iff.mp h
        obtain ⟨w, hw, heq⟩ := Option.map_eq_some_iff.mp hobject
        cases heq
        have hmember : ∀ {s m rest}, memberOf e (value e fuel) s = some (m, rest) →
            Unquoted e s → Unquoted e rest ∧ (IsKey e m.1 ∨ m.1 = protoText) ∧ NamedKeys e m.2 := by
          intro s m rest hm hs
          obtain ⟨⟨k, back⟩, hk, hvalue⟩ := Option.bind_eq_some_iff.mp hm
          obtain ⟨⟨x, back'⟩, hx, heq⟩ := Option.map_eq_some_iff.mp hvalue
          cases heq
          obtain ⟨hback, hkey⟩ := memberName_unquoted hk hs
          obtain ⟨hrest, hnamed⟩ := ih hx hback
          exact ⟨hrest, hkey, hnamed⟩
        obtain ⟨hrest, hall⟩ := items_unquoted (by decide) hmember hms (hs.tail (hobj ▸ by decide))
        refine ⟨hrest, ?_⟩
        unfold objectOf at hw
        split_ifs at hw with hproto
        cases hw
        refine namedKeys_obj.mpr fun m hm => ?_
        rcases mem_foldl_setMember hm with hm | hm
        · cases hm
        · obtain ⟨hkey | hkey, hnamed⟩ := hall m hm
          · exact ⟨hkey, hnamed⟩
          · exact absurd (hkey ▸ List.mem_map_of_mem hm) hproto
      · obtain ⟨w, hw, heq⟩ := Option.map_eq_some_iff.mp h
        cases heq
        obtain ⟨hquote, hnamed⟩ := atom_unquoted hw
        rw [← List.takeWhile_append_dropWhile (p := notDelimiter) (l := c :: s)] at hs
        exact ⟨hs.drop hquote, hnamed⟩

theorem eval_unquoted (h : eval e s = some v) (hs : Unquoted e s) : NamedKeys e v := by
  cases s with
  | nil => cases h
  | cons c s =>
    simp only [eval] at h
    split_ifs at h with hc
    obtain ⟨⟨w, rest⟩, hw, heq⟩ := Option.bind_eq_some_iff.mp h
    split_ifs at heq
    cases heq
    exact (value_unquoted hw (hs.tail (hc ▸ by decide))).2

/-- Values with equal keys at every depth have them all in that form. -/
theorem NamedKeys.of_deepEq {w : Json} (h : NamedKeys e w) (heq : v.deepEq w = true) :
    NamedKeys e v := by
  induction v using Json.induction generalizing w with
  | null => exact namedKeys_null
  | bool b => exact namedKeys_bool b
  | num d => exact namedKeys_num d
  | str s => exact namedKeys_str s
  | arr xs ih =>
    cases w with
    | arr ys =>
      rw [Json.deepEq, Json.elementsEq_iff] at heq
      rw [namedKeys_arr] at h ⊢
      intro x hx
      obtain ⟨y, hy, hxy⟩ := exists_mem_of_forall₂ heq hx
      exact ih x hx (h y hy) hxy
    | _ => cases heq
  | obj ms ih =>
    cases w with
    | obj ns =>
      rw [Json.deepEq, Bool.and_eq_true, Json.membersEq_iff] at heq
      rw [namedKeys_obj] at h ⊢
      intro m hm
      obtain ⟨x, hlookup, hx⟩ := heq.1 m hm
      obtain ⟨hkey, hnamed⟩ := h _ (Json.mem_of_lookup hlookup)
      exact ⟨hkey, ih m hm hnamed hx⟩
    | _ => cases heq

end

end Js

end MySocket
