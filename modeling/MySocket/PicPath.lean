import MySocket.JsText

/-!
# The path of a picture

`genPicPath` cuts the digits of a media id into directories with a regular expression,
`/\d{3}|\d+$/g`. Where it matches nothing `match` returns `null`, and the length of that is asked
for.

* `genPicPath_iff` : there is a path, with directories as they are meant, exactly if the id has
  three digits in a row or ends with a digit; no digit is left out exactly if every group of digits
  is in threes besides, but for one at the end.
-/

namespace MySocket

namespace Js

/-! ## The code -/

/-- A property of `null` was read. -/
inductive TypeError
  | ofNull
  deriving DecidableEq

/-- The length of a match of `\d{3}` here. -/
def threeDigits (s : JsString) : Option ℕ :=
  if (s.take 3).length = 3 ∧ (s.take 3).all (isDigit 10) then some 3 else none

/-- The length of a match of `\d+$` here. -/
def digitsAtEnd (s : JsString) : Option ℕ :=
  if s.takeWhile (isDigit 10) ≠ [] ∧ (s.takeWhile (isDigit 10)).length = s.length then
    some (s.takeWhile (isDigit 10)).length
  else none

/-- `/\d{3}|\d+$/` -/
def picRegexp (s : JsString) : Option ℕ :=
  (threeDigits s).or (digitsAtEnd s)

/-- All matches of a regular expression that does not match the empty text. The first units of the
text, as many as the first argument says, belong to the last match. -/
def globalMatches (regexp : JsString → Option ℕ) : ℕ → JsString → List JsString
  | _, [] => []
  | taken + 1, _ :: s => globalMatches regexp taken s
  | 0, c :: s =>
    match regexp (c :: s) with
    | some n => (c :: s).take n :: globalMatches regexp (n - 1) s
    | none => globalMatches regexp 0 s

/-- `match` with a global regular expression, `none` for `null`. -/
def matchGlobal (regexp : JsString → Option ℕ) (s : JsString) : Option (List JsString) :=
  if globalMatches regexp 0 s = [] then none else some (globalMatches regexp 0 s)

/-- `http://img.funshion.com/pictures/media/list` -/
def picRoot : JsString :=
  text "http://img.funshion.com/pictures/media/list"

/-- The name of the picture with the time stamp. -/
def picName (mediaid size suffix timestamp : JsString) : JsString :=
  mediaid ++ text "_" ++ size ++ text "_ott_" ++ suffix ++ text ".jpg" ++
    if timestamp = [] then [] else text "?" ++ timestamp

/-- `genPicPath`, for `undefined` or a string as `mediaid`. -/
def genPicPath (mediaid : Option JsString) (size suffix timestamp : JsString) :
    Except TypeError JsString :=
  match mediaid with
  | none => .ok []
  | some mediaid =>
    if size = [] then .ok []
    else
      match matchGlobal picRegexp mediaid with
      | none => .error .ofNull
      | some pathArr =>
        .ok (join (text "/") ((if pathArr.length ≠ 0 then [picRoot] ++ pathArr else [picRoot]) ++
          [picName mediaid size suffix timestamp]))

/-! ## The property -/

/-- The pieces are in the text one after another. -/
inductive InOrder : List JsString → JsString → Prop
  | nil (s : JsString) : InOrder [] s
  | cons (gap piece : JsString) {pieces : List JsString} {s : JsString} :
      InOrder pieces s → InOrder (piece :: pieces) (gap ++ (piece ++ s))

/-- The directories for a media id. -/
structure Segments (mediaid : JsString) (dirs : List JsString) : Prop where
  digits : ∀ dir ∈ dirs, ∀ c ∈ dir, isDigit 10 c = true
  inOrder : InOrder dirs mediaid
  full : ∀ dir ∈ dirs.dropLast, dir.length = 3
  length : ∀ dir ∈ dirs, 1 ≤ dir.length ∧ dir.length ≤ 3
  whole : (∀ c ∈ mediaid, isDigit 10 c = true) → dirs.flatten = mediaid
  none : (∀ c ∈ mediaid, isDigit 10 c = false) → dirs = []

/-- The path with directories. -/
def picPath (dirs : List JsString) (name : JsString) : JsString :=
  join (text "/") (picRoot :: (dirs ++ [name]))

/-- The path for an id has the directories `dirs`, and they are as they are meant. -/
def PathWith (mediaid size suffix timestamp : JsString) (dirs : List JsString) : Prop :=
  genPicPath (some mediaid) size suffix timestamp =
      .ok (picPath dirs (picName mediaid size suffix timestamp)) ∧
    Segments mediaid dirs

/-- Three digits in a row, or a digit at the end. -/
def HasMatch (s : JsString) : Prop :=
  (∃ piece, piece <:+: s ∧ piece.length = 3 ∧ ∀ c ∈ piece, isDigit 10 c = true) ∨
    ∃ c ∈ s.getLast?, isDigit 10 c = true

/-- Every group of digits, but for one at the end, consists of threes. -/
def InThrees (s : JsString) : Prop :=
  ∀ group ∈ (s.splitOnP fun c => !isDigit 10 c).dropLast, 3 ∣ group.length

/-! ## The matches -/

section

variable {s piece : JsString} {c : UInt16} {pieces : List JsString} {taken : ℕ}

/-- How a text is cut by the regular expression. -/
inductive Cut : JsString → List JsString → Prop
  | nil : Cut [] []
  | three {piece s : JsString} {pieces : List JsString} (hlength : piece.length = 3)
      (hdigits : ∀ c ∈ piece, isDigit 10 c = true) (h : Cut s pieces) :
      Cut (piece ++ s) (piece :: pieces)
  | last {s : JsString} (hne : s ≠ []) (hlength : s.length ≤ 3)
      (hdigits : ∀ c ∈ s, isDigit 10 c = true) : Cut s [s]
  | skip {c : UInt16} {s : JsString} {pieces : List JsString}
      (hthree : ∀ piece, piece <+: c :: s → piece.length = 3 →
        ¬∀ c ∈ piece, isDigit 10 c = true)
      (hdigits : ¬∀ d ∈ c :: s, isDigit 10 d = true) (h : Cut s pieces) : Cut (c :: s) pieces

theorem globalMatches_drop (regexp : JsString → Option ℕ) (taken : ℕ) (s : JsString) :
    globalMatches regexp taken s = globalMatches regexp 0 (s.drop taken) := by
  induction s generalizing taken with
  | nil => simp [globalMatches]
  | cons c s ih =>
    cases taken with
    | zero => rfl
    | succ taken =>
      rw [globalMatches, ih, List.drop_succ_cons]

theorem globalMatches_some {regexp : JsString → Option ℕ} {n : ℕ}
    (h : regexp (c :: s) = some (n + 1)) : globalMatches regexp 0 (c :: s) =
      (c :: s).take (n + 1) :: globalMatches regexp 0 ((c :: s).drop (n + 1)) := by
  rw [globalMatches, h]
  simp only [Nat.add_sub_cancel, globalMatches_drop _ n, List.drop_succ_cons]

theorem globalMatches_none {regexp : JsString → Option ℕ} (h : regexp (c :: s) = none) :
    globalMatches regexp 0 (c :: s) = globalMatches regexp 0 s := by
  rw [globalMatches, h]

theorem threeDigits_eq_some {n : ℕ} (h : threeDigits s = some n) :
    n = 3 ∧ (s.take 3).length = 3 ∧ ∀ c ∈ s.take 3, isDigit 10 c = true := by
  unfold threeDigits at h
  split_ifs at h with hs
  exact ⟨(Option.some.inj h).symm, hs.1, List.all_eq_true.mp hs.2⟩

theorem digitsAtEnd_eq_some {n : ℕ} (h : digitsAtEnd s = some n) :
    n = s.length ∧ s ≠ [] ∧ ∀ c ∈ s, isDigit 10 c = true := by
  unfold digitsAtEnd at h
  split_ifs at h with hs
  have hall : s.takeWhile (isDigit 10) = s := (List.takeWhile_prefix _).eq_of_length hs.2
  rw [hall] at h hs
  exact ⟨(Option.some.inj h).symm, hs.1, List.takeWhile_eq_self_iff.mp hall⟩

theorem digitsAtEnd_of_digits (hne : s ≠ []) (h : ∀ c ∈ s, isDigit 10 c = true) :
    digitsAtEnd s ≠ none := by
  rw [digitsAtEnd, List.takeWhile_eq_self_iff.mpr h, if_pos ⟨hne, rfl⟩]
  exact Option.some_ne_none _

theorem threeDigits_of_prefix (hp : piece <+: s) (hlength : piece.length = 3)
    (h : ∀ c ∈ piece, isDigit 10 c = true) : threeDigits s ≠ none := by
  have hpiece : s.take 3 = piece := by rw [← hlength, List.prefix_iff_eq_take.mp hp]; simp
  rw [threeDigits, hpiece, if_pos ⟨hlength, List.all_eq_true.mpr h⟩]
  exact Option.some_ne_none _

theorem cut_globalMatches (s : JsString) : Cut s (globalMatches picRegexp 0 s) := by
  induction hn : s.length using Nat.strong_induction_on generalizing s with
  | _ n ih =>
    cases s with
    | nil => exact .nil
    | cons c s =>
      cases hthree : threeDigits (c :: s) with
      | some k =>
        obtain ⟨rfl, hlength, hdigits⟩ := threeDigits_eq_some hthree
        have hre : picRegexp (c :: s) = some (2 + 1) := by rw [picRegexp, hthree, Option.some_or]
        rw [globalMatches_some hre]
        have hcut := ih _ (by rw [← hn, List.length_drop, List.length_cons]; omega)
          ((c :: s).drop (2 + 1)) rfl
        have h := Cut.three hlength hdigits hcut
        rwa [List.take_append_drop] at h
      | none =>
        cases hend : digitsAtEnd (c :: s) with
        | some k =>
          obtain ⟨rfl, hne, hdigits⟩ := digitsAtEnd_eq_some hend
          have hre : picRegexp (c :: s) = some (s.length + 1) := by
            rw [picRegexp, hthree, Option.none_or, hend, List.length_cons]
          have hle : (c :: s).length ≤ 3 := by
            by_contra hlt
            refine threeDigits_of_prefix (List.take_prefix 3 (c :: s)) ?_ ?_ hthree
            · rw [List.length_take]
              omega
            · exact fun d hd => hdigits d (List.mem_of_mem_take hd)
          rw [globalMatches_some hre, ← List.length_cons, List.take_length, List.drop_length]
          exact .last hne hle hdigits
        | none =>
          have hre : picRegexp (c :: s) = none := by rw [picRegexp, hthree, hend, Option.none_or]
          rw [globalMatches_none hre]
          refine .skip ?_ ?_ (ih s.length (by rw [← hn, List.length_cons]; omega) s rfl)
          · exact fun piece hp hlength hdigits => threeDigits_of_prefix hp hlength hdigits hthree
          · exact fun hdigits => digitsAtEnd_of_digits (List.cons_ne_nil _ _) hdigits hend

/-! ## What the cuts are -/

theorem InOrder.skip {s : JsString} (c : UInt16) (h : InOrder pieces s) :
    InOrder pieces (c :: s) := by
  cases h with
  | nil => exact .nil _
  | cons gap piece h => exact .cons (c :: gap) piece h

theorem Cut.inOrder (h : Cut s pieces) : InOrder pieces s := by
  induction h with
  | nil => exact .nil []
  | three hlength hdigits h ih => exact .cons [] _ ih
  | @last s hne hlength hdigits =>
    have hcons := InOrder.cons [] s (.nil [])
    rwa [List.append_nil] at hcons
  | skip hthree hdigits h ih => exact ih.skip _

theorem Cut.digits (h : Cut s pieces) : ∀ piece ∈ pieces, ∀ c ∈ piece, isDigit 10 c = true := by
  induction h with
  | nil => exact List.forall_mem_nil _
  | three hlength hdigits h ih => exact List.forall_mem_cons.mpr ⟨hdigits, ih⟩
  | last hne hlength hdigits => exact List.forall_mem_singleton.mpr hdigits
  | skip hthree hdigits h ih => exact ih

theorem Cut.full (h : Cut s pieces) : ∀ piece ∈ pieces.dropLast, piece.length = 3 := by
  induction h with
  | nil => exact List.forall_mem_nil _
  | @three piece s pieces hlength hdigits h ih =>
    cases pieces with
    | nil => exact List.forall_mem_nil _
    | cons piece' pieces =>
      rw [List.dropLast_cons_cons]
      exact List.forall_mem_cons.mpr ⟨hlength, ih⟩
  | last hne hlength hdigits => exact List.forall_mem_nil _
  | skip hthree hdigits h ih => exact ih

theorem Cut.length (h : Cut s pieces) :
    ∀ piece ∈ pieces, 1 ≤ piece.length ∧ piece.length ≤ 3 := by
  induction h with
  | nil => exact List.forall_mem_nil _
  | three hlength hdigits h ih => exact List.forall_mem_cons.mpr ⟨by omega, ih⟩
  | last hne hlength hdigits =>
    exact List.forall_mem_singleton.mpr ⟨List.length_pos_of_ne_nil hne, hlength⟩
  | skip hthree hdigits h ih => exact ih

theorem Cut.whole (h : Cut s pieces) (hs : ∀ c ∈ s, isDigit 10 c = true) :
    pieces.flatten = s := by
  induction h with
  | nil => rfl
  | three hlength hdigits h ih =>
    rw [List.flatten_cons, ih fun c hc => hs c (List.mem_append_right _ hc)]
  | last hne hlength hdigits => exact List.flatten_singleton
  | skip hthree hdigits h ih => exact absurd hs hdigits

/-- There is a match where there should be one. -/
theorem Cut.hasMatch_iff (h : Cut s pieces) : HasMatch s ↔ pieces ≠ [] := by
  induction h with
  | nil =>
    refine iff_of_false ?_ (not_not.mpr rfl)
    rintro (⟨piece, hpiece, hlength, -⟩ | ⟨c, hc, -⟩)
    · rw [List.infix_nil.mp hpiece] at hlength
      cases hlength
    · cases hc
  | three hlength hdigits h ih =>
    exact iff_of_true (.inl ⟨_, (List.prefix_append _ _).isInfix, hlength, hdigits⟩)
      (List.cons_ne_nil _ _)
  | @last s hne hlength hdigits =>
    refine iff_of_true (.inr ⟨s.getLast hne, List.getLast?_eq_some_getLast hne, ?_⟩)
      (List.cons_ne_nil _ _)
    exact hdigits _ (List.getLast_mem hne)
  | @skip c s pieces hthree hdigits h ih =>
    rw [← ih]
    constructor
    · rintro (⟨piece, hpiece, hlength, hpd⟩ | ⟨d, hd, hdd⟩)
      · rcases List.infix_cons_iff.mp hpiece with hp | hp
        · exact absurd hpd (hthree piece hp hlength)
        · exact .inl ⟨piece, hp, hlength, hpd⟩
      · cases s with
        | nil =>
          have hdc : c = d := Option.some.inj hd
          refine absurd ?_ hdigits
          exact List.forall_mem_singleton.mpr (hdc ▸ hdd)
        | cons e s =>
          rw [List.getLast?_cons_cons] at hd
          exact .inr ⟨d, hd, hdd⟩
    · rintro (⟨piece, hpiece, hlength, hpd⟩ | ⟨d, hd, hdd⟩)
      · exact .inl ⟨piece, List.infix_cons hpiece, hlength, hpd⟩
      · refine .inr ⟨d, ?_, hdd⟩
        cases s with
        | nil => cases hd
        | cons e s => rwa [List.getLast?_cons_cons]

theorem not_hasMatch (h : ∀ c ∈ s, isDigit 10 c = false) : ¬HasMatch s := by
  rintro (⟨piece, hpiece, hlength, hdigits⟩ | ⟨c, hc, hdigit⟩)
  · obtain ⟨c, hc⟩ := List.exists_mem_of_ne_nil piece (by rintro rfl; cases hlength)
    have hfalse := h c (hpiece.subset hc)
    rw [hdigits c hc] at hfalse
    cases hfalse
  · have hfalse := h c (List.mem_of_getLast? hc)
    rw [hdigit] at hfalse
    cases hfalse

theorem Cut.segments (h : Cut s pieces) : Segments s pieces where
  digits := h.digits
  inOrder := h.inOrder
  full := h.full
  length := h.length
  whole := h.whole
  none hs := not_not.mp fun hne => not_hasMatch hs (h.hasMatch_iff.mpr hne)

/-! ## The groups of digits -/

theorem splitOnP_append_of_digits (hpiece : ∀ c ∈ piece, isDigit 10 c = true) (s : JsString) :
    (piece ++ s).splitOnP (fun c => !isDigit 10 c) =
      (s.splitOnP fun c => !isDigit 10 c).modifyHead (piece ++ ·) := by
  induction piece with
  | nil =>
    rw [List.nil_append]
    exact (congrFun List.modifyHead_id _).symm
  | cons c piece ih =>
    rw [List.forall_mem_cons] at hpiece
    rw [List.cons_append, List.splitOnP_cons_eq_if_modifyHead, hpiece.1, ih hpiece.2]
    simp [List.modifyHead_modifyHead, Function.comp_def]

theorem inThrees_append (hlength : piece.length = 3) (hpiece : ∀ c ∈ piece, isDigit 10 c = true) :
    InThrees (piece ++ s) ↔ InThrees s := by
  unfold InThrees
  rw [splitOnP_append_of_digits hpiece]
  cases hsplit : s.splitOnP fun c => !isDigit 10 c with
  | nil => rfl
  | cons group groups =>
    rw [List.modifyHead_cons]
    cases groups with
    | nil => rfl
    | cons group' groups =>
      simp only [List.dropLast_cons_cons, List.forall_mem_cons, List.length_append, hlength]
      rw [Nat.dvd_add_right (dvd_refl 3)]

theorem inThrees_cons_of_not_digit (hc : isDigit 10 c = false) :
    InThrees (c :: s) ↔ InThrees s := by
  unfold InThrees
  rw [List.splitOnP_cons_eq_if_modifyHead, hc]
  obtain ⟨group, groups, hsplit⟩ :=
    List.exists_cons_of_ne_nil (List.splitOnP_ne_nil (fun c => !isDigit 10 c) s)
  rw [hsplit]
  simp

theorem inThrees_of_digits (h : ∀ c ∈ s, isDigit 10 c = true) : InThrees s := by
  unfold InThrees
  rw [List.splitOnP_eq_singleton (by simpa using h)]
  exact List.forall_mem_nil _

/-- A group of one or two digits that something follows. -/
theorem not_inThrees_of_skip (hc : isDigit 10 c = true)
    (hthree : ∀ piece, piece <+: c :: s → piece.length = 3 → ¬∀ c ∈ piece, isDigit 10 c = true)
    (hdigits : ¬∀ d ∈ c :: s, isDigit 10 d = true) : ¬InThrees (c :: s) := by
  have hgroup : ∀ d ∈ (c :: s).takeWhile (isDigit 10), isDigit 10 d = true :=
    fun d hd => List.mem_takeWhile_imp hd
  have hpos : 0 < ((c :: s).takeWhile (isDigit 10)).length := by
    rw [List.takeWhile_cons_of_pos hc]
    exact Nat.succ_pos _
  have hlt : ((c :: s).takeWhile (isDigit 10)).length < 3 := by
    by_contra hle
    refine hthree (((c :: s).takeWhile (isDigit 10)).take 3)
      ((List.take_prefix _ _).trans (List.takeWhile_prefix _)) ?_
      fun d hd => hgroup d (List.mem_of_mem_take hd)
    rw [List.length_take]
    omega
  cases hrest : (c :: s).dropWhile (isDigit 10) with
  | nil => exact absurd (List.dropWhile_eq_nil_iff.mp hrest) hdigits
  | cons x rest =>
    have hx : (!isDigit 10 x) = true := by
      have hhead := List.head_dropWhile_not (isDigit 10) (l := c :: s) (by simp [hrest])
      simpa [hrest] using hhead
    have heq : (c :: s).takeWhile (isDigit 10) ++ x :: rest = c :: s := by
      rw [← hrest, List.takeWhile_append_dropWhile]
    intro hthrees
    unfold InThrees at hthrees
    rw [← heq, List.splitOnP_append_cons_of_forall_mem (by simpa using hgroup) x hx,
      List.dropLast_cons_of_ne_nil (List.splitOnP_ne_nil _ _)] at hthrees
    have hdvd := Nat.le_of_dvd hpos (hthrees _ List.mem_cons_self)
    omega

theorem Cut.length_flatten_le (h : Cut s pieces) :
    pieces.flatten.length ≤ (s.filter (isDigit 10)).length := by
  induction h with
  | nil => exact Nat.le_refl 0
  | three hlength hdigits h ih =>
    rw [List.flatten_cons, List.filter_append, List.filter_eq_self.mpr hdigits,
      List.length_append, List.length_append]
    omega
  | last hne hlength hdigits => rw [List.filter_eq_self.mpr hdigits, List.flatten_singleton]
  | skip hthree hdigits h ih =>
    exact ih.trans ((List.sublist_cons_self _ _).filter _).length_le

/-- All digits are in the pieces if the groups are in threes. -/
theorem Cut.flatten_eq_iff (h : Cut s pieces) :
    pieces.flatten = s.filter (isDigit 10) ↔ InThrees s := by
  induction h with
  | nil => exact iff_of_true rfl (inThrees_of_digits (List.forall_mem_nil _))
  | three hlength hdigits h ih =>
    rw [inThrees_append hlength hdigits, ← ih, List.flatten_cons, List.filter_append,
      List.filter_eq_self.mpr hdigits, List.append_cancel_left_eq]
  | last hne hlength hdigits =>
    refine iff_of_true ?_ (inThrees_of_digits hdigits)
    rw [List.filter_eq_self.mpr hdigits, List.flatten_singleton]
  | @skip c s pieces hthree hdigits h ih =>
    cases hc : isDigit 10 c with
    | false =>
      rw [inThrees_cons_of_not_digit hc, ← ih, List.filter_cons_of_neg (by simp [hc])]
    | true =>
      refine iff_of_false (fun heq => ?_) (not_inThrees_of_skip hc hthree hdigits)
      have hle := h.length_flatten_le
      rw [heq, List.filter_cons_of_pos hc, List.length_cons] at hle
      omega

end

/-! ## The path -/

section

variable {mediaid size suffix timestamp name : JsString} {dirs dirs' : List JsString}

theorem slash_not_digit : isDigit 10 (unit '/') = false := by
  decide

theorem picPath_eq (dirs : List JsString) (name : JsString) : picPath dirs name =
    picRoot ++ unit '/' :: ((dirs.flatMap fun dir => dir ++ [unit '/']) ++ name) := by
  have hslash : text "/" = [unit '/'] := rfl
  rw [picPath, hslash, ← List.cons_append, join_concat, List.flatMap_cons]
  simp only [List.append_assoc, List.cons_append, List.nil_append]

/-- Directories of digits can be read off a path. -/
theorem picPath_inj (h : ∀ dir ∈ dirs, ∀ c ∈ dir, isDigit 10 c = true)
    (h' : ∀ dir ∈ dirs', ∀ c ∈ dir, isDigit 10 c = true)
    (heq : picPath dirs name = picPath dirs' name) : dirs = dirs' := by
  have hslash : ∀ {ds : List JsString}, (∀ dir ∈ ds, ∀ c ∈ dir, isDigit 10 c = true) →
      ∀ dir ∈ ds, unit '/' ∉ dir := by
    intro ds hds dir hdir hmem
    have htrue := hds dir hdir _ hmem
    rw [slash_not_digit] at htrue
    cases htrue
  rw [picPath_eq, picPath_eq] at heq
  have htail := (List.cons.inj (List.append_cancel_left heq)).2
  exact flatMap_concat_inj (hslash h) (hslash h') (List.append_cancel_right htail)

theorem genPicPath_of_not_hasMatch (hsize : size ≠ []) (h : ¬HasMatch mediaid) :
    genPicPath (some mediaid) size suffix timestamp = .error .ofNull := by
  have hnil := not_not.mp (mt (cut_globalMatches mediaid).hasMatch_iff.mpr h)
  simp only [genPicPath, hsize, matchGlobal, hnil, if_true, if_false]

theorem genPicPath_of_hasMatch (hsize : size ≠ []) (h : HasMatch mediaid) :
    genPicPath (some mediaid) size suffix timestamp =
      .ok (picPath (globalMatches picRegexp 0 mediaid)
        (picName mediaid size suffix timestamp)) := by
  have hne := (cut_globalMatches mediaid).hasMatch_iff.mp h
  have hlength : (globalMatches picRegexp 0 mediaid).length ≠ 0 :=
    mt List.length_eq_zero_iff.mp hne
  simp only [genPicPath, hsize, matchGlobal, hne, hlength, if_false, ne_eq, not_false_eq_true,
    if_true]
  rfl

theorem not_pathWith (h : genPicPath (some mediaid) size suffix timestamp = .error .ofNull) :
    ¬PathWith mediaid size suffix timestamp dirs := by
  intro hpath
  rw [PathWith, h] at hpath
  cases hpath.1

/-- A path has the directories that the regular expression matches. -/
theorem pathWith_iff (hsize : size ≠ []) : PathWith mediaid size suffix timestamp dirs ↔
    HasMatch mediaid ∧ dirs = globalMatches picRegexp 0 mediaid := by
  have hcut := cut_globalMatches mediaid
  by_cases hmatch : HasMatch mediaid
  · rw [PathWith, genPicPath_of_hasMatch hsize hmatch]
    constructor
    · rintro ⟨hpath, hdirs⟩
      exact ⟨hmatch, (picPath_inj hcut.digits hdirs.digits (Except.ok.inj hpath)).symm⟩
    · rintro ⟨-, rfl⟩
      exact ⟨rfl, hcut.segments⟩
  · exact iff_of_false (not_pathWith (genPicPath_of_not_hasMatch hsize hmatch))
      fun h => hmatch h.1

/-! ## The results -/

/-- There is a path with directories as they are meant exactly if there is a match, and they hold
all digits exactly if the groups of digits are in threes besides. -/
theorem genPicPath_iff (hsize : size ≠ []) :
    ((∃ dirs, PathWith mediaid size suffix timestamp dirs) ↔ HasMatch mediaid) ∧
    ((∃ dirs, PathWith mediaid size suffix timestamp dirs ∧
      dirs.flatten = mediaid.filter (isDigit 10)) ↔ HasMatch mediaid ∧ InThrees mediaid) := by
  have hcut := cut_globalMatches mediaid
  simp only [pathWith_iff hsize]
  constructor
  · exact ⟨fun ⟨dirs, h⟩ => h.1, fun h => ⟨_, h, rfl⟩⟩
  · constructor
    · rintro ⟨dirs, ⟨hmatch, rfl⟩, hflatten⟩
      exact ⟨hmatch, hcut.flatten_eq_iff.mp hflatten⟩
    · rintro ⟨hmatch, hthrees⟩
      exact ⟨_, ⟨hmatch, rfl⟩, hcut.flatten_eq_iff.mpr hthrees⟩

end

theorem genPicPath_12345 :
    ∃ dirs, PathWith (text "12345") (text "200_100") (text "poster") (text "9") dirs ∧
      dirs.flatten = (text "12345").filter (isDigit 10) :=
  (genPicPath_iff (by decide +kernel)).2.mpr
    ⟨.inr ⟨unit '5', by decide +kernel, by decide⟩,
      inThrees_of_digits (List.all_eq_true.mp (by decide +kernel))⟩

/-- An id without digits has no path, and neither has one whose only digits are not at the end. -/
theorem genPicPath_abc :
    genPicPath (some (text "abc")) (text "200_100") (text "poster") [] = .error .ofNull ∧
    genPicPath (some (text "a12b")) (text "200_100") (text "poster") [] = .error .ofNull ∧
    (∀ dirs, ¬PathWith (text "abc") (text "200_100") (text "poster") [] dirs) ∧
    ∀ dirs, ¬PathWith (text "a12b") (text "200_100") (text "poster") [] dirs := by
  have habc : genPicPath (some (text "abc")) (text "200_100") (text "poster") [] =
      .error .ofNull := by decide +kernel
  have ha12b : genPicPath (some (text "a12b")) (text "200_100") (text "poster") [] =
      .error .ofNull := by decide +kernel
  exact ⟨habc, ha12b, fun dirs => not_pathWith habc, fun dirs => not_pathWith ha12b⟩

end Js

end MySocket
