import Mathlib.Data.List.SplitBy
import MySocket.JsDate
import MySocket.Search

/-!
# Formatting a date

`dateFormat` replaces the tokens of a format one after another : a run of `y`, a run of `w`, and
then for each key of a map the first match of the key as a regular expression. `Date.format` of
`index.html` is the same without `w`.

* `dateFormat_eq` : where each letter is in one run at most, that is to replace all runs at once,
  in whatever order the keys are enumerated. The key of the milliseconds is `S` and not `S+`, so of
  a run of `S` only the first is replaced.

The texts put in have no `$`, so `replace` puts them in as they are.
-/

namespace MySocket

namespace Js

/-! ## The code -/

/-- The keys of `map` by their letters : `M+` and so on, and `S`. -/
inductive Key
  | M
  | d
  | w
  | h
  | m
  | s
  | q
  | S
  deriving DecidableEq

def Key.letter : Key → UInt16
  | M => unit 'M'
  | d => unit 'd'
  | w => unit 'w'
  | h => unit 'h'
  | m => unit 'm'
  | s => unit 's'
  | q => unit 'q'
  | S => unit 'S'

/-- `map`, for a date by its local time. -/
def Key.value (t : ℤ) : Key → ℕ
  | M => month t + 1
  | d => date t
  | w => weekDay t
  | h => hours t
  | m => minutes t
  | s => seconds t
  | q => (month t + 3) / 3
  | S => milliseconds t

def mapKeys : List Key :=
  [.M, .d, .w, .h, .m, .s, .q, .S]

/-- The keys of `index.html`. -/
def protoKeys : List Key :=
  [.M, .d, .h, .m, .s, .q, .S]

/-- The first match of `(c+)`. -/
def execPlus (c : UInt16) (s : JsString) : Option JsString :=
  if (s.dropWhile (· ≠ c)).takeWhile (· = c) = [] then none
  else some ((s.dropWhile (· ≠ c)).takeWhile (· = c))

/-- The first match of `(c)`. -/
def execOne (c : UInt16) (s : JsString) : Option JsString :=
  if c ∈ s then some [c] else none

def Key.exec (k : Key) (s : JsString) : Option JsString :=
  if k = .S then execOne k.letter s else execPlus k.letter s

/-- `replace` with a string as the pattern. -/
def replaceFirst (s pattern new : JsString) : JsString :=
  match indexOf pattern s with
  | some i => s.take i ++ (new ++ s.drop (i + pattern.length))
  | none => s

def substr (s : JsString) (start : ℤ) : JsString :=
  s.drop (if start < 0 then (s.length + start).toNat else start.toNat)

/-- `week` -/
def weekNames : List JsString :=
  [text "周日", text "周一", text "周二", text "周三", text "周四", text "周五", text "周六"]

def replaceYear (t : ℤ) (format : JsString) : JsString :=
  match execPlus (unit 'y') format with
  | some found => replaceFirst format found (substr (intText (fullYear t)) (4 - found.length))
  | none => format

def replaceWeek (t : ℤ) (format : JsString) : JsString :=
  match execPlus (unit 'w') format with
  | some found => replaceFirst format found (weekNames.getD (Key.value t .w) (text "undefined"))
  | none => format

/-- The body of the loop. -/
def replaceKey (t : ℤ) (k : Key) (format : JsString) : JsString :=
  match k.exec format with
  | some found =>
    replaceFirst format found
      (if found.length = 1 then natText (k.value t)
      else substr (text "00" ++ natText (k.value t)) (natText (k.value t)).length)
  | none => format

/-- The loop over the keys, in the order they are enumerated in. -/
def replaceKeys (t : ℤ) : List Key → JsString → JsString
  | [], format => format
  | k :: keys, format => replaceKeys t keys (replaceKey t k format)

/-- `dateFormat`, for a date by its local time. -/
def dateFormat (date : Option ℤ) (keys : List Key) (format : JsString) : Option JsString :=
  date.map fun t => replaceKeys t keys (replaceWeek t (replaceYear t format))

/-- `Date.prototype.format` -/
def datePrototypeFormat (t : ℤ) (keys : List Key) (format : JsString) : JsString :=
  replaceKeys t keys (replaceYear t format)

/-! ## The property -/

/-- The letters of tokens. -/
inductive Letter
  | y
  | key (k : Key)
  deriving DecidableEq

def Letter.unit : Letter → UInt16
  | y => Js.unit 'y'
  | key k => k.letter

def letters : List Letter :=
  .y :: mapKeys.map .key

/-- The letters of `index.html`. -/
def protoLetters : List Letter :=
  .y :: protoKeys.map .key

def twoDigits (n : ℕ) : JsString :=
  [digitUnit (n / 10), digitUnit (n % 10)]

/-- What a run of `n` letters stands for. -/
def Letter.field (t : ℤ) (n : ℕ) : Letter → JsString
  | y => (intText (fullYear t)).rtake n
  | key .w => weekNames.getD (weekDay t) (text "undefined")
  | key .S => natText (milliseconds t)
  | key k => if n = 1 then natText (k.value t) else twoDigits (k.value t)

/-- The same, but of a run of `S` only the first stands for the milliseconds. -/
def Letter.fieldBut (t : ℤ) (n : ℕ) : Letter → JsString
  | key .S => natText (milliseconds t) ++ List.replicate (n - 1) (Js.unit 'S')
  | l => l.field t n

/-- The field in place of a run, if it is one of the letters `ls`. -/
def runText (field : ℕ → Letter → JsString) (ls : List Letter) : JsString → JsString
  | [] => []
  | c :: run =>
    match ls.find? fun l => l.unit = c with
    | some l => field (c :: run).length l
    | none => c :: run

/-- All runs at once replaced by their fields. -/
def replaceRuns (field : ℕ → Letter → JsString) (ls : List Letter) (format : JsString) :
    JsString :=
  (format.splitBy (· == ·)).flatMap (runText field ls)

/-- `c` is in one run at most. -/
def OneRun (c : UInt16) (s : JsString) : Prop :=
  ∃ a n b, s = a ++ (List.replicate n c ++ b) ∧ c ∉ a ∧ c ∉ b

/-- Each letter is in one run at most, and a run of `y` is not longer than four. -/
structure Regular (format : JsString) : Prop where
  oneRun : ∀ l ∈ letters, OneRun l.unit format
  years : format.count (unit 'y') ≤ 4

/-! ## Letters and fields -/

section

variable {t : ℤ} {n : ℕ} {k : Key} {l l' : Letter} {c : UInt16} {a b s : JsString}
  {ls ls' : List Letter} {field : ℕ → Letter → JsString}

theorem mem_letters (l : Letter) : l ∈ letters := by
  cases l with
  | y => decide
  | key k => cases k <;> decide

theorem Letter.unit_injective : Function.Injective Letter.unit := by
  intro l l' h
  have hall : ∀ l ∈ letters, ∀ l' ∈ letters, l.unit = l'.unit → l = l' := by decide
  exact hall l (mem_letters l) l' (mem_letters l') h

theorem Letter.unit_not_digit (l : Letter) : isDigit 10 l.unit = false := by
  have hall : ∀ l ∈ letters, isDigit 10 l.unit = false := by decide
  exact hall l (mem_letters l)

theorem Letter.unit_notMem_weekNames (l : Letter) : ∀ name ∈ weekNames, l.unit ∉ name := by
  have hall : ∀ l ∈ letters, ∀ name ∈ weekNames, l.unit ∉ name := by decide +kernel
  exact hall l (mem_letters l)

theorem weekName_mem (t : ℤ) : weekNames.getD (weekDay t) (text "undefined") ∈ weekNames := by
  have hlt : weekDay t < weekNames.length := weekDay_lt t
  rw [List.getD_eq_getElem?_getD, List.getElem?_eq_getElem hlt, Option.getD_some]
  exact List.getElem_mem hlt

theorem isDigit_of_mem_twoDigits (hn : n < 100) (h : c ∈ twoDigits n) : isDigit 10 c = true := by
  rw [twoDigits, List.mem_pair] at h
  rcases h with rfl | rfl
  · exact isDigit_digitUnit (by omega)
  · exact isDigit_digitUnit (by omega)

theorem Key.value_lt (t : ℤ) (hk : k ≠ .S) : k.value t < 100 := by
  have hmonth := month_lt t
  have hdate := date_bounds t
  have hweek := weekDay_lt t
  have hhours := hours_lt t
  have hminutes := minutes_lt t
  have hseconds := seconds_lt t
  cases k with
  | S => exact absurd rfl hk
  | _ =>
    simp only [Key.value]
    omega

theorem intText_of_nonneg {z : ℤ} (h : 0 ≤ z) : intText z = natText z.natAbs :=
  if_neg (not_lt.mpr h)

/-- No letter is put in for another one. -/
theorem Letter.unit_notMem_field (hyear : 0 ≤ fullYear t) (l l' : Letter) (n : ℕ) :
    l.unit ∉ l'.field t n := by
  have hdigit : ∀ {u : JsString}, (∀ c ∈ u, isDigit 10 c = true) → l.unit ∉ u := by
    intro u hu hmem
    have htrue := hu _ hmem
    rw [l.unit_not_digit] at htrue
    cases htrue
  have hkey : ∀ k : Key, k ≠ .S →
      l.unit ∉ if n = 1 then natText (k.value t) else twoDigits (k.value t) := by
    intro k hk
    split_ifs
    · exact hdigit fun _ => isDigit_of_mem_natText
    · exact hdigit fun _ => isDigit_of_mem_twoDigits (Key.value_lt t hk)
  cases l' with
  | y =>
    rw [Letter.field, intText_of_nonneg hyear]
    exact hdigit fun c hc => isDigit_of_mem_natText (List.mem_of_mem_drop hc)
  | key k =>
    cases k with
    | w => exact l.unit_notMem_weekNames _ (weekName_mem t)
    | S => exact hdigit fun _ => isDigit_of_mem_natText
    | M => exact hkey .M (by decide)
    | d => exact hkey .d (by decide)
    | h => exact hkey .h (by decide)
    | m => exact hkey .m (by decide)
    | s => exact hkey .s (by decide)
    | q => exact hkey .q (by decide)

theorem Letter.fieldBut_of_ne (hl : l ≠ .key .S) (t : ℤ) (n : ℕ) :
    l.fieldBut t n = l.field t n := by
  cases l with
  | y => rfl
  | key k =>
    cases k with
    | S => exact absurd rfl hl
    | _ => rfl

theorem Letter.unit_notMem_fieldBut (hyear : 0 ≤ fullYear t) (hne : l' = .key .S → l ≠ .key .S)
    (n : ℕ) : l.unit ∉ l'.fieldBut t n := by
  by_cases hl : l' = .key .S
  · subst hl
    rw [Letter.fieldBut, List.mem_append, not_or]
    refine ⟨l.unit_notMem_field hyear (.key .S) n, fun h => hne rfl ?_⟩
    exact Letter.unit_injective (List.eq_of_mem_replicate h)
  · rw [Letter.fieldBut_of_ne hl]
    exact l.unit_notMem_field hyear l' n

/-! ## Runs -/

theorem splitBy_replicate (hn : n ≠ 0) (c : UInt16) :
    (List.replicate n c).splitBy (· == ·) = [List.replicate n c] :=
  List.splitBy_of_isChain (by simpa using hn)
    (List.isChain_replicate_of_rel n (beq_self_eq_true c))

/-- A run of a letter that is not beside it is replaced on its own. -/
theorem replaceRuns_run (hn : n ≠ 0) (ha : c ∉ a) (hb : c ∉ b) :
    replaceRuns field ls (a ++ (List.replicate n c ++ b)) =
      replaceRuns field ls a ++ (runText field ls (List.replicate n c) ++
        replaceRuns field ls b) := by
  obtain ⟨n, rfl⟩ := Nat.exists_eq_succ_of_ne_zero hn
  have hfront : ∀ x ∈ a.getLast?, ∀ y ∈ (List.replicate (n + 1) c ++ b).head?,
      (x == y) = false := by
    intro x hx y hy
    rw [List.replicate_succ, List.cons_append, List.head?_cons, Option.mem_some_iff] at hy
    exact beq_false_of_ne fun h => ha (hy ▸ h ▸ List.mem_of_getLast? hx)
  have hback : ∀ x ∈ (List.replicate (n + 1) c).getLast?, ∀ y ∈ b.head?, (x == y) = false := by
    intro x hx y hy
    have hxc := List.eq_of_mem_replicate (List.mem_of_getLast? hx)
    exact beq_false_of_ne fun h => hb (hxc ▸ h ▸ List.mem_of_mem_head? hy)
  simp only [replaceRuns, List.splitBy_append hfront, List.splitBy_append hback,
    splitBy_replicate hn, List.flatMap_append, List.flatMap_singleton]

/-- A run is of one letter. -/
theorem eq_of_mem_run {run : JsString} {d : UInt16} (hrun : c :: run ∈ s.splitBy (· == ·))
    (hd : d ∈ c :: run) : d = c := by
  have hchain := List.isChain_of_mem_splitBy hrun
  rcases List.mem_cons.mp hd with rfl | hd
  · rfl
  · have hpair := List.isChain_iff_pairwise.mp (hchain.imp fun _ _ h => eq_of_beq h)
    exact (List.rel_of_pairwise_cons hpair hd).symm

theorem mem_of_mem_run {run : JsString} (hrun : run ∈ s.splitBy (· == ·)) (hc : c ∈ run) :
    c ∈ s := by
  have hmem := List.mem_flatten.mpr ⟨run, hrun, hc⟩
  rwa [List.flatten_splitBy] at hmem

theorem find?_unit_eq_some : (ls.find? fun l => l.unit = c) = some l ↔ l ∈ ls ∧ l.unit = c := by
  constructor
  · intro h
    exact ⟨List.mem_of_find?_eq_some h, by simpa using List.find?_some h⟩
  · rintro ⟨hmem, rfl⟩
    have hsome : (ls.find? fun l' => l'.unit = l.unit).isSome :=
      List.find?_isSome.mpr ⟨l, hmem, decide_eq_true rfl⟩
    obtain ⟨l', hl'⟩ := Option.isSome_iff_exists.mp hsome
    have hunit : l'.unit = l.unit := by simpa using List.find?_some hl'
    rw [hl', Letter.unit_injective hunit]

theorem runText_of_mem (hl : l ∈ ls) (n : ℕ) :
    runText field ls (List.replicate (n + 1) l.unit) = field (n + 1) l := by
  rw [List.replicate_succ, runText, find?_unit_eq_some.mpr ⟨hl, rfl⟩, List.length_cons,
    List.length_replicate]

theorem runText_of_notMem (hl : l ∉ ls) (n : ℕ) :
    runText field ls (List.replicate n l.unit) = List.replicate n l.unit := by
  cases n with
  | zero => rfl
  | succ n =>
    have hnone : (ls.find? fun l' => l'.unit = l.unit) = none := by
      refine List.find?_eq_none.mpr fun l' hl' h => hl ?_
      rwa [← Letter.unit_injective (of_decide_eq_true h)]
    rw [List.replicate_succ, runText, hnone]

/-- What is put in depends only on which letters are among `ls`. -/
theorem replaceRuns_congr (h : ∀ l, l.unit ∈ s → (l ∈ ls ↔ l ∈ ls')) :
    replaceRuns field ls s = replaceRuns field ls' s := by
  refine List.flatMap_congr fun run hrun => ?_
  cases run with
  | nil => rfl
  | cons c run =>
    have hc : c ∈ s := mem_of_mem_run hrun List.mem_cons_self
    have hfind : (ls.find? fun l => l.unit = c) = ls'.find? fun l => l.unit = c := by
      ext l
      rw [find?_unit_eq_some, find?_unit_eq_some]
      exact and_congr_left fun hl => h l (hl ▸ hc)
    rw [runText, runText, hfind]

/-- A letter that is replaced, or that is not there, is not there afterwards. -/
theorem notMem_replaceRuns (hfield : ∀ l' ∈ ls, l'.unit ∈ s → ∀ n, l.unit ∉ field n l')
    (h : l ∈ ls ∨ l.unit ∉ s) : l.unit ∉ replaceRuns field ls s := by
  intro hmem
  obtain ⟨run, hrun, hmem⟩ := List.mem_flatMap.mp hmem
  cases run with
  | nil => cases hmem
  | cons c run =>
    have hc : c ∈ s := mem_of_mem_run hrun List.mem_cons_self
    rw [runText] at hmem
    cases hfind : ls.find? fun l => l.unit = c with
    | some l' =>
      obtain ⟨hl', rfl⟩ := find?_unit_eq_some.mp hfind
      rw [hfind] at hmem
      exact hfield l' hl' hc _ hmem
    | none =>
      rw [hfind] at hmem
      rcases h with h | h
      · have hunit := eq_of_mem_run hrun hmem
        rw [find?_unit_eq_some.mpr ⟨h, hunit⟩] at hfind
        cases hfind
      · exact h (mem_of_mem_run hrun hmem)

/-! ## One replacement -/

/-- The first occurrence of a pattern begins where its first letter first does. -/
theorem replaceFirst_append (ha : c ∉ a) (pattern new b : JsString) :
    replaceFirst (a ++ (c :: pattern ++ b)) (c :: pattern) new = a ++ (new ++ b) := by
  have hindex : indexOf (c :: pattern) (a ++ (c :: pattern ++ b)) = some a.length := by
    refine indexOf_eq_some.mpr ⟨?_, fun j hj hocc => ha ?_⟩
    · have hocc : OccursAt (c :: pattern) (a ++ (c :: pattern ++ b)) (a.length + 0) :=
        occursAt_length_add.mpr (List.prefix_append _ _)
      exact hocc
    · obtain ⟨rest, hrest⟩ := hocc
      have hget := congrArg List.head? hrest
      rw [List.head?_drop, List.getElem?_append_left hj, List.cons_append, List.head?_cons] at hget
      exact List.mem_of_getElem? hget.symm
  rw [replaceFirst, hindex]
  simp only [List.take_left, ← List.drop_drop, List.drop_left]

theorem execPlus_run (hn : n ≠ 0) (ha : c ∉ a) (hb : c ∉ b) :
    execPlus c (a ++ (List.replicate n c ++ b)) = some (List.replicate n c) := by
  have hdrop : (a ++ (List.replicate n c ++ b)).dropWhile (· ≠ c) = List.replicate n c ++ b := by
    rw [List.dropWhile_append_of_pos (by simpa using fun x hx => ne_of_mem_of_not_mem hx ha)]
    obtain ⟨n, rfl⟩ := Nat.exists_eq_succ_of_ne_zero hn
    rw [List.replicate_succ, List.cons_append, List.dropWhile_cons_of_neg (by simp)]
  have htake : (List.replicate n c ++ b).takeWhile (· = c) = List.replicate n c := by
    rw [List.takeWhile_append_of_pos fun x hx => by simpa using List.eq_of_mem_replicate hx]
    have hnil : b.takeWhile (· = c) = [] := by
      cases b with
      | nil => rfl
      | cons d b =>
        rw [List.takeWhile_cons_of_neg]
        simpa using fun h : d = c => hb (h ▸ List.mem_cons_self)
    rw [hnil, List.append_nil]
  rw [execPlus, hdrop, htake, if_neg (by simpa using hn)]

theorem execPlus_of_notMem (h : c ∉ s) : execPlus c s = none := by
  have hdrop : s.dropWhile (· ≠ c) = [] := by
    rw [List.dropWhile_eq_nil_iff]
    simpa using fun x hx => ne_of_mem_of_not_mem hx h
  rw [execPlus, hdrop]
  rfl

/-- A step that replaces the runs of `l`, where `l` has not been replaced. -/
theorem step_replaceRuns {f : JsString → JsString} (hone : OneRun l.unit s) (hl : l ∉ ls)
    (hfield : ∀ l' ∈ ls, l'.unit ∈ s → ∀ n, l.unit ∉ field n l')
    (hmiss : ∀ u, l.unit ∉ u → f u = u)
    (hhit : ∀ a b, l.unit ∉ a → l.unit ∉ b → s.count l.unit ≠ 0 →
      f (a ++ (List.replicate (s.count l.unit) l.unit ++ b)) =
        a ++ (field (s.count l.unit) l ++ b)) :
    f (replaceRuns field ls s) = replaceRuns field (l :: ls) s := by
  obtain ⟨a, n, b, rfl, ha, hb⟩ := hone
  have hcongr : ∀ {u : JsString}, l.unit ∉ u →
      replaceRuns field (l :: ls) u = replaceRuns field ls u := by
    intro u hu
    refine replaceRuns_congr fun l' hl' => List.mem_cons.trans (or_iff_right ?_)
    rintro rfl
    exact hu hl'
  cases n with
  | zero =>
    have hnot : l.unit ∉ a ++ (List.replicate 0 l.unit ++ b) := by simp [ha, hb]
    rw [hcongr hnot]
    exact hmiss _ (notMem_replaceRuns hfield (.inr hnot))
  | succ n =>
    have hcount : (a ++ (List.replicate (n + 1) l.unit ++ b)).count l.unit = n + 1 := by
      rw [List.count_append, List.count_append, List.count_eq_zero.mpr ha,
        List.count_eq_zero.mpr hb, List.count_replicate_self]
      omega
    rw [hcount] at hhit
    have hnot : ∀ {u : JsString}, (∀ d ∈ u, d ∈ a ++ (List.replicate (n + 1) l.unit ++ b)) →
        l.unit ∉ u → l.unit ∉ replaceRuns field ls u := fun hsub hu =>
      notMem_replaceRuns (fun l' hl' hmem => hfield l' hl' (hsub _ hmem)) (.inr hu)
    rw [replaceRuns_run n.succ_ne_zero ha hb, replaceRuns_run n.succ_ne_zero ha hb,
      runText_of_notMem hl, runText_of_mem List.mem_cons_self, hcongr ha, hcongr hb]
    exact hhit _ _ (hnot (fun d hd => List.mem_append_left _ hd) ha)
      (hnot (fun d hd => List.mem_append_right _ (List.mem_append_right _ hd)) hb) n.succ_ne_zero

theorem two_digits (hn : n < 100) :
    substr (text "00" ++ natText n) (natText n).length = twoDigits n := by
  have hzeros : text "00" = [digitUnit 0, digitUnit 0] := by decide +kernel
  rw [substr, if_neg (by omega), Int.toNat_natCast, hzeros, twoDigits]
  rcases Nat.lt_or_ge n 10 with h | h
  · rw [natText_of_lt h, Nat.div_eq_of_lt h, Nat.mod_eq_of_lt h]
    rfl
  · rw [natText_of_le h, natText_of_lt (by omega)]
    rfl

theorem length_natText_year {y : ℕ} (h : 1000 ≤ y) (h' : y ≤ 9999) : (natText y).length = 4 := by
  have hle : (natText y).length ≤ 4 := (length_natText_le_iff (by decide)).mpr (by omega)
  have hgt : ¬(natText y).length ≤ 3 := fun h3 =>
    absurd ((length_natText_le_iff (by decide)).mp h3) (by omega)
  omega

/-- A date with a year of four digits. -/
def FourDigits (t : ℤ) : Prop :=
  1000 ≤ fullYear t ∧ fullYear t ≤ 9999

theorem year_digits (h : FourDigits t) (hn : n ≤ 4) :
    substr (intText (fullYear t)) (4 - n) = (intText (fullYear t)).rtake n := by
  have hlength : (intText (fullYear t)).length = 4 := by
    obtain ⟨h1, h2⟩ := h
    rw [intText_of_nonneg (by omega)]
    exact length_natText_year (by omega) (by omega)
  rw [substr, if_neg (by omega), List.rtake, hlength]
  congr 1
  omega

theorem replaceKey_of_notMem (h : k.letter ∉ s) : replaceKey t k s = s := by
  have hexec : k.exec s = none := by
    unfold Key.exec
    split_ifs
    · exact if_neg h
    · exact execPlus_of_notMem h
  rw [replaceKey, hexec]

/-- What a key puts in for a run of its letter. -/
theorem replaceKey_run (hw : k ≠ .w) (hn : n ≠ 0) (ha : k.letter ∉ a) (hb : k.letter ∉ b) :
    replaceKey t k (a ++ (List.replicate n k.letter ++ b)) =
      a ++ ((Letter.key k).fieldBut t n ++ b) := by
  obtain ⟨n, rfl⟩ := Nat.exists_eq_succ_of_ne_zero hn
  by_cases hS : k = .S
  · subst hS
    have hexec : Key.S.exec (a ++ (List.replicate (n + 1) Key.S.letter ++ b)) =
        some [Key.S.letter] := by
      rw [Key.exec, if_pos rfl, execOne, if_pos]
      exact List.mem_append_right _ (List.mem_append_left _ List.mem_cons_self)
    rw [replaceKey, hexec]
    simp only [List.length_singleton, if_true]
    rw [List.replicate_succ, ← List.singleton_append, List.append_assoc,
      replaceFirst_append ha [] _ (List.replicate n Key.S.letter ++ b), Letter.fieldBut,
      List.append_assoc]
    rfl
  · have hexec : k.exec (a ++ (List.replicate (n + 1) k.letter ++ b)) =
        some (List.replicate (n + 1) k.letter) := by
      rw [Key.exec, if_neg hS, execPlus_run n.succ_ne_zero ha hb]
    have hfield : (Letter.key k).fieldBut t (n + 1) =
        if n + 1 = 1 then natText (k.value t) else twoDigits (k.value t) := by
      rw [Letter.fieldBut_of_ne (by simpa using hS)]
      cases k with
      | w => exact absurd rfl hw
      | S => exact absurd rfl hS
      | _ => rfl
    rw [replaceKey, hexec]
    simp only [List.length_replicate]
    rw [two_digits (Key.value_lt t hS), hfield, List.replicate_succ]
    exact replaceFirst_append ha _ _ b

/-- What is put in for a run of `y` and of `w`. -/
theorem replaceYear_run (h : FourDigits t) (hn : n ≠ 0) (hn4 : n ≤ 4) (ha : unit 'y' ∉ a)
    (hb : unit 'y' ∉ b) : replaceYear t (a ++ (List.replicate n (unit 'y') ++ b)) =
      a ++ (Letter.y.fieldBut t n ++ b) := by
  obtain ⟨n, rfl⟩ := Nat.exists_eq_succ_of_ne_zero hn
  have hfield : Letter.y.fieldBut t (n + 1) = (intText (fullYear t)).rtake (n + 1) := rfl
  rw [replaceYear, execPlus_run hn ha hb]
  simp only [List.length_replicate]
  rw [year_digits h hn4, hfield, List.replicate_succ]
  exact replaceFirst_append ha _ _ b

theorem replaceWeek_run (hn : n ≠ 0) (ha : unit 'w' ∉ a) (hb : unit 'w' ∉ b) :
    replaceWeek t (a ++ (List.replicate n (unit 'w') ++ b)) =
      a ++ ((Letter.key .w).fieldBut t n ++ b) := by
  obtain ⟨n, rfl⟩ := Nat.exists_eq_succ_of_ne_zero hn
  rw [replaceWeek, execPlus_run hn ha hb, List.replicate_succ]
  exact replaceFirst_append ha _ _ b

theorem replaceYear_of_notMem (h : unit 'y' ∉ s) : replaceYear t s = s := by
  rw [replaceYear, execPlus_of_notMem h]

theorem replaceWeek_of_notMem (h : unit 'w' ∉ s) : replaceWeek t s = s := by
  rw [replaceWeek, execPlus_of_notMem h]

end

/-! ## All replacements -/

section

variable {t : ℤ} {format : JsString} {keys : List Key} {ls : List Letter}

/-- The year first. -/
theorem replaceYear_eq (hreg : Regular format) (h : FourDigits t) :
    replaceYear t format = replaceRuns (Letter.fieldBut t) [.y] format := by
  have hnil : replaceRuns (Letter.fieldBut t) [] format = format := by
    have hrun : runText (Letter.fieldBut t) [] = id := by
      funext run
      cases run <;> rfl
    rw [replaceRuns, hrun, List.flatMap_id, List.flatten_splitBy]
  have hstep : replaceYear t (replaceRuns (Letter.fieldBut t) [] format) =
      replaceRuns (Letter.fieldBut t) [.y] format :=
    step_replaceRuns (hreg.oneRun .y (mem_letters .y)) List.not_mem_nil (List.forall_mem_nil _)
      (fun _ => replaceYear_of_notMem)
      (fun _ _ ha hb hn => replaceYear_run h hn hreg.years ha hb)
  rwa [hnil] at hstep

theorem replaceWeek_eq (hreg : Regular format) (hyear : 0 ≤ fullYear t)
    (hw : .key .w ∉ ls) (hS : .key .S ∉ ls) :
    replaceWeek t (replaceRuns (Letter.fieldBut t) ls format) =
      replaceRuns (Letter.fieldBut t) (.key .w :: ls) format :=
  step_replaceRuns (hreg.oneRun _ (mem_letters (.key .w))) hw
    (fun _ hl' _ n => Letter.unit_notMem_fieldBut hyear (fun h => absurd (h ▸ hl') hS) n)
    (fun _ => replaceWeek_of_notMem) (fun _ _ ha hb hn => replaceWeek_run hn ha hb)

/-- One turn of the loop; the key of `w` finds nothing any more. -/
theorem replaceKey_eq (hreg : Regular format) (hyear : 0 ≤ fullYear t) (k : Key)
    (hk : k = .w ∧ .key .w ∈ ls ∨ k ≠ .w ∧ .key k ∉ ls) :
    replaceKey t k (replaceRuns (Letter.fieldBut t) ls format) =
      replaceRuns (Letter.fieldBut t) (.key k :: ls) format := by
  rcases hk with ⟨rfl, hmem⟩ | ⟨hw, hnot⟩
  · have hgone : Key.w.letter ∉ replaceRuns (Letter.fieldBut t) ls format :=
      notMem_replaceRuns (l := .key .w)
        (fun _ _ _ n => Letter.unit_notMem_fieldBut hyear (fun _ => by decide) n) (.inl hmem)
    rw [replaceKey_of_notMem hgone]
    refine replaceRuns_congr fun l _ => (List.mem_cons.trans (or_iff_right_of_imp ?_)).symm
    rintro rfl
    exact hmem
  · refine step_replaceRuns (hreg.oneRun _ (mem_letters (.key k))) hnot
      (fun l' hl' _ n => Letter.unit_notMem_fieldBut hyear (fun hS heq => ?_) n)
      (fun _ => replaceKey_of_notMem) (fun _ _ ha hb hn => replaceKey_run hw hn ha hb)
    exact hnot (heq ▸ hS ▸ hl')

/-- The whole loop. -/
theorem replaceKeys_eq (hreg : Regular format) (hyear : 0 ≤ fullYear t) (hnodup : keys.Nodup)
    (hkeys : ∀ k ∈ keys, k = .w ∧ .key .w ∈ ls ∨ k ≠ .w ∧ .key k ∉ ls) :
    replaceKeys t keys (replaceRuns (Letter.fieldBut t) ls format) =
      replaceRuns (Letter.fieldBut t) (keys.map .key ++ ls) format := by
  induction keys generalizing ls with
  | nil => rfl
  | cons k keys ih =>
    rw [List.forall_mem_cons] at hkeys
    rw [List.nodup_cons] at hnodup
    rw [replaceKeys, replaceKey_eq hreg hyear k hkeys.1, ih hnodup.2]
    · refine replaceRuns_congr fun l _ => ?_
      simp only [List.mem_append, List.mem_cons, List.map_cons]
      tauto
    · intro k' hk'
      have hne : k' ≠ k := fun h => hnodup.1 (h ▸ hk')
      rcases hkeys.2 k' hk' with ⟨hw, hmem⟩ | ⟨hw, hnot⟩
      · exact .inl ⟨hw, List.mem_cons_of_mem _ hmem⟩
      · refine .inr ⟨hw, fun h => ?_⟩
        rcases List.mem_cons.mp h with h | h
        · exact hne (Letter.key.inj h)
        · exact hnot h

/-! ## The results -/

/-- All runs are replaced at once, whatever the order of the keys, and only the first letter of a
run of `S`; no letter of the other tokens is left. Without `w` it is the same in `index.html`. -/
theorem dateFormat_eq (hreg : Regular format) (h : FourDigits t) :
    (keys.Perm mapKeys → dateFormat (some t) keys format =
        some (replaceRuns (Letter.fieldBut t) letters format)) ∧
    (keys.Perm protoKeys → datePrototypeFormat t keys format =
        replaceRuns (Letter.fieldBut t) protoLetters format) ∧
    ∀ l : Letter, l ≠ .key .S →
      l.unit ∉ replaceRuns (Letter.fieldBut t) letters format := by
  have hyear : 0 ≤ fullYear t := by
    have hle := h.1
    omega
  refine ⟨fun hperm => ?_, fun hperm => ?_, fun l hl => ?_⟩
  · have hnodup : keys.Nodup := hperm.nodup_iff.mpr (by decide)
    rw [dateFormat, Option.map_some, replaceYear_eq hreg h,
      replaceWeek_eq hreg hyear (by decide) (by decide), replaceKeys_eq hreg hyear hnodup]
    · refine congrArg some (replaceRuns_congr fun l _ => ?_)
      refine iff_of_true ?_ (mem_letters l)
      rcases List.mem_cons.mp (mem_letters l) with rfl | hkey
      · simp
      · exact List.mem_append_left _ (((hperm.map Letter.key).mem_iff).mpr hkey)
    · intro k _
      by_cases hw : k = .w
      · exact .inl ⟨hw, List.mem_cons_self⟩
      · exact .inr ⟨hw, by simpa using hw⟩
  · have hnodup : keys.Nodup := hperm.nodup_iff.mpr (by decide)
    rw [datePrototypeFormat, replaceYear_eq hreg h, replaceKeys_eq hreg hyear hnodup]
    · refine replaceRuns_congr fun l _ => ?_
      rw [protoLetters, List.mem_append, List.mem_singleton, List.mem_cons,
        (hperm.map Letter.key).mem_iff, or_comm]
    · intro k hk
      have hw : ∀ k ∈ protoKeys, k ≠ .w := by decide
      exact .inr ⟨hw k (hperm.mem_iff.mp hk), by simp⟩
  · exact notMem_replaceRuns
      (fun _ _ _ n => Letter.unit_notMem_fieldBut hyear (fun _ => hl) n) (.inl (mem_letters l))

end

/-- Only the letters after the first run have to be looked at. -/
theorem oneRun_of_notMem {c : UInt16} {s : JsString}
    (h : c ∉ (s.dropWhile (· ≠ c)).dropWhile (· = c)) : OneRun c s := by
  refine ⟨s.takeWhile (· ≠ c), ((s.dropWhile (· ≠ c)).takeWhile (· = c)).length, _, ?_, ?_, h⟩
  · have hrun : List.replicate ((s.dropWhile (· ≠ c)).takeWhile (· = c)).length c =
        (s.dropWhile (· ≠ c)).takeWhile (· = c) :=
      (List.eq_replicate_of_mem fun d hd => by simpa using List.mem_takeWhile_imp hd).symm
    rw [hrun, List.takeWhile_append_dropWhile, List.takeWhile_append_dropWhile]
  · exact fun hc => by simpa using List.mem_takeWhile_imp hc

/-- The first of July 2014, 08:05:09.123. -/
def july : ℤ :=
  1404201909123

theorem fourDigits_july : FourDigits july :=
  ⟨by decide, by decide⟩

theorem dateFormat_july :
    replaceRuns (Letter.fieldBut july) letters (text "yy-M-dd h:mm:ss.S w") =
      text "14-7-01 8:05:09.123 周二" ∧
    dateFormat (some july) mapKeys (text "yy-M-dd h:mm:ss.S w") =
      some (replaceRuns (Letter.fieldBut july) letters (text "yy-M-dd h:mm:ss.S w")) ∧
    datePrototypeFormat july protoKeys (text "yy-M-dd h:mm:ss.S w") =
      replaceRuns (Letter.fieldBut july) protoLetters (text "yy-M-dd h:mm:ss.S w") := by
  have hreg : Regular (text "yy-M-dd h:mm:ss.S w") := by
    have hruns : ∀ l ∈ letters, l.unit ∉ ((text "yy-M-dd h:mm:ss.S w").dropWhile
        (· ≠ l.unit)).dropWhile (· = l.unit) := by decide +kernel
    exact ⟨fun l hl => oneRun_of_notMem (hruns l hl), by decide +kernel⟩
  exact ⟨by decide +kernel, (dateFormat_eq hreg fourDigits_july).1 (List.Perm.refl _),
    (dateFormat_eq hreg fourDigits_july).2.1 (List.Perm.refl _)⟩

/-- The second of two letters of the milliseconds stays. -/
theorem dateFormat_milliseconds :
    Regular (text "SS") ∧ FourDigits july ∧
    dateFormat (some july) mapKeys (text "SS") = some (text "123S") ∧
    replaceRuns (Letter.field july) letters (text "SS") = text "123" ∧
    dateFormat (some july) mapKeys (text "SS") ≠
      some (replaceRuns (Letter.field july) letters (text "SS")) := by
  have hruns : ∀ l ∈ letters, l.unit ∉ ((text "SS").dropWhile (· ≠ l.unit)).dropWhile
      (· = l.unit) := by decide +kernel
  exact ⟨⟨fun l hl => oneRun_of_notMem (hruns l hl), by decide +kernel⟩, fourDigits_july,
    by decide +kernel, by decide +kernel, by decide +kernel⟩

end Js

end MySocket
