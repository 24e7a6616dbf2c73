import Mathlib.Data.List.GetD
import Mathlib.Data.List.Induction
import Mathlib.Order.Nat

/-!
# The lexer of the header names

`minilex.c` makes of a list of strings the table in which `lextable_decode` looks the characters
of a header name up. The strings become states with an entry for each character that can come
next, and the states become bytes : one for an entry that leads to the next state and is the last
of its own, three for another entry, and two for the number of a string.

* `lexFrom_iff` : if no string is the beginning of another, the table recognizes exactly the
  strings it was made from.
-/

namespace MySocket

namespace Lws

/-! ## The code -/

/-- `c[m]` and `state[m]` of a state. For the number of a string `state` is 0. -/
structure Entry where
  c : UInt8
  state : ℕ
deriving DecidableEq

/-- `struct state` -/
abbrev LexState := List Entry

/-- `PARALLEL` -/
def parallel : ℕ := 30

/-- The length of the array `state`. -/
def maxStates : ℕ := 1000

/-- The array `state` up to `next`, the last state first. -/
structure Lexicon where
  states : List LexState

namespace Lexicon

/-- `next` -/
def next (l : Lexicon) : ℕ := l.states.length

/-- `state[n]` -/
def state (l : Lexicon) (n : ℕ) : LexState := l.states.getD (l.next - 1 - n) []

/-- `state[n]` is changed to `es`. -/
def set (l : Lexicon) (n : ℕ) (es : LexState) : Lexicon := ⟨l.states.set (l.next - 1 - n) es⟩

/-- `next++`, with an empty state. -/
def push (l : Lexicon) : Lexicon := ⟨[] :: l.states⟩

/-- No state but the one all strings begin in. -/
def init : Lexicon := ⟨[[]]⟩

/-- One turn of `while (set[n][m])` : the states, and the one to go on from. It is `none` where an
array is too small. -/
def forward (l : Lexicon) (walk : ℕ) (c : UInt8) : Option (Lexicon × ℕ) :=
  match (l.state walk).find? (·.c = c) with
  | some e => some (l, e.state)
  | none =>
    if (l.state walk).length < parallel ∧ l.next < maxStates then
      some ((l.set walk (l.state walk ++ [⟨c, l.next⟩])).push, l.next)
    else none

/-- `while (set[n][m])` -/
def walkString : Lexicon → ℕ → List UInt8 → Option (Lexicon × ℕ)
  | l, walk, [] => some (l, walk)
  | l, walk, c :: s => (l.forward walk c).bind fun r => r.1.walkString r.2 s

/-- The string of number `n`, which fits a `char`. -/
def addString (l : Lexicon) (n : ℕ) (s : List UInt8) : Option Lexicon :=
  if s = [] then some l
  else (l.walkString 0 s).map fun r => r.1.set r.2 [⟨UInt8.ofNat n, 0⟩]

/-- The strings from number `n` on. -/
def addStrings : Lexicon → ℕ → List (List UInt8) → Option Lexicon
  | l, _, [] => some l
  | l, n, s :: set => (l.addString n s).bind fun l => l.addStrings (n + 1) set

end Lexicon

/-- `bytepos` of the states, from `walk` on. -/
def byteposFrom : ℕ → List LexState → List ℕ
  | _, [] => []
  | walk, s :: states => walk :: byteposFrom (walk + 2 * s.length) states

/-- How many bytes the entries of state `i` from `walk` on become, with the `bytepos` of the states
from `i` on. -/
def entriesSize (i : ℕ) (bytepos : List ℕ) : ℕ → LexState → ℕ
  | _, [] => 0
  | walk, e :: es =>
    (if e.state = 0 then 2
      else if bytepos.getD (e.state - i) 0 = walk + 2 then 1
      else if es = [] then 4
      else 3) + entriesSize i bytepos (walk + 2) es

/-- `real_pos` of the states from `i` on, which begin at `pos`. -/
def realPosFrom : ℕ → List ℕ → ℕ → List LexState → List ℕ
  | _, _, _, [] => []
  | i, bytepos, pos, s :: states =>
    pos :: realPosFrom (i + 1) bytepos.tail (pos + entriesSize i bytepos (bytepos.headD 0) s) states

/-- `FAIL_CHAR` -/
def failChar : UInt8 := 0x08

/-- What is printed for the entries of state `i` from `walk` and `pos` on, with `bytepos` and
`real_pos` of the states from `i` on. It is `none` for a jump that is too long. -/
def emitEntries (i : ℕ) (bytepos realPos : List ℕ) : ℕ → ℕ → LexState → Option (List UInt8)
  | _, _, [] => some []
  | walk, pos, e :: es =>
    if e.state = 0 then
      (emitEntries i bytepos realPos (walk + 2) (pos + 2) es).map ([0, e.c] ++ ·)
    else if bytepos.getD (e.state - i) 0 = walk + 2 then
      (emitEntries i bytepos realPos (walk + 2) (pos + 1) es).map ([e.c ||| 0x80] ++ ·)
    else if 0xffff < realPos.getD (e.state - i) 0 - pos then none
    else
      let j := realPos.getD (e.state - i) 0 - pos
      let jump := [e.c, UInt8.ofNat j, UInt8.ofNat (j >>> 8)]
      if es = [] then some (jump ++ [failChar])
      else (emitEntries i bytepos realPos (walk + 2) (pos + 3) es).map (jump ++ ·)

/-- What is printed for the states from `i` on. -/
def emitFrom : ℕ → List ℕ → List ℕ → List LexState → Option (List UInt8)
  | _, _, _, [] => some []
  | i, bytepos, realPos, s :: states =>
    (emitEntries i bytepos realPos (bytepos.headD 0) (realPos.headD 0) s).bind fun bytes =>
      (emitFrom (i + 1) bytepos.tail realPos.tail states).map (bytes ++ ·)

/-- `main` of `minilex.c`, up to the test of the table. -/
def minilex (set : List (List UInt8)) : Option (List UInt8) :=
  (Lexicon.init.addStrings 0 set).bind fun l =>
    let states := l.states.reverse
    let bytepos := byteposFrom 0 states
    emitFrom 0 bytepos (realPosFrom 0 bytepos 0 states) states

/-- `lextable_decode` on the entries `bs` at position `pos`. There is no entry behind the table. -/
def decodeEntries : List UInt8 → ℕ → UInt8 → Option ℕ
  | [], _, _ => none
  | b :: bs, pos, c =>
    if 0x80 ≤ b then
      if b &&& 0x7f ≠ c then none
      else if bs.head? = some failChar then none
      else some (pos + 1)
    else if b = failChar then none
    else if b < failChar then some pos
    else
      match bs with
      | lo :: hi :: bs =>
        if b = c then some (pos + lo.toNat + (hi.toNat <<< 8)) else decodeEntries bs (pos + 3) c
      | _ => none

/-- `tolower` in the locale `C`. -/
def tolower (c : UInt8) : UInt8 :=
  if 0x41 ≤ c ∧ c ≤ 0x5a then c + 32 else c

/-- `lextable_decode`; -1 is `none`. -/
def lextableDecode (lextable : List UInt8) (pos : ℕ) (c : UInt8) : Option ℕ :=
  decodeEntries (lextable.drop pos) pos (tolower c)

/-- A position with the number of a string. -/
def IsTerminal (lextable : List UInt8) (pos : ℕ) : Prop :=
  lextable.getD pos 0 < failChar

instance IsTerminal.decidable (lextable : List UInt8) (pos : ℕ) :
    Decidable (IsTerminal lextable pos) :=
  inferInstanceAs (Decidable (_ < _))

/-- The number at a terminal position. -/
def terminal (lextable : List UInt8) (pos : ℕ) : ℕ :=
  ((lextable.getD pos 0).toNat <<< 8) ||| (lextable.getD (pos + 1) 0).toNat

/-- What comes of the characters looked up so far : there is to be more, no string begins with
them, or they are the string of a number, and what follows. -/
inductive Lexed where
  | more (pos : ℕ)
  | unknown
  | token (n : ℕ) (rest : List UInt8)
deriving DecidableEq

/-- Character after character, up to a terminal position. -/
def lexFrom (lextable : List UInt8) : ℕ → List UInt8 → Lexed
  | pos, [] => .more pos
  | pos, c :: s =>
    match lextableDecode lextable pos c with
    | none => .unknown
    | some pos =>
      if IsTerminal lextable pos then .token (terminal lextable pos) s else lexFrom lextable pos s

/-! ## The states -/

namespace Lexicon

variable {l : Lexicon}

theorem next_set (n : ℕ) (es : LexState) : (l.set n es).next = l.next := List.length_set

theorem next_push : l.push.next = l.next + 1 := rfl

theorem state_set {n : ℕ} (hn : n < l.next) (es : LexState) {m : ℕ} (hm : m < l.next) :
    (l.set n es).state m = if m = n then es else l.state m := by
  rw [state, next_set, state, set, List.getD_eq_getElem?_getD, List.getD_eq_getElem?_getD,
    List.getElem?_set]
  have hlen : l.next - 1 - m < l.states.length := by
    change _ < l.next
    omega
  rcases em (m = n) with h | h
  · rw [if_pos h, if_pos (by rw [h]), if_pos (h ▸ hlen)]
    rfl
  · rw [if_neg h, if_neg (by omega)]

theorem state_push {m : ℕ} (hm : m < l.next) : l.push.state m = l.state m := by
  have h : l.push.next - 1 - m = (l.next - 1 - m) + 1 := by
    rw [next_push]
    omega
  rw [state, h]
  rfl

theorem state_push_next : l.push.state l.next = [] := by
  have h : l.push.next - 1 - l.next = 0 := by
    rw [next_push]
    omega
  rw [state, h]
  rfl

/-- The states spell the strings `names` by the characters on the way to them, and what has been
seen so far of `cur`. -/
structure Spells (l : Lexicon) (path : ℕ → List UInt8) (names : ℕ → List UInt8 → Prop)
    (cur : List UInt8) : Prop where
  next_pos : 0 < l.next
  path_zero : path 0 = []
  path_inj : ∀ i < l.next, ∀ j < l.next, path i = path j → i = j
  number : ∀ i < l.next, ∀ e ∈ l.state i, e.state = 0 →
    l.state i = [e] ∧ names e.c.toNat (path i)
  child : ∀ i < l.next, ∀ e ∈ l.state i, e.state ≠ 0 →
    i < e.state ∧ e.state < l.next ∧ path e.state = path i ++ [e.c]
  parent : ∀ j < l.next, j ≠ 0 → ∃ i < l.next, ∃ e ∈ l.state i, e.state = j
  named : ∀ n t, names n t → ∃ i < l.next, path i = t ∧ l.state i = [⟨UInt8.ofNat n, 0⟩]
  alive : ∀ i < l.next, path i <+: cur ∨ ∃ n t, names n t ∧ path i <+: t

/-- No string of `names` is the beginning of `s`, or `s` of it. -/
def Apart (names : ℕ → List UInt8 → Prop) (s : List UInt8) : Prop :=
  ∀ n t, names n t → ¬ t <+: s ∧ ¬ s <+: t

variable {path : ℕ → List UInt8} {names : ℕ → List UInt8 → Prop}

theorem spells_init : init.Spells (fun _ => []) (fun _ _ => False) [] where
  next_pos := Nat.one_pos
  path_zero := rfl
  path_inj i hi j hj _ := by
    have h : init.next = 1 := rfl
    omega
  number i hi e he _ := by
    obtain rfl : i = 0 := Nat.lt_one_iff.mp hi
    cases he
  child i hi e he _ := by
    obtain rfl : i = 0 := Nat.lt_one_iff.mp hi
    cases he
  parent j hj h := absurd (Nat.lt_one_iff.mp hj) h
  named _ _ h := h.elim
  alive _ _ := .inl List.nil_prefix

namespace Spells

variable {cur : List UInt8} (h : l.Spells path names cur)

include h

theorem of_prefix {s : List UInt8} (hs : cur <+: s) : l.Spells path names s :=
  { h with alive := fun i hi => (h.alive i hi).imp_left fun hp => hp.trans hs }

/-- A state on the way of `cur` has no number. -/
theorem state_ne_zero (hcur : Apart names cur) {i : ℕ} (hi : i < l.next) (hp : path i <+: cur)
    {e : Entry} (he : e ∈ l.state i) : e.state ≠ 0 := fun h0 =>
  (hcur _ _ (h.number i hi e he h0).2).1 hp

/-- A state that is not there yet has no place in the states. -/
theorem path_ne {i : ℕ} (hi : i < l.next) {c : UInt8}
    (hc : (l.state i).find? (·.c = c) = none) {j : ℕ} (hj : j < l.next) :
    path j ≠ path i ++ [c] := by
  intro hpath
  rcases em (j = 0) with rfl | h0
  · rw [h.path_zero] at hpath
    simp at hpath
  obtain ⟨k, hk, e, he, rfl⟩ := h.parent j hj h0
  have hchild := (h.child k hk e he h0).2.2
  rw [hpath] at hchild
  obtain ⟨hp, hce⟩ := List.append_inj' hchild rfl
  obtain rfl := h.path_inj i hi k hk hp
  have := List.find?_eq_none.mp hc e he
  simp [List.cons.inj hce |>.1] at this

theorem grow {i : ℕ} (hi : i < l.next) {c : UInt8} (hcur : Apart names cur)
    (hpre : path i ++ [c] <+: cur) (hc : (l.state i).find? (·.c = c) = none) :
    (l.set i (l.state i ++ [⟨c, l.next⟩])).push.Spells
      (Function.update path l.next (path i ++ [c])) names cur := by
  set l' := l.set i (l.state i ++ [⟨c, l.next⟩]) with hl'
  have hnext : l'.next = l.next := next_set _ _
  have hpath : ∀ j < l.next, Function.update path l.next (path i ++ [c]) j = path j :=
    fun j hj => Function.update_of_ne (Nat.ne_of_lt hj) _ _
  have hnew : Function.update path l.next (path i ++ [c]) l.next = path i ++ [c] :=
    Function.update_self _ _ _
  have hpos := h.next_pos
  -- What the entries of a state are now.
  have hmem : ∀ j < l'.next + 1, ∀ e ∈ l'.push.state j,
      j < l.next ∧ (e ∈ l.state j ∨ (j = i ∧ e = ⟨c, l.next⟩)) := by
    intro j hj e he
    rcases em (j = l'.next) with rfl | hj'
    · rw [state_push_next] at he
      cases he
    have hj' : j < l'.next := by omega
    rw [state_push hj', hl', state_set hi _ (hnext ▸ hj')] at he
    refine ⟨hnext ▸ hj', ?_⟩
    split at he
    next hji =>
      rcases List.mem_append.mp he with he | he
      · exact .inl (hji ▸ he)
      · exact .inr ⟨hji, List.mem_singleton.mp he⟩
    next => exact .inl he
  have hkeep : ∀ j < l.next, ∀ e ∈ l.state j, e ∈ l'.push.state j := by
    intro j hj e he
    rw [state_push (hnext ▸ hj), hl', state_set hi _ hj]
    split
    next hji => exact List.mem_append_left _ (hji ▸ he)
    next => exact he
  have hpi : path i <+: cur := (List.prefix_append _ _).trans hpre
  constructor
  · exact Nat.succ_pos _
  · rw [hpath 0 hpos, h.path_zero]
  · intro j hj k hk hjk
    rw [next_push, hnext] at hj hk
    rcases Nat.lt_succ_iff_lt_or_eq.mp hj with hj | rfl <;>
      rcases Nat.lt_succ_iff_lt_or_eq.mp hk with hk | rfl
    · rw [hpath j hj, hpath k hk] at hjk
      exact h.path_inj j hj k hk hjk
    · rw [hpath j hj, hnew] at hjk
      exact absurd hjk (h.path_ne hi hc hj)
    · rw [hpath k hk, hnew] at hjk
      exact absurd hjk.symm (h.path_ne hi hc hk)
    · rfl
  · intro j hj e he h0
    obtain ⟨hj', he' | ⟨rfl, rfl⟩⟩ := hmem j hj e he
    · obtain ⟨hstate, hname⟩ := h.number j hj' e he' h0
      have hji : j ≠ i := fun hji => h.state_ne_zero hcur hi hpi (hji ▸ he') h0
      rw [state_push (hnext ▸ hj'), hl', state_set hi _ hj', if_neg hji, hpath j hj']
      exact ⟨hstate, hname⟩
    · exact absurd h0 (Nat.ne_of_gt hpos)
  · intro j hj e he h0
    rw [next_push, hnext]
    obtain ⟨hj', he' | ⟨rfl, rfl⟩⟩ := hmem j hj e he
    · obtain ⟨hlt, hnext', hchild⟩ := h.child j hj' e he' h0
      rw [hpath j hj', hpath _ hnext']
      exact ⟨hlt, by omega, hchild⟩
    · rw [hnew, hpath j hi]
      exact ⟨hi, Nat.lt_succ_self _, rfl⟩
  · intro j hj h0
    rw [next_push, hnext] at hj ⊢
    rcases Nat.lt_succ_iff_lt_or_eq.mp hj with hj | rfl
    · obtain ⟨k, hk, e, he, hej⟩ := h.parent j hj h0
      exact ⟨k, by omega, e, hkeep k hk e he, hej⟩
    · refine ⟨i, by omega, ⟨c, l.next⟩, ?_, rfl⟩
      rw [state_push (hnext ▸ hi), hl', state_set hi _ hi, if_pos rfl]
      exact List.mem_append_right _ (List.mem_singleton.mpr rfl)
  · intro n t hn
    obtain ⟨j, hj, rfl, hstate⟩ := h.named n t hn
    have hji : j ≠ i := fun hji => (hcur n _ hn).1 (hji ▸ hpi)
    refine ⟨j, by rw [next_push, hnext]; omega, hpath j hj, ?_⟩
    rw [state_push (hnext ▸ hj), hl', state_set hi _ hj, if_neg hji, hstate]
  · intro j hj
    rw [next_push, hnext] at hj
    rcases Nat.lt_succ_iff_lt_or_eq.mp hj with hj | rfl
    · rw [hpath j hj]
      exact h.alive j hj
    · rw [hnew]
      exact .inl hpre

/-- A character is looked up, or a state made for it. -/
theorem forward {i : ℕ} (hi : i < l.next) {c : UInt8} (hcur : Apart names cur)
    (hpre : path i ++ [c] <+: cur) {r : Lexicon × ℕ} (hr : l.forward i c = some r) :
    ∃ path', r.1.Spells path' names cur ∧ r.2 < r.1.next ∧ path' r.2 = path i ++ [c] := by
  unfold Lexicon.forward at hr
  split at hr
  next e he =>
    obtain rfl := Option.some.inj hr
    have hmem := List.mem_of_find?_eq_some he
    have hec : e.c = c := by simpa using List.find?_some he
    have h0 := h.state_ne_zero hcur hi ((List.prefix_append _ _).trans hpre) hmem
    obtain ⟨-, hnext, hpath⟩ := h.child i hi e hmem h0
    exact ⟨path, h, hnext, hec ▸ hpath⟩
  next hnone =>
    split at hr
    next =>
      obtain rfl := Option.some.inj hr
      refine ⟨_, h.grow hi hcur hpre hnone, ?_, Function.update_self _ _ _⟩
      rw [next_push, next_set]
      exact Nat.lt_succ_self _
    next => cases hr

omit h in
theorem walkString : ∀ (s : List UInt8) {l : Lexicon} {path : ℕ → List UInt8} {i : ℕ},
    l.Spells path names cur → i < l.next → Apart names cur → path i ++ s <+: cur →
    ∀ {r : Lexicon × ℕ}, l.walkString i s = some r →
    ∃ path', r.1.Spells path' names cur ∧ r.2 < r.1.next ∧ path' r.2 = path i ++ s
  | [], l, path, i, h, hi, _, _, r, hr => by
    obtain rfl := Option.some.inj hr
    exact ⟨path, h, hi, (List.append_nil _).symm⟩
  | c :: s, l, path, i, h, hi, hcur, hpre, r, hr => by
    rw [Lexicon.walkString, Option.bind_eq_some_iff] at hr
    obtain ⟨r₁, hr₁, hr⟩ := hr
    have hpre₁ : path i ++ [c] <+: cur :=
      ((List.prefix_append _ s).trans (by rw [List.append_assoc]; exact List.prefix_rfl)).trans hpre
    obtain ⟨path₁, h₁, hi₁, hp₁⟩ := h.forward hi hcur hpre₁ hr₁
    have hpre₂ : path₁ r₁.2 ++ s <+: cur := by
      rw [hp₁, List.append_assoc]
      exact hpre
    obtain ⟨path₂, h₂, hi₂, hp₂⟩ := walkString s h₁ hi₁ hcur hpre₂ hr
    exact ⟨path₂, h₂, hi₂, by rw [hp₂, hp₁, List.append_assoc]; rfl⟩

/-- The state at the end of a string gets its number. -/
theorem setNumber {i : ℕ} (hi : i < l.next) (hcur : Apart names cur) (hp : path i = cur) {n : ℕ}
    (hn : n < 128) : (l.set i [⟨UInt8.ofNat n, 0⟩]).Spells path
      (fun k t => names k t ∨ k = n ∧ t = cur) [] := by
  have hnat : (UInt8.ofNat n).toNat = n := UInt8.toNat_ofNat_of_lt' (by simp [UInt8.size]; omega)
  have hempty : l.state i = [] := by
    rw [List.eq_nil_iff_forall_not_mem]
    intro e he
    have h0 := h.state_ne_zero hcur hi (hp ▸ List.prefix_rfl) he
    obtain ⟨-, hnext, hpath⟩ := h.child i hi e he h0
    rcases h.alive e.state hnext with hpre | ⟨k, t, hk, hpre⟩
    · rw [hpath, hp] at hpre
      have := hpre.length_le
      rw [List.length_append, List.length_singleton] at this
      omega
    · rw [hpath, hp] at hpre
      exact (hcur k t hk).2 ((List.prefix_append _ _).trans hpre)
  have hstate : ∀ j < l.next, (l.set i [⟨UInt8.ofNat n, 0⟩]).state j =
      if j = i then [⟨UInt8.ofNat n, 0⟩] else l.state j := fun j hj => state_set hi _ hj
  constructor
  · rw [next_set]
    exact h.next_pos
  · exact h.path_zero
  · rw [next_set]
    exact h.path_inj
  · intro j hj e he h0
    rw [next_set] at hj
    rw [hstate j hj] at he ⊢
    split at he
    next hji =>
      obtain rfl := List.mem_singleton.mp he
      rw [if_pos hji]
      exact ⟨rfl, .inr ⟨hnat, hji ▸ hp⟩⟩
    next hji =>
      rw [if_neg hji]
      exact (h.number j hj e he h0).imp_right .inl
  · intro j hj e he h0
    rw [next_set] at hj ⊢
    rw [hstate j hj] at he
    split at he
    next =>
      obtain rfl := List.mem_singleton.mp he
      exact absurd rfl h0
    next => exact h.child j hj e he h0
  · intro j hj h0
    rw [next_set] at hj ⊢
    obtain ⟨k, hk, e, he, hej⟩ := h.parent j hj h0
    have hki : k ≠ i := by
      rintro rfl
      rw [hempty] at he
      cases he
    refine ⟨k, hk, e, ?_, hej⟩
    rw [hstate k hk, if_neg hki]
    exact he
  · rintro k t (hk | ⟨rfl, rfl⟩)
    · obtain ⟨j, hj, rfl, hj'⟩ := h.named k t hk
      have hji : j ≠ i := by
        rintro rfl
        rw [hempty] at hj'
        cases hj'
      rw [next_set]
      exact ⟨j, hj, rfl, by rw [hstate j hj, if_neg hji, hj']⟩
    · rw [next_set]
      exact ⟨i, hi, hp, by rw [hstate i hi, if_pos rfl]⟩
  · intro j hj
    rw [next_set] at hj
    rcases h.alive j hj with hpre | ⟨k, t, hk, hpre⟩
    · exact .inr ⟨n, cur, .inr ⟨rfl, rfl⟩, hpre⟩
    · exact .inr ⟨k, t, .inl hk, hpre⟩

omit h in
theorem addString (h : l.Spells path names []) {n : ℕ} (hn : n < 128) {s : List UInt8}
    (hs : s ≠ [] → Apart names s) {l' : Lexicon} (hl' : l.addString n s = some l') :
    ∃ path', l'.Spells path' (fun k t => names k t ∨ k = n ∧ t = s ∧ t ≠ []) [] := by
  unfold Lexicon.addString at hl'
  split at hl'
  next hnil =>
    obtain rfl := Option.some.inj hl'
    have hsame : (fun k t => names k t ∨ k = n ∧ t = s ∧ t ≠ []) = names := by
      ext k t
      simp only [hnil]
      exact or_iff_left fun hk => hk.2.2 hk.2.1
    exact ⟨path, by rw [hsame]; exact h⟩
  next hne =>
    obtain ⟨r, hr, rfl⟩ := Option.map_eq_some_iff.mp hl'
    have hpre : path 0 ++ s <+: s := by rw [h.path_zero]; exact List.prefix_rfl
    obtain ⟨path', h', hi', hp'⟩ :=
      walkString s (h.of_prefix List.nil_prefix) h.next_pos (hs hne) hpre hr
    rw [h.path_zero, List.nil_append] at hp'
    have hsame : (fun k t => names k t ∨ k = n ∧ t = s ∧ t ≠ []) =
        fun k t => names k t ∨ k = n ∧ t = s := by
      ext k t
      refine or_congr_right (and_congr_right fun _ => and_iff_left_of_imp ?_)
      rintro rfl
      exact hne
    exact ⟨path', hsame ▸ h'.setNumber hi' (hs hne) hp' hn⟩

end Spells

/-- `t` is the string of number `n`. -/
def Named (set : List (List UInt8)) (n : ℕ) (t : List UInt8) : Prop :=
  set[n]? = some t ∧ t ≠ []

/-- No string is the beginning of another. -/
def PrefixFree (set : List (List UInt8)) : Prop :=
  set.Pairwise fun s t => s ≠ [] → t ≠ [] → ¬ s <+: t ∧ ¬ t <+: s

theorem Spells.addStrings : ∀ (set : List (List UInt8)) {l : Lexicon} {path : ℕ → List UInt8}
    {names : ℕ → List UInt8 → Prop} {n : ℕ}, l.Spells path names [] → n + set.length ≤ 128 →
    (∀ s ∈ set, s ≠ [] → Apart names s) → PrefixFree set →
    ∀ {l' : Lexicon}, l.addStrings n set = some l' →
    ∃ path', l'.Spells path' (fun k t => names k t ∨ ∃ i, k = n + i ∧ Named set i t) []
  | [], l, path, names, n, h, _, _, _, l', hl' => by
    obtain rfl := Option.some.inj hl'
    have hsame : (fun k t => names k t ∨ ∃ i, k = n + i ∧ Named [] i t) = names := by
      ext k t
      simp [Named]
    exact ⟨path, by rw [hsame]; exact h⟩
  | s :: set, l, path, names, n, h, hn, hap, hfree, l', hl' => by
    rw [Lexicon.addStrings, Option.bind_eq_some_iff] at hl'
    obtain ⟨l₁, hl₁, hl'⟩ := hl'
    rw [List.length_cons] at hn
    have hfree' := List.pairwise_cons.mp hfree
    obtain ⟨path₁, h₁⟩ := h.addString (by omega) (hap s List.mem_cons_self) hl₁
    have hap₁ : ∀ t ∈ set, t ≠ [] → Apart (fun k t => names k t ∨ k = n ∧ t = s ∧ t ≠ []) t := by
      rintro t ht hne k u (hk | ⟨-, rfl, hu⟩)
      · exact hap t (List.mem_cons_of_mem _ ht) hne k u hk
      · exact hfree'.1 t ht hu hne
    obtain ⟨path₂, h₂⟩ := Spells.addStrings set (n := n + 1) h₁ (by omega) hap₁ hfree'.2 hl'
    have hsame : (fun k t => names k t ∨ ∃ i, k = n + i ∧ Named (s :: set) i t) =
        fun k t => (names k t ∨ k = n ∧ t = s ∧ t ≠ []) ∨
          ∃ i, k = n + 1 + i ∧ Named set i t := by
      ext k t
      rw [or_assoc]
      refine or_congr_right ⟨?_, ?_⟩
      · rintro ⟨_ | i, rfl, hi, hne⟩
        · exact .inl ⟨rfl, (Option.some.inj hi).symm, hne⟩
        · exact .inr ⟨i, by omega, hi, hne⟩
      · rintro (⟨rfl, rfl, hne⟩ | ⟨i, rfl, hi⟩)
        · exact ⟨0, rfl, rfl, hne⟩
        · exact ⟨i + 1, by omega, hi⟩
    exact ⟨path₂, hsame ▸ h₂⟩

end Lexicon

/-! ## The table -/

theorem byteposFrom_succ : ∀ (states : List LexState) (walk i : ℕ), i + 1 < states.length →
    (byteposFrom walk states).getD (i + 1) 0 =
      (byteposFrom walk states).getD i 0 + 2 * (states.getD i []).length
  | [], _, _, h => absurd h (Nat.not_lt_zero _)
  | [_], _, i, h => by simp at h
  | s :: s' :: states, walk, 0, _ => rfl
  | s :: s' :: states, walk, i + 1, h =>
    byteposFrom_succ (s' :: states) (walk + 2 * s.length) i (Nat.lt_of_succ_lt_succ h)

theorem getD_drop {α : Type*} (l : List α) (i k : ℕ) (d : α) :
    (l.drop i).getD k d = l.getD (i + k) d := by
  rw [List.getD_eq_getElem?_getD, List.getElem?_drop, ← List.getD_eq_getElem?_getD]

theorem headD_drop {α : Type*} (l : List α) (i : ℕ) (d : α) : (l.drop i).headD d = l.getD i d := by
  rw [List.headD_eq_head?_getD, List.head?_drop, List.getD_eq_getElem?_getD]

theorem realPosFrom_succ (bytepos : List ℕ) : ∀ (states : List LexState) (i pos k : ℕ),
    k + 1 < states.length →
    (realPosFrom i (bytepos.drop i) pos states).getD (k + 1) 0 =
      (realPosFrom i (bytepos.drop i) pos states).getD k 0 +
        entriesSize (i + k) (bytepos.drop (i + k)) (bytepos.getD (i + k) 0) (states.getD k [])
  | [], _, _, _, h => absurd h (Nat.not_lt_zero _)
  | [_], _, _, k, h => by simp at h
  | s :: s' :: states, i, pos, 0, _ => by
    rw [← headD_drop bytepos]
    rfl
  | s :: s' :: states, i, pos, k + 1, h => by
    have ih := realPosFrom_succ bytepos (s' :: states) (i + 1)
      (pos + entriesSize i (bytepos.drop i) ((bytepos.drop i).headD 0) s) k
      (Nat.lt_of_succ_lt_succ h)
    rw [show i + (k + 1) = i + 1 + k by omega]
    rw [realPosFrom, List.tail_drop]
    exact ih

theorem length_emitEntries {i : ℕ} {bs rs : List ℕ} : ∀ {es : LexState} {walk pos : ℕ}
    {out : List UInt8}, emitEntries i bs rs walk pos es = some out →
    out.length = entriesSize i bs walk es
  | [], _, _, _, h => by
    obtain rfl := Option.some.inj h
    rfl
  | e :: es, walk, pos, out, h => by
    unfold emitEntries at h
    unfold entriesSize
    rcases em (e.state = 0) with h0 | h0
    · rw [if_pos h0] at h ⊢
      obtain ⟨out', h', rfl⟩ := Option.map_eq_some_iff.mp h
      rw [List.length_append, length_emitEntries h']
      rfl
    rw [if_neg h0] at h ⊢
    rcases em (bs.getD (e.state - i) 0 = walk + 2) with h1 | h1
    · rw [if_pos h1] at h ⊢
      obtain ⟨out', h', rfl⟩ := Option.map_eq_some_iff.mp h
      rw [List.length_append, length_emitEntries h']
      rfl
    rw [if_neg h1] at h ⊢
    split at h
    next => cases h
    next =>
      rcases em (es = []) with rfl | hes
      · rw [if_pos rfl] at h ⊢
        obtain rfl := Option.some.inj h
        rfl
      · rw [if_neg hes] at h ⊢
        obtain ⟨out', h', rfl⟩ := Option.map_eq_some_iff.mp h
        rw [List.length_append, length_emitEntries h']
        rfl

/-- Where each state stands in the table. -/
def Printed (states : List LexState) (bs rs : List ℕ) (table : List UInt8) : Prop :=
  ∀ i < states.length, ∃ out rest,
    emitEntries i (bs.drop i) (rs.drop i) (bs.getD i 0) (rs.getD i 0) (states.getD i []) =
      some out ∧
    table.drop (rs.getD i 0) = out ++ rest ∧
    (i + 1 < states.length → table.drop (rs.getD (i + 1) 0) = rest)

theorem emitFrom_drop {all : List LexState} {bs rs : List ℕ} {table : List UInt8}
    (hrs : ∀ i, i + 1 < all.length → rs.getD (i + 1) 0 =
      rs.getD i 0 + entriesSize i (bs.drop i) (bs.getD i 0) (all.getD i [])) (junk : List UInt8) :
    ∀ (states : List LexState) (i : ℕ), all.drop i = states → ∀ {bytes : List UInt8},
    emitFrom i (bs.drop i) (rs.drop i) states = some bytes →
    table.drop (rs.getD i 0) = bytes ++ junk → ∀ k, i ≤ k → k < all.length → ∃ out rest,
      emitEntries k (bs.drop k) (rs.drop k) (bs.getD k 0) (rs.getD k 0) (all.getD k []) =
        some out ∧
      table.drop (rs.getD k 0) = out ++ rest ∧
      (k + 1 < all.length → table.drop (rs.getD (k + 1) 0) = rest)
  | [], i, hall, bytes, _, _, k, hik, hk => by
    have := List.drop_eq_nil_iff.mp hall
    omega
  | s :: states, i, hall, bytes, h, hdrop, k, hik, hk => by
    rw [emitFrom, headD_drop, headD_drop, List.tail_drop, List.tail_drop,
      Option.bind_eq_some_iff] at h
    obtain ⟨out, hout, h⟩ := h
    obtain ⟨bytes', h', rfl⟩ := Option.map_eq_some_iff.mp h
    have hs : all.getD i [] = s := by
      rw [← headD_drop, hall]
      rfl
    have hall' : all.drop (i + 1) = states := by
      rw [← List.tail_drop, hall]
      rfl
    rw [List.append_assoc] at hdrop
    have hnext : i + 1 < all.length → table.drop (rs.getD (i + 1) 0) = bytes' ++ junk := by
      intro hi
      rw [hrs i hi, hs, ← List.drop_drop, hdrop, ← length_emitEntries hout, List.drop_left]
    rcases Nat.eq_or_lt_of_le hik with rfl | hik
    · exact ⟨out, bytes' ++ junk, hs ▸ hout, hdrop, hnext⟩
    · exact emitFrom_drop hrs junk states (i + 1) hall' h' (hnext (by omega)) k hik hk

theorem minilex_printed {set : List (List UInt8)} {table : List UInt8}
    (h : minilex set = some table) : ∃ l bs rs, Lexicon.init.addStrings 0 set = some l ∧
      (∀ i, i + 1 < l.states.reverse.length → bs.getD (i + 1) 0 =
        bs.getD i 0 + 2 * (l.states.reverse.getD i []).length) ∧
      (∀ i, i + 1 < l.states.reverse.length → rs.getD (i + 1) 0 =
        rs.getD i 0 + entriesSize i (bs.drop i) (bs.getD i 0) (l.states.reverse.getD i [])) ∧
      rs.getD 0 0 = 0 ∧ ∀ junk, Printed l.states.reverse bs rs (table ++ junk) := by
  obtain ⟨l, hl, h⟩ := Option.bind_eq_some_iff.mp h
  have hrs : ∀ i, i + 1 < l.states.reverse.length → _ := fun i hi => by
    have := realPosFrom_succ (byteposFrom 0 l.states.reverse) l.states.reverse 0 0 i hi
    rwa [List.drop_zero, Nat.zero_add] at this
  have hzero : (realPosFrom 0 (byteposFrom 0 l.states.reverse) 0 l.states.reverse).getD 0 0 = 0 := by
    cases l.states.reverse <;> rfl
  refine ⟨l, _, _, hl, byteposFrom_succ _ _, hrs, hzero, fun junk i hi => ?_⟩
  exact emitFrom_drop hrs junk _ 0 rfl h (by rw [hzero, List.drop_zero]) i (Nat.zero_le _) hi

/-! ## Looking a character up -/

theorem entry_byte {c : UInt8} (h : 8 < c ∧ c < 128) : ¬ (0x80 : UInt8) ≤ c ∧ c ≠ failChar ∧
    ¬ c < failChar ∧ (0x80 : UInt8) ≤ c ||| 0x80 ∧ (c ||| 0x80) &&& 0x7f = c ∧
    c ||| 0x80 ≠ failChar := by
  revert h
  have : ∀ n < 256, 8 < UInt8.ofNat n ∧ UInt8.ofNat n < 128 → ¬ (0x80 : UInt8) ≤ UInt8.ofNat n ∧
      UInt8.ofNat n ≠ failChar ∧ ¬ UInt8.ofNat n < failChar ∧
      (0x80 : UInt8) ≤ UInt8.ofNat n ||| 0x80 ∧ (UInt8.ofNat n ||| 0x80) &&& 0x7f = UInt8.ofNat n ∧
      UInt8.ofNat n ||| 0x80 ≠ failChar := by
    decide +kernel
  have hc := this c.toNat c.toNat_lt
  rwa [UInt8.ofNat_toNat] at hc

theorem jump_toNat {j : ℕ} (h : ¬ 0xffff < j) :
    (UInt8.ofNat j).toNat + ((UInt8.ofNat (j >>> 8)).toNat <<< 8) = j := by
  rw [UInt8.toNat_ofNat', UInt8.toNat_ofNat', Nat.shiftLeft_eq, Nat.shiftRight_eq_div_pow]
  omega

theorem decodeEntries_one {b : UInt8} (h : 0x80 ≤ b) (bs : List UInt8) (pos : ℕ) (c : UInt8) :
    decodeEntries (b :: bs) pos c = if b &&& 0x7f ≠ c then none
      else if bs.head? = some failChar then none else some (pos + 1) := by
  unfold decodeEntries
  exact if_pos h

theorem decodeEntries_jump {b : UInt8} (hlow : ¬ (0x80 : UInt8) ≤ b) (hfail : b ≠ failChar)
    (hmark : ¬ b < failChar) (lo hi : UInt8) (bs : List UInt8) (pos : ℕ) (c : UInt8) :
    decodeEntries (b :: lo :: hi :: bs) pos c =
      if b = c then some (pos + lo.toNat + (hi.toNat <<< 8)) else decodeEntries bs (pos + 3) c := by
  rw [decodeEntries, if_neg hlow, if_neg hfail, if_neg hmark]

theorem decodeEntries_fail (bs : List UInt8) (pos : ℕ) (c : UInt8) :
    decodeEntries (failChar :: bs) pos c = none := by
  unfold decodeEntries
  rw [if_neg (by decide), if_pos rfl]

/-- What the entries of state `i` need to know of the positions of the states behind it. -/
structure Ahead (i next : ℕ) (bs rs : List ℕ) (b r : ℕ → ℕ) : Prop where
  bytepos : ∀ j, i < j → bs.getD (j - i) 0 = b j
  realPos : ∀ j, i < j → rs.getD (j - i) 0 = r j
  later : ∀ j, i + 1 < j → j < next → b (i + 1) < b j
  le : ∀ j, i < j → j < next → r (i + 1) ≤ r j

/-- Entries that lead to a state behind `i`. -/
def Leads (i next : ℕ) (es : LexState) : Prop :=
  ∀ e ∈ es, i < e.state ∧ e.state < next ∧ 8 < e.c ∧ e.c < 128

theorem decodeEntries_emit {i next : ℕ} {bs rs : List ℕ} {b r : ℕ → ℕ} (h : Ahead i next bs rs b r)
    {rest : List UInt8} (hrest : rest.head? ≠ some failChar) (c : UInt8) :
    ∀ (es : LexState) {walk pos : ℕ} {out : List UInt8}, es ≠ [] → Leads i next es →
    walk + 2 * es.length = b (i + 1) → pos + entriesSize i bs walk es = r (i + 1) →
    emitEntries i bs rs walk pos es = some out →
    decodeEntries (out ++ rest) pos c = (es.find? (·.c = c)).map fun e => r e.state
  | [], _, _, _, hne, _, _, _, _ => absurd rfl hne
  | e :: es, walk, pos, out, _, hes, hwalk, hpos, hout => by
    obtain ⟨hlt, hnext, hc⟩ := hes e List.mem_cons_self
    obtain ⟨hlow, hfail, hmark, hhigh, hmask, -⟩ := entry_byte hc
    have h0 : e.state ≠ 0 := Nat.ne_of_gt (Nat.zero_lt_of_lt hlt)
    rw [List.length_cons] at hwalk
    unfold emitEntries at hout
    unfold entriesSize at hpos
    rw [if_neg h0, h.bytepos _ hlt] at hout hpos
    have hfind : (e :: es).find? (·.c = c) = if e.c = c then some e else es.find? (·.c = c) := by
      rw [List.find?_cons]
      rcases em (e.c = c) with hec | hec <;> simp [hec]
    have hstate : i + 1 = e.state ∨ i + 1 < e.state := Nat.eq_or_lt_of_le hlt
    rw [hfind]
    rcases em (b e.state = walk + 2) with h1 | h1
    · -- The entry is the last one, and leads to the next state.
      have hlast : i + 1 = e.state ∧ es = [] := by
        rcases hstate with hi | hi
        · rw [← hi] at h1
          exact ⟨hi, List.length_eq_zero_iff.mp (by omega)⟩
        · have := h.later _ hi hnext
          omega
      obtain ⟨hi, rfl⟩ := hlast
      rw [if_pos h1] at hout hpos
      obtain rfl := Option.some.inj hout
      rw [show [e.c ||| 0x80] ++ [] ++ rest = (e.c ||| 0x80) :: rest from rfl,
        decodeEntries_one hhigh, hmask, if_neg hrest]
      rcases em (e.c = c) with hec | hec
      · rw [if_neg (not_not.mpr hec), if_pos hec, Option.map_some, ← hi, ← hpos]
        rfl
      · rw [if_pos hec, if_neg hec]
        rfl
    rw [if_neg h1] at hout hpos
    split at hout
    next => cases hout
    next hj =>
      rw [h.realPos _ hlt] at hj hout
      have hjump : pos + (UInt8.ofNat (r e.state - pos)).toNat +
          ((UInt8.ofNat ((r e.state - pos) >>> 8)).toNat <<< 8) = r e.state := by
        have := h.le _ hlt hnext
        rw [Nat.add_assoc, jump_toNat hj]
        rcases em (es = []) with hne | hne
        · rw [if_pos hne] at hpos
          omega
        · rw [if_neg hne] at hpos
          omega
      rcases em (es = []) with rfl | hne
      · rw [if_pos rfl] at hout
        obtain rfl := Option.some.inj hout
        simp only [List.cons_append, List.nil_append]
        rw [decodeEntries_jump hlow hfail hmark, decodeEntries_fail, hjump]
        rcases em (e.c = c) with hec | hec
        · rw [if_pos hec, if_pos hec]
          rfl
        · rw [if_neg hec, if_neg hec]
          rfl
      · rw [if_neg hne] at hout hpos
        obtain ⟨out', hout', rfl⟩ := Option.map_eq_some_iff.mp hout
        simp only [List.cons_append, List.nil_append]
        rw [decodeEntries_jump hlow hfail hmark, hjump]
        rcases em (e.c = c) with hec | hec
        · rw [if_pos hec, if_pos hec]
          rfl
        · rw [if_neg hec, if_neg hec]
          exact decodeEntries_emit h hrest c es hne
            (fun e' he' => hes e' (List.mem_cons_of_mem _ he')) (by omega) (by omega) hout'

theorem head_emitEntries {i next : ℕ} {bs rs : List ℕ} {e : Entry} {es : LexState} {walk pos : ℕ}
    {out : List UInt8} (hes : Leads i next (e :: es))
    (h : emitEntries i bs rs walk pos (e :: es) = some out) :
    ∃ b out', out = b :: out' ∧ b ≠ failChar ∧ ¬ b < failChar := by
  obtain ⟨hlt, -, hc⟩ := hes e List.mem_cons_self
  obtain ⟨-, hfail, hmark, hhigh, -, hfail'⟩ := entry_byte hc
  unfold emitEntries at h
  rw [if_neg (Nat.ne_of_gt (Nat.zero_lt_of_lt hlt))] at h
  split at h
  · obtain ⟨out', -, rfl⟩ := Option.map_eq_some_iff.mp h
    refine ⟨_, _, rfl, hfail', fun hlt => ?_⟩
    exact absurd (UInt8.lt_of_le_of_lt hhigh hlt) (by decide)
  split at h
  · cases h
  rcases em (es = []) with rfl | hne
  · rw [if_pos rfl] at h
    obtain rfl := Option.some.inj h
    exact ⟨_, _, rfl, hfail, hmark⟩
  · rw [if_neg hne] at h
    obtain ⟨out', -, rfl⟩ := Option.map_eq_some_iff.mp h
    exact ⟨_, _, rfl, hfail, hmark⟩

/-! ## The strings that are recognized -/

namespace Lexicon

theorem getD_reverse {l : Lexicon} {i : ℕ} (hi : i < l.next) :
    l.states.reverse.getD i [] = l.state i := by
  rw [state, List.getD_eq_getElem?_getD, List.getD_eq_getElem?_getD, List.getElem?_reverse hi]
  rfl

/-- A string is found at one place only. -/
def Unambiguous (names : ℕ → List UInt8 → Prop) : Prop :=
  ∀ n t k u, names n t → names k u → t <+: u → n = k ∧ t = u

/-- The characters that the table can hold. -/
def Printable (names : ℕ → List UInt8 → Prop) : Prop :=
  ∀ n t, names n t → n < 128 ∧ ∀ c ∈ t, 8 < c ∧ c < 128

variable {l : Lexicon} {path : ℕ → List UInt8} {names : ℕ → List UInt8 → Prop}

namespace Spells

variable (h : l.Spells path names [])

include h

theorem exists_path {i : ℕ} (hi : i < l.next) {p : List UInt8} (hp : p <+: path i) :
    ∃ j < l.next, path j = p := by
  generalize hq : path i = q at hp
  induction q using List.reverseRecOn generalizing i with
  | nil => exact ⟨i, hi, hq.trans (List.prefix_nil.mp hp).symm⟩
  | append_singleton q a ih =>
    rcases List.prefix_concat_iff.mp hp with rfl | hp
    · exact ⟨i, hi, hq⟩
    · have h0 : i ≠ 0 := by
        rintro rfl
        rw [h.path_zero] at hq
        simp at hq
      obtain ⟨k, hk, e, he, rfl⟩ := h.parent i hi h0
      have hchild := (h.child k hk e he h0).2.2
      rw [hq] at hchild
      exact ih hk (List.append_inj' hchild rfl).1.symm hp

/-- The states have an entry for each character that can come next. -/
theorem edge {i : ℕ} (hi : i < l.next) {n : ℕ} {t : List UInt8} (hn : names n t) {c : UInt8}
    (hp : path i ++ [c] <+: t) :
    ∃ e ∈ l.state i, e.c = c ∧ e.state ≠ 0 := by
  obtain ⟨k, hk, rfl, -⟩ := h.named n t hn
  obtain ⟨j, hj, hpath⟩ := h.exists_path hk hp
  have h0 : j ≠ 0 := by
    rintro rfl
    rw [h.path_zero] at hpath
    simp at hpath
  obtain ⟨m, hm, e, he, rfl⟩ := h.parent j hj h0
  have hchild := (h.child m hm e he h0).2.2
  rw [hpath] at hchild
  obtain ⟨hmi, hce⟩ := List.append_inj' hchild rfl
  obtain rfl := h.path_inj i hi m hm hmi
  exact ⟨e, he, (List.cons.inj hce).1.symm, h0⟩

/-- Every state is on the way to a string. -/
theorem exists_name {i : ℕ} (hi : i < l.next) (h0 : i ≠ 0) : ∃ n t, names n t ∧ path i <+: t := by
  refine (h.alive i hi).resolve_left fun hp => h0 ?_
  exact h.path_inj i hi 0 h.next_pos ((List.prefix_nil.mp hp).trans h.path_zero.symm)

theorem state_ne_nil {i : ℕ} (hi : i < l.next) (h0 : i ≠ 0) : l.state i ≠ [] := by
  obtain ⟨n, t, hn, hp⟩ := h.exists_name hi h0
  obtain ⟨s, rfl⟩ := hp
  rcases s with _ | ⟨c, s⟩
  · rw [List.append_nil] at hn
    obtain ⟨j, hj, hpath, hstate⟩ := h.named n _ hn
    obtain rfl := h.path_inj j hj i hi hpath
    rw [hstate]
    exact List.cons_ne_nil _ _
  · obtain ⟨e, he, -⟩ := h.edge hi hn (c := c) (by
      rw [show path i ++ c :: s = path i ++ [c] ++ s by rw [List.append_assoc]; rfl]
      exact List.prefix_append _ _)
    exact List.ne_nil_of_mem he

theorem leads (hchars : Printable names) {i : ℕ} (hi : i < l.next)
    (hnot : ∀ n, ¬ names n (path i)) : Leads i l.next (l.state i) := by
  intro e he
  have h0 : e.state ≠ 0 := fun h0 => hnot _ (h.number i hi e he h0).2
  obtain ⟨hlt, hnext, hpath⟩ := h.child i hi e he h0
  obtain ⟨n, t, hn, hp⟩ := h.exists_name hnext h0
  refine ⟨hlt, hnext, (hchars n t hn).2 e.c (hp.subset ?_)⟩
  rw [hpath]
  exact List.mem_append_right _ (List.mem_singleton.mpr rfl)

end Spells

/-- The table has each state at its position. -/
structure Encoded (l : Lexicon) (path : ℕ → List UInt8) (names : ℕ → List UInt8 → Prop)
    (table : List UInt8) (r : ℕ → ℕ) : Prop where
  zero : r 0 = 0
  decode : ∀ i < l.next, (∀ n, ¬ names n (path i)) → l.state i ≠ [] → ∀ c,
    lextableDecode table (r i) c =
      ((l.state i).find? (·.c = tolower c)).map fun e => r e.state
  number : ∀ i < l.next, ∀ n, names n (path i) →
    IsTerminal table (r i) ∧ terminal table (r i) = n
  plain : ∀ i < l.next, (∀ n, ¬ names n (path i)) → l.state i ≠ [] → ¬ IsTerminal table (r i)

theorem Spells.encoded (h : l.Spells path names []) (hchars : Printable names)
    {bs rs : List ℕ} {table : List UInt8}
    (hbs : ∀ i, i + 1 < l.states.reverse.length → bs.getD (i + 1) 0 =
      bs.getD i 0 + 2 * (l.states.reverse.getD i []).length)
    (hrs : ∀ i, i + 1 < l.states.reverse.length → rs.getD (i + 1) 0 =
      rs.getD i 0 + entriesSize i (bs.drop i) (bs.getD i 0) (l.states.reverse.getD i []))
    (hzero : rs.getD 0 0 = 0) (hprint : Printed l.states.reverse bs rs table) :
    l.Encoded path names table fun i => rs.getD i 0 := by
  have hlen : l.states.reverse.length = l.next := List.length_reverse
  rw [hlen] at hbs hrs
  have hlater : ∀ i j, i + 1 < j → j < l.next → bs.getD (i + 1) 0 < bs.getD j 0 := by
    intro i j hij
    induction j, hij using Nat.le_induction with
    | base =>
      intro hj
      rw [hbs (i + 1) hj, getD_reverse (by omega)]
      have := List.length_pos_iff.mpr (h.state_ne_nil (i := i + 1) (by omega) (by omega))
      omega
    | succ j hij ih =>
      intro hj
      rw [hbs j hj]
      have := ih (by omega)
      omega
  have hle : ∀ i j, i + 1 ≤ j → j < l.next → rs.getD (i + 1) 0 ≤ rs.getD j 0 := by
    intro i j hij
    induction j, hij using Nat.le_induction with
    | base => exact fun _ => Nat.le_refl _
    | succ j hij ih =>
      intro hj
      rw [hrs j hj]
      exact (ih (by omega)).trans (Nat.le_add_right _ _)
  have hgetD : ∀ (ns : List ℕ) (i j : ℕ), i < j → (ns.drop i).getD (j - i) 0 = ns.getD j 0 := by
    intro ns i j hij
    rw [getD_drop]
    congr 1
    omega
  have hat : ∀ pos b bytes, table.drop pos = b :: bytes → table.getD pos 0 = b := by
    intro pos b bytes hdrop
    rw [← headD_drop, hdrop]
    rfl
  -- A state with entries for characters has them at its position.
  have hplain : ∀ i < l.next, (∀ n, ¬ names n (path i)) → l.state i ≠ [] →
      ∃ e es, l.state i = e :: es ∧ Leads i l.next (e :: es) := by
    intro i hi hnot hne
    obtain ⟨e, es, hes⟩ := List.exists_cons_of_ne_nil hne
    exact ⟨e, es, hes, hes ▸ h.leads hchars hi hnot⟩
  refine ⟨hzero, fun i hi hnot hne c => ?_, fun i hi n hn => ?_, fun i hi hnot hne => ?_⟩
  · obtain ⟨out, rest, hout, hdrop, hrest⟩ := hprint i (hlen ▸ hi)
    rw [getD_reverse hi] at hout
    obtain ⟨e, es, hes, hleads⟩ := hplain i hi hnot hne
    have hnext : i + 1 < l.next := by
      have := hleads e List.mem_cons_self
      omega
    have hhead : rest.head? ≠ some failChar := by
      obtain ⟨out', rest', hout', hdrop', -⟩ := hprint (i + 1) (hlen ▸ hnext)
      rw [getD_reverse hnext] at hout'
      rw [← hrest (hlen ▸ hnext), hdrop']
      rcases em (∃ n, names n (path (i + 1))) with ⟨n, hn⟩ | hnot'
      · obtain ⟨j, hj, hpath, hstate⟩ := h.named n _ hn
        obtain rfl := h.path_inj j hj _ hnext hpath
        rw [hstate] at hout'
        obtain rfl := Option.some.inj hout'
        simp [failChar]
      · obtain ⟨e', es', hes', hleads'⟩ := hplain (i + 1) hnext (not_exists.mp hnot')
          (h.state_ne_nil hnext (Nat.succ_ne_zero i))
        rw [hes'] at hout'
        obtain ⟨b, bytes, rfl, hfail, -⟩ := head_emitEntries hleads' hout'
        exact fun hb => hfail (Option.some.inj hb)
    have hahead : Ahead i l.next (bs.drop i) (rs.drop i) (fun j => bs.getD j 0)
        fun j => rs.getD j 0 :=
      ⟨fun j hj => hgetD bs i j hj, fun j hj => hgetD rs i j hj, fun j => hlater i j,
        fun j => hle i j⟩
    rw [lextableDecode, hdrop]
    refine decodeEntries_emit hahead hhead (tolower c) _ hne (hes ▸ hleads) ?_ ?_ hout
    · rw [← getD_reverse hi, ← hbs i hnext]
    · rw [← getD_reverse hi, ← hrs i hnext]
  · obtain ⟨out, rest, hout, hdrop, -⟩ := hprint i (hlen ▸ hi)
    obtain ⟨j, hj, hpath, hstate⟩ := h.named n _ hn
    obtain rfl := h.path_inj j hj i hi hpath
    rw [getD_reverse hj, hstate] at hout
    obtain rfl := Option.some.inj hout
    have h0 : table.getD (rs.getD j 0) 0 = 0 := hat _ _ _ hdrop
    have h1 : table.getD (rs.getD j 0 + 1) 0 = UInt8.ofNat n := by
      refine hat _ _ rest ?_
      rw [← List.drop_drop, hdrop]
      rfl
    have hnat : (UInt8.ofNat n).toNat = n :=
      UInt8.toNat_ofNat_of_lt' (by have := (hchars n _ hn).1; simp [UInt8.size]; omega)
    exact ⟨by rw [IsTerminal, h0]; decide, by rw [terminal, h0, h1, hnat]; simp⟩
  · obtain ⟨out, rest, hout, hdrop, -⟩ := hprint i (hlen ▸ hi)
    rw [getD_reverse hi] at hout
    obtain ⟨e, es, hes, hleads⟩ := hplain i hi hnot hne
    rw [hes] at hout
    obtain ⟨b, bytes, rfl, -, hmark⟩ := head_emitEntries hleads hout
    rw [IsTerminal, hat _ _ _ hdrop]
    exact hmark

theorem Spells.lexFrom_spelled (h : l.Spells path names []) (hone : Unambiguous names)
    {table : List UInt8} {r : ℕ → ℕ} (henc : l.Encoded path names table r) :
    ∀ (s : List UInt8) {i : ℕ}, i < l.next → (∀ n, ¬ names n (path i)) → l.state i ≠ [] →
    (∀ n rest, lexFrom table (r i) s = .token n rest ↔
      ∃ u, s = u ++ rest ∧ names n (path i ++ u.map tolower)) ∧
    ((∃ pos, lexFrom table (r i) s = .more pos) ↔
      ∃ n t, names n t ∧ path i ++ s.map tolower <+: t ∧ path i ++ s.map tolower ≠ t)
  | [], i, hi, hnot, hne => by
    constructor
    · intro n rest
      refine iff_of_false (fun h => Lexed.noConfusion h) ?_
      rintro ⟨u, hu, hn⟩
      obtain rfl := (List.append_eq_nil_iff.mp hu.symm).1
      exact hnot n (by simpa using hn)
    · refine iff_of_true ⟨_, rfl⟩ ?_
      obtain ⟨e, he⟩ := List.exists_mem_of_ne_nil _ hne
      have h0 : e.state ≠ 0 := fun h0 => hnot _ (h.number i hi e he h0).2
      obtain ⟨hlt, hnext, hpath⟩ := h.child i hi e he h0
      obtain ⟨n, t, hn, hp⟩ := h.exists_name hnext h0
      rw [hpath] at hp
      refine ⟨n, t, hn, by simpa using (List.prefix_append _ _).trans hp, ?_⟩
      rintro rfl
      exact hnot n (by simpa using hn)
  | c :: s, i, hi, hnot, hne => by
    have hcons : ∀ u : List UInt8, path i ++ (c :: u).map tolower =
        path i ++ [tolower c] ++ u.map tolower := by simp
    rw [lexFrom, henc.decode i hi hnot hne]
    rcases hfind : (l.state i).find? (·.c = tolower c) with _ | e
    · -- No string goes on with the character.
      have hedge : ∀ n t u, names n t → ¬ path i ++ [tolower c] ++ u <+: t := by
        intro n t u hn hp
        obtain ⟨e, he, hec, -⟩ := h.edge hi hn ((List.prefix_append _ _).trans hp)
        have := List.find?_eq_none.mp hfind e he
        simp [hec] at this
      rw [hfind, Option.map_none]
      refine ⟨fun n rest => iff_of_false (fun h => Lexed.noConfusion h) ?_,
        iff_of_false (fun ⟨_, h⟩ => Lexed.noConfusion h) ?_⟩
      · rintro ⟨u, hu, hn⟩
        rcases u with _ | ⟨a, u⟩
        · exact hnot n (by simpa using hn)
        · obtain rfl := (List.cons.inj hu).1
          exact hedge n _ (u.map tolower) hn ⟨[], by rw [List.append_nil, hcons]⟩
      · rintro ⟨n, t, hn, hp, -⟩
        rw [hcons] at hp
        exact hedge n t _ hn hp
    · have he := List.mem_of_find?_eq_some hfind
      have hec : e.c = tolower c := by simpa using List.find?_some hfind
      have h0 : e.state ≠ 0 := fun h0 => hnot _ (h.number i hi e he h0).2
      obtain ⟨hlt, hnext, hpath⟩ := h.child i hi e he h0
      rw [hec] at hpath
      rw [hfind, Option.map_some]
      -- The strings that begin with `c` in state `i` are those that go on in the next state.
      have htoken : ∀ n rest, (∃ u, c :: s = u ++ rest ∧ names n (path i ++ u.map tolower)) ↔
          ∃ u, s = u ++ rest ∧ names n (path e.state ++ u.map tolower) := by
        refine fun n rest => ⟨?_, ?_⟩
        · rintro ⟨u, hu, hn⟩
          rcases u with _ | ⟨a, u⟩
          · exact absurd (by simpa using hn) (hnot n)
          · obtain ⟨rfl, hrest⟩ := List.cons.inj hu
            exact ⟨u, hrest, by rwa [hpath, ← hcons]⟩
        · rintro ⟨u, hu, hn⟩
          exact ⟨c :: u, by rw [hu]; rfl, by rwa [hcons, ← hpath]⟩
      simp only [htoken, hcons, ← hpath]
      rcases em (∃ k, names k (path e.state)) with ⟨k, hk⟩ | hnot'
      · obtain ⟨hterm, hnum⟩ := henc.number e.state hnext k hk
        rw [if_pos hterm, hnum]
        constructor
        · intro n rest
          constructor
          · intro heq
            obtain ⟨rfl, rfl⟩ := Lexed.token.inj heq
            exact ⟨[], rfl, by simpa using hk⟩
          · rintro ⟨u, rfl, hn⟩
            obtain ⟨rfl, hnil⟩ := hone _ _ _ _ hk hn (List.prefix_append _ _)
            obtain rfl := List.map_eq_nil_iff.mp (List.self_eq_append_right.mp hnil)
            rfl
        · refine iff_of_false (fun ⟨_, h⟩ => Lexed.noConfusion h) ?_
          rintro ⟨n, t, hn, hp, hpt⟩
          obtain ⟨-, rfl⟩ := hone _ _ _ _ hk hn ((List.prefix_append _ _).trans hp)
          exact hpt (hp.eq_of_length_le (by rw [List.length_append]; exact Nat.le_add_right _ _))
      · have hnot' := not_exists.mp hnot'
        have hne' := h.state_ne_nil hnext h0
        rw [if_neg (henc.plain e.state hnext hnot' hne')]
        exact Spells.lexFrom_spelled h hone henc s hnext hnot' hne'

end Lexicon

/-- What a list of strings needs to be for a table to be made of it. -/
structure Lexable (set : List (List UInt8)) : Prop where
  prefixFree : Lexicon.PrefixFree set
  length_le : set.length ≤ 128
  printable : ∀ t ∈ set, ∀ c ∈ t, 8 < c ∧ c < 128
  nonempty : ∃ t ∈ set, t ≠ []

namespace Lexable

open Lexicon

variable {set : List (List UInt8)} (h : Lexable set)

include h

theorem unambiguous : Unambiguous (Named set) := by
  rintro n t k u ⟨hn, ht⟩ ⟨hk, hu⟩ htu
  obtain ⟨hnlt, rfl⟩ := List.getElem?_eq_some_iff.mp hn
  obtain ⟨hklt, rfl⟩ := List.getElem?_eq_some_iff.mp hk
  have hfree := List.pairwise_iff_getElem.mp h.prefixFree
  rcases Nat.lt_trichotomy n k with hnk | rfl | hnk
  · exact absurd htu (hfree n k hnlt hklt hnk ht hu).1
  · exact ⟨rfl, rfl⟩
  · exact absurd htu (hfree k n hklt hnlt hnk hu ht).2

theorem named_printable : Printable (Named set) := fun _ _ hn =>
  ⟨(List.getElem?_eq_some_iff.mp hn.1).1.trans_le h.length_le,
    h.printable _ (List.mem_of_getElem? hn.1)⟩

/-- The table has the states that spell the strings. -/
theorem encoded {table : List UInt8} (htable : minilex set = some table) (junk : List UInt8) :
    ∃ (l : Lexicon) (path : ℕ → List UInt8) (r : ℕ → ℕ), l.Spells path (Named set) [] ∧
      l.Encoded path (Named set) (table ++ junk) r ∧ l.state 0 ≠ [] := by
  obtain ⟨l, bs, rs, hl, hbs, hrs, hzero, hprint⟩ := minilex_printed htable
  have hn : 0 + set.length ≤ 128 := by
    rw [Nat.zero_add]
    exact h.length_le
  obtain ⟨path, hl⟩ := spells_init.addStrings set hn (fun _ _ _ _ _ hk => hk.elim) h.prefixFree hl
  have hsame : (fun k t => False ∨ ∃ i, k = 0 + i ∧ Named set i t) = Named set := by
    ext k t
    simp
  rw [hsame] at hl
  refine ⟨l, path, _, hl, hl.encoded h.named_printable hbs hrs hzero (hprint junk), ?_⟩
  obtain ⟨t, ht, htne⟩ := h.nonempty
  obtain ⟨n, hn⟩ := List.getElem?_of_mem ht
  obtain ⟨c, t, rfl⟩ := List.exists_cons_of_ne_nil htne
  have hpre : path 0 ++ [c] <+: c :: t := by
    rw [hl.path_zero]
    exact ⟨t, rfl⟩
  obtain ⟨e, he, -⟩ := hl.edge hl.next_pos ⟨hn, htne⟩ hpre
  exact List.ne_nil_of_mem he

end Lexable

open Lexicon in
theorem lexFrom_iff {set : List (List UInt8)} (hset : Lexable set) {table : List UInt8}
    (htable : minilex set = some table) (junk s : List UInt8) :
    (∀ n rest, lexFrom (table ++ junk) 0 s = .token n rest ↔
      ∃ u, s = u ++ rest ∧ Named set n (u.map tolower)) ∧
    ((∃ pos, lexFrom (table ++ junk) 0 s = .more pos) ↔
      ∃ n t, Named set n t ∧ s.map tolower <+: t ∧ s.map tolower ≠ t) := by
  obtain ⟨l, path, r, h, henc, hstate⟩ := hset.encoded htable junk
  have hnot : ∀ n, ¬ Named set n (path 0) := fun n hn => hn.2 h.path_zero
  have hlex := h.lexFrom_spelled hset.unambiguous henc s h.next_pos hnot hstate
  simp only [h.path_zero, List.nil_append, henc.zero] at hlex
  exact hlex

/-- `ab` and `ac` -/
def twoStrings : List (List UInt8) := [[0x61, 0x62], [0x61, 0x63]]

theorem twoStrings_lexable : Lexable twoStrings where
  prefixFree := by simp [Lexicon.PrefixFree, twoStrings]
  length_le := by decide
  printable := by simp [twoStrings]
  nonempty := ⟨_, List.mem_cons_self, by decide⟩

/-- The table of `ab` and `ac`, with a byte behind it : `AC` is the second one. -/
theorem lexFrom_iff_twoStrings :
    lexFrom ([0xe1, 0x62, 7, 0, 0x63, 6, 0, 8, 0, 0, 0, 1] ++ [0xff]) 0 [0x41, 0x43, 0x20] =
      .token 1 [0x20] :=
  ((lexFrom_iff twoStrings_lexable (by decide) [0xff] [0x41, 0x43, 0x20]).1 1 [0x20]).mpr
    ⟨[0x41, 0x43], rfl, by decide, by decide⟩

end Lws

end MySocket
