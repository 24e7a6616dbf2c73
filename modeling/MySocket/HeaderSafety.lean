import MySocket.HeaderParser
import MySocket.Outcome

/-!
# What a byte does to the headers

What is known of the fragments between two bytes, and that `libwebsocket_parse` keeps it.

* `Good` : what is known of a fragment. Without limits for the tokens its length counts its bytes
  but the zeros, a path that comes before any arguments does not go up a directory, and arguments
  come after a path.
* `UpsOk` : the state of the path tells its end well enough for that.
* `Settled` : what holds between two bytes.
* `Writing.parseValue`, `Resting.parseName` : a byte of a value and of a name keep it. There is
  something written behind the end of an array at a `?` only.
-/

namespace MySocket

namespace Lws

/-! ## Paths -/

theorem concat_suffix_concat {s l : List UInt8} {a c : UInt8} :
    s ++ [a] <:+ l ++ [c] ↔ s <:+ l ∧ a = c := by
  rw [List.suffix_concat_iff]
  constructor
  · rintro (h | ⟨t, ht, hs⟩)
    · simp at h
    · obtain ⟨rfl, rfl⟩ : s = t ∧ a = c := by simpa using List.append_inj' ht rfl
      exact ⟨hs, rfl⟩
  · rintro ⟨h, rfl⟩
    exact Or.inr ⟨s, rfl, h⟩

/-- The path goes up one directory. -/
def Climbs (bytes : List UInt8) : Prop := [slash, dot, dot] <:+: bytes

theorem not_climbs_nil : ¬Climbs [] := by
  simp [Climbs]

theorem climbs_concat {l : List UInt8} {c : UInt8} :
    Climbs (l ++ [c]) ↔ Climbs l ∨ [slash, dot] <:+ l ∧ c = dot := by
  rw [Climbs, List.infix_concat_iff, or_comm]
  change _ ∨ [slash, dot] ++ [dot] <:+ l ++ [c] ↔ _
  rw [concat_suffix_concat, eq_comm (a := dot)]
  rfl

theorem Climbs.of_prefix {l l' : List UInt8} (h : Climbs l) (hl : l <+: l') : Climbs l' :=
  h.trans hl.isInfix

/-- What the end of a path is in each state, so that a dot stored next makes no way up. -/
def UpsOk (ups : UriPathState) (bytes : List UInt8) : Prop :=
  match ups with
  | .idle => ¬[slash] <:+ bytes ∧ ¬[slash, dot] <:+ bytes
  | .seenSlash => ¬[slash, dot] <:+ bytes
  | .seenSlashDot => ¬[slash, dot] <:+ bytes
  | .seenSlashDotDot => True
  | .arguments => True

theorem upsOk_nil (ups : UriPathState) : UpsOk ups [] := by
  rcases ups <;> simp [UpsOk]

theorem not_suffix_slash {l : List UInt8} {c : UInt8} (hc : c ≠ slash) : ¬[slash] <:+ l ++ [c] := by
  change ¬[] ++ [slash] <:+ l ++ [c]
  rw [concat_suffix_concat]
  exact fun h => hc h.2.symm

theorem not_suffix_dot {l : List UInt8} {c : UInt8} (hc : c ≠ dot) :
    ¬[slash, dot] <:+ l ++ [c] := by
  change ¬[slash] ++ [dot] <:+ l ++ [c]
  rw [concat_suffix_concat]
  exact fun h => hc h.2.symm

/-- A byte that is neither a slash nor a dot. -/
theorem upsOk_concat (ups : UriPathState) (l : List UInt8) {c : UInt8} (hs : c ≠ slash)
    (hd : c ≠ dot) : UpsOk ups (l ++ [c]) := by
  have hslash := not_suffix_slash (l := l) hs
  have hdot := not_suffix_dot (l := l) hd
  rcases ups with _ | _ | _ | _ | _
  · exact ⟨hslash, hdot⟩
  · exact hdot
  · exact hdot
  · trivial
  · trivial

/-! ## The fragments -/

/-- A fragment for `h` has arguments of a path : those that the index has lost count as fragments
for the number after that of the last token. -/
def IsArgs (h : ℕ) : Prop := h = tokenHttpUriArgs ∨ h = tokenCount

/-- No arguments of a path are among the fragments. -/
def NoArgs (log : List Stored) : Prop := ∀ x ∈ log, ¬IsArgs x.token

/-- What is known of a fragment with `len` that comes after those of `pre`. -/
structure Good (limits : Option (ℕ → ℕ)) (pre : List Stored) (x : Stored) (len : ℕ) : Prop where
  len_le : len ≤ x.bytes.length
  count : limits = none → ¬IsUri x.token → len = x.bytes.countP (· ≠ 0)
  path : IsUri x.token → NoArgs pre → ¬Climbs x.bytes
  method : IsArgs x.token → ∃ y ∈ pre, IsUri y.token

/-- Without limits there is the byte zero in each fragment. -/
def Sealed (limits : Option (ℕ → ℕ)) (log : List Stored) : Prop :=
  limits = none → ∀ x ∈ log, 0 ∈ x.bytes

theorem noArgs_append {log log' : List Stored} :
    NoArgs (log ++ log') ↔ NoArgs log ∧ NoArgs log' := List.forall_mem_append

theorem not_isUri {h : ℕ} (hh : tokenHttpUriArgs ≤ h) : ¬IsUri h := by
  rintro (rfl | rfl | rfl)
  · exact absurd hh (by decide)
  · exact absurd hh (by decide)
  · exact absurd hh (by decide)

theorem IsUri.lt {h : ℕ} (hh : IsUri h) : h < tokenHttpUriArgs :=
  Nat.not_le.mp fun hle => not_isUri hle hh

theorem IsUri.not_isArgs {h : ℕ} (hh : IsUri h) : ¬IsArgs h := by
  have hlt := hh.lt
  rintro (rfl | rfl)
  · exact Nat.lt_irrefl _ hlt
  · exact absurd hlt (by decide)

/-- A token may lose its fragments to `lost`. -/
structure CanLose (h lost : ℕ) : Prop where
  le : tokenHttpUriArgs ≤ h
  lost_le : tokenCount ≤ lost
  isArgs : IsArgs lost ↔ IsArgs h

theorem canLose_args : CanLose tokenHttpUriArgs tokenCount :=
  ⟨Nat.le_refl _, Nat.le_refl _, iff_of_true (Or.inr rfl) (Or.inl rfl)⟩

section

variable {h lost : ℕ}

theorem CanLose.isUri (hcan : CanLose h lost) (x : Stored) :
    IsUri (x.lose h lost).token ↔ IsUri x.token := by
  have hle : tokenHttpUriArgs ≤ lost := Nat.le_trans (by decide) hcan.lost_le
  unfold Stored.lose
  split
  next hx => exact iff_of_false (not_isUri hle) (not_isUri (hx ▸ hcan.le))
  next => rfl

theorem CanLose.isArgs_lose (hcan : CanLose h lost) (x : Stored) :
    IsArgs (x.lose h lost).token ↔ IsArgs x.token := by
  unfold Stored.lose
  split
  next hx =>
    rw [hx]
    exact hcan.isArgs
  next => rfl

theorem CanLose.noArgs (hcan : CanLose h lost) {log : List Stored} :
    NoArgs (log.map (Stored.lose h lost)) ↔ NoArgs log := by
  simp [NoArgs, hcan.isArgs_lose]

end

theorem Sealed.lose {limits : Option (ℕ → ℕ)} {log : List Stored} (hs : Sealed limits log)
    (h lost : ℕ) : Sealed limits (log.map (Stored.lose h lost)) := fun hlim x hx => by
  obtain ⟨y, hy, rfl⟩ := List.mem_map.mp hx
  rw [y.lose_bytes]
  exact hs hlim y hy

theorem Sealed.concat {limits : Option (ℕ → ℕ)} {log : List Stored} {x : Stored}
    (h : Sealed limits log) (hx : limits = none → 0 ∈ x.bytes) : Sealed limits (log ++ [x]) :=
  fun hlim => List.forall_mem_append.mpr ⟨h hlim, List.forall_mem_singleton.mpr (hx hlim)⟩

namespace Good

variable {limits : Option (ℕ → ℕ)} {pre : List Stored} {x : Stored} {len : ℕ}

theorem lose {h lost : ℕ} (hcan : CanLose h lost) (hgood : Good limits pre x len) :
    Good limits (pre.map (Stored.lose h lost)) (x.lose h lost) len where
  len_le := by
    rw [x.lose_bytes]
    exact hgood.len_le
  count hlim hx := by
    rw [x.lose_bytes]
    exact hgood.count hlim (mt (hcan.isUri x).mpr hx)
  path hx hpre := by
    rw [x.lose_bytes]
    exact hgood.path ((hcan.isUri x).mp hx) (hcan.noArgs.mp hpre)
  method hx := by
    obtain ⟨y, hy, huri⟩ := hgood.method ((hcan.isArgs_lose x).mp hx)
    exact ⟨y.lose h lost, List.mem_map_of_mem hy, (hcan.isUri y).mpr huri⟩

theorem push (h : Good limits pre x len) {c : UInt8}
    (hpath : IsUri x.token → NoArgs pre → ¬Climbs (x.bytes ++ [c])) :
    Good limits pre (x.push c) (if c = 0 then len else len + 1) where
  len_le := by
    have hle := h.len_le
    rw [Stored.push, List.length_append, List.length_singleton]
    split
    · omega
    · omega
  count hlim hx := by
    rw [Stored.push, List.countP_append, ← h.count hlim hx]
    rcases em (c = 0) with rfl | hc
    · simp
    · simp [hc]
  path := hpath
  method := h.method

/-- A fragment that is new. -/
theorem start {h : ℕ} (hh : IsArgs h → ∃ y ∈ pre, IsUri y.token) :
    Good limits pre ⟨h, []⟩ 0 :=
  ⟨Nat.le_refl 0, fun _ _ => rfl, fun _ _ => not_climbs_nil, hh⟩

end Good

/-! ## The states -/

/-- What the bytes of a path leave behind. -/
structure Control (s : Hdr) (log : List Stored) : Prop where
  args : s.ups = .arguments → ¬NoArgs log
  stash : s.ues = .seenPercentH1 → charToHex s.escStash ≠ none

/-- Nothing is being written. -/
structure Resting (limits : Option (ℕ → ℕ)) (s : Hdr) (log : List Stored) : Prop where
  table : Table (Good limits) s.ah log
  control : Control s log
  seals : Sealed limits log

/-- The value of the token `h` is being written to the last fragment. -/
structure Unfinished (limits : Option (ℕ → ℕ)) (h : ℕ) (s : Hdr) (log : List Stored) (x : Stored) :
    Prop where
  table : Table (Good limits) s.ah (log ++ [x])
  control : Control s (log ++ [x])
  seals : Sealed limits log
  token : h < tokenHttpUriArgs ∧ h ≠ tokenChallenge
  limit : limits = none → s.currentTokenLimit = maxHeaderLen
  owner : x.token = h ∨ x.token = tokenHttpUriArgs ∧ IsUri h ∧ s.ups = .arguments

/-- The value goes on with `P`, or the rest of it is left out. -/
def Goes (limits : Option (ℕ → ℕ)) (h : ℕ) (s : Hdr) (P : Prop) : Prop :=
  s.parserState = .token h ∧ P ∨
    (limits ≠ none ∧ s.currentTokenLimit ≤ s.ah.len) ∧ s.parserState = .skipping ∧
      (IsUri h → s.ups ≠ .seenSlashDot)

/-- The value may go on. -/
def Writing (limits : Option (ℕ → ℕ)) (h : ℕ) (s : Hdr) (log : List Stored) (x : Stored) : Prop :=
  Unfinished limits h s log x ∧
    Goes limits h s (IsUri x.token → NoArgs log → UpsOk s.ups x.bytes)

/-- The value may go on with `c`. -/
def Assessed (limits : Option (ℕ → ℕ)) (h : ℕ) (s : Hdr) (log : List Stored) (x : Stored)
    (c : UInt8) : Prop :=
  Unfinished limits h s log x ∧
    Goes limits h s ((IsUri h → s.ups ≠ .seenSlashDot) ∧ (IsUri x.token → NoArgs log →
      ¬Climbs (x.bytes ++ [c]) ∧ UpsOk s.ups (x.bytes ++ [c])))

/-- What holds between two bytes. -/
def Settled (limits : Option (ℕ → ℕ)) (s : Hdr) : Prop :=
  (∃ h log x, s.parserState = .token h ∧ Writing limits h s log x) ∨
    (∀ h, s.parserState ≠ .token h) ∧ (∃ log, Resting limits s log) ∧
      (s.parserState = .namePart →
        ∃ pos u, s.lextablePos = some pos ∧ lexFrom lextable 0 u = .more pos)

/-! ## The parts of the function -/

section

variable {limits : Option (ℕ → ℕ)} {h : ℕ} {s : Hdr} {log : List Stored} {x : Stored} {c : UInt8}

theorem noArgs_push : NoArgs (log ++ [x.push c]) ↔ NoArgs (log ++ [x]) := by
  rw [noArgs_append, noArgs_append]
  simp [NoArgs, Stored.push]

theorem Goes.ne_challenge {P : Prop} (hu : Unfinished limits h s log x) (hg : Goes limits h s P) :
    s.parserState ≠ .token tokenChallenge := by
  rcases hg with ⟨hs, -⟩ | ⟨-, hs, -⟩
  · rw [hs]
    exact fun hc => hu.token.2 (ParserState.token.inj hc)
  · rw [hs]
    exact ParserState.noConfusion

theorem swallow_eq (hs : s.parserState ≠ .token tokenChallenge) : s.swallow = .ok s := if_neg hs

namespace Unfinished

theorem path (hu : Unfinished limits h s log x) (hx : IsUri x.token) (hlog : NoArgs log) :
    ¬Climbs x.bytes := hu.table.last.path hx hlog

/-- A byte that is not a dot makes no way up. -/
theorem path_concat (hu : Unfinished limits h s log x) (hc : c ≠ dot) (hx : IsUri x.token)
    (hlog : NoArgs log) : ¬Climbs (x.bytes ++ [c]) := by
  rw [climbs_concat]
  rintro (hclimbs | ⟨-, rfl⟩)
  · exact hu.path hx hlog hclimbs
  · exact hc rfl

theorem put (hu : Unfinished limits h s log x) (hpos : s.ah.pos < maxHeaderLen)
    (hpath : IsUri x.token → NoArgs log → ¬Climbs (x.bytes ++ [c])) :
    Unfinished limits h { s with ah := s.ah.put c } log (x.push c) where
  table := hu.table.put c hpos (hu.table.last.push hpath)
  control := ⟨fun hups => mt noArgs_push.mp (hu.control.args hups), hu.control.stash⟩
  seals := hu.seals
  token := hu.token
  limit := hu.limit
  owner := hu.owner

theorem setState (hu : Unfinished limits h s log x) (p : ParserState) :
    Unfinished limits h { s with parserState := p } log x :=
  ⟨hu.table, ⟨hu.control.args, hu.control.stash⟩, hu.seals, hu.token, hu.limit, hu.owner⟩

/-- Without limits the place is used up before the limit is reached. -/
theorem not_over (hu : Unfinished limits h s log x) (hlim : limits = none) :
    ¬(s.ah.pos < maxHeaderLen ∧ s.currentTokenLimit ≤ s.ah.len) := by
  rintro ⟨hpos, hlen⟩
  have hle := hu.table.last.len_le
  rw [AllocatedHeaders.pos, hu.table.layout.data, bytesOf_append, bytesOf_singleton,
    List.length_append] at hpos
  rw [hu.limit hlim] at hlen
  omega

theorem issueChar (hu : Unfinished limits h s log x)
    (hpath : s.ah.len < s.currentTokenLimit → IsUri x.token → NoArgs log →
      ¬Climbs (x.bytes ++ [c])) :
    s.issueChar c = .ok (s, .full) ∨
    (limits ≠ none ∧ s.currentTokenLimit ≤ s.ah.len) ∧ s.issueChar c = .ok (s, .over) ∨
    (s.ah.len < s.currentTokenLimit ∧
      Unfinished limits h { s with ah := s.ah.put c } log (x.push c)) ∧
      s.issueChar c = .ok ({ s with ah := s.ah.put c }, .done) := by
  rcases Hdr.issueChar_cases hu.table.data c with ⟨-, hr⟩ | ⟨hover, hr⟩ | ⟨⟨hpos, hlen⟩, hr⟩
  · exact Or.inl hr
  · exact Or.inr (Or.inl ⟨⟨fun hlim => hu.not_over hlim hover, hover.2⟩, hr⟩)
  · exact Or.inr (Or.inr ⟨⟨hlen, hu.put hpos (hpath hlen)⟩, hr⟩)

theorem issueOrRefuse (hu : Unfinished limits h s log x) (hc : c ≠ dot) :
    Yields (· = .refused)
      (fun s' => ∃ x', Unfinished limits h s' log x' ∧ (limits = none → c ∈ x'.bytes))
      (s.issueOrRefuse c) := by
  unfold Hdr.issueOrRefuse
  rcases hu.issueChar fun _ => hu.path_concat hc with hr | ⟨⟨hlim, -⟩, hr⟩ | ⟨⟨-, hput⟩, hr⟩
  · rw [hr]
    exact rfl
  · rw [hr]
    exact ⟨x, hu, fun h => absurd h hlim⟩
  · rw [hr]
    exact ⟨_, hput, fun _ => List.mem_append_right _ (List.mem_singleton_self c)⟩

theorem rest (hu : Unfinished limits h s log x) (hx : limits = none → 0 ∈ x.bytes) :
    Resting limits s (log ++ [x]) :=
  ⟨hu.table, hu.control, hu.seals.concat hx⟩

/-- The end of a line. -/
theorem checkEol (hu : Unfinished limits h s log x) (hs : s.parserState ≠ .token tokenChallenge) :
    Yields (· = .refused) (Settled limits) (s.checkEol carriageReturn) := by
  have hu' := hu.setState .skippingSawCr
  have hdot : (0 : UInt8) ≠ dot := by decide
  unfold Hdr.checkEol
  simp only [ne_eq, hs, not_false_eq_true, true_and, if_true]
  rcases hu'.issueChar fun _ => hu'.path_concat hdot with hr | ⟨⟨hlim, -⟩, hr⟩ | ⟨⟨-, hput⟩, hr⟩
  · rw [hr]
    exact rfl
  · rw [hr]
    exact Or.inr ⟨fun h => ParserState.noConfusion,
      ⟨_, (hu'.setState .skipping).rest fun h => absurd h hlim⟩, ParserState.noConfusion⟩
  · rw [hr]
    exact Or.inr ⟨fun h => ParserState.noConfusion,
      ⟨_, hput.rest fun _ => List.mem_append_right _ (List.mem_singleton_self 0)⟩,
      ParserState.noConfusion⟩

end Unfinished

theorem Writing.settled (hw : Writing limits h s log x) : Settled limits s := by
  rcases hw.2 with ⟨hs, -⟩ | ⟨⟨hlim, -⟩, hs, -⟩
  · exact Or.inl ⟨h, log, x, hs, hw⟩
  · refine Or.inr ⟨fun h => ?_, ⟨_, hw.1.rest fun h => absurd h hlim⟩, ?_⟩
    · rw [hs]
      exact ParserState.noConfusion
    · rw [hs]
      exact ParserState.noConfusion

/-- A byte in the middle of a line. -/
theorem Assessed.checkEol_of_ne (ha : Assessed limits h s log x c) (hc : c ≠ carriageReturn) :
    Yields (· = .refused) (fun s' => ∃ x', Writing limits h s' log x') (s.checkEol c) := by
  obtain ⟨hu, hg⟩ := ha
  have hs := hg.ne_challenge hu
  unfold Hdr.checkEol
  simp only [hc, and_false, if_false]
  have hpath : s.ah.len < s.currentTokenLimit → IsUri x.token → NoArgs log →
      ¬Climbs (x.bytes ++ [c]) := by
    intro hlen hx hlog
    rcases hg with ⟨-, -, hpermit⟩ | ⟨⟨-, hover⟩, -⟩
    · exact (hpermit hx hlog).1
    · exact absurd hlen (Nat.not_lt.mpr hover)
  rcases hu.issueChar hpath with hr | ⟨hover, hr⟩ | ⟨⟨hlen, hput⟩, hr⟩
  · rw [hr]
    exact rfl
  · rw [hr]
    refine ⟨x, hu.setState .skipping, Or.inr ⟨hover, rfl, ?_⟩⟩
    rcases hg with ⟨-, hups, -⟩ | ⟨-, -, hups⟩
    · exact hups
    · exact hups
  · rw [hr]
    rcases hg with ⟨htoken, -, hpermit⟩ | ⟨⟨-, hover⟩, -⟩
    · change Yields _ _ (Hdr.swallow _)
      rw [swallow_eq (by exact hs)]
      exact ⟨_, hput, Or.inl ⟨htoken, fun hx hlog => (hpermit hx hlog).2⟩⟩
    · exact absurd hlen (Nat.not_lt.mpr hover)

theorem Assessed.checkEol (ha : Assessed limits h s log x c) :
    Yields (· = .refused) (Settled limits) (s.checkEol c) := by
  rcases em (c = carriageReturn) with rfl | hc
  · exact ha.1.checkEol (ha.2.ne_challenge ha.1)
  · refine (ha.checkEol_of_ne hc).mono (fun _ he => he) ?_
    rintro s' ⟨x', hw⟩
    exact hw.settled

/-! ## The bytes of a path -/

/-- How a byte of a path is taken. -/
def Takes (limits : Option (ℕ → ℕ)) (P : Hdr → UInt8 → Prop) : Taken → Prop
  | .swallow s => Settled limits s ∧ s.parserState ≠ .token tokenChallenge
  | .assess s c => P s c

theorem Unfinished.owner_eq (hu : Unfinished limits h s log x) (hups : s.ups ≠ .arguments) :
    x.token = h := hu.owner.resolve_right fun howner => hups howner.2.2

theorem Unfinished.setUps (hu : Unfinished limits h s log x) (hne : s.ups ≠ .arguments)
    {ups : UriPathState} (hups : ups ≠ .arguments) :
    Unfinished limits h { s with ups := ups } log x :=
  ⟨hu.table, ⟨fun h => absurd h hups, hu.control.stash⟩, hu.seals, hu.token, hu.limit,
    Or.inl (hu.owner_eq hne)⟩

theorem Unfinished.setUes (hu : Unfinished limits h s log x) {ues : UriEscState} {stash : UInt8}
    (hues : ues = .seenPercentH1 → charToHex stash ≠ none) :
    Unfinished limits h { s with ues := ues, escStash := stash } log x :=
  ⟨hu.table, ⟨hu.control.args, hues⟩, hu.seals, hu.token, hu.limit, hu.owner⟩

theorem backUpLoop_append (pre : List UInt8) : ∀ {n : ℕ} {l : List UInt8}, 0 < n → n ≤ l.length →
    ∃ l' k, l' <+: l ∧ k ≤ l'.length ∧ Hdr.backUpLoop n (pre ++ l) = (pre ++ l', k)
  | n + 1, l, _, hlen => by
    have hne : l ≠ [] := by
      rintro rfl
      exact absurd hlen (Nat.not_succ_le_zero n)
    have hinit : n ≤ l.dropLast.length := by
      rw [List.length_dropLast]
      omega
    rw [Hdr.backUpLoop, List.dropLast_append_of_ne_nil hne]
    split
    next h =>
      obtain ⟨l', k, hl', hk, hr⟩ := backUpLoop_append pre (Nat.zero_lt_of_lt h.1) hinit
      exact ⟨l', k, hl'.trans (List.dropLast_prefix l), hk, hr⟩
    next => exact ⟨l.dropLast, n, List.dropLast_prefix l, hinit, rfl⟩

/-- The way up one directory makes a path shorter. -/
theorem Unfinished.backUp (hu : Unfinished limits h s log x) (hx : IsUri x.token) :
    ∃ bytes, Unfinished limits h s.backUp log ⟨x.token, bytes⟩ ∧
      s.backUp.parserState = s.parserState ∧ s.backUp.ups = s.ups := by
  unfold Hdr.backUp
  split
  next hlen =>
    have hle := hu.table.last.len_le
    have hne : x.bytes ≠ [] := by
      rintro hnil
      rw [hnil] at hle
      exact absurd hle (by simpa using Nat.ne_of_gt (Nat.zero_lt_of_lt hlen))
    have hdata : s.ah.data = bytesOf log ++ x.bytes := by
      rw [hu.table.layout.data, bytesOf_append, bytesOf_singleton]
    obtain ⟨l', k, hl', hk, hr⟩ := backUpLoop_append (bytesOf log)
      (show 0 < s.ah.len - 1 by omega)
      (show s.ah.len - 1 ≤ x.bytes.dropLast.length by rw [List.length_dropLast]; omega)
    have hpre : l' <+: x.bytes := hl'.trans (List.dropLast_prefix _)
    rw [hdata, List.dropLast_append_of_ne_nil hne, hr]
    refine ⟨l', ⟨?_, ⟨fun hups => ?_, hu.control.stash⟩, hu.seals, hu.token, hu.limit, hu.owner⟩,
      rfl, rfl⟩
    · have hfrags : ∀ i, i ≠ s.ah.nextFragIndex →
          Function.update s.ah.frags s.ah.nextFragIndex
            { s.ah.frags s.ah.nextFragIndex with len := k } i = s.ah.frags i :=
        fun i hi => Function.update_of_ne hi _ _
      refine hu.table.setLast rfl rfl (fun i => ?_) (fun i => ?_) (fun i hi => ?_) rfl ?_
        ⟨?_, ?_, ?_, ?_⟩
      · rcases em (i = s.ah.nextFragIndex) with rfl | hi
        · simp
        · exact congrArg Fragment.offset (hfrags i hi)
      · rcases em (i = s.ah.nextFragIndex) with rfl | hi
        · simp
        · exact congrArg Fragment.next (hfrags i hi)
      · exact congrArg Fragment.len (hfrags i hi)
      · have hpos := hu.table.data
        rw [AllocatedHeaders.pos, hdata, List.length_append] at hpos
        have := hpre.length_le
        change (bytesOf log ++ l').length ≤ _
        rw [List.length_append]
        omega
      · simpa [AllocatedHeaders.len] using hk
      · exact fun _ hnot => absurd hx hnot
      · exact fun hx hlog hclimbs => hu.path hx hlog (hclimbs.of_prefix hpre)
      · exact hu.table.last.method
    · have hargs := hu.control.args hups
      rw [noArgs_append] at hargs ⊢
      simpa [NoArgs] using hargs
  next => exact ⟨x.bytes, hu, rfl, rfl⟩

/-- A byte that is swallowed, where the path is in the state `ups` afterwards. -/
theorem Writing.swallowed {P : Hdr → UInt8 → Prop} (hw : Writing limits h s log x)
    (hne : s.ups ≠ .arguments)
    {ups : UriPathState} (hups : ups ≠ .arguments) (hok : UpsOk s.ups x.bytes → UpsOk ups x.bytes) :
    Takes limits P (.swallow { s with ups := ups }) := by
  have hu := hw.1.setUps hne hups
  rcases hw.2 with ⟨hs, hpath⟩ | ⟨⟨hlim, -⟩, hs, -⟩
  · refine ⟨Or.inl ⟨h, log, x, hs, hu, Or.inl ⟨hs, fun hx hlog => hok (hpath hx hlog)⟩⟩, ?_⟩
    exact fun hc => hu.token.2 (ParserState.token.inj (hs.symm.trans hc))
  · have hstate : { s with ups := ups }.parserState = .skipping := hs
    refine ⟨Or.inr ⟨fun h => ?_, ⟨_, hu.rest fun h => absurd h hlim⟩, ?_⟩, ?_⟩
    · rw [hstate]
      exact ParserState.noConfusion
    · rw [hstate]
      exact ParserState.noConfusion
    · rw [hstate]
      exact ParserState.noConfusion

/-- A byte that is assessed further, where the path is in the state `ups` afterwards. -/
theorem Writing.assess (hw : Writing limits h s log x) (hne : s.ups ≠ .arguments)
    {ups : UriPathState} (hups : ups ≠ .arguments) (hdot : ups ≠ .seenSlashDot)
    (hnext : ¬Climbs x.bytes → UpsOk s.ups x.bytes →
      ¬Climbs (x.bytes ++ [c]) ∧ UpsOk ups (x.bytes ++ [c])) :
    Assessed limits h { s with ups := ups } log x c := by
  refine ⟨hw.1.setUps hne hups, ?_⟩
  rcases hw.2 with ⟨hs, hpath⟩ | ⟨hover, hs, -⟩
  · exact Or.inl ⟨hs, fun _ => hdot, fun hx hlog =>
      hnext (hw.1.path hx hlog) (hpath hx hlog)⟩
  · exact Or.inr ⟨hover, hs, fun _ => hdot⟩

/-- `issue_char`, whatever it returns. -/
theorem Unfinished.issueAnyway (hu : Unfinished limits h s log x)
    (hpath : s.ah.len < s.currentTokenLimit → IsUri x.token → NoArgs log →
      ¬Climbs (x.bytes ++ [c])) :
    Yields (fun _ => False) (fun s' => ∃ ah x', s' = { s with ah := ah } ∧
      Unfinished limits h s' log x' ∧
        (ah = s.ah ∧ x' = x ∨ s.ah.len < s.currentTokenLimit ∧ x' = x.push c))
      (s.issueAnyway c) := by
  unfold Hdr.issueAnyway
  rcases hu.issueChar hpath with hr | ⟨-, hr⟩ | ⟨⟨hlen, hput⟩, hr⟩
  · rw [hr]
    exact ⟨s.ah, x, rfl, hu, Or.inl ⟨rfl, rfl⟩⟩
  · rw [hr]
    exact ⟨s.ah, x, rfl, hu, Or.inl ⟨rfl, rfl⟩⟩
  · rw [hr]
    exact ⟨_, _, rfl, hput, Or.inr ⟨hlen, rfl⟩⟩

/-- `convert /.. or /... or /../ etc to /` -/
theorem Writing.uriPath (hw : Writing limits h s log x) (hh : IsUri h) (c : UInt8) :
    Yields (fun _ => False)
      (fun r => (c = slash ∨ c = dot) ∧ Takes limits (fun _ _ => False) r ∨
        ∃ s' x', r = .assess s' c ∧ Assessed limits h s' log x' c) (s.uriPath c) := by
  have hother : ∀ {y : Stored} {ups : UriPathState}, c ≠ slash → c ≠ dot → ¬Climbs y.bytes →
      ¬Climbs (y.bytes ++ [c]) ∧ UpsOk ups (y.bytes ++ [c]) := by
    intro y ups hslash hdot hclimbs
    refine ⟨?_, upsOk_concat _ _ hslash hdot⟩
    rw [climbs_concat]
    rintro (h | ⟨-, h⟩)
    · exact hclimbs h
    · exact hdot h
  unfold Hdr.uriPath
  rcases hups : s.ups with _ | _ | _ | _ | _
  · have hne : s.ups ≠ .arguments := by simp [hups]
    simp only
    refine Or.inr ⟨_, x, rfl, hw.assess hne ?_ ?_ fun hclimbs hok => ?_⟩
    · split <;> simp
    · split <;> simp
    · rw [hups] at hok
      rw [climbs_concat]
      rcases em (c = slash) with rfl | hslash
      · rw [if_pos rfl]
        exact ⟨fun h => h.elim hclimbs fun h => absurd h.2 (by decide), not_suffix_dot (by decide)⟩
      · rw [if_neg hslash]
        refine ⟨fun h => h.elim hclimbs fun h => hok.2 h.1, not_suffix_slash hslash, fun h => ?_⟩
        change [slash] ++ [dot] <:+ _ at h
        exact hok.1 (concat_suffix_concat.mp h).1
  · have hne : s.ups ≠ .arguments := by simp [hups]
    simp only
    split
    next hslash => exact Or.inl ⟨Or.inl hslash, hw.swallowed hne hne id⟩
    next hslash =>
      split
      next hdot =>
        refine Or.inl ⟨Or.inr hdot, hw.swallowed hne (by simp) fun hok => ?_⟩
        rw [hups] at hok
        exact hok
      next hdot =>
        exact Or.inr ⟨_, x, rfl, hw.assess hne (by simp) (by simp) fun hclimbs _ =>
          hother hslash hdot hclimbs⟩
  · have hne : s.ups ≠ .arguments := by simp [hups]
    simp only
    split
    next hdot =>
      obtain ⟨hs, -⟩ := hw.2.resolve_right fun hskip => hskip.2.2 hh hups
      have hx : IsUri x.token := by
        rw [hw.1.owner_eq hne]
        exact hh
      obtain ⟨bytes, hu, hs', hups'⟩ := hw.1.backUp hx
      have hstate : s.backUp.parserState = .token h := hs'.trans hs
      have hu' := hu.setUps (hups' ▸ hne) (show UriPathState.seenSlashDotDot ≠ .arguments by simp)
      refine Or.inl ⟨Or.inr hdot,
        Or.inl ⟨h, log, _, hstate, hu', Or.inl ⟨hstate, fun _ _ => trivial⟩⟩, ?_⟩
      exact fun hc => hu.token.2 (ParserState.token.inj (hstate.symm.trans hc))
    next hdot =>
      split
      next hslash =>
        refine Or.inl ⟨Or.inl hslash, hw.swallowed hne (by simp) fun hok => ?_⟩
        rw [hups] at hok
        exact hok
      next hslash =>
        obtain ⟨hs, hok⟩ := hw.2.resolve_right fun hskip => hskip.2.2 hh hups
        rw [hups] at hok
        have hu := hw.1.setUps hne (show UriPathState.idle ≠ .arguments by simp)
        refine (hu.issueAnyway fun _ hx hlog => ?_).map ?_
        · rw [climbs_concat]
          exact fun h => h.elim (hu.path hx hlog) fun h => hok hx hlog h.1
        · rintro _ ⟨ah, x', rfl, hu', -⟩
          exact Or.inr ⟨_, x', rfl, hu', Or.inl ⟨hs, fun _ => by simp, fun hx hlog =>
            hother hslash hdot (hu'.path hx hlog)⟩⟩
  · have hne : s.ups ≠ .arguments := by simp [hups]
    simp only
    split
    next h => exact Or.inl ⟨h.symm, hw.swallowed hne hne id⟩
    next h =>
      rw [not_or] at h
      exact Or.inr ⟨_, x, rfl, hw.assess hne (by simp) (by simp) fun hclimbs _ =>
        hother h.2 h.1 hclimbs⟩
  · refine Or.inr ⟨s, x, rfl, hw.1, ?_⟩
    have hargs := hw.1.control.args hups
    have hnone : IsUri x.token → ¬NoArgs log := fun hx hlog =>
      hargs (noArgs_append.mpr ⟨hlog, List.forall_mem_singleton.mpr hx.not_isArgs⟩)
    have hdot : s.ups ≠ .seenSlashDot := by simp [hups]
    rcases hw.2 with ⟨hs, -⟩ | ⟨hover, hs, -⟩
    · exact Or.inl ⟨hs, fun _ => hdot, fun hx hlog => absurd hlog (hnone hx)⟩
    · exact Or.inr ⟨hover, hs, fun _ => hdot⟩

theorem ne_of_hex (hc : charToHex c ≠ none) {d : UInt8} (hd : charToHex d = none) : c ≠ d := by
  rintro rfl
  exact hc hd

/-- What a parser does with a digit of an escape that was none. -/
def ReadsHex (limits : Option (ℕ → ℕ)) (parse : Hdr → UInt8 → Except Stop Hdr) : Prop :=
  ∀ h log s x c, Writing limits h s log x → s.parserState = .token h → IsUri h → s.ues = .idle →
    charToHex c ≠ none →
      Yields (· = .refused) (fun s' => ∃ x', Writing limits h s' log x') (parse s c)

theorem Writing.parse_hex (hw : Writing limits h s log x) (hs : s.parserState = .token h)
    (hh : IsUri h) (hues : s.ues = .idle) (hc : charToHex c ≠ none)
    (parse : Hdr → UInt8 → Except Stop Hdr) :
    Yields (· = .refused) (fun s' => ∃ x', Writing limits h s' log x')
      (s.parseBody limits parse c) := by
  have hspace := ne_of_hex hc (show charToHex space = none by decide)
  have hpercent := ne_of_hex hc (show charToHex percent = none by decide)
  have hslash := ne_of_hex hc (show charToHex slash = none by decide)
  have hdot := ne_of_hex hc (show charToHex dot = none by decide)
  have hquestion := ne_of_hex hc (show charToHex question = none by decide)
  have hreturn := ne_of_hex hc (show charToHex carriageReturn = none by decide)
  have hescape : Hdr.uriEscape parse s c = .ok (.assess s c) := by
    rw [Hdr.uriEscape, hues]
    exact if_neg hpercent
  unfold Hdr.parseBody
  rw [hs]
  simp only
  rw [Hdr.parseValue, if_neg fun h => hspace h.2, if_neg (not_not.mpr hh), if_neg hspace,
    Hdr.uriByte, hescape]
  refine Yields.bind ((hw.uriPath hh c).mono (fun _ => False.elim) fun _ hr => hr) fun r hr => ?_
  rcases hr with ⟨hc, -⟩ | ⟨s', x', rfl, ha⟩
  · exact absurd hc (not_or.mpr ⟨hslash, hdot⟩)
  · simp only
    rw [if_neg hquestion]
    exact ha.checkEol_of_ne hreturn

/-- The states of an escape only matter to the escapes. -/
theorem Writing.setUes (hw : Writing limits h s log x) {ues : UriEscState} {stash : UInt8}
    (hues : ues = .seenPercentH1 → charToHex stash ≠ none) :
    Writing limits h { s with ues := ues, escStash := stash } log x :=
  ⟨hw.1.setUes hues, hw.2⟩

theorem Writing.ne_challenge (hw : Writing limits h s log x) :
    s.parserState ≠ .token tokenChallenge := hw.2.ne_challenge hw.1

theorem Writing.issueChar (hw : Writing limits h s log x)
    (hpath : IsUri x.token → NoArgs log → UpsOk s.ups x.bytes →
      ¬Climbs (x.bytes ++ [c]) ∧ UpsOk s.ups (x.bytes ++ [c])) :
    ∃ ah x' r, s.issueChar c = .ok ({ s with ah := ah }, r) ∧
      Writing limits h { s with ah := ah } log x' := by
  have hclimbs : s.ah.len < s.currentTokenLimit → IsUri x.token → NoArgs log →
      ¬Climbs (x.bytes ++ [c]) := by
    intro hlen hx hlog
    rcases hw.2 with ⟨-, hups⟩ | ⟨⟨-, hover⟩, -⟩
    · exact (hpath hx hlog (hups hx hlog)).1
    · exact absurd hlen (Nat.not_lt.mpr hover)
  rcases hw.1.issueChar hclimbs with hr | ⟨-, hr⟩ | ⟨⟨hlen, hput⟩, hr⟩
  · exact ⟨s.ah, x, _, hr, hw⟩
  · exact ⟨s.ah, x, _, hr, hw⟩
  · refine ⟨_, _, _, hr, hput, ?_⟩
    rcases hw.2 with ⟨hs, hups⟩ | ⟨⟨-, hover⟩, -⟩
    · exact Or.inl ⟨hs, fun hx hlog => (hpath hx hlog (hups hx hlog)).2⟩
    · exact absurd hlen (Nat.not_lt.mpr hover)

/-- `convert %xx` -/
theorem Writing.uriEscape (hw : Writing limits h s log x) (hs : s.parserState = .token h)
    (hh : IsUri h) {parse : Hdr → UInt8 → Except Stop Hdr}
    (hparse : ReadsHex limits parse) (c : UInt8) :
    Yields (· = .refused) (Takes limits fun s' _ => ∃ x', Writing limits h s' log x')
      (Hdr.uriEscape parse s c) := by
  obtain ⟨ah, x', r, hr, hput⟩ := @Writing.issueChar _ _ _ _ _ percent hw fun hx hlog _ =>
    ⟨hw.1.path_concat (by decide) hx hlog, upsOk_concat _ _ (by decide) (by decide)⟩
  unfold Hdr.uriEscape
  rcases hues : s.ues with _ | _ | _
  · simp only
    split
    next =>
      have hw' := @Writing.setUes _ _ _ _ _ hw .seenPercent s.escStash fun h => by simp at h
      exact ⟨hw'.settled, hw'.ne_challenge⟩
    next => exact ⟨x, hw⟩
  · simp only
    rcases hhex : charToHex c with _ | n
    · simp only
      rw [Hdr.issueOrRefuse, hr]
      change Yields _ _ (Except.map _ (if r = .full then _ else _))
      split
      next => exact rfl
      next => exact ⟨x', @Writing.setUes _ _ _ _ _ hput .idle s.escStash fun h => by simp at h⟩
    · have hw' := @Writing.setUes _ _ _ _ _ hw .seenPercentH1 c fun _ => by simp [hhex]
      exact ⟨hw'.settled, hw'.ne_challenge⟩
  · simp only
    rcases charToHex c with _ | low
    · simp only
      rw [Hdr.issueAnyway, hr]
      have hput' := @Writing.setUes _ _ _ _ _ hput .idle s.escStash fun h => by simp at h
      exact (hparse _ _ _ _ _ hput' hs hh rfl (hw.1.control.stash hues)).map fun s' hs' => hs'
    · have hw' := @Writing.setUes _ _ _ _ _ hw .idle s.escStash fun h => by simp at h
      exact ⟨x, hw'⟩

/-- A byte of a path, up to the place where `?` is looked for. -/
theorem Writing.uriByte (hw : Writing limits h s log x) (hs : s.parserState = .token h)
    (hh : IsUri h) {parse : Hdr → UInt8 → Except Stop Hdr}
    (hparse : ReadsHex limits parse) (c : UInt8) :
    Yields (· = .refused) (Takes limits fun s' c' => ∃ x', Assessed limits h s' log x' c')
      (Hdr.uriByte parse s c) := by
  refine (hw.uriEscape hs hh hparse c).bind fun r hr => ?_
  rcases r with s' | ⟨s', c'⟩
  · exact hr
  · obtain ⟨x', hw'⟩ := hr
    refine (hw'.uriPath hh c').mono (fun _ => False.elim) ?_
    rintro r (⟨-, hr⟩ | ⟨s'', x'', rfl, ha⟩)
    · rcases r with s'' | ⟨s'', c''⟩
      · exact hr
      · exact hr.elim
    · exact ⟨x'', ha⟩

/-! ## The arguments of a path -/

/-- There is room for the end of a path and for its arguments. -/
def HasRoom (ah : AllocatedHeaders) : Prop :=
  ah.pos < maxHeaderLen ∧ ah.nextFragIndex + 1 < maxFrags

theorem Assessed.uriArgs (ha : Assessed limits h s log x c) (hh : IsUri h) :
    Yields (fun e => e = .outOfBounds ∧ ¬HasRoom s.ah)
      (fun s' => Settled limits s' ∧ s'.parserState ≠ .token tokenChallenge) s.uriArgs := by
  obtain ⟨hu, hg⟩ := ha
  unfold Hdr.uriArgs
  rcases em (s.ah.pos < maxHeaderLen) with hpos | hpos
  swap
  · rw [Hdr.store, if_neg hpos]
    exact ⟨rfl, fun h => hpos h.1⟩
  rw [Hdr.store_of_lt hpos]
  change Yields _ _ (if s.ah.nextFragIndex + 1 < maxFrags then _ else _)
  rcases em (s.ah.nextFragIndex + 1 < maxFrags) with hroom | hroom
  swap
  · rw [if_neg hroom]
    exact ⟨rfl, fun h => hroom h.2⟩
  rw [if_pos hroom]
  have hseal : Good limits log (x.push 0) s.ah.len := by
    have := hu.table.last.push fun hx hlog => hu.path_concat (c := 0) (by decide) hx hlog
    rwa [if_pos rfl] at this
  have hmethod : ∃ y ∈ (log ++ [x.push 0]).map Stored.orphan, IsUri y.token := by
    rcases hu.owner with hx | ⟨hx, -⟩
    · refine ⟨(x.push 0).orphan, List.mem_map_of_mem (by simp),
        (canLose_args.isUri (x.push 0)).mpr ?_⟩
      change IsUri x.token
      rw [hx]
      exact hh
    · obtain ⟨y, hy, huri⟩ := hu.table.last.method (Or.inl hx)
      exact ⟨y.orphan, List.mem_map_of_mem (List.mem_append_left _ hy),
        (canLose_args.isUri y).mpr huri⟩
  have htable := hu.table.question hpos (by have := hu.table.next; omega) hseal
    (fun _ _ _ => Good.lose canLose_args) (Good.start fun _ => hmethod)
  have hargs : ¬NoArgs ((log ++ [x.push 0]).map Stored.orphan ++ [⟨tokenHttpUriArgs, []⟩]) :=
    fun hnone => hnone _ (List.mem_append_right _ (List.mem_singleton_self _)) (Or.inl rfl)
  have hsealed : Sealed limits ((log ++ [x.push 0]).map Stored.orphan) :=
    (hu.seals.concat fun _ => List.mem_append_right _ (List.mem_singleton_self 0)).lose _ _
  have hu' : Unfinished limits h { s with
      ah := (s.ah.put 0).openFragment.setIndex tokenHttpUriArgs ((s.ah.put 0).nextFragIndex + 1)
      ups := .arguments } ((log ++ [x.push 0]).map Stored.orphan) ⟨tokenHttpUriArgs, []⟩ :=
    ⟨htable, ⟨fun _ => hargs, hu.control.stash⟩, hsealed, hu.token, hu.limit,
      Or.inr ⟨rfl, hh, rfl⟩⟩
  have hne := hg.ne_challenge hu
  refine ⟨?_, hne⟩
  rcases hg with ⟨hs, -⟩ | ⟨⟨hlim, -⟩, hs, -⟩
  · exact Or.inl ⟨h, _, _, hs, hu', Or.inl ⟨hs, fun _ _ => trivial⟩⟩
  · refine Or.inr ⟨fun k hk => ?_, ⟨_, hu'.rest fun h => absurd h hlim⟩, fun hk => ?_⟩
    · exact ParserState.noConfusion (hs.symm.trans hk)
    · exact ParserState.noConfusion (hs.symm.trans hk)

/-! ## A byte -/

theorem Resting.of_same {s' : Hdr} (hr : Resting limits s log) (hah : s'.ah = s.ah)
    (hups : s'.ups = s.ups) (hues : s'.ues = s.ues) (hstash : s'.escStash = s.escStash) :
    Resting limits s' log where
  table := hah ▸ hr.table
  control := ⟨by rw [hups]; exact hr.control.args, by rw [hues, hstash]; exact hr.control.stash⟩
  seals := hr.seals

/-- The value of a token begins. A method has none before. -/
theorem Resting.startFragment (hr : Resting limits s log) (hs : s.parserState = .token h)
    (hh : h < tokenHttpUriArgs ∧ h ≠ tokenChallenge) (hnew : IsUri h → owned h 0 log = [])
    (hlimit : limits = none → s.currentTokenLimit = maxHeaderLen) :
    Yields (· = .refused) (Settled limits) (s.startFragment h) := by
  have hstart : Good limits log ⟨h, []⟩ 0 := Good.start fun hargs => by
    have hlt := hh.1
    rcases hargs with rfl | rfl
    · exact absurd hlt (Nat.lt_irrefl _)
    · exact absurd hlt (by decide)
  have hspace : owned h 0 log ≠ [] → Good limits log ⟨h, [space]⟩ 1 := by
    intro hsome
    have hpush := hstart.push (c := space) fun hx _ => absurd (hnew hx) hsome
    simpa [Stored.push, space] using hpush
  refine (Hdr.startFragment_yields hr.table (hh.1.trans (by decide)) hstart hspace).mono
    (fun _ he => he.1) ?_
  rintro _ ⟨ah, rfl, ht⟩
  refine Or.inl ⟨h, log, _, hs, ⟨ht, ⟨fun hups => ?_, hr.control.stash⟩, hr.seals, hh, hlimit,
    Or.inl rfl⟩, Or.inl ⟨hs, fun hx _ => ?_⟩⟩
  · exact fun hnone => hr.control.args hups (noArgs_append.mp hnone).1
  · rw [if_pos (hnew hx)]
    exact upsOk_nil _

theorem Resting.setParsingComplete (hr : Resting limits s log) :
    Yields (· = .refused) (Settled limits) s.setParsingComplete := by
  have hroom := hr.table.room.le
  unfold Hdr.setParsingComplete AllocatedHeaders.lwsHdrTotalLength
  rw [hr.table.layout.hdrFrags hroom (by decide), hr.table.layout.hdrFrags hroom (by decide)]
  exact Or.inr ⟨fun h => ParserState.noConfusion,
    ⟨log, hr.of_same rfl rfl rfl rfl⟩, ParserState.noConfusion⟩

/-- A space behind a path. -/
theorem Writing.uriEnd (hw : Writing limits h s log x) :
    Yields (· = .refused) (Settled limits) s.uriEnd := by
  have hfirst : Yields (· = .refused) (fun s' => ∃ x', Unfinished limits h s' log x')
      (if s.ah.len = 0 then s.issueOrRefuse slash else .ok s) := by
    split
    next =>
      exact (hw.1.issueOrRefuse (by decide)).mono (fun _ he => he) fun _ ⟨x', hu, _⟩ => ⟨x', hu⟩
    next => exact ⟨x, hw.1⟩
  unfold Hdr.uriEnd
  refine hfirst.bind fun s' ⟨x', hu⟩ => (hu.issueOrRefuse (c := 0) (by decide)).bind ?_
  rintro s'' ⟨x'', hu', hzero⟩
  have hrest := (hu'.setState (.token tokenHttp)).rest hzero
  exact hrest.startFragment rfl (by decide) (fun huri => absurd huri (by decide)) hu'.limit

/-- The state in which a byte is found to begin the arguments of a path, if it does. -/
def Hdr.atQuestion (parse : Hdr → UInt8 → Except Stop Hdr) (s : Hdr) (c : UInt8) : Option Hdr :=
  match s.parserState with
  | .token h =>
    if IsUri h ∧ c ≠ space then
      match Hdr.uriByte parse s c with
      | .ok (.assess s' c') => if c' = question then some s' else none
      | _ => none
    else none
  | _ => none

/-- Why a byte is not taken : the function returns -1, or there is no room at a `?`. -/
def Fails (parse : Hdr → UInt8 → Except Stop Hdr) (s : Hdr) (c : UInt8) (e : Stop) : Prop :=
  e = .refused ∨ e = .outOfBounds ∧ ∃ s', Hdr.atQuestion parse s c = some s' ∧ ¬HasRoom s'.ah

theorem Writing.parseValue (hw : Writing limits h s log x) (hs : s.parserState = .token h)
    {parse : Hdr → UInt8 → Except Stop Hdr}
    (hparse : ReadsHex limits parse) (c : UInt8) :
    Yields (Fails parse s c) (Settled limits) (s.parseValue parse h c) := by
  unfold Hdr.parseValue
  rcases em ((s.ah.frags (s.ah.fragIndex h)).len = 0 ∧ c = space) with hskip | hskip
  · rw [if_pos hskip]
    exact hw.settled
  rw [if_neg hskip]
  rcases em (IsUri h) with hh | hh
  swap
  · rw [if_pos hh]
    have hx : ¬IsUri x.token := by
      rcases hw.1.owner with hx | ⟨hx, -⟩
      · rwa [hx]
      · exact not_isUri hx.ge
    have ha : Assessed limits h s log x c :=
      ⟨hw.1, Or.inl ⟨hs, fun huri => absurd huri hh, fun huri => absurd huri hx⟩⟩
    exact ha.checkEol.mono (fun _ => Or.inl) fun _ h => h
  rw [if_neg (not_not.mpr hh)]
  rcases em (c = space) with hc | hc
  · rw [if_pos hc]
    exact hw.uriEnd.mono (fun _ => Or.inl) fun _ h => h
  rw [if_neg hc]
  have hbyte := hw.uriByte hs hh hparse c
  rcases hr : Hdr.uriByte parse s c with e | s' | ⟨s', c'⟩
  · rw [hr] at hbyte
    exact Or.inl hbyte
  · rw [hr] at hbyte
    change Yields _ _ s'.swallow
    rw [swallow_eq hbyte.2]
    exact hbyte.1
  · rw [hr] at hbyte
    obtain ⟨x', ha⟩ := hbyte
    change Yields _ _ (if c' = question then _ else _)
    rcases em (c' = question) with hquestion | hquestion
    · rw [if_pos hquestion]
      have hat : Hdr.atQuestion parse s c = some s' := by
        simp [Hdr.atQuestion, hs, hh, hc, hr, hquestion]
      refine Yields.bind ((ha.uriArgs hh).mono (fun _ he => Or.inr ⟨he.1, s', hat, he.2⟩)
        fun _ h => h) fun s'' hs'' => ?_
      rw [swallow_eq hs''.2]
      exact hs''.1
    · rw [if_neg hquestion]
      exact ha.checkEol.mono (fun _ => Or.inl) fun _ h => h

/-! ## Names -/

theorem lexFrom_concat {table : List UInt8} : ∀ {u : List UInt8} {p pos : ℕ},
    lexFrom table p u = .more pos → ∀ c, lexFrom table p (u ++ [c]) =
      match lextableDecode table pos c with
      | none => .unknown
      | some pos =>
        if IsTerminal table pos then .token (terminal table pos) [] else .more pos
  | [], p, pos, h, c => by
    obtain rfl : p = pos := Lexed.more.inj h
    rfl
  | a :: u, p, pos, h, c => by
    rw [lexFrom] at h
    rw [List.cons_append, lexFrom]
    rcases hdecode : lextableDecode table p a with _ | p'
    · rw [hdecode] at h
      exact Lexed.noConfusion h
    rw [hdecode] at h
    simp only at h ⊢
    rcases em (IsTerminal table p') with hend | hend
    · rw [if_pos hend] at h
      exact Lexed.noConfusion h
    · rw [if_neg hend] at h ⊢
      exact lexFrom_concat h c

/-- The names are those of the tokens before the arguments of a path. -/
theorem IsName.lt {n : ℕ} {t : List UInt8} (h : IsName n t) : n < tokenHttpUriArgs := by
  obtain ⟨hn, ht⟩ := h
  have hlen : headerNames.length = 74 := by decide +kernel
  have hlast : headerNames[73]? = some [] := by decide +kernel
  have hlt := (List.getElem?_eq_some_iff.mp hn).1
  have hne : n ≠ 73 := by
    rintro rfl
    exact ht (Option.some.inj (hn.symm.trans hlast))
  rw [hlen] at hlt
  have : tokenHttpUriArgs = 73 := rfl
  omega

theorem Resting.knownName (hr : Resting limits s log) {n : ℕ} (hn : n < tokenHttpUriArgs) :
    Yields (· = .refused) (Settled limits) (s.knownName limits n) := by
  unfold Hdr.knownName
  rcases em (IsUri n ∧ s.ah.fragIndex n ≠ 0) with hagain | hagain
  · rw [if_pos hagain]
    exact rfl
  rw [if_neg hagain]
  simp only
  generalize hm : (if n = tokenSworigin then tokenOrigin else n) = m
  have hlt : m < tokenHttpUriArgs := by
    rw [← hm]
    split
    next => decide
    next => exact hn
  have hnew : IsUri m → owned m 0 log = [] := by
    intro huri
    rcases em (n = tokenSworigin) with hsw | hsw
    · rw [if_pos hsw] at hm
      subst hm
      exact absurd huri (by decide)
    · rw [if_neg hsw] at hm
      subst hm
      refine (hr.table.layout.fragIndex_eq_zero_iff (hn.trans (by decide))).mp ?_
      exact not_not.mp fun hne => hagain ⟨huri, hne⟩
  rcases em (m = tokenChallenge) with hc | hc
  · rw [if_pos hc]
    exact Resting.setParsingComplete (hr.of_same rfl rfl rfl rfl)
  · rw [if_neg hc]
    refine Resting.startFragment (hr.of_same rfl rfl rfl rfl) rfl ⟨hlt, hc⟩ hnew fun hlim => ?_
    subst hlim
    rfl

theorem Resting.parseName (hr : Resting limits s log) (hs : s.parserState = .namePart) {pos : ℕ}
    {u : List UInt8} (hpos : s.lextablePos = some pos) (hu : lexFrom lextable 0 u = .more pos)
    (c : UInt8) : Yields (· = .refused) (Settled limits) (s.parseName limits c) := by
  have hlex := lexFrom_concat hu c
  unfold Hdr.parseName
  rw [hpos, Option.bind_some]
  rcases hdecode : lextableDecode lextable pos c with _ | pos'
  · simp only
    unfold Hdr.unknownName
    split
    next =>
      exact Or.inr ⟨fun h => ParserState.noConfusion, ⟨log, hr.of_same rfl rfl rfl rfl⟩,
        ParserState.noConfusion⟩
    next => exact rfl
  rw [hdecode] at hlex
  simp only at hlex ⊢
  rcases em (IsTerminal lextable pos') with hend | hend
  · rw [if_pos hend] at hlex ⊢
    obtain ⟨v, -, hname⟩ := ((lexFrom_lextable (u ++ [c])).1 _ _).mp hlex
    have hr' : Resting limits { s with lextablePos := some pos' } log :=
      hr.of_same rfl rfl rfl rfl
    exact hr'.knownName hname.lt
  · rw [if_neg hend] at hlex ⊢
    refine Or.inr ⟨fun h hk => ?_, ⟨log, hr.of_same rfl rfl rfl rfl⟩,
      fun _ => ⟨pos', u ++ [c], rfl, hlex⟩⟩
    exact ParserState.noConfusion (hs.symm.trans hk)

end

end Lws

end MySocket
