import MySocket.HeaderTable
import MySocket.Outcome

/-!
# The parser of the headers

`libwebsocket_parse` takes a request or a response one byte at a time. A name is looked up in the
table of names, and what follows it up to the end of the line is stored as the value. The path of a
request is decoded and normalized on the way, and what comes after `?` is stored apart.

* `libwebsocketParse_eq` : the function calls itself once at most.
* `Hdr.issueChar_cases`, `Hdr.startFragment_yields` : what a byte and a new value do to the table.
-/

namespace MySocket

namespace Lws

/-! ## Characters -/

def space : UInt8 := 0x20
def percent : UInt8 := 0x25
def dot : UInt8 := 0x2e
def slash : UInt8 := 0x2f
def question : UInt8 := 0x3f
def lineFeed : UInt8 := 0x0a
def carriageReturn : UInt8 := 0x0d

/-- `char_to_hex`; -1 is `none`. -/
def charToHex (c : UInt8) : Option UInt8 :=
  if 0x30 ≤ c ∧ c ≤ 0x39 then some (c - 0x30)
  else if 0x61 ≤ c ∧ c ≤ 0x66 then some (c - 0x61 + 10)
  else if 0x41 ≤ c ∧ c ≤ 0x46 then some (c - 0x41 + 10)
  else none

/-- The digits that `atoi` reads. -/
def digitsFrom : ℤ → List UInt8 → ℤ
  | n, [] => n
  | n, c :: l => if 0x30 ≤ c ∧ c ≤ 0x39 then digitsFrom (10 * n + (c.toNat - 0x30)) l else n

/-- `atoi`, for numbers that fit an `int`. -/
def atoi (l : List UInt8) : ℤ :=
  match l.dropWhile fun c => c = space ∨ 9 ≤ c ∧ c ≤ 13 with
  | [] => 0
  | c :: l =>
    if c = 0x2d then -digitsFrom 0 l
    else if c = 0x2b then digitsFrom 0 l
    else digitsFrom 0 (c :: l)

/-! ## The code -/

/-- `parser_state`. The names of the tokens are numbers. -/
inductive ParserState where
  | token (h : ℕ)
  | namePart
  | skipping
  | skippingSawCr
  | complete
deriving DecidableEq

/-- `enum uri_path_states` -/
inductive UriPathState where
  | idle
  | seenSlash
  | seenSlashDot
  | seenSlashDotDot
  | arguments
deriving DecidableEq

/-- `enum uri_esc_states` -/
inductive UriEscState where
  | idle
  | seenPercent
  | seenPercentH1
deriving DecidableEq

/-- `struct _lws_header_related` with what `ah` points to, `ietf_spec_revision` and
`hdr_parsing_completed`. `lextablePos` is `none` for -1. -/
structure Hdr where
  ah : AllocatedHeaders
  lextablePos : Option ℕ
  currentTokenLimit : ℕ
  parserState : ParserState
  ups : UriPathState
  ues : UriEscState
  escStash : UInt8
  ietfSpecRevision : ℤ
  hdrParsingCompleted : Bool

/-- Why a parser does not go on : the function returns -1, it writes behind the end of `data` or
`frags`, or it is in a loop. -/
inductive Stop where
  | refused
  | outOfBounds
  | endless
deriving DecidableEq

/-- What `issue_char` returns : -1, 1 or 0. -/
inductive Issued where
  | full
  | over
  | done
deriving DecidableEq

/-- What becomes of a byte of a path : `goto swallow`, or it is assessed further. -/
inductive Taken where
  | swallow (s : Hdr)
  | assess (s : Hdr) (c : UInt8)

namespace Hdr

/-- `data[pos++] = c`, where `c` counts unless it is the byte zero. -/
def store (s : Hdr) (c : UInt8) : Except Stop Hdr :=
  if s.ah.pos < maxHeaderLen then .ok { s with ah := s.ah.put c } else .error .outOfBounds

/-- `issue_char` -/
def issueChar (s : Hdr) (c : UInt8) : Except Stop (Hdr × Issued) :=
  if s.ah.pos = maxHeaderLen then .ok (s, .full)
  else if s.currentTokenLimit ≤ s.ah.len then .ok (s, .over)
  else (s.store c).map fun s => (s, .done)

/-- `if (issue_char(wsi, c) < 0) return -1` -/
def issueOrRefuse (s : Hdr) (c : UInt8) : Except Stop Hdr :=
  (s.issueChar c).bind fun r => if r.2 = .full then .error .refused else .ok r.1

/-- `issue_char(wsi, c)`, whatever it returns. -/
def issueAnyway (s : Hdr) (c : UInt8) : Except Stop Hdr :=
  (s.issueChar c).map Prod.fst

/-- `start_fragment` -/
def startFragment (s : Hdr) (h : ℕ) : Except Stop Hdr :=
  let i := s.ah.nextFragIndex + 1
  if i = maxFrags then .error .refused
  else if maxFrags < i then .error .outOfBounds
  else if s.ah.fragIndex h = 0 then .ok { s with ah := s.ah.openFragment.setIndex h i }
  else
    match AllocatedHeaders.lastFrag s.ah.openFragment.frags maxFrags (s.ah.fragIndex h) with
    | none => .error .endless
    | some n =>
      if s.ah.pos = maxHeaderLen then .error .refused
      else { s with ah := s.ah.openFragment.link n i }.store space

/-- `set_parsing_complete` -/
def setParsingComplete (s : Hdr) : Except Stop Hdr :=
  match s.ah.lwsHdrTotalLength tokenUpgrade, s.ah.lwsHdrTotalLength tokenVersion with
  | some upgrade, some version =>
    .ok { s with
      parserState := .complete
      hdrParsingCompleted := true
      ietfSpecRevision :=
        if upgrade ≠ 0 ∧ version ≠ 0 then
          atoi (s.ah.data.drop (s.ah.frags (s.ah.fragIndex tokenVersion)).offset)
        else s.ietfSpecRevision }
  | _, _ => .error .endless

/-- `swallow` -/
def swallow (s : Hdr) : Except Stop Hdr :=
  if s.parserState = .token tokenChallenge then s.setParsingComplete else .ok s

/-- `check_eol` -/
def checkEol (s : Hdr) (c : UInt8) : Except Stop Hdr :=
  let ends := s.parserState ≠ .token tokenChallenge ∧ c = carriageReturn
  let s := if ends then { s with parserState := .skippingSawCr } else s
  (s.issueChar (if ends then 0 else c)).bind fun r =>
    match r.2 with
    | .full => .error .refused
    | .over => { r.1 with parserState := .skipping }.swallow
    | .done => r.1.swallow

/-- `convert %xx`, where `parse` is the function itself. -/
def uriEscape (parse : Hdr → UInt8 → Except Stop Hdr) (s : Hdr) (c : UInt8) : Except Stop Taken :=
  match s.ues with
  | .idle =>
    if c = percent then .ok (.swallow { s with ues := .seenPercent }) else .ok (.assess s c)
  | .seenPercent =>
    match charToHex c with
    | none => (s.issueOrRefuse percent).map fun s => .assess { s with ues := .idle } c
    | some _ => .ok (.swallow { s with escStash := c, ues := .seenPercentH1 })
  | .seenPercentH1 =>
    match charToHex c with
    | none =>
      (s.issueAnyway percent).bind fun s =>
        (parse { s with ues := .idle } s.escStash).map fun s => .assess s c
    | some low =>
      .ok (.assess { s with ues := .idle } ((((charToHex s.escStash).getD 0) <<< 4) ||| low))

/-- `do .. while` of the way up one directory, with `len` bytes counted of what has been stored. -/
def backUpLoop : ℕ → List UInt8 → List UInt8 × ℕ
  | 0, data => (data.dropLast, 0)
  | len + 1, data =>
    if 1 < len ∧ data.getLast? ≠ some slash then backUpLoop len data.dropLast
    else (data.dropLast, len)

/-- The way up one directory, if it is possible. -/
def backUp (s : Hdr) : Hdr :=
  if 2 < s.ah.len then
    let r := backUpLoop (s.ah.len - 1) s.ah.data.dropLast
    { s with ah := { s.ah with
        data := r.1
        frags := Function.update s.ah.frags s.ah.nextFragIndex
          { s.ah.frags s.ah.nextFragIndex with len := r.2 } } }
  else s

/-- `convert /.. or /... or /../ etc to /` -/
def uriPath (s : Hdr) (c : UInt8) : Except Stop Taken :=
  match s.ups with
  | .idle => .ok (.assess { s with ups := if c = slash then .seenSlash else .idle } c)
  | .seenSlash =>
    if c = slash then .ok (.swallow s)
    else if c = dot then .ok (.swallow { s with ups := .seenSlashDot })
    else .ok (.assess { s with ups := .idle } c)
  | .seenSlashDot =>
    if c = dot then .ok (.swallow { s.backUp with ups := .seenSlashDotDot })
    else if c = slash then .ok (.swallow { s with ups := .seenSlash })
    else ({ s with ups := .idle }.issueAnyway dot).map fun s => .assess s c
  | .seenSlashDotDot =>
    if c = dot ∨ c = slash then .ok (.swallow s) else .ok (.assess { s with ups := .seenSlash } c)
  | .arguments => .ok (.assess s c)

/-- `start of URI arguments` -/
def uriArgs (s : Hdr) : Except Stop Hdr :=
  (s.store 0).bind fun s =>
    let i := s.ah.nextFragIndex + 1
    if i < maxFrags then
      .ok { s with ah := s.ah.openFragment.setIndex tokenHttpUriArgs i, ups := .arguments }
    else .error .outOfBounds

/-- The end of a path, with what begins the version of HTTP. -/
def uriEnd (s : Hdr) : Except Stop Hdr :=
  (if s.ah.len = 0 then s.issueOrRefuse slash else .ok s).bind fun s =>
    (s.issueOrRefuse 0).bind fun s =>
      { s with parserState := .token tokenHttp }.startFragment tokenHttp

/-- A byte of a path up to the place where `?` is looked for : the state and the byte there, or
`none` for them if the byte is swallowed. -/
def uriByte (parse : Hdr → UInt8 → Except Stop Hdr) (s : Hdr) (c : UInt8) : Except Stop Taken :=
  (uriEscape parse s c).bind fun
    | .swallow s => .ok (.swallow s)
    | .assess s c => s.uriPath c

/-- The value of the token `h`. -/
def parseValue (parse : Hdr → UInt8 → Except Stop Hdr) (s : Hdr) (h : ℕ) (c : UInt8) :
    Except Stop Hdr :=
  if (s.ah.frags (s.ah.fragIndex h)).len = 0 ∧ c = space then .ok s
  else if ¬ IsUri h then s.checkEol c
  else if c = space then s.uriEnd
  else
    (uriByte parse s c).bind fun
      | .swallow s => s.swallow
      | .assess s c =>
        if c = question then s.uriArgs.bind swallow else s.checkEol c

/-- A name that is not in the table : whether there was a method or a version before. -/
def unknownName (s : Hdr) : Except Stop Hdr :=
  if s.ah.fragIndex tokenGetUri ≠ 0 ∨ s.ah.fragIndex tokenPostUri ≠ 0 ∨
      s.ah.fragIndex tokenOptionsUri ≠ 0 ∨ s.ah.fragIndex tokenHttp ≠ 0 then
    .ok { s with parserState := .skipping, lextablePos := none }
  else .error .refused

/-- The name of the token `n` has been read. -/
def knownName (limits : Option (ℕ → ℕ)) (s : Hdr) (n : ℕ) : Except Stop Hdr :=
  if IsUri n ∧ s.ah.fragIndex n ≠ 0 then .error .refused
  else
    let n := if n = tokenSworigin then tokenOrigin else n
    let s := { s with
      parserState := .token n
      currentTokenLimit := match limits with
        | some limit => limit n
        | none => maxHeaderLen }
    if n = tokenChallenge then s.setParsingComplete else s.startFragment n

/-- `WSI_TOKEN_NAME_PART` -/
def parseName (limits : Option (ℕ → ℕ)) (s : Hdr) (c : UInt8) : Except Stop Hdr :=
  match s.lextablePos.bind fun pos => lextableDecode lextable pos c with
  | none => s.unknownName
  | some pos =>
    if IsTerminal lextable pos then
      { s with lextablePos := some pos }.knownName limits (terminal lextable pos)
    else .ok { s with lextablePos := some pos }

/-- The body of `libwebsocket_parse`, where `parse` is the function itself. `limits` are
`token_limits` of the context. -/
def parseBody (limits : Option (ℕ → ℕ)) (parse : Hdr → UInt8 → Except Stop Hdr) (s : Hdr)
    (c : UInt8) : Except Stop Hdr :=
  match s.parserState with
  | .token h => s.parseValue parse h c
  | .namePart => s.parseName limits c
  | .skipping =>
    .ok (if c = carriageReturn then { s with parserState := .skippingSawCr } else s)
  | .skippingSawCr =>
    .ok (if c = lineFeed then { s with parserState := .namePart, lextablePos := some 0 }
      else { s with parserState := .skipping })
  | .complete => .ok s

end Hdr

/-- `libwebsocket_parse` -/
def libwebsocketParse (limits : Option (ℕ → ℕ)) (s : Hdr) (c : UInt8) : Except Stop Hdr :=
  s.parseBody limits (Hdr.parseBody limits fun s _ => .ok s) c

namespace Hdr

/-- The function calls itself for a byte of a path only. -/
theorem parseBody_congr (limits : Option (ℕ → ℕ)) {f g : Hdr → UInt8 → Except Stop Hdr} {s : Hdr}
    {c : UInt8} (h : uriByte f s c = uriByte g s c) :
    s.parseBody limits f c = s.parseBody limits g c := by
  unfold parseBody
  split
  · rw [parseValue, parseValue, h]
  all_goals rfl

end Hdr

theorem libwebsocketParse_eq (limits : Option (ℕ → ℕ)) (s : Hdr) (c : UInt8) :
    libwebsocketParse limits s c = s.parseBody limits (libwebsocketParse limits) c := by
  refine Hdr.parseBody_congr limits ?_
  rw [Hdr.uriByte, Hdr.uriByte]
  congr 1

/-! ## What the parts do -/

namespace Hdr

theorem store_of_lt {s : Hdr} (hpos : s.ah.pos < maxHeaderLen) (c : UInt8) :
    s.store c = .ok { s with ah := s.ah.put c } := if_pos hpos

/-- `issue_char` when nothing is behind the end of `data` yet. -/
theorem issueChar_cases {s : Hdr} (hpos : s.ah.pos ≤ maxHeaderLen) (c : UInt8) :
    s.ah.pos = maxHeaderLen ∧ s.issueChar c = .ok (s, .full) ∨
    (s.ah.pos < maxHeaderLen ∧ s.currentTokenLimit ≤ s.ah.len) ∧ s.issueChar c = .ok (s, .over) ∨
    (s.ah.pos < maxHeaderLen ∧ s.ah.len < s.currentTokenLimit) ∧
      s.issueChar c = .ok ({ s with ah := s.ah.put c }, .done) := by
  unfold issueChar
  rcases hpos.eq_or_lt with hfull | hpos
  · rw [if_pos hfull]
    exact Or.inl ⟨hfull, rfl⟩
  rw [if_neg hpos.ne]
  rcases Nat.lt_or_ge s.ah.len s.currentTokenLimit with hlen | hlen
  · rw [if_neg (Nat.not_le.mpr hlen), store_of_lt hpos]
    exact Or.inr (Or.inr ⟨⟨hpos, hlen⟩, rfl⟩)
  · rw [if_pos hlen]
    exact Or.inr (Or.inl ⟨⟨hpos, hlen⟩, rfl⟩)

/-- `start_fragment` : the values for one token are separated by spaces. -/
theorem startFragment_yields {good : List Stored → Stored → ℕ → Prop} {s : Hdr} {log : List Stored}
    (ht : Table good s.ah log) {h : ℕ} (hh : h < tokenCount) (hgood : good log ⟨h, []⟩ 0)
    (hspace : owned h 0 log ≠ [] → good log ⟨h, [space]⟩ 1) :
    Yields (fun e => e = .refused ∧ (log.length + 1 = maxFrags ∨ s.ah.pos = maxHeaderLen))
      (fun s' => ∃ ah, s' = { s with ah := ah } ∧
        Table good ah (log ++ [⟨h, if owned h 0 log = [] then [] else [space]⟩]))
      (s.startFragment h) := by
  have hroom := ht.room
  have hnext := ht.layout.next
  unfold startFragment
  simp only
  rcases em (s.ah.nextFragIndex + 1 = maxFrags) with hfull | hfull
  · rw [if_pos hfull]
    exact ⟨rfl, Or.inl (hnext ▸ hfull)⟩
  rw [if_neg hfull, if_neg (show ¬maxFrags < s.ah.nextFragIndex + 1 by omega)]
  have hzero := ht.layout.fragIndex_eq_zero_iff hh
  rcases em (owned h 0 log = []) with hnone | hsome
  · rw [if_pos (hzero.mpr hnone), if_pos hnone]
    exact ⟨_, rfl, ht.first (by omega) hnone hgood⟩
  rw [if_neg (mt hzero.mp hsome), if_neg hsome]
  obtain ⟨is, m, hm⟩ := (List.eq_nil_or_concat _).resolve_left hsome
  have hm : owned h 0 log = is ++ [m] := by simpa using hm
  have hmore := ht.more (by omega) hm hgood
  have hlast : AllocatedHeaders.lastFrag s.ah.openFragment.frags maxFrags (s.ah.fragIndex h) =
      some m := by
    have hlist := ht.layout.lists h hh
    have hlen := length_owned (h := h) log 0
    rw [hm] at hlist hlen
    rw [List.length_append] at hlen
    refine Follows.lastFrag (hlist.congr fun i hi => ?_) (by omega)
    obtain ⟨k, x, rfl, hx, -⟩ := mem_owned (hm ▸ hi)
    have := (List.getElem?_eq_some_iff.mp hx).1
    rw [AllocatedHeaders.openFragment_frags, ht.layout.next, Function.update_of_ne (by omega)]
  rw [hlast]
  simp only
  rcases ht.data.eq_or_lt with hpos | hpos
  · rw [if_pos hpos]
    exact ⟨rfl, Or.inr hpos⟩
  rw [if_neg hpos.ne, store_of_lt (by exact hpos)]
  refine ⟨_, rfl, hmore.put space hpos ?_⟩
  have hlen : (s.ah.openFragment.link m (s.ah.nextFragIndex + 1)).len = 0 := by
    have hne : s.ah.nextFragIndex + 1 ≠ m := by
      have hmem := List.mem_append_right is (List.mem_singleton_self m)
      obtain ⟨k, x, rfl, hx, -⟩ := mem_owned (hm ▸ hmem)
      have := (List.getElem?_eq_some_iff.mp hx).1
      rw [ht.layout.next]
      omega
    change ((s.ah.openFragment.link m _).frags (s.ah.nextFragIndex + 1)).len = 0
    rw [AllocatedHeaders.link_frags, Function.update_of_ne hne, AllocatedHeaders.openFragment_frags,
      Function.update_self]
  rw [hlen]
  exact hspace hsome

end Hdr

/-- What the parser begins with on a table. -/
def Hdr.start (ah : AllocatedHeaders) (ietfSpecRevision : ℤ) : Hdr where
  ah := ah
  lextablePos := some 0
  currentTokenLimit := 0
  parserState := .namePart
  ups := .idle
  ues := .idle
  escStash := 0
  ietfSpecRevision := ietfSpecRevision
  hdrParsingCompleted := false

/-- What the parser of a request begins with : the table is empty, with anything in `frags`. -/
def Hdr.init (frags : ℕ → Fragment) : Hdr :=
  Hdr.start (AllocatedHeaders.lwsAllocateHeaderTable frags) 0

/-- One byte after the other. -/
def parseAll (limits : Option (ℕ → ℕ)) : Hdr → List UInt8 → Except Stop Hdr
  | s, [] => .ok s
  | s, c :: bytes => (libwebsocketParse limits s c).bind fun s => parseAll limits s bytes

end Lws

end MySocket
