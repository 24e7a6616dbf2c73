import MySocket.HeaderRuns

/-!
# Messages with headers

What the parser makes of a message that is well formed and for which there is room : the lines,
with names in letters of any case, and what is copied of the headers afterwards.

* `Ready.known`, `Ready.other` : a line with a name of the table and another one.
* `textOf_lines` : several values for one token are separated by spaces, and none is in front.
* `ready_requestLine` : the line of the method, with a path that is stored as it is.
* `request_headers` : each header of a request is read back.
-/

namespace MySocket

namespace Lws

/-! ## The bytes of a line -/

section

variable {s : Hdr} {c : UInt8} {bytes : List UInt8}

theorem parseAll_cons {limits : Option (ℕ → ℕ)} : parseAll limits s (c :: bytes) =
    (libwebsocketParse limits s c).bind fun s => parseAll limits s bytes := rfl

theorem parseAll_append {limits : Option (ℕ → ℕ)} : ∀ (bytes : List UInt8) {bytes' : List UInt8}
    {s : Hdr}, parseAll limits s (bytes ++ bytes') =
      (parseAll limits s bytes).bind fun s => parseAll limits s bytes'
  | [], _, _ => rfl
  | c :: bytes, bytes', s => by
    rw [List.cons_append, parseAll_cons, parseAll_cons]
    rcases libwebsocketParse limits s c with e | s'
    · rfl
    · exact parseAll_append bytes

/-- A name, and what follows it. -/
theorem parseAll_name {limits : Option (ℕ → ℕ)} {n : ℕ} {rest : List UInt8} :
    ∀ {u : List UInt8} {pos : ℕ} {s : Hdr}, s.parserState = .namePart → s.lextablePos = some pos →
      lexFrom lextable pos u = .token n rest →
      ∃ p, parseAll limits s u =
        ({ s with lextablePos := some p }.knownName limits n).bind fun s => parseAll limits s rest
  | [], pos, s, _, _, hlex => Lexed.noConfusion hlex
  | c :: u, pos, s, hs, hpos, hlex => by
    rw [lexFrom] at hlex
    have hparse : libwebsocketParse limits s c = s.parseName limits c := by
      rw [libwebsocketParse, Hdr.parseBody, hs]
    rw [parseAll_cons, hparse, Hdr.parseName, hpos, Option.bind_some]
    rcases hdecode : lextableDecode lextable pos c with _ | p
    · rw [hdecode] at hlex
      exact Lexed.noConfusion hlex
    rw [hdecode] at hlex
    simp only at hlex ⊢
    rcases em (IsTerminal lextable p) with hend | hend
    · rw [if_pos hend] at hlex ⊢
      obtain ⟨rfl, rfl⟩ := Lexed.token.inj hlex
      exact ⟨p, rfl⟩
    · rw [if_neg hend] at hlex ⊢
      exact parseAll_name (s := { s with lextablePos := some p }) hs rfl hlex

/-- What is not `\r` in a line that is skipped. -/
theorem parseAll_skipping {limits : Option (ℕ → ℕ)} (hs : s.parserState = .skipping) :
    ∀ {u : List UInt8}, carriageReturn ∉ u → parseAll limits s u = .ok s
  | [], _ => rfl
  | c :: u, hu => by
    obtain ⟨hc, hu⟩ := not_or.mp (mt List.mem_cons.mpr hu)
    have hparse : libwebsocketParse limits s c = .ok s := by
      rw [libwebsocketParse, Hdr.parseBody, hs]
      simp only
      rw [if_neg (Ne.symm hc)]
    rw [parseAll_cons, hparse]
    exact parseAll_skipping hs hu

/-- A method or a version has come. -/
def HasMethod (ah : AllocatedHeaders) : Prop :=
  ah.fragIndex tokenGetUri ≠ 0 ∨ ah.fragIndex tokenPostUri ≠ 0 ∨
    ah.fragIndex tokenOptionsUri ≠ 0 ∨ ah.fragIndex tokenHttp ≠ 0

/-- A line with a name that is not in the table. -/
theorem parseAll_unknown {limits : Option (ℕ → ℕ)} :
    ∀ {u : List UInt8} {pos : ℕ} {s : Hdr}, s.parserState = .namePart → s.lextablePos = some pos →
      HasMethod s.ah → carriageReturn ∉ u → lexFrom lextable pos u = .unknown →
      parseAll limits s u = .ok { s with parserState := .skipping, lextablePos := none }
  | [], pos, s, _, _, _, _, hlex => Lexed.noConfusion hlex
  | c :: u, pos, s, hs, hpos, hmethod, hu, hlex => by
    obtain ⟨hc, hu⟩ := not_or.mp (mt List.mem_cons.mpr hu)
    rw [lexFrom] at hlex
    have hparse : libwebsocketParse limits s c = s.parseName limits c := by
      rw [libwebsocketParse, Hdr.parseBody, hs]
    rw [parseAll_cons, hparse, Hdr.parseName, hpos, Option.bind_some]
    rcases hdecode : lextableDecode lextable pos c with _ | p
    · simp only
      have hunknown : s.unknownName =
          .ok { s with parserState := .skipping, lextablePos := none } := if_pos hmethod
      rw [hunknown]
      exact parseAll_skipping rfl hu
    rw [hdecode] at hlex
    simp only at hlex ⊢
    rcases em (IsTerminal lextable p) with hend | hend
    · rw [if_pos hend] at hlex
      exact Lexed.noConfusion hlex
    · rw [if_neg hend] at hlex ⊢
      exact parseAll_unknown (s := { s with lextablePos := some p }) hs rfl hmethod hu hlex

end

/-! ## Values -/

/-- What is counted of a fragment. -/
def Stored.text (x : Stored) : List UInt8 := x.bytes.filter (· ≠ 0)

def Counts (_ : List Stored) (x : Stored) (len : ℕ) : Prop := len = x.text.length

/-- The text of the first fragment for a token. -/
def firstText (log : List Stored) (h : ℕ) : Option (List UInt8) :=
  (log.find? (·.token = h)).map Stored.text

theorem text_eq_self {h : ℕ} {b : List UInt8} (hb : 0 ∉ b) : (⟨h, b⟩ : Stored).text = b :=
  List.filter_eq_self.mpr fun c hc => by simpa using fun h0 : c = 0 => hb (h0 ▸ hc)

theorem firstText_concat {log : List Stored} {h : ℕ} {b : List UInt8} (hb : 0 ∉ b) :
    firstText (log ++ [⟨h, b⟩]) h = some ((firstText log h).getD b) := by
  unfold firstText
  rw [List.find?_append]
  rcases hfind : log.find? (·.token = h) with _ | x
  · simp [hfind, text_eq_self hb]
  · simp [hfind]

theorem owned_head {h : ℕ} : ∀ {log : List Stored} {i j : ℕ} {is : List ℕ},
    owned h i log = j :: is →
      ∃ k x, j = i + k + 1 ∧ log[k]? = some x ∧ log.find? (·.token = h) = some x
  | y :: log, i, j, is, howned => by
    rw [owned] at howned
    rcases em (y.token = h) with hy | hy
    · rw [if_pos hy] at howned
      exact ⟨0, y, (List.cons.inj howned).1.symm, rfl, by simp [hy]⟩
    · rw [if_neg hy] at howned
      obtain ⟨k, x, rfl, hx, hfind⟩ := owned_head howned
      exact ⟨k + 1, x, by omega, hx, by simpa [List.find?_cons, hy] using hfind⟩

theorem owned_eq_nil_iff {h : ℕ} {log : List Stored} :
    owned h 0 log = [] ↔ firstText log h = none := by
  unfold firstText
  rw [Option.map_eq_none_iff, List.find?_eq_none]
  constructor
  · intro howned x hx
    obtain ⟨k, hk⟩ := List.mem_iff_getElem?.mp hx
    have hnot : ¬x.token = h := fun htoken => by
      have := mem_owned_of (i := 0) hk htoken
      rw [howned] at this
      exact absurd this List.not_mem_nil
    simpa using hnot
  · intro hall
    refine List.eq_nil_iff_forall_not_mem.mpr fun j hj => ?_
    obtain ⟨k, x, -, hx, htoken⟩ := mem_owned hj
    exact absurd (by simpa using htoken) (hall x (List.mem_of_getElem? hx))

theorem Table.len_eq {ah : AllocatedHeaders} {log : List Stored} (ht : Table Counts ah log) {k : ℕ}
    {x : Stored} (hx : log[k]? = some x) : (ah.frags (k + 1)).len = x.text.length :=
  ht.kept.getElem hx

theorem Table.firstLen {ah : AllocatedHeaders} {log : List Stored} (ht : Table Counts ah log)
    {h : ℕ} (hh : h < tokenCount) {t : List UInt8} (hfirst : firstText log h = some t) :
    (ah.frags (ah.fragIndex h)).len = t.length := by
  have hlist := ht.layout.lists h hh
  rcases howned : owned h 0 log with _ | ⟨j, is⟩
  · rw [owned_eq_nil_iff.mp howned] at hfirst
    exact absurd hfirst (by simp)
  rw [howned] at hlist
  obtain ⟨k, x, rfl, hx, hfind⟩ := owned_head howned
  rw [firstText, hfind] at hfirst
  obtain rfl := Option.some.inj hfirst
  rw [hlist.1, Nat.zero_add]
  exact ht.len_eq hx

/-- What is stored of the value `v` behind `b`. Spaces are left out as long as the first fragment
for the token is empty, which is the one that is written to if `first` is none. -/
def storeValue (first : Option (List UInt8)) : List UInt8 → List UInt8 → List UInt8
  | b, [] => b
  | b, c :: v =>
    if first.getD b = [] ∧ c = space then storeValue first b v else storeValue first (b ++ [c]) v

theorem Table.pos_eq {good : List Stored → Stored → ℕ → Prop} {ah : AllocatedHeaders}
    {log : List Stored} {x : Stored} (ht : Table good ah (log ++ [x])) :
    ah.pos = (bytesOf log).length + x.bytes.length := by
  rw [AllocatedHeaders.pos, ht.layout.data, bytesOf_append, bytesOf_singleton, List.length_append]

section

variable {limits : Option (ℕ → ℕ)} {log : List Stored} {h : ℕ}

theorem parseBody_token {s : Hdr} (hs : s.parserState = .token h)
    (parse : Hdr → UInt8 → Except Stop Hdr) (c : UInt8) :
    s.parseBody limits parse c = s.parseValue parse h c := by
  rw [Hdr.parseBody, hs]

/-- A byte is stored if there is room. -/
theorem checkEol_of_room {s : Hdr} {b : List UInt8} {c : UInt8} (hs : s.parserState = .token h)
    (hc : h ≠ tokenChallenge) (hlimit : s.currentTokenLimit = maxHeaderLen)
    (ht : Table Counts s.ah (log ++ [⟨h, b⟩]))
    (hroom : (bytesOf log).length + b.length < maxHeaderLen) (hreturn : c ≠ carriageReturn) :
    s.checkEol c = .ok { s with ah := s.ah.put c } := by
  have hne : s.parserState ≠ .token tokenChallenge := by
    rw [hs]
    exact fun h => hc (ParserState.token.inj h)
  have hpos : s.ah.pos = (bytesOf log).length + b.length := ht.pos_eq
  have hlen : s.ah.len ≤ b.length := by
    rw [ht.last]
    exact List.length_filter_le _ _
  unfold Hdr.checkEol
  simp only [hreturn, and_false, if_false]
  rcases Hdr.issueChar_cases ht.data c with ⟨hfull, -⟩ | ⟨⟨-, hover⟩, -⟩ | ⟨-, hr⟩
  · omega
  · omega
  · rw [hr]
    exact if_neg hne

theorem parseAll_value (hh : h < tokenCount) (huri : ¬IsUri h) (hc : h ≠ tokenChallenge) :
    ∀ {v b : List UInt8} {s : Hdr}, s.parserState = .token h →
      s.currentTokenLimit = maxHeaderLen → Table Counts s.ah (log ++ [⟨h, b⟩]) → 0 ∉ b → 0 ∉ v →
      carriageReturn ∉ v → (bytesOf log).length + b.length + v.length ≤ maxHeaderLen →
      ∃ ah, parseAll limits s v = .ok { s with ah := ah } ∧
        Table Counts ah (log ++ [⟨h, storeValue (firstText log h) b v⟩]) ∧
        0 ∉ storeValue (firstText log h) b v ∧
        (storeValue (firstText log h) b v).length ≤ b.length + v.length
  | [], b, s, _, _, ht, hb, _, _, _ => ⟨s.ah, rfl, ht, hb, Nat.le_refl _⟩
  | c :: v, b, s, hs, hlimit, ht, hb, hv, hreturn, hroom => by
    obtain ⟨hc0, hv⟩ := not_or.mp (mt List.mem_cons.mpr hv)
    obtain ⟨hcr, hreturn⟩ := not_or.mp (mt List.mem_cons.mpr hreturn)
    rw [List.length_cons] at hroom
    have hempty : (s.ah.frags (s.ah.fragIndex h)).len = 0 ↔ (firstText log h).getD b = [] := by
      rw [ht.firstLen hh (firstText_concat hb), List.length_eq_zero_iff]
    have hparse : libwebsocketParse limits s c =
        if (firstText log h).getD b = [] ∧ c = space then .ok s
        else .ok { s with ah := s.ah.put c } := by
      rw [libwebsocketParse, parseBody_token hs, Hdr.parseValue, if_pos huri,
        checkEol_of_room hs hc hlimit ht (by omega) (Ne.symm hcr)]
      exact if_congr (and_congr_left' hempty) rfl rfl
    rw [parseAll_cons, hparse, storeValue, List.length_cons]
    rcases em ((firstText log h).getD b = [] ∧ c = space) with hskip | hskip
    · rw [if_pos hskip, if_pos hskip]
      obtain ⟨ah, hah, ht', hb', hlen⟩ :=
        parseAll_value hh huri hc hs hlimit ht hb hv hreturn (by omega)
      exact ⟨ah, hah, ht', hb', by omega⟩
    · rw [if_neg hskip, if_neg hskip]
      have hput : Table Counts (s.ah.put c) (log ++ [⟨h, b ++ [c]⟩]) := by
        have hpos : s.ah.pos = (bytesOf log).length + b.length := ht.pos_eq
        refine ht.put c (by omega) ?_
        rw [if_neg (Ne.symm hc0), ht.last]
        simp [Counts, Stored.text, Stored.push, Ne.symm hc0]
      have hb' : 0 ∉ b ++ [c] := by
        simp [hb, hc0]
      obtain ⟨ah, hah, ht', hb'', hlen⟩ := parseAll_value (s := { s with ah := s.ah.put c }) hh huri
        hc hs hlimit hput hb' hv hreturn (by simp; omega)
      exact ⟨ah, hah, ht', hb'', by simp at hlen; omega⟩

/-- The end of a line with a value. -/
theorem parseAll_end (huri : ¬IsUri h) (hc : h ≠ tokenChallenge) {b : List UInt8} {s : Hdr}
    (hs : s.parserState = .token h) (hlimit : s.currentTokenLimit = maxHeaderLen)
    (ht : Table Counts s.ah (log ++ [⟨h, b⟩]))
    (hroom : (bytesOf log).length + b.length < maxHeaderLen) :
    ∃ ah, parseAll limits s [carriageReturn, lineFeed] =
        .ok { s with ah := ah, parserState := .namePart, lextablePos := some 0 } ∧
      Table Counts ah (log ++ [⟨h, b ++ [0]⟩]) := by
  have hpos : s.ah.pos = (bytesOf log).length + b.length := ht.pos_eq
  have hlen : s.ah.len ≤ b.length := by
    rw [ht.last]
    exact List.length_filter_le _ _
  have hput : Table Counts (s.ah.put 0) (log ++ [⟨h, b ++ [0]⟩]) := by
    refine ht.put 0 (by omega) ?_
    rw [if_pos rfl, ht.last]
    simp [Counts, Stored.text, Stored.push]
  have hparse : libwebsocketParse limits s carriageReturn =
      .ok { s with ah := s.ah.put 0, parserState := .skippingSawCr } := by
    have hne : s.parserState ≠ .token tokenChallenge := by
      rw [hs]
      exact fun h => hc (ParserState.token.inj h)
    rw [libwebsocketParse, parseBody_token hs, Hdr.parseValue,
      if_neg fun h => absurd h.2 (by decide), if_pos huri]
    unfold Hdr.checkEol
    simp only [ne_eq, hne, not_false_eq_true, true_and, if_true]
    have hcases := @Hdr.issueChar_cases { s with parserState := .skippingSawCr } ht.data 0
    rcases hcases with ⟨hfull, -⟩ | ⟨⟨-, hover⟩, -⟩ | ⟨-, hr⟩
    · simp only at hfull
      omega
    · simp only at hover
      omega
    · rw [hr]
      rfl
  refine ⟨s.ah.put 0, ?_, hput⟩
  rw [parseAll_cons, hparse]
  rfl

end

/-! ## Lines -/

/-- A line of a message : the name of the token `n` as it is written, with the value, or a line
that begins with no name of the table. -/
inductive Line where
  | known (n : ℕ) (name value : List UInt8)
  | other (text : List UInt8)

/-- The token that a value is stored for. -/
def tokenOf (n : ℕ) : ℕ := if n = tokenSworigin then tokenOrigin else n

namespace Line

/-- The line without its end. -/
def text : Line → List UInt8
  | .known _ name value => name ++ value
  | .other text => text

def bytes (l : Line) : List UInt8 := l.text ++ [carriageReturn, lineFeed]

/-- The name is that of the token, in letters of any case. -/
def WellFormed : Line → Prop
  | .known n name value => IsName n (name.map tolower) ∧ ¬IsUri n ∧ n ≠ tokenChallenge ∧
      0 ∉ value ∧ carriageReturn ∉ value
  | .other text => lexFrom lextable 0 text = .unknown ∧ carriageReturn ∉ text

/-- The fragments after the line. -/
def store (log : List Stored) : Line → List Stored
  | .known n _ value =>
    let first := firstText log (tokenOf n)
    let lead := if first = none then [] else [space]
    log ++ [⟨tokenOf n, storeValue first lead value ++ [0]⟩]
  | .other _ => log

end Line

/-- A name may begin, and what has come is stored. -/
structure Ready (s : Hdr) (log : List Stored) : Prop where
  state : s.parserState = .namePart
  pos : s.lextablePos = some 0
  table : Table Counts s.ah log

theorem startFragment_ready {s : Hdr} {log : List Stored} {h : ℕ} (ht : Table Counts s.ah log)
    (hh : h < tokenCount) (hroom : log.length + 1 < maxFrags)
    (hpos : (bytesOf log).length < maxHeaderLen) :
    ∃ ah, s.startFragment h = .ok { s with ah := ah } ∧ Table Counts ah
      (log ++ [⟨h, if firstText log h = none then [] else [space]⟩]) := by
  have hdata : s.ah.pos = (bytesOf log).length := by rw [AllocatedHeaders.pos, ht.layout.data]
  have hstart := Hdr.startFragment_yields ht hh (rfl : Counts log ⟨h, []⟩ 0) fun _ =>
    (by simp [Counts, Stored.text, space] : Counts log ⟨h, [space]⟩ 1)
  simp only [owned_eq_nil_iff] at hstart
  rcases hr : s.startFragment h with e | s'
  · rw [hr] at hstart
    obtain ⟨-, hfull | hfull⟩ := hstart
    · omega
    · omega
  · rw [hr] at hstart
    obtain ⟨ah, rfl, ht'⟩ := hstart
    exact ⟨ah, rfl, ht'⟩

/-- What a line adds to `bytesOf` at most. -/
theorem length_storeValue (first : Option (List UInt8)) : ∀ (v b : List UInt8),
    (storeValue first b v).length ≤ b.length + v.length
  | [], _ => Nat.le_refl _
  | c :: v, b => by
    have ih := length_storeValue first v
    rw [storeValue, List.length_cons]
    split
    · have := ih b
      omega
    · have := ih (b ++ [c])
      rw [List.length_append, List.length_singleton] at this
      omega

namespace Ready

variable {s : Hdr} {log : List Stored}

theorem known (hr : Ready s log) {n : ℕ} {name value : List UInt8}
    (hw : (Line.known n name value).WellFormed) (hroom : log.length + 1 < maxFrags)
    (hpos : (bytesOf log).length + value.length + 2 ≤ maxHeaderLen) :
    ∃ s', parseAll none s (Line.known n name value).bytes = .ok s' ∧
      Ready s' ((Line.known n name value).store log) := by
  obtain ⟨hname, huri, hchallenge, hzero, hreturn⟩ := hw
  have hlex : lexFrom lextable 0 name = .token n [] :=
    ((lexFrom_lextable name).1 n []).mpr ⟨name, by rw [List.append_nil], hname⟩
  have hm : ¬IsUri (tokenOf n) ∧ tokenOf n ≠ tokenChallenge ∧ tokenOf n < tokenCount := by
    unfold tokenOf
    split
    next => exact ⟨by decide, by decide, by decide⟩
    next => exact ⟨huri, hchallenge, hname.lt.trans (by decide)⟩
  obtain ⟨p, hp⟩ := @parseAll_name none n [] name 0 s hr.state hr.pos hlex
  have hknown : ({ s with lextablePos := some p } : Hdr).knownName none n =
      ({ s with
        lextablePos := some p
        parserState := .token (tokenOf n)
        currentTokenLimit := maxHeaderLen } : Hdr).startFragment (tokenOf n) := by
    unfold Hdr.knownName
    rw [if_neg fun h => huri h.1]
    exact if_neg hm.2.1
  obtain ⟨ah, hstart, ht⟩ := @startFragment_ready { s with
    lextablePos := some p
    parserState := .token (tokenOf n)
    currentTokenLimit := maxHeaderLen } log (tokenOf n) hr.table hm.2.2 hroom (by omega)
  rw [hknown, hstart] at hp
  simp only [Line.bytes, Line.text, Line.store]
  generalize hlead : (if firstText log (tokenOf n) = none then [] else [space]) = lead at ht ⊢
  have hlead0 : 0 ∉ lead ∧ lead.length ≤ 1 := by
    rw [← hlead]
    split
    · simp
    · simp [space]
  obtain ⟨ah', hvalue, ht', -, hlen⟩ := @parseAll_value none log (tokenOf n) hm.2.2 hm.1 hm.2.1
    value lead { s with
      ah := ah
      lextablePos := some p
      parserState := .token (tokenOf n)
      currentTokenLimit := maxHeaderLen } rfl rfl ht hlead0.1 hzero hreturn (by omega)
  obtain ⟨ah'', hend, ht''⟩ := @parseAll_end none log (tokenOf n) hm.1 hm.2.1 _ { s with
      ah := ah'
      lextablePos := some p
      parserState := .token (tokenOf n)
      currentTokenLimit := maxHeaderLen } rfl rfl ht' (by omega)
  refine ⟨{ s with
    ah := ah''
    lextablePos := some 0
    parserState := .namePart
    currentTokenLimit := maxHeaderLen }, ?_, rfl, rfl, ht''⟩
  rw [parseAll_append, parseAll_append, hp]
  change ((parseAll none _ value).bind _) = _
  rw [hvalue]
  exact hend

theorem other (hr : Ready s log) {text : List UInt8} (hw : (Line.other text).WellFormed)
    (hmethod : HasMethod s.ah) :
    ∃ s', parseAll none s (Line.other text).bytes = .ok s' ∧
      Ready s' ((Line.other text).store log) := by
  refine ⟨{ s with parserState := .namePart, lextablePos := some 0 }, ?_, rfl, rfl, hr.table⟩
  rw [Line.bytes, Line.text, parseAll_append,
    parseAll_unknown hr.state hr.pos hmethod hw.2 hw.1]
  rfl

end Ready

/-! ## Messages -/

/-- There is a method or a version among the fragments. -/
def HasStart (log : List Stored) : Prop := ∃ x ∈ log, IsUri x.token ∨ x.token = tokenHttp

/-- The fragments are strings. -/
def Strings (log : List Stored) : Prop := ∀ x ∈ log, ∃ t, 0 ∉ t ∧ x.bytes = t ++ [0]

theorem Strings.concat {log : List Stored} (hs : Strings log) {h : ℕ} {t : List UInt8}
    (ht : 0 ∉ t) :
    Strings (log ++ [⟨h, t ++ [0]⟩]) :=
  List.forall_mem_append.mpr ⟨hs, List.forall_mem_singleton.mpr ⟨t, ht, rfl⟩⟩

theorem zero_notMem_storeValue (first : Option (List UInt8)) : ∀ {v b : List UInt8}, 0 ∉ b → 0 ∉ v →
    0 ∉ storeValue first b v
  | [], _, hb, _ => hb
  | c :: v, b, hb, hv => by
    obtain ⟨hc, hv⟩ := not_or.mp (mt List.mem_cons.mpr hv)
    rw [storeValue]
    split
    · exact zero_notMem_storeValue first hb hv
    · exact zero_notMem_storeValue first (by simp [hb, hc]) hv

/-- What is stored of a value is a string. -/
theorem zero_notMem_stored (first : Option (List UInt8)) {v : List UInt8} (hv : 0 ∉ v) :
    0 ∉ storeValue first (if first = none then [] else [space]) v := by
  refine zero_notMem_storeValue first ?_ hv
  split
  · simp
  · simp [space]

namespace Line

/-- How much place a line takes in `data` at most. -/
def size : Line → ℕ
  | .known _ _ value => value.length + 2
  | .other _ => 0

variable {l : Line} {log : List Stored}

theorem length_store : (l.store log).length ≤ log.length + 1 := by
  rcases l with ⟨n, name, value⟩ | text
  · simp [store]
  · exact Nat.le_succ _

theorem length_bytesOf_store : (bytesOf (l.store log)).length ≤ (bytesOf log).length + l.size := by
  rcases l with ⟨n, name, value⟩ | text
  · simp only [store, size]
    rw [bytesOf_append, bytesOf_singleton, List.length_append, List.length_append]
    generalize hlead : (if firstText log (tokenOf n) = none then [] else [space]) = lead
    have hlen := length_storeValue (firstText log (tokenOf n)) value lead
    have : lead.length ≤ 1 := by
      rw [← hlead]
      split
      · simp
      · simp
    simp only [List.length_singleton]
    omega
  · exact Nat.le_refl _

theorem hasStart_store (h : HasStart log) : HasStart (l.store log) := by
  obtain ⟨x, hx, htoken⟩ := h
  rcases l with ⟨n, name, value⟩ | text
  · exact ⟨x, List.mem_append_left _ hx, htoken⟩
  · exact ⟨x, hx, htoken⟩

theorem strings_store (hs : Strings log) (hw : l.WellFormed) : Strings (l.store log) := by
  rcases l with ⟨n, name, value⟩ | text
  · exact hs.concat (zero_notMem_stored _ hw.2.2.2.1)
  · exact hs

end Line

theorem Ready.hasMethod {s : Hdr} {log : List Stored} (hr : Ready s log) (h : HasStart log) :
    HasMethod s.ah := by
  obtain ⟨x, hx, htoken⟩ := h
  obtain ⟨k, hk⟩ := List.mem_iff_getElem?.mp hx
  have hne : ∀ {t}, x.token = t → t < tokenCount → s.ah.fragIndex t ≠ 0 :=
    fun ht hlt => (hr.table.layout.fragIndex_le hlt hk ht).1
  rcases htoken with (h | h | h) | h
  · exact Or.inl (hne h (by decide))
  · exact Or.inr (Or.inl (hne h (by decide)))
  · exact Or.inr (Or.inr (Or.inl (hne h (by decide))))
  · exact Or.inr (Or.inr (Or.inr (hne h (by decide))))

theorem Ready.line {s : Hdr} {log : List Stored} (hr : Ready s log) (hstart : HasStart log)
    {l : Line} (hw : l.WellFormed) (hroom : log.length + 1 < maxFrags)
    (hpos : (bytesOf log).length + l.size ≤ maxHeaderLen) :
    ∃ s', parseAll none s l.bytes = .ok s' ∧ Ready s' (l.store log) := by
  rcases l with ⟨n, name, value⟩ | text
  · exact hr.known hw hroom hpos
  · exact hr.other hw (hr.hasMethod hstart)

theorem Ready.lines : ∀ {lines : List Line} {s : Hdr} {log : List Stored}, Ready s log →
    HasStart log → (∀ l ∈ lines, l.WellFormed) → log.length + lines.length < maxFrags →
    (bytesOf log).length + (lines.map Line.size).sum ≤ maxHeaderLen →
    ∃ s', parseAll none s (lines.flatMap Line.bytes) = .ok s' ∧
      Ready s' (lines.foldl (fun log l => l.store log) log)
  | [], s, _, hr, _, _, _, _ => ⟨s, rfl, hr⟩
  | l :: lines, s, log, hr, hstart, hw, hroom, hpos => by
    obtain ⟨hwl, hw⟩ := List.forall_mem_cons.mp hw
    rw [List.map_cons, List.sum_cons] at hpos
    rw [List.length_cons] at hroom
    obtain ⟨s', hs', hr'⟩ := hr.line hstart hwl (by omega) (by omega)
    have hlen := @Line.length_store l log
    have hbytes := @Line.length_bytesOf_store l log
    obtain ⟨s'', hs'', hr''⟩ := hr'.lines (Line.hasStart_store hstart) hw (by omega) (by omega)
    refine ⟨s'', ?_, hr''⟩
    rw [List.flatMap_cons, parseAll_append, hs']
    exact hs''

/-- The empty line at the end. -/
theorem Ready.complete {s : Hdr} {log : List Stored} (hr : Ready s log)
    (hroom : log.length < maxFrags) :
    ∃ s', parseAll none s [carriageReturn, lineFeed] = .ok s' ∧ s'.parserState = .complete ∧
      s'.ah = s.ah := by
  have hname : IsName tokenChallenge ([carriageReturn, lineFeed].map tolower) := by
    constructor
    · decide +kernel
    · decide
  have hlex : lexFrom lextable 0 [carriageReturn, lineFeed] = .token tokenChallenge [] :=
    ((lexFrom_lextable _).1 _ _).mpr ⟨_, by rw [List.append_nil], hname⟩
  obtain ⟨p, hp⟩ := @parseAll_name none _ _ _ 0 s hr.state hr.pos hlex
  have hfrags : ∀ h < tokenCount, s.ah.hdrFrags h = some (owned h 0 log) :=
    fun h hh => hr.table.layout.hdrFrags hroom.le hh
  rw [hp]
  unfold Hdr.knownName
  rw [if_neg fun h => absurd h.1 (by decide)]
  simp only
  rw [if_pos (by decide)]
  unfold Hdr.setParsingComplete AllocatedHeaders.lwsHdrTotalLength
  rw [hfrags _ (by decide), hfrags _ (by decide)]
  exact ⟨_, rfl, rfl, rfl⟩

/-! ## What is read back -/

/-- The text that is stored for a token. -/
def textOf (log : List Stored) (h : ℕ) : List UInt8 :=
  ((log.filter (·.token = h)).map Stored.text).flatten

theorem map_owned {A : Type*} {h : ℕ} {f : ℕ → A} {g : Stored → A} : ∀ {log : List Stored} {i : ℕ},
    (∀ k x, log[k]? = some x → f (i + k + 1) = g x) →
    (owned h i log).map f = (log.filter (·.token = h)).map g
  | [], _, _ => rfl
  | x :: log, i, hfg => by
    have ih : (owned h (i + 1) log).map f = (log.filter (·.token = h)).map g :=
      map_owned fun k y hy => by
        rw [show i + 1 + k + 1 = i + (k + 1) + 1 by omega]
        exact hfg (k + 1) y (by simpa using hy)
    rw [owned, List.filter_cons]
    rcases em (x.token = h) with hx | hx
    · rw [if_pos hx, if_pos (by simpa using hx), List.map_cons, List.map_cons, ih]
      congr 1
      exact hfg 0 x rfl
    · rw [if_neg hx, if_neg (by simpa using hx), ih]

section

variable {ah : AllocatedHeaders} {log : List Stored} {h : ℕ}

theorem Table.cString_eq (ht : Table Counts ah log) (hs : Strings log) {k : ℕ} {x : Stored}
    (hx : log[k]? = some x) : ah.cString (ah.frags (k + 1)).offset = some x.text := by
  obtain ⟨t, h0, hbytes⟩ := hs x (List.mem_of_getElem? hx)
  have hzero : 0 ∈ x.bytes := by simp [hbytes]
  have htext : x.bytes.takeWhile (· ≠ 0) = x.text := by
    have hall : ∀ c ∈ t, (decide (c ≠ 0)) = true := fun c hc => by
      simpa using fun hc0 : c = 0 => h0 (hc0 ▸ hc)
    rw [Stored.text, hbytes, List.takeWhile_append_of_pos hall, List.filter_append,
      List.filter_eq_self.mpr hall]
    simp
  rw [ht.layout.cString hx hzero, htext]

/-- `lws_hdr_total_length` : the length of the text. -/
theorem Table.totalLength (ht : Table Counts ah log) (hh : h < tokenCount) :
    ah.lwsHdrTotalLength h = some (textOf log h).length := by
  rw [AllocatedHeaders.lwsHdrTotalLength, ht.layout.hdrFrags ht.room.le hh, Option.map_some,
    @map_owned _ h (fun i => (ah.frags i).len) (fun x => x.text.length) log 0 fun k x hx => by
      rw [Nat.zero_add]
      exact ht.len_eq hx]
  rw [textOf, List.length_flatten, List.map_map]
  rfl

/-- `lws_hdr_simple_ptr` : the text of the first fragment. -/
theorem Table.simplePtr (ht : Table Counts ah log) (hs : Strings log) (hh : h < tokenCount) :
    ah.lwsHdrSimplePtr h = (firstText log h).map some := by
  have hlist := ht.layout.lists h hh
  rw [AllocatedHeaders.lwsHdrSimplePtr]
  rcases howned : owned h 0 log with _ | ⟨j, is⟩
  · rw [if_pos ((ht.layout.fragIndex_eq_zero_iff hh).mpr howned), owned_eq_nil_iff.mp howned]
    rfl
  · rw [howned] at hlist
    obtain ⟨k, x, rfl, hx, hfind⟩ := owned_head howned
    rw [if_neg (by rw [hlist.1]; exact hlist.2.1), hlist.1, Nat.zero_add, ht.cString_eq hs hx,
      firstText, hfind]
    rfl

/-- `lws_hdr_copy` : the text is copied, with a zero at its end, if there is room for both. -/
theorem lwsHdrCopy_text (ht : Table Counts ah log) (hs : Strings log) (hh : h < tokenCount)
    (hsome : ∃ x ∈ log, x.token = h) (m : Mem) (len : ℤ) :
    ah.lwsHdrCopy m len h =
      if len ≤ (textOf log h).length then some (-1, m)
      else some (((textOf log h).length : ℤ), store m 0 (textOf log h ++ [0])) := by
  have hfrags := ht.layout.hdrFrags ht.room.le hh
  have htotal : ((owned h 0 log).map fun i => (ah.frags i).len).sum = (textOf log h).length := by
    have hlength := ht.totalLength hh
    rw [AllocatedHeaders.lwsHdrTotalLength, hfrags] at hlength
    exact Option.some.inj hlength
  have hne : owned h 0 log ≠ [] := by
    obtain ⟨x, hx, htoken⟩ := hsome
    obtain ⟨k, hk⟩ := List.mem_iff_getElem?.mp hx
    exact List.ne_nil_of_mem (mem_owned_of hk htoken)
  have hcopy := @copyFrags_text ah (fun i => ((log[i - 1]?).map Stored.text).getD [])
    (owned h 0 log) 0 m hne fun i hi => by
      obtain ⟨k, x, rfl, hx, -⟩ := mem_owned hi
      rw [Nat.zero_add, Nat.add_sub_cancel, hx]
      exact ⟨ht.cString_eq hs hx, (ht.len_eq hx).symm⟩
  have hflat : ((owned h 0 log).map fun i => ((log[i - 1]?).map Stored.text).getD []).flatten =
      textOf log h := by
    rw [textOf, @map_owned _ h _ Stored.text log 0 fun k x hx => by
      rw [Nat.zero_add, Nat.add_sub_cancel, hx]
      rfl]
  rw [hflat] at hcopy
  unfold AllocatedHeaders.lwsHdrCopy AllocatedHeaders.lwsHdrTotalLength
  rw [hfrags]
  simp only [Option.map_some, Option.bind_some]
  rw [htotal, hcopy]
  rfl

end

/-- The values for a token, in their order. -/
def valuesOf (lines : List Line) (h : ℕ) : List (List UInt8) :=
  lines.filterMap fun
    | .known n _ value => if tokenOf n = h then some value else none
    | .other _ => none

/-- What several values become, where `first` is the text that the first one became. If that is
empty, the space behind it stays in front, and the later values lose all their spaces : the code
looks at the length of the first fragment. -/
def joinValues : Option (List UInt8) → List (List UInt8) → List UInt8
  | _, [] => []
  | none, v :: vs =>
    let t := v.dropWhile (· = space)
    t ++ joinValues (some t) vs
  | some first, v :: vs =>
    space :: (if first = [] then v.filter (· ≠ space) else v) ++ joinValues (some first) vs

theorem storeValue_none : ∀ {v b : List UInt8},
    storeValue none b v = b ++ if b = [] then v.dropWhile (· = space) else v
  | [], b => by
    split
    · simp [storeValue]
    · simp [storeValue]
  | c :: v, b => by
    rw [storeValue]
    rcases em (b = [] ∧ c = space) with ⟨rfl, rfl⟩ | hskip
    · rw [if_pos ⟨rfl, rfl⟩, storeValue_none, if_pos rfl, if_pos rfl]
      simp
    · rw [if_neg (by simpa using hskip), storeValue_none, if_neg (by simp)]
      rcases em (b = []) with rfl | hb
      · have hc : c ≠ space := fun h => hskip ⟨rfl, h⟩
        simp [hc]
      · rw [if_neg hb]
        simp

theorem storeValue_some {first : List UInt8} : ∀ {v b : List UInt8},
    storeValue (some first) b v = b ++ if first = [] then v.filter (· ≠ space) else v
  | [], b => by
    split
    · simp [storeValue]
    · simp [storeValue]
  | c :: v, b => by
    rw [storeValue]
    rcases em (first = [] ∧ c = space) with ⟨rfl, rfl⟩ | hskip
    · rw [if_pos (by simp), storeValue_some, if_pos rfl, if_pos rfl]
      simp
    · rw [if_neg (by simpa using hskip), storeValue_some]
      rcases em (first = []) with rfl | hfirst
      · have hc : c ≠ space := fun h => hskip ⟨rfl, h⟩
        simp [hc]
      · rw [if_neg hfirst, if_neg hfirst]
        simp

theorem text_seal {h : ℕ} {t : List UInt8} (ht : 0 ∉ t) : (⟨h, t ++ [0]⟩ : Stored).text = t := by
  have := text_eq_self (h := h) ht
  simpa [Stored.text] using this

theorem firstText_seal {log : List Stored} {h : ℕ} {t : List UInt8} (ht : 0 ∉ t) :
    firstText (log ++ [⟨h, t ++ [0]⟩]) h = some ((firstText log h).getD t) := by
  unfold firstText
  rw [List.find?_append]
  rcases hfind : log.find? (·.token = h) with _ | x
  · simp [hfind, text_seal ht]
  · simp [hfind]

/-- The fragments after some lines have the values of these behind what was there. -/
theorem textOf_lines {h : ℕ} : ∀ {lines : List Line} {log : List Stored},
    (∀ l ∈ lines, l.WellFormed) →
    textOf (lines.foldl (fun log l => l.store log) log) h =
      textOf log h ++ joinValues (firstText log h) (valuesOf lines h)
  | [], log, _ => by
    rcases firstText log h with _ | _ <;> simp [valuesOf, joinValues]
  | .other _ :: lines, log, hw => @textOf_lines h lines log (List.forall_mem_cons.mp hw).2
  | .known n name v :: lines, log, hw => by
    obtain ⟨hwl, hw⟩ := List.forall_mem_cons.mp hw
    have hv : 0 ∉ v := hwl.2.2.2.1
    rw [List.foldl_cons, textOf_lines hw]
    simp only [Line.store]
    have hseal := zero_notMem_stored (firstText log (tokenOf n)) hv
    rcases em (tokenOf n = h) with rfl | hne
    · have hvalues : valuesOf (.known n name v :: lines) (tokenOf n) =
          v :: valuesOf lines (tokenOf n) := by
        simp [valuesOf]
      have htext : ∀ b, 0 ∉ b → textOf (log ++ [⟨tokenOf n, b ++ [0]⟩]) (tokenOf n) =
          textOf log (tokenOf n) ++ b := by
        intro b hb
        simp [textOf, text_seal hb]
      rw [firstText_seal hseal, htext _ hseal, hvalues, List.append_assoc]
      congr 1
      rcases hfirst : firstText log (tokenOf n) with _ | first
      · rw [if_pos rfl, storeValue_none]
        simp [joinValues]
      · rw [if_neg (by simp), storeValue_some]
        simp [joinValues]
    · have hvalues : valuesOf (.known n name v :: lines) h = valuesOf lines h := by
        simp [valuesOf, hne]
      have hfirst : ∀ b, firstText (log ++ [⟨tokenOf n, b⟩]) h = firstText log h := by
        intro b
        simp [firstText, hne]
      have htext : ∀ b, textOf (log ++ [⟨tokenOf n, b⟩]) h = textOf log h := by
        intro b
        simp [textOf, hne]
      rw [hvalues, hfirst, htext]

/-- The first fragment after some lines. -/
theorem firstText_lines {h : ℕ} : ∀ {lines : List Line} {log : List Stored},
    (∀ l ∈ lines, l.WellFormed) →
    firstText (lines.foldl (fun log l => l.store log) log) h =
      (firstText log h).or ((valuesOf lines h).head?.map fun v => v.dropWhile (· = space))
  | [], log, _ => by simp [valuesOf]
  | .other _ :: lines, log, hw => @firstText_lines h lines log (List.forall_mem_cons.mp hw).2
  | .known n name v :: lines, log, hw => by
    obtain ⟨hwl, hw⟩ := List.forall_mem_cons.mp hw
    have hv : 0 ∉ v := hwl.2.2.2.1
    rw [List.foldl_cons, firstText_lines hw]
    simp only [Line.store]
    have hseal := zero_notMem_stored (firstText log (tokenOf n)) hv
    rcases em (tokenOf n = h) with rfl | hne
    · have hvalues : valuesOf (.known n name v :: lines) (tokenOf n) =
          v :: valuesOf lines (tokenOf n) := by
        simp [valuesOf]
      rw [firstText_seal hseal, hvalues]
      rcases hfirst : firstText log (tokenOf n) with _ | first
      · rw [if_pos rfl, storeValue_none]
        simp
      · simp
    · have hvalues : valuesOf (.known n name v :: lines) h = valuesOf lines h := by
        simp [valuesOf, hne]
      have hfirst : ∀ b, firstText (log ++ [⟨tokenOf n, b⟩]) h = firstText log h := by
        intro b
        simp [firstText, hne]
      rw [hvalues, hfirst]

/-! ## Requests -/

/-- A path that is stored as it is, where `after` tells whether a slash came before. -/
def PlainPath : Bool → List UInt8 → Prop
  | _, [] => True
  | after, c :: path =>
    (c ≠ 0 ∧ c ≠ space ∧ c ≠ percent ∧ c ≠ question ∧ c ≠ carriageReturn) ∧
      (after = true → c ≠ slash ∧ c ≠ dot) ∧ PlainPath (c = slash) path

instance PlainPath.decidable : ∀ after path, Decidable (PlainPath after path)
  | _, [] => .isTrue trivial
  | _, c :: path =>
    have := PlainPath.decidable (c = slash) path
    inferInstanceAs (Decidable (_ ∧ (_ → _) ∧ _))

section

variable {limits : Option (ℕ → ℕ)} {log : List Stored} {h : ℕ}

theorem plainPath_zero : ∀ {path : List UInt8} {after : Bool}, PlainPath after path → 0 ∉ path
  | [], _, _ => List.not_mem_nil
  | c :: path, _, hp => by
    rw [List.mem_cons, not_or]
    exact ⟨hp.1.1.symm, plainPath_zero hp.2.2⟩

theorem parseAll_path (huri : IsUri h) (hc : h ≠ tokenChallenge) :
    ∀ {path b : List UInt8} {after : Bool} {s : Hdr}, PlainPath after path →
      s.parserState = .token h → s.currentTokenLimit = maxHeaderLen → s.ues = .idle →
      s.ups = (if after then .seenSlash else .idle) → Table Counts s.ah (log ++ [⟨h, b⟩]) →
      (bytesOf log).length + b.length + path.length ≤ maxHeaderLen →
      ∃ ah ups, parseAll limits s path = .ok { s with ah := ah, ups := ups } ∧
        Table Counts ah (log ++ [⟨h, b ++ path⟩])
  | [], b, _, s, _, _, _, _, _, ht, _ => ⟨s.ah, s.ups, rfl, by rwa [List.append_nil]⟩
  | c :: path, b, after, s, hp, hs, hlimit, hues, hups, ht, hroom => by
    obtain ⟨⟨hzero, hspace, hpercent, hquestion, hreturn⟩, hafter, hp⟩ := hp
    rw [List.length_cons] at hroom
    have hpath : s.uriPath c =
        .ok (.assess { s with ups := if c = slash then .seenSlash else .idle } c) := by
      unfold Hdr.uriPath
      rw [hups]
      rcases after with _ | _
      · rfl
      · obtain ⟨hslash, hdot⟩ := hafter rfl
        simp [hslash, hdot]
    have hpos : s.ah.pos = (bytesOf log).length + b.length := ht.pos_eq
    have hparse : libwebsocketParse limits s c = .ok { s with
        ah := s.ah.put c
        ups := if c = slash then .seenSlash else .idle } := by
      have hescape : ∀ parse, Hdr.uriEscape parse s c = .ok (.assess s c) := by
        intro parse
        rw [Hdr.uriEscape, hues]
        exact if_neg hpercent
      rw [libwebsocketParse, parseBody_token hs, Hdr.parseValue, if_neg fun h => hspace h.2,
        if_neg (not_not.mpr huri), if_neg hspace, Hdr.uriByte, hescape]
      change ((s.uriPath c).bind _) = _
      rw [hpath]
      change (if c = question then _ else _) = _
      rw [if_neg hquestion]
      exact @checkEol_of_room log h { s with ups := if c = slash then .seenSlash else .idle } b c
        hs hc hlimit ht (by omega) hreturn
    have hput : Table Counts (s.ah.put c) (log ++ [⟨h, b ++ [c]⟩]) := by
      refine ht.put c (by omega) ?_
      rw [if_neg hzero, ht.last]
      simp [Counts, Stored.text, Stored.push, hzero]
    obtain ⟨ah, ups, hah, ht'⟩ := @parseAll_path huri hc path (b ++ [c]) (c = slash) { s with
      ah := s.ah.put c
      ups := if c = slash then .seenSlash else .idle } hp hs hlimit hues (by simp) hput
      (by simp only [List.length_append, List.length_singleton]; omega)
    refine ⟨ah, ups, ?_, by simpa using ht'⟩
    rw [parseAll_cons, hparse]
    exact hah

/-- The space behind a path. -/
theorem parse_uriEnd {s : Hdr} {path : List UInt8} (huri : IsUri h)
    (hs : s.parserState = .token h) (hlimit : s.currentTokenLimit = maxHeaderLen)
    (ht : Table Counts s.ah (log ++ [⟨h, path⟩])) (hzero : 0 ∉ path) (hne : path ≠ [])
    (hfirst : firstText log h = none) (hroom : log.length + 2 < maxFrags)
    (hsize : (bytesOf log).length + path.length + 1 < maxHeaderLen) :
    ∃ ah, libwebsocketParse limits s space =
        .ok { s with ah := ah, parserState := .token tokenHttp } ∧
      Table Counts ah (log ++ [⟨h, path ++ [0]⟩] ++ [⟨tokenHttp,
        if firstText (log ++ [⟨h, path ++ [0]⟩]) tokenHttp = none then [] else [space]⟩]) := by
  have hlen : path.length ≠ 0 := mt List.length_eq_zero_iff.mp hne
  have hpos : s.ah.pos = (bytesOf log).length + path.length := ht.pos_eq
  have hfirstLen : (s.ah.frags (s.ah.fragIndex h)).len = path.length := by
    rw [ht.firstLen (huri.lt.trans (by decide)) (firstText_concat hzero), hfirst]
    rfl
  have hlast : s.ah.len = path.length := by
    rw [ht.last, text_eq_self hzero]
  have hput : Table Counts (s.ah.put 0) (log ++ [⟨h, path ++ [0]⟩]) := by
    refine ht.put 0 (by omega) ?_
    rw [if_pos rfl, hlast]
    exact congrArg List.length (text_seal hzero).symm
  have hissue : s.issueOrRefuse 0 = .ok { s with ah := s.ah.put 0 } := by
    unfold Hdr.issueOrRefuse
    rcases Hdr.issueChar_cases ht.data 0 with ⟨hfull, -⟩ | ⟨⟨-, hover⟩, -⟩ | ⟨-, hr⟩
    · omega
    · omega
    · rw [hr]
      rfl
  obtain ⟨ah, hstart, ht'⟩ := @startFragment_ready
    { s with ah := s.ah.put 0, parserState := .token tokenHttp } _ tokenHttp hput (by decide)
    (by simpa using hroom)
    (by rw [bytesOf_append, bytesOf_singleton, List.length_append, List.length_append,
          List.length_singleton]; omega)
  refine ⟨ah, ?_, ht'⟩
  rw [libwebsocketParse, parseBody_token hs, Hdr.parseValue,
    if_neg fun h => hlen (hfirstLen.symm.trans h.1), if_neg (not_not.mpr huri), if_pos rfl,
    Hdr.uriEnd, if_neg (by rwa [hlast])]
  change ((s.issueOrRefuse 0).bind _) = _
  rw [hissue]
  exact hstart

end

/-- `HTTP/1.1` -/
def httpVersion : List UInt8 := ascii "HTTP/1.1"

/-- The first line of a request. -/
def requestLine (name path : List UInt8) : List UInt8 :=
  name ++ (path ++ (space :: (httpVersion ++ [carriageReturn, lineFeed])))

theorem ready_requestLine (frags : ℕ → Fragment) {h : ℕ} {name path : List UInt8} (huri : IsUri h)
    (hname : IsName h (name.map tolower)) (hpath : PlainPath false path) (hne : path ≠ [])
    (hsize : path.length + 10 ≤ maxHeaderLen) :
    ∃ s, parseAll none (Hdr.init frags) (requestLine name path) = .ok s ∧
      Ready s [⟨h, path ++ [0]⟩, ⟨tokenHttp, httpVersion ++ [0]⟩] := by
  have hchallenge : h ≠ tokenChallenge := by
    rintro rfl
    exact absurd huri (by decide)
  have hcount : h < tokenCount := huri.lt.trans (by decide)
  have hlex : lexFrom lextable 0 name = .token h [] :=
    ((lexFrom_lextable name).1 h []).mpr ⟨name, by rw [List.append_nil], hname⟩
  obtain ⟨p, hp⟩ := @parseAll_name none h [] name 0 (Hdr.init frags) rfl rfl hlex
  have hknown : ({ Hdr.init frags with lextablePos := some p } : Hdr).knownName none h =
      ({ Hdr.init frags with
        lextablePos := some p
        parserState := .token h
        currentTokenLimit := maxHeaderLen } : Hdr).startFragment h := by
    have hsworigin : h ≠ tokenSworigin := by
      rintro rfl
      exact absurd huri (by decide)
    unfold Hdr.knownName
    rw [if_neg fun hagain => hagain.2 rfl]
    simp only
    rw [if_neg hsworigin, if_neg hchallenge]
  obtain ⟨ah, hstart, ht⟩ := @startFragment_ready { Hdr.init frags with
    lextablePos := some p
    parserState := .token h
    currentTokenLimit := maxHeaderLen } [] h (Table.init frags) hcount (by decide) (by decide)
  rw [hknown, hstart] at hp
  obtain ⟨ah', ups, hrun, ht'⟩ := @parseAll_path none [] h huri hchallenge path [] false
    { Hdr.init frags with
      ah := ah
      lextablePos := some p
      parserState := .token h
      currentTokenLimit := maxHeaderLen } hpath rfl rfl rfl rfl ht
    (by simp [bytesOf]; omega)
  rw [List.nil_append] at ht'
  have hzero : 0 ∉ path := plainPath_zero hpath
  have hhttp : ¬h = tokenHttp := by
    rintro rfl
    exact absurd huri (by decide)
  have hnone : firstText [⟨h, path ++ [0]⟩] tokenHttp = none := by
    simp [firstText, hhttp]
  obtain ⟨ah₂, hspace, ht₂⟩ := @parse_uriEnd none [] h { Hdr.init frags with
    ah := ah'
    ups := ups
    lextablePos := some p
    parserState := .token h
    currentTokenLimit := maxHeaderLen } path huri rfl rfl ht' hzero hne rfl (by decide)
    (by simp [bytesOf]; omega)
  rw [List.nil_append, hnone, if_pos rfl] at ht₂
  have hbytes : (bytesOf [⟨h, path ++ [0]⟩]).length = path.length + 1 := by simp [bytesOf]
  have hversion : httpVersion.length = 8 := by decide
  obtain ⟨ah₃, hvalue, ht₃, -, -⟩ := @parseAll_value none [⟨h, path ++ [0]⟩] tokenHttp (by decide)
    (by decide) (by decide) httpVersion [] { Hdr.init frags with
      ah := ah₂
      ups := ups
      lextablePos := some p
      parserState := .token tokenHttp
      currentTokenLimit := maxHeaderLen } rfl rfl ht₂ List.not_mem_nil (by decide) (by decide)
    (by rw [hbytes, hversion, List.length_nil]; omega)
  have hstored : storeValue (firstText [⟨h, path ++ [0]⟩] tokenHttp) [] httpVersion =
      httpVersion := by
    rw [hnone]
    decide
  rw [hstored] at ht₃
  obtain ⟨ah₄, hline, ht₄⟩ := @parseAll_end none [⟨h, path ++ [0]⟩] tokenHttp (by decide)
    (by decide) httpVersion { Hdr.init frags with
      ah := ah₃
      ups := ups
      lextablePos := some p
      parserState := .token tokenHttp
      currentTokenLimit := maxHeaderLen } rfl rfl ht₃ (by rw [hbytes, hversion]; omega)
  refine ⟨{ Hdr.init frags with
    ah := ah₄
    ups := ups
    lextablePos := some 0
    parserState := .namePart
    currentTokenLimit := maxHeaderLen }, ?_, rfl, rfl, ht₄⟩
  rw [requestLine, parseAll_append, hp]
  change (parseAll none _ (path ++ _)) = _
  rw [parseAll_append, hrun]
  change (parseAll none _ (space :: _)) = _
  rw [parseAll_cons, hspace]
  change (parseAll none _ (httpVersion ++ _)) = _
  rw [parseAll_append, hvalue]
  exact hline

/-- What the headers of a request are. -/
def requestText (h : ℕ) (path : List UInt8) (lines : List Line) (k : ℕ) : List UInt8 :=
  if k = h then path
  else joinValues none ((if k = tokenHttp then [httpVersion] else []) ++ valuesOf lines k)

theorem strings_lines : ∀ {lines : List Line} {log : List Stored}, Strings log →
    (∀ l ∈ lines, l.WellFormed) → Strings (lines.foldl (fun log l => l.store log) log)
  | [], _, hs, _ => hs
  | l :: lines, log, hs, hw => by
    obtain ⟨hwl, hw⟩ := List.forall_mem_cons.mp hw
    exact @strings_lines lines (l.store log) (Line.strings_store hs hwl) hw

/-- A token with a value has a fragment. -/
theorem exists_token {k : ℕ} : ∀ {lines : List Line} {log : List Stored},
    (∃ x ∈ log, x.token = k) ∨ valuesOf lines k ≠ [] →
    ∃ x ∈ lines.foldl (fun log l => l.store log) log, x.token = k
  | [], _, h => h.resolve_right fun h => h rfl
  | .other _ :: lines, log, h => @exists_token k lines log h
  | .known n name v :: lines, log, h => by
    refine @exists_token k lines _ ?_
    rcases h with ⟨x, hx, hk⟩ | h
    · exact Or.inl ⟨x, List.mem_append_left _ hx, hk⟩
    rcases em (tokenOf n = k) with hn | hn
    · exact Or.inl ⟨_, List.mem_append_right _ (List.mem_singleton_self _), hn⟩
    · exact Or.inr (by simpa [valuesOf, hn] using h)

theorem valuesOf_uri {h : ℕ} (huri : IsUri h) : ∀ {lines : List Line},
    (∀ l ∈ lines, l.WellFormed) → valuesOf lines h = []
  | [], _ => rfl
  | .other _ :: lines, hw => @valuesOf_uri h huri lines (List.forall_mem_cons.mp hw).2
  | .known n name v :: lines, hw => by
    obtain ⟨hwl, hw⟩ := List.forall_mem_cons.mp hw
    have hne : tokenOf n ≠ h := by
      rintro rfl
      unfold tokenOf at huri
      split at huri
      · exact absurd huri (by decide)
      · exact hwl.2.1 huri
    have ih := valuesOf_uri huri hw
    simpa [valuesOf, hne] using ih

/-- The fragments of a request. -/
def requestLog (h : ℕ) (path : List UInt8) (lines : List Line) : List Stored :=
  lines.foldl (fun log l => l.store log) [⟨h, path ++ [0]⟩, ⟨tokenHttp, httpVersion ++ [0]⟩]

section

variable {h : ℕ} {name path : List UInt8} {lines : List Line}

/-- A request that is well formed and fits is parsed to its end. -/
theorem request_run (frags : ℕ → Fragment) (huri : IsUri h) (hname : IsName h (name.map tolower))
    (hpath : PlainPath false path) (hne : path ≠ []) (hw : ∀ l ∈ lines, l.WellFormed)
    (hroom : lines.length + 2 < maxFrags)
    (hsize : path.length + 10 + (lines.map Line.size).sum ≤ maxHeaderLen) :
    ∃ s, parseAll none (Hdr.init frags) (requestLine name path ++
          (lines.flatMap Line.bytes ++ [carriageReturn, lineFeed])) = .ok s ∧
      s.parserState = .complete ∧ Table Counts s.ah (requestLog h path lines) := by
  obtain ⟨s, hrun, hr⟩ := ready_requestLine frags huri hname hpath hne (by omega)
  have hversion : httpVersion.length = 8 := by decide
  have hbytes : (bytesOf [⟨h, path ++ [0]⟩, ⟨tokenHttp, httpVersion ++ [0]⟩]).length =
      path.length + 10 := by
    simp [bytesOf, hversion]
  obtain ⟨s', hrun', hr'⟩ := hr.lines ⟨_, List.mem_cons_self, Or.inl huri⟩ hw
    (by simp only [List.length_cons, List.length_nil]; omega) (by rw [hbytes]; exact hsize)
  obtain ⟨s'', hrun'', hstate, hah⟩ := hr'.complete hr'.table.room
  refine ⟨s'', ?_, hstate, hah ▸ hr'.table⟩
  rw [parseAll_append, hrun]
  change (parseAll none s (_ ++ _)) = _
  rw [parseAll_append, hrun']
  exact hrun''

theorem strings_requestLog (hpath : PlainPath false path) (hw : ∀ l ∈ lines, l.WellFormed) :
    Strings (requestLog h path lines) :=
  strings_lines (List.forall_mem_cons.mpr ⟨⟨path, plainPath_zero hpath, rfl⟩,
    List.forall_mem_singleton.mpr ⟨httpVersion, by decide, rfl⟩⟩) hw

theorem textOf_requestLog (huri : IsUri h) (hpath : PlainPath false path)
    (hw : ∀ l ∈ lines, l.WellFormed) (k : ℕ) :
    textOf (requestLog h path lines) k = requestText h path lines k := by
  have hzero : 0 ∉ path := plainPath_zero hpath
  have hhttp : tokenHttp ≠ h := by
    rintro rfl
    exact absurd huri (by decide)
  have hseal := @text_seal tokenHttp httpVersion (by decide)
  rw [requestLog, textOf_lines hw, requestText]
  rcases em (k = h) with rfl | hkh
  · rw [if_pos rfl, valuesOf_uri huri hw]
    simp [textOf, joinValues, text_seal hzero, hhttp]
  rw [if_neg hkh]
  rcases em (k = tokenHttp) with rfl | hkhttp
  · have hspace : httpVersion.dropWhile (· = space) = httpVersion := by decide
    simp [textOf, firstText, joinValues, hseal, Ne.symm hkh, hspace]
  · simp [textOf, firstText, Ne.symm hkh, Ne.symm hkhttp, hkhttp]

end

/-- A host, two cookies and a line with a name that is not in the table. -/
def cookieLines : List Line :=
  [.known tokenHost (ascii "Host:") (ascii " b"), .known 26 (ascii "Cookie:") (ascii " c=1"),
    .other (ascii "X-Y: z"), .known 26 (ascii "cookie:") (ascii " d=2")]

-- The space that a second value begins with is kept.
example : requestText tokenGetUri (ascii "/a") cookieLines 26 = ascii "c=1  d=2" := by decide

end Lws

end MySocket
