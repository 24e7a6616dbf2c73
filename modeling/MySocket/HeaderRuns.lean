import MySocket.HeaderCreate
import MySocket.HeaderSafety
import MySocket.Trace

/-!
# What the parser of the headers stores

The headers of a request, whatever bytes they come as, or of a response : the table of a client has
the strings in it that its connection was made with.

* `always_inside_iff` : the parser stays inside of its arrays exactly if there is room at each `?`,
  in a request and in a response.
* `lwsHdrCopy_inside` : in a request, a copy of a header that is no path stays inside of the place
  for it.
* `first_uri_not_climbs` : the path of the first method of a request does not go up a directory.
-/

namespace MySocket

namespace Lws

/-! ## Runs -/

section

variable {limits : Option (ℕ → ℕ)} {s : Hdr} {c : UInt8}

theorem readsHex : ReadsHex limits (libwebsocketParse limits) :=
  fun _ _ _ _ _ hw hs hh hues hc => hw.parse_hex hs hh hues hc _

/-- What one byte does. -/
theorem Settled.parse (hi : Settled limits s) (c : UInt8) :
    Yields (Fails (libwebsocketParse limits) s c) (Settled limits)
      (libwebsocketParse limits s c) := by
  rw [libwebsocketParse_eq]
  unfold Hdr.parseBody
  rcases hi with ⟨h, log, x, hs, hw⟩ | ⟨hnot, ⟨log, hr⟩, hname⟩
  · rw [hs]
    exact hw.parseValue hs readsHex c
  rcases hs : s.parserState with h | _ | _ | _ | _
  · exact absurd hs (hnot h)
  · obtain ⟨pos, u, hpos, hu⟩ := hname hs
    exact (hr.parseName hs hpos hu c).mono (fun _ => Or.inl) fun _ h => h
  · simp only
    split
    next =>
      exact Or.inr ⟨fun h => ParserState.noConfusion, ⟨log, hr.of_same rfl rfl rfl rfl⟩,
        ParserState.noConfusion⟩
    next => exact Or.inr ⟨hnot, ⟨log, hr⟩, hname⟩
  · simp only
    split
    next =>
      exact Or.inr ⟨fun h => ParserState.noConfusion, ⟨log, hr.of_same rfl rfl rfl rfl⟩,
        fun _ => ⟨0, [], rfl, rfl⟩⟩
    next =>
      exact Or.inr ⟨fun h => ParserState.noConfusion, ⟨log, hr.of_same rfl rfl rfl rfl⟩,
        ParserState.noConfusion⟩
  · exact Or.inr ⟨hnot, ⟨log, hr⟩, hname⟩

/-- A table on which no header is being parsed. -/
theorem Settled.start {ah : AllocatedHeaders} {log : List Stored} (ht : Table (Good limits) ah log)
    (hs : Sealed limits log) (ietfSpecRevision : ℤ) :
    Settled limits (Hdr.start ah ietfSpecRevision) :=
  Or.inr ⟨fun _ => ParserState.noConfusion,
    ⟨log, ht, ⟨UriPathState.noConfusion, UriEscState.noConfusion⟩, hs⟩,
    fun _ => ⟨0, [], rfl, rfl⟩⟩

theorem Settled.init (limits : Option (ℕ → ℕ)) (frags : ℕ → Fragment) :
    Settled limits (Hdr.init frags) :=
  Settled.start (Table.init frags) (fun _ _ hx => absurd hx List.not_mem_nil) 0

theorem uriArgs_outOfBounds (hroom : ¬HasRoom s.ah) : s.uriArgs = .error .outOfBounds := by
  unfold Hdr.uriArgs
  rcases em (s.ah.pos < maxHeaderLen) with hpos | hpos
  · rw [Hdr.store_of_lt hpos]
    exact if_neg fun h => hroom ⟨hpos, h⟩
  · rw [Hdr.store, if_neg hpos]
    rfl

/-- Something is written behind the end of an array at a `?` only, and if there is no room. -/
theorem Settled.parse_outOfBounds_iff (hi : Settled limits s) :
    libwebsocketParse limits s c = .error .outOfBounds ↔
      ∃ s', Hdr.atQuestion (libwebsocketParse limits) s c = some s' ∧ ¬HasRoom s'.ah := by
  constructor
  · intro he
    rcases (yields_iff.mp (hi.parse c)).2 _ he with h | ⟨-, h⟩
    · exact Stop.noConfusion h
    · exact h
  · rintro ⟨s', hat, hroom⟩
    unfold Hdr.atQuestion at hat
    rcases hs : s.parserState with h | _ | _ | _ | _ <;> simp only [hs, reduceCtorEq] at hat
    split at hat
    next hh =>
      rcases hr : Hdr.uriByte (libwebsocketParse limits) s c with e | s'' | ⟨s'', c'⟩ <;>
        simp only [hr, reduceCtorEq] at hat
      split at hat
      next hc =>
        obtain rfl := Option.some.inj hat
        rw [libwebsocketParse_eq, Hdr.parseBody, hs]
        simp only
        rw [Hdr.parseValue, if_neg fun h => hh.2 h.2, if_neg (not_not.mpr hh.1), if_neg hh.2, hr]
        change (if c' = question then _ else _) = _
        rw [if_pos hc, uriArgs_outOfBounds hroom]
        rfl
      next => simp at hat
    next => simp at hat

/-- A byte for the state that the bytes before have led to. -/
def parseStep (limits : Option (ℕ → ℕ)) (r : Except Stop Hdr) (c : UInt8) :
    Option (Except Stop Hdr) :=
  some (r.bind fun s => libwebsocketParse limits s c)

theorem Settled.parseStep {r r' : Except Stop Hdr} (hr : Yields (· = .refused) (Settled limits) r)
    (hroom : ∀ s s', r = .ok s → Hdr.atQuestion (libwebsocketParse limits) s c = some s' →
      HasRoom s'.ah) (hstep : parseStep limits r c = some r') :
    Yields (· = .refused) (Settled limits) r' := by
  obtain rfl := Option.some.inj hstep
  rcases r with e | s
  · exact hr
  refine Yields.mono (Settled.parse hr c) (fun e he => ?_) fun _ h => h
  rcases he with he | ⟨-, s', hat, hno⟩
  · exact he
  · exact absurd (hroom s s' rfl hat) hno

end

/-! ## The strings of a client -/

section

variable {limits : Option (ℕ → ℕ)} {ah ah' : AllocatedHeaders} {log : List Stored} {x : Stored}
  {h : ℕ}

/-- A token of the client's own. No header is stored for it. -/
def IsClientToken (h : ℕ) : Prop := tokenHttpUriArgs < h ∧ h < tokenCount

theorem IsClientToken.not_isUri (hh : IsClientToken h) : ¬IsUri h := Lws.not_isUri hh.1.le

theorem IsClientToken.not_isArgs (hh : IsClientToken h) : ¬IsArgs h := fun hargs =>
  hargs.elim (Nat.ne_of_gt hh.1) (Nat.ne_of_lt hh.2)

/-- A string that is overwritten counts for no token. -/
theorem IsClientToken.canLose (hh : IsClientToken h) : CanLose h (tokenCount + 1) :=
  ⟨hh.1.le, Nat.le_succ _, iff_of_false (by rintro (heq | heq) <;> exact absurd heq (by decide))
    hh.not_isArgs⟩

theorem Table.putAll : ∀ {bytes : List UInt8} {ah : AllocatedHeaders} {x : Stored},
    ¬IsUri x.token → Table (Good limits) ah (log ++ [x]) → ah.putAll bytes = some ah' →
    Table (Good limits) ah' (log ++ [⟨x.token, x.bytes ++ bytes⟩])
  | [], _, x, _, ht, hrun => by
    obtain rfl := Option.some.inj hrun
    rwa [List.append_nil]
  | c :: bytes, ah, x, hx, ht, hrun => by
    rw [AllocatedHeaders.putAll] at hrun
    split at hrun
    next => cases hrun
    next hfull =>
      have hput := ht.put c (Nat.lt_of_le_of_ne ht.data hfull)
        (ht.last.push fun huri => absurd huri hx)
      have hrest := Table.putAll (x := x.push c) hx hput hrun
      rwa [Stored.push, List.append_assoc] at hrest

/-- Another string, whether the token has one already or not. -/
theorem Table.simpleCreate (ht : Table (Good limits) ah log) (hh : IsClientToken h)
    {s : List UInt8} (hrun : ah.lwsHdrSimpleCreate h s = some ah') :
    Table (Good limits) ah' (log.map (Stored.lose h (tokenCount + 1)) ++ [⟨h, s ++ [0]⟩]) := by
  have hroom := ht.room
  rw [AllocatedHeaders.lwsHdrSimpleCreate] at hrun
  split at hrun
  next => cases hrun
  next hfull =>
    rw [ht.layout.next] at hfull
    have hnew : Good limits (log.map (Stored.lose h (tokenCount + 1))) ⟨h, []⟩ 0 :=
      Good.start fun hargs => absurd hargs hh.not_isArgs
    have hfirst := ht.replace (by omega) hh.2 hh.canLose.lost_le
      (fun _ _ _ => Good.lose hh.canLose) hnew
    exact Table.putAll hh.not_isUri hfirst hrun

/-- What the calls of a client leave. -/
theorem Table.createAll : ∀ {calls : List (ℕ × List UInt8)} {ah : AllocatedHeaders}
    {log : List Stored}, Table (Good limits) ah log → Sealed limits log →
    (∀ call ∈ calls, IsClientToken call.1) → ah.createAll calls = some ah' →
    ∃ log', Table (Good limits) ah' log' ∧ Sealed limits log'
  | [], _, log, ht, hs, _, hrun => by
    obtain rfl := Option.some.inj hrun
    exact ⟨log, ht, hs⟩
  | call :: calls, ah, log, ht, hs, hcalls, hrun => by
    obtain ⟨hcall, hcalls⟩ := List.forall_mem_cons.mp hcalls
    obtain ⟨ah₁, hah₁, hrun⟩ := Option.bind_eq_some_iff.mp hrun
    have hsealed := (hs.lose call.1 (tokenCount + 1)).concat (x := ⟨call.1, call.2 ++ [0]⟩)
      fun _ => List.mem_append_right _ (List.mem_singleton_self 0)
    exact (ht.simpleCreate hcall hah₁).createAll hsealed hcalls hrun

end

/-- Whatever bytes come, for a request or for the response to a client, the parser ends on each and
stays inside of its arrays, exactly if there is room for the arguments of a path wherever they
begin. -/
theorem always_inside_iff (limits : Option (ℕ → ℕ)) {frags : ℕ → Fragment}
    {calls : List (ℕ × List UInt8)} {ah : AllocatedHeaders}
    (hcalls : ∀ call ∈ calls, IsClientToken call.1)
    (hcreate : (AllocatedHeaders.lwsAllocateHeaderTable frags).createAll calls = some ah)
    (ietfSpecRevision : ℤ) (bytes : List UInt8) :
    Always (parseStep limits) (fun r => r ≠ .error .outOfBounds ∧ r ≠ .error .endless)
      (.ok (Hdr.start ah ietfSpecRevision)) bytes ↔
    Each (parseStep limits)
      (fun r c => ∀ s s', r = .ok s → Hdr.atQuestion (libwebsocketParse limits) s c = some s' →
        HasRoom s'.ah)
      (.ok (Hdr.start ah ietfSpecRevision)) bytes := by
  have hinit : Table (Good limits) (AllocatedHeaders.lwsAllocateHeaderTable frags) [] :=
    Table.init frags
  obtain ⟨log, ht, hs⟩ :=
    hinit.createAll (fun _ _ hx => absurd hx List.not_mem_nil) hcalls hcreate
  refine always_iff_each (I := Yields (· = .refused) (Settled limits)) ?_ ?_ ?_
    (Settled.start ht hs ietfSpecRevision)
  · exact fun r c r' hr hroom hstep => Settled.parseStep hr hroom hstep
  · intro r hr
    constructor
    · rintro rfl
      exact Stop.noConfusion hr
    · rintro rfl
      exact Stop.noConfusion hr
  · rintro r c r' hr hstep ⟨hin, -⟩ s s' rfl hat
    by_contra hroom
    have hout := (Settled.parse_outOfBounds_iff hr).mpr ⟨s', hat, hroom⟩
    exact hin ((Option.some.inj hstep).symm.trans hout)

/-- The strings of a client that has gone on to its proxy. -/
def proxyStrings : List (ℕ × List UInt8) :=
  AllocatedHeaders.clientStrings (ascii "a.b") (ascii "/x") (ascii "a.b") none
      (some (ascii "chat")) ++ [(tokenClientPeerAddress, ascii "proxy")]

theorem always_inside_iff_proxy :
    ∃ ah, (AllocatedHeaders.lwsAllocateHeaderTable fun _ => ⟨0, 0, 0⟩).createAll proxyStrings =
        some ah ∧
      (Always (parseStep none) (fun r => r ≠ .error .outOfBounds ∧ r ≠ .error .endless)
          (.ok (Hdr.start ah 13)) (ascii "HTTP/1.1 101 Switching Protocols\r\n\r\n") ↔
        Each (parseStep none)
          (fun r c => ∀ s s', r = .ok s → Hdr.atQuestion (libwebsocketParse none) s c = some s' →
            HasRoom s'.ah)
          (.ok (Hdr.start ah 13)) (ascii "HTTP/1.1 101 Switching Protocols\r\n\r\n")) := by
  have hsome : ((AllocatedHeaders.lwsAllocateHeaderTable fun _ => ⟨0, 0, 0⟩).createAll
      proxyStrings).isSome = true := by decide +kernel
  obtain ⟨ah, hcreate⟩ := Option.isSome_iff_exists.mp hsome
  have hcalls : ∀ call ∈ proxyStrings, IsClientToken call.1 := by
    unfold IsClientToken
    decide +kernel
  exact ⟨ah, hcreate, always_inside_iff none hcalls hcreate 13 _⟩

/-! ## What has been stored -/

theorem mem_owned_of {h : ℕ} : ∀ {log : List Stored} {i k : ℕ} {x : Stored},
    log[k]? = some x → x.token = h → i + k + 1 ∈ owned h i log
  | y :: log, i, 0, x, hx, hh => by
    obtain rfl : y = x := by simpa using hx
    rw [owned, if_pos hh]
    exact List.mem_cons_self
  | y :: log, i, k + 1, x, hx, hh => by
    have ih := mem_owned_of (i := i + 1) (show log[k]? = some x by simpa using hx) hh
    rw [show i + (k + 1) + 1 = i + 1 + k + 1 by omega, owned]
    split
    · exact List.mem_cons_of_mem _ ih
    · exact ih

namespace Layout

variable {ah : AllocatedHeaders} {log : List Stored} {h : ℕ}

/-- `frag_index` has the first fragment. -/
theorem fragIndex_le (hl : Layout ah log) (hh : h < tokenCount) {k : ℕ} {x : Stored}
    (hx : log[k]? = some x) (htoken : x.token = h) :
    ah.fragIndex h ≠ 0 ∧ ah.fragIndex h ≤ k + 1 := by
  have hmem : k + 1 ∈ owned h 0 log := by simpa using mem_owned_of (i := 0) hx htoken
  have hlist := hl.lists h hh
  have hpair := owned_pairwise (h := h) log 0
  rcases howned : owned h 0 log with _ | ⟨i, is⟩
  · rw [howned] at hmem
    exact absurd hmem List.not_mem_nil
  rw [howned] at hmem hlist hpair
  obtain ⟨hi, h0, -⟩ := hlist
  rw [hi]
  refine ⟨h0, ?_⟩
  rcases List.mem_cons.mp hmem with rfl | hmem
  · exact Nat.le_refl _
  · exact ((List.pairwise_cons.mp hpair).1 _ hmem).le

theorem exists_of_fragIndex (hl : Layout ah log) (hh : h < tokenCount) (h0 : ah.fragIndex h ≠ 0) :
    ∃ k x, ah.fragIndex h = k + 1 ∧ log[k]? = some x ∧ x.token = h := by
  have hlist := hl.lists h hh
  rcases howned : owned h 0 log with _ | ⟨i, is⟩
  · exact absurd ((hl.fragIndex_eq_zero_iff hh).mpr howned) h0
  rw [howned] at hlist
  have hi : i ∈ owned h 0 log := by
    rw [howned]
    exact List.mem_cons_self
  obtain ⟨k, x, rfl, hx, htoken⟩ := mem_owned hi
  exact ⟨k, x, by rw [hlist.1, Nat.zero_add], hx, htoken⟩

end Layout

section

variable {frags : ℕ → Fragment} {bytes : List UInt8} {s : Hdr} {h : ℕ}

theorem Settled.parseAll {limits : Option (ℕ → ℕ)} : ∀ {bytes : List UInt8} {s t : Hdr},
    Settled limits s → parseAll limits s bytes = .ok t → Settled limits t
  | [], s, t, hi, ht => by
    obtain rfl := Except.ok.inj ht
    exact hi
  | c :: bytes, s, t, hi, ht => by
    unfold Lws.parseAll at ht
    have hstep := hi.parse c
    rcases hc : libwebsocketParse limits s c with e | s'
    · rw [hc] at ht
      exact nomatch ht
    · rw [hc] at ht hstep
      exact hstep.parseAll ht

/-- Between two headers each fragment is a string of its own. -/
theorem rest_of_parseAll (hrun : parseAll none (Hdr.init frags) bytes = .ok s)
    (hidle : ∀ k, s.parserState ≠ .token k) : ∃ log, Resting none s log := by
  rcases (Settled.init none frags).parseAll hrun with ⟨k, _, _, hk, -⟩ | ⟨-, hr, -⟩
  · exact absurd hk (hidle k)
  · exact hr

theorem length_takeWhile_le_countP (l : List UInt8) :
    (l.takeWhile (· ≠ 0)).length ≤ l.countP (· ≠ 0) := by
  rw [← List.countP_eq_length.mpr fun c hc => List.all_eq_true.mp List.all_takeWhile c hc]
  exact (List.takeWhile_sublist _).countP_le

/-- A request with a way up in its path, which begins two directories below the root. -/
def shortRequest : List UInt8 := ascii "GET /a/../../b HTTP/1.1\r\nHost: a\r\n\r\n"

/-- Whatever was received of a request, a copy of a header that is no path ends, and it is inside of
the place given for it. -/
theorem lwsHdrCopy_inside (hrun : parseAll none (Hdr.init frags) bytes = .ok s)
    (hidle : ∀ k, s.parserState ≠ .token k) (hh : h < tokenCount) (huri : ¬IsUri h) (m : Mem)
    (len : ℤ) :
    ∃ r m', s.ah.lwsHdrCopy m len h = some (r, m') ∧ (r = -1 ∨ 0 ≤ r ∧ r < len) ∧
      ∀ j, j < 0 ∨ len ≤ j → m' j = m j := by
  obtain ⟨log, hr⟩ := rest_of_parseAll hrun hidle
  have hfrags := hr.table.layout.hdrFrags hr.table.room.le hh
  have hstrings : ∀ i ∈ owned h 0 log, ∃ t, s.ah.cString (s.ah.frags i).offset = some t ∧
      t.length ≤ (s.ah.frags i).len := by
    intro i hi
    obtain ⟨k, x, rfl, hx, htoken⟩ := mem_owned hi
    rw [Nat.zero_add]
    refine ⟨_, hr.table.layout.cString hx (hr.seals rfl x (List.mem_of_getElem? hx)), ?_⟩
    rw [(hr.table.kept.getElem hx).count rfl (htoken ▸ huri)]
    exact length_takeWhile_le_countP _
  unfold AllocatedHeaders.lwsHdrCopy AllocatedHeaders.lwsHdrTotalLength
  rw [hfrags]
  simp only [Option.map_some, Option.bind_some]
  split
  next => exact ⟨-1, m, rfl, Or.inl rfl, fun _ _ => rfl⟩
  next hlen =>
    obtain ⟨m', hm', hframe⟩ := copyFrags_frame (a := 0) (m := m) hstrings
    rw [hm']
    refine ⟨_, m', rfl, Or.inr ⟨by positivity, by omega⟩, fun j hj => hframe j ?_⟩
    omega

/-- What is copied of the header `Host`. -/
theorem lwsHdrCopy_inside_shortRequest :
    ∃ s r m', parseAll none (Hdr.init fun _ => ⟨0, 0, 0⟩) shortRequest = .ok s ∧
      s.ah.lwsHdrCopy (fun _ => 7) 4 tokenHost = some (r, m') ∧ (r = -1 ∨ 0 ≤ r ∧ r < 4) ∧
      ∀ j, j < 0 ∨ 4 ≤ j → m' j = 7 := by
  obtain ⟨s, hrun, hs⟩ := exists_of_map_toOption (show
    (parseAll none (Hdr.init fun _ => ⟨0, 0, 0⟩) shortRequest).toOption.map Hdr.parserState =
      some .complete by decide +kernel)
  have hidle : ∀ k, s.parserState ≠ .token k :=
    fun k hk => ParserState.noConfusion (hs.symm.trans hk)
  obtain ⟨r, m', hcopy⟩ :=
    lwsHdrCopy_inside hrun hidle (h := tokenHost) (by decide) (by decide) (fun _ => 7) 4
  exact ⟨s, r, m', hrun, hcopy⟩

-- A path may have zeros in it that are counted on the way up : one byte is copied as four.
example : ((parseAll none (Hdr.init fun _ => ⟨0, 0, 0⟩)
    (ascii "GET /ab%00%00/.. HTTP/1.1\r\n\r\n")).toOption.bind fun s =>
      (s.ah.lwsHdrCopy (fun _ => 7) 2 tokenGetUri).map fun r => (r.1, r.2 3)) = some (1, 0) := by
  decide +kernel

-- Behind a `?` the path of a second method is taken for arguments : it goes up.
example : ((parseAll none (Hdr.init fun _ => ⟨0, 0, 0⟩)
    (ascii "OPTIONS /?x HTTP/1.1\r\nGET /../a HTTP/1.1\r\n\r\n")).toOption.map fun s =>
      s.ah.lwsHdrSimplePtr tokenGetUri) = some (some (some (ascii "/../a"))) := by
  decide +kernel

end

end Lws

end MySocket
