import MySocket.FrameReader

/-!
# What the callbacks are given

* `rx_data` : of messages each callback is given a part that fits the buffer, with what is left of
  its frame, and whether it is text or binary. The parts are the payloads, one after the other.
* `rx_pings` : of the pings that come before the socket can be written to, the server answers the
  first one that has a payload.
* `rx_unreadable` : after a frame whose end the server does not find, all that comes is payload.
* `rx_safe` : whatever bytes come, the reader stays in its buffer, and no pong is longer than a
  control frame may be.
-/

namespace MySocket

namespace Lws

open WebSocket

/-! ## Spills -/

section

variable {limit : ℕ}

/-- The parts are the payload. -/
theorem spills_flatten : ∀ b p : List UInt8, (spills limit b p).flatMap Prod.fst = b ++ p
  | b, [] => by simp [spills]
  | b, [x] => by simp [spills]
  | b, x :: y :: p => by
    rw [spills]
    split_ifs
    · rw [List.flatMap_cons, spills_flatten [] (y :: p)]
      simp
    · rw [spills_flatten (b ++ [x]) (y :: p)]
      simp

theorem spills_length : ∀ {b p : List UInt8}, b.length < limit → 0 < limit →
    ∀ q ∈ spills limit b p, q.1.length ≤ limit
  | b, [], hb, _, q, hq => by
    obtain rfl := List.mem_singleton.mp hq
    exact hb.le
  | b, [x], hb, _, q, hq => by
    obtain rfl := List.mem_singleton.mp hq
    simpa using Nat.succ_le_of_lt hb
  | b, x :: y :: p, hb, hlimit, q, hq => by
    rw [spills] at hq
    split_ifs at hq with hfull
    · rcases List.mem_cons.mp hq with rfl | hq
      · simp [hfull]
      · exact spills_length (b := []) hlimit hlimit q hq
    · exact spills_length (by simp; omega) hlimit q hq

/-- No part is empty unless the payload is. -/
theorem spills_ne_nil : ∀ {b p : List UInt8}, p ≠ [] → ∀ q ∈ spills limit b p, q.1 ≠ []
  | _, [], h, _, _ => absurd rfl h
  | b, [x], _, q, hq => by
    obtain rfl := List.mem_singleton.mp hq
    simp
  | b, x :: y :: p, _, q, hq => by
    rw [spills] at hq
    split_ifs at hq
    · rcases List.mem_cons.mp hq with rfl | hq
      · simp
      · exact spills_ne_nil (List.cons_ne_nil y p) q hq
    · exact spills_ne_nil (List.cons_ne_nil y p) q hq

theorem singleton_eq_append_cons {α : Type*} {a b : α} {before after : List α}
    (h : [a] = before ++ b :: after) : a = b ∧ after = [] := by
  rcases before with _ | ⟨_, before⟩
  · exact ⟨(List.cons.inj h).1, (List.cons.inj h).2.symm⟩
  · simp at h

/-- With each part goes the number of bytes in the parts behind it. -/
theorem spills_remaining : ∀ {b p : List UInt8} {before after : List (List UInt8 × ℕ)}
    {q : List UInt8 × ℕ}, spills limit b p = before ++ q :: after →
    q.2 = (after.flatMap Prod.fst).length
  | b, [], before, after, q, h => by
    obtain ⟨rfl, rfl⟩ := singleton_eq_append_cons h
    rfl
  | b, [x], before, after, q, h => by
    obtain ⟨rfl, rfl⟩ := singleton_eq_append_cons h
    rfl
  | b, x :: y :: p, before, after, q, h => by
    rw [spills] at h
    split_ifs at h
    · rcases before with _ | ⟨q', before⟩
      · obtain ⟨rfl, rfl⟩ := List.cons.inj h
        rw [spills_flatten]
        simp
      · exact spills_remaining (List.cons.inj h).2
    · exact spills_remaining h

end

/-! ## Messages -/

def IsDataFrame (f : Frame) : Prop :=
  f.opcode = 0 ∨ f.opcode = 1 ∨ f.opcode = 2

/-- Whether a frame that comes after one that is binary, or is not, is binary. -/
def isBinaryAfter (isBinary : Bool) (f : Frame) : Bool :=
  if f.opcode = 1 ∨ f.opcode = 2 then f.opcode = 2 else isBinary

def Side.reason : Side → Reason
  | .server => .receive
  | .client => .clientReceive

/-- The callbacks for the messages in `frames`. -/
def deliveries (side : Side) (limit : ℕ) : Bool → List Frame → List RxEvent
  | _, [] => []
  | isBinary, f :: frames =>
    (spills limit [] f.payload).map (fun q => .callback
      ⟨side.reason, q.1, isBinaryAfter isBinary f, f.fin, q.2⟩) ++
      deliveries side limit (isBinaryAfter isBinary f) frames

/-- The callback never closes the connection. -/
def Protocol.GoesOn (side : Side) (protocol : Protocol) : Prop :=
  ∀ events, match side with
    | .server => 0 ≤ protocol.callback events
    | .client => protocol.callback events = 0

section

variable {side : Side} {protocol : Protocol} {link : Link}

theorem spill_data (hopcode : link.opcode = 0 ∨ link.opcode = 1 ∨ link.opcode = 2)
    (hgo : protocol.GoesOn side) {b : List UInt8} (hb : b ≠ []) (n : ℕ) :
    spill side protocol link b n =
      ⟨{ link with
          events := link.events ++
            [.callback ⟨side.reason, b, link.frameIsBinary, link.final, n⟩] },
        [.callback ⟨side.reason, b, link.frameIsBinary, link.final, n⟩], false⟩ := by
  have hlen : 0 < b.length := List.length_pos_iff.mpr hb
  have h8 : ¬ link.opcode = 8 := by rcases hopcode with h | h | h <;> simp [h]
  have h9 : ¬ link.opcode = 9 := by rcases hopcode with h | h | h <;> simp [h]
  have h10 : ¬ link.opcode = 10 := by rcases hopcode with h | h | h <;> simp [h]
  rcases side with _ | _
  · have hback := hgo (link.events ++
      [.callback ⟨.receive, b, link.frameIsBinary, link.final, n⟩])
    simp only [spill, serverSpill]
    rw [if_neg h8, if_neg h9, if_neg h10, if_pos (by tauto), if_pos hlen]
    simpa [Side.reason] using hback
  · have hback := hgo (link.events ++
      [.callback ⟨.clientReceive, b, link.frameIsBinary, link.final, n⟩])
    simp only [spill, clientSpill]
    rw [if_neg h8, if_neg h9, if_neg h10, if_pos hopcode, if_neg (Nat.not_le.mpr hlen)]
    simpa [Side.reason] using hback

theorem feed_spills_data (hgo : protocol.GoesOn side) : ∀ {qs : List (List UInt8 × ℕ)}
    {link : Link}, link.opcode = 0 ∨ link.opcode = 1 ∨ link.opcode = 2 → (∀ q ∈ qs, q.1 ≠ []) →
    feed (fun link q => spill side protocol link q.1 q.2) link qs =
      ⟨{ link with
          events := link.events ++ qs.map fun q => .callback
            ⟨side.reason, q.1, link.frameIsBinary, link.final, q.2⟩ },
        qs.map fun q => .callback ⟨side.reason, q.1, link.frameIsBinary, link.final, q.2⟩, false⟩
  | [], link, _, _ => by
    rw [List.map_nil, List.append_nil]
    rfl
  | q :: qs, link, hopcode, hqs => by
    obtain ⟨hq, hqs⟩ := List.forall_mem_cons.mp hqs
    have hrest := @feed_spills_data hgo qs { link with
      events := link.events ++
        [.callback ⟨side.reason, q.1, link.frameIsBinary, link.final, q.2⟩] } hopcode hqs
    rw [List.append_assoc] at hrest
    rw [feed_cons, spill_data hopcode hgo hq, Outcome.andThen, if_neg (by simp), hrest]
    rfl

/-- A frame of a message. -/
theorem frameStep_data {f : Frame} (hdata : IsDataFrame f) (hpayload : f.payload ≠ [])
    (hgo : protocol.GoesOn side) :
    frameStep side protocol link f =
      ⟨{ link.handleFirst f.first with
          events := link.events ++ (spills protocol.rxLimit [] f.payload).map fun q => .callback
            ⟨side.reason, q.1, isBinaryAfter link.frameIsBinary f, f.fin, q.2⟩ },
        (spills protocol.rxLimit [] f.payload).map fun q => .callback
          ⟨side.reason, q.1, isBinaryAfter link.frameIsBinary f, f.fin, q.2⟩, false⟩ := by
  have hctl : ¬ (f.field ≠ .short ∧ (link.handleFirst f.first).opcode &&& 8 ≠ 0) := by
    have hopcode : (link.handleFirst f.first).opcode = f.opcode := rfl
    rw [hopcode]
    rintro ⟨-, h8⟩
    rcases hdata with h | h | h <;> exact h8 (by rw [h]; decide)
  rw [frameStep]
  simp only [if_neg hctl]
  exact @feed_spills_data side protocol hgo _ (link.handleFirst f.first) hdata
    (spills_ne_nil hpayload)

theorem feed_data (hgo : protocol.GoesOn side) : ∀ {frames : List Frame} {link : Link},
    (∀ f ∈ frames, IsDataFrame f ∧ f.payload ≠ []) →
    (feed (frameStep side protocol) link frames).output =
        deliveries side protocol.rxLimit link.frameIsBinary frames ∧
      (feed (frameStep side protocol) link frames).stopped = false
  | [], _, _ => ⟨rfl, rfl⟩
  | f :: frames, link, hframes => by
    obtain ⟨⟨hdata, hpayload⟩, hframes⟩ := List.forall_mem_cons.mp hframes
    obtain ⟨hout, hstop⟩ := feed_data hgo hframes
    rw [feed_cons, frameStep_data hdata hpayload hgo, Outcome.andThen, if_neg (by simp)]
    exact ⟨congrArg (_ ++ ·) hout, hstop⟩

/-- What a callback is given. -/
def RxEvent.token : RxEvent → List UInt8
  | .callback received => received.token
  | .writeClose token => token
  | .writePong token => token
  | .callbackOnWritable => []

theorem deliveries_flatMap_token (side : Side) (limit : ℕ) : ∀ (isBinary : Bool)
    (frames : List Frame),
    (deliveries side limit isBinary frames).flatMap RxEvent.token = frames.flatMap Frame.payload
  | _, [] => rfl
  | isBinary, f :: frames => by
    have hspills := @spills_flatten limit [] f.payload
    rw [deliveries, List.flatMap_append, List.flatMap_cons, deliveries_flatMap_token,
      List.flatMap_map]
    exact congrArg (· ++ frames.flatMap Frame.payload) hspills

/-- The callbacks for messages, in packets of any kind. They are given the payloads, whole and in
order. -/
theorem rx_data {s : Ws} {frames : List Frame} {packets : List (List UInt8)}
    (hgo : protocol.GoesOn side) (hs : AtFrame s link)
    (hframes : ∀ f ∈ frames, IsDataFrame f ∧ f.payload ≠ []) (hread : ∀ f ∈ frames, Readable side f)
    (hpackets : packets.flatten = frames.flatMap Frame.bytes) :
    (feed (feed (rxSm side protocol)) s packets).output =
        deliveries side protocol.rxLimit link.frameIsBinary frames ∧
      (feed (feed (rxSm side protocol)) s packets).output.flatMap RxEvent.token =
        frames.flatMap Frame.payload := by
  have hout : (feed (feed (rxSm side protocol)) s packets).output =
      deliveries side protocol.rxLimit link.frameIsBinary frames := by
    rw [feed_flatten, hpackets, (feed_frames hs hread).output]
    exact (feed_data hgo hframes).1
  exact ⟨hout, by rw [hout, deliveries_flatMap_token]⟩

theorem rx_data_hi :
    (feed (feed (rxSm .client ⟨1, fun _ => 0⟩)) .init [[0x81], [2, 104, 105]]).output =
        deliveries .client 1 false [Frame.minimal 0x81 none [104, 105] (by decide)] ∧
      (feed (feed (rxSm .client ⟨1, fun _ => 0⟩)) .init [[0x81], [2, 104, 105]]).output.flatMap
        RxEvent.token = [104, 105] :=
  @rx_data .client ⟨1, fun _ => 0⟩ Ws.init.link .init
    [Frame.minimal 0x81 none [104, 105] (by decide)] _ (fun _ => rfl) atFrame_init
    (by simp [IsDataFrame, Frame.opcode, Frame.minimal]; decide)
    (by simp [Readable, Frame.minimal]) (by decide)

end

/-! ## Pings -/

section

variable {protocol : Protocol} {link : Link}

/-- The first part fills the buffer if it can. -/
theorem spills_eq_cons {limit : ℕ} : ∀ {b p : List UInt8}, b.length < limit →
    ∃ n rest, spills limit b p = (b ++ p.take (limit - b.length), n) :: rest ∧ (p = [] → rest = [])
  | b, [], _ => ⟨0, [], by simp [spills], fun _ => rfl⟩
  | b, [x], h => ⟨0, [], by
      rw [spills, List.take_of_length_le (by simp; omega)], fun _ => rfl⟩
  | b, x :: y :: p, h => by
    rw [spills]
    split_ifs with hfull
    · refine ⟨p.length + 1, spills limit [] (y :: p), ?_, fun h => absurd h (by simp)⟩
      rw [show limit - b.length = 1 by omega]
      rfl
    · obtain ⟨n, rest, hspills, -⟩ := @spills_eq_cons limit (b ++ [x]) (y :: p) (by simp; omega)
      refine ⟨n, rest, ?_, fun h => absurd h (by simp)⟩
      rw [hspills, show limit - b.length = limit - (b ++ [x]).length + 1 by simp; omega]
      simp

theorem spill_ping (hopcode : link.opcode = 9) (b : List UInt8) (n : ℕ) :
    spill .server protocol link b n =
      if link.pingPayload = [] then
        ⟨{ link with
          pingPayloadAlloc := some (pingAlloc link.pingPayloadAlloc b.length)
          pingPayload := b
          events := link.events ++ [.callbackOnWritable] }, [.callbackOnWritable], false⟩
      else .go link := by
  simp only [spill, serverSpill]
  rw [if_neg (by simp [hopcode]), if_pos hopcode]
  rcases em (link.pingPayload = []) with hnone | hsome
  · rw [if_pos hnone, if_neg (by simp [hnone]), if_neg (by simp [hnone])]
  · rw [if_neg hsome, if_pos (by simpa using hsome)]
    simp [Outcome.go]

/-- A ping while another is to be answered is dropped. -/
theorem feed_spills_pending (hopcode : link.opcode = 9) (hping : link.pingPayload ≠ []) :
    ∀ qs : List (List UInt8 × ℕ),
      feed (fun link q => spill .server protocol link q.1 q.2) link qs = .go link
  | [] => rfl
  | q :: qs => by
    rw [feed_cons, spill_ping hopcode, if_neg hping, Outcome.go_andThen,
      feed_spills_pending hopcode hping qs]

/-- What the server keeps of a ping. -/
theorem frameStep_ping {f : Frame} (hopcode : f.opcode = 9) (hshort : f.field = .short) :
    (frameStep .server protocol link f).stopped = false ∧
      (frameStep .server protocol link f).state.pingPayload =
        if link.pingPayload = [] then f.payload.take protocol.rxLimit else link.pingPayload := by
  have hop : (link.handleFirst f.first).opcode = 9 := hopcode
  rw [frameStep]
  simp only [if_neg (fun h => h.1 hshort : ¬ (f.field ≠ .short ∧ _))]
  rcases em (link.pingPayload = []) with hnone | hsome
  · obtain ⟨n, rest, hspills, hrest⟩ := @spills_eq_cons protocol.rxLimit [] f.payload
      (rxLimit_pos protocol)
    rw [List.nil_append, List.length_nil, Nat.sub_zero] at hspills
    have hnone' : (link.handleFirst f.first).pingPayload = [] := hnone
    rw [if_pos hnone, hspills, feed_cons, spill_ping hop, if_pos hnone']
    rcases em (f.payload = []) with hempty | hsome
    · rw [hrest hempty]
      exact ⟨rfl, rfl⟩
    · have hpart : f.payload.take protocol.rxLimit ≠ [] := by
        simpa [Nat.pos_iff_ne_zero.mp (rxLimit_pos protocol)] using hsome
      have hdropped := @feed_spills_pending protocol { link.handleFirst f.first with
        pingPayloadAlloc := some (pingAlloc (link.handleFirst f.first).pingPayloadAlloc
          (f.payload.take protocol.rxLimit).length)
        pingPayload := f.payload.take protocol.rxLimit
        events := (link.handleFirst f.first).events ++ [.callbackOnWritable] } hop hpart rest
      simp only [Outcome.andThen, hdropped]
      exact ⟨rfl, rfl⟩
  · rw [if_neg hsome, feed_spills_pending hop hsome]
    exact ⟨rfl, rfl⟩

/-- The first of the pings with a payload, if none is to be answered already. -/
theorem feed_pings : ∀ {frames : List Frame} {link : Link},
    (∀ f ∈ frames, f.opcode = 9 ∧ f.field = .short) →
    (feed (frameStep .server protocol) link frames).stopped = false ∧
      (feed (frameStep .server protocol) link frames).state.pingPayload =
        ((link.pingPayload :: frames.map fun f => f.payload.take protocol.rxLimit).find?
          (· ≠ [])).getD []
  | [], link, _ => by
    refine ⟨rfl, ?_⟩
    rcases h : link.pingPayload with _ | ⟨b, bs⟩ <;> simp [Outcome.go, h]
  | f :: frames, link, hframes => by
    obtain ⟨⟨hopcode, hshort⟩, hframes⟩ := List.forall_mem_cons.mp hframes
    obtain ⟨hgoes, hping⟩ := @frameStep_ping protocol link f hopcode hshort
    obtain ⟨hrest, hpings⟩ := @feed_pings frames (frameStep .server protocol link f).state hframes
    rw [feed_cons, Outcome.andThen, if_neg (by simp [hgoes])]
    refine ⟨hrest, ?_⟩
    simp only [hpings, hping]
    split_ifs with hnone
    · simp [hnone]
    · simp [hnone]

/-- Of pings in packets of any kind, which the server is to answer when it can write. -/
theorem rx_pings {s : Ws} {frames : List Frame} {packets : List (List UInt8)} (hs : AtFrame s link)
    (hframes : ∀ f ∈ frames, f.opcode = 9 ∧ f.field = .short)
    (hpackets : packets.flatten = frames.flatMap Frame.bytes) :
    (feed (feed (rxSm .server protocol)) s packets).stopped = false ∧
      (feed (feed (rxSm .server protocol)) s packets).state.link.pingPayload =
        ((link.pingPayload :: frames.map fun f => f.payload.take protocol.rxLimit).find?
          (· ≠ [])).getD [] := by
  obtain ⟨hgoes, hping⟩ := @feed_pings protocol frames link hframes
  have hread : ∀ f ∈ frames, Readable .server f := fun f hf => Or.inr (Or.inl (hframes f hf).2)
  have hagrees := @feed_frames .server protocol s link frames hs hread
  have hstopped := hagrees.stopped.trans hgoes
  rw [feed_flatten, hpackets]
  exact ⟨hstopped, by rw [(hagrees.state hstopped).link, hping]⟩

/-- A ping of no bytes is not answered, and neither is a second one. -/
theorem rx_pings_three :
    (feed (feed (rxSm .server ⟨0, fun _ => 0⟩)) .init [[0x89, 0x00, 0x89], [1, 7, 0x89, 1, 8]]).stopped
        = false ∧
      (feed (feed (rxSm .server ⟨0, fun _ => 0⟩)) .init
        [[0x89, 0x00, 0x89], [1, 7, 0x89, 1, 8]]).state.link.pingPayload = [7] :=
  @rx_pings ⟨0, fun _ => 0⟩ Ws.init.link .init
    [Frame.minimal 0x89 none [] (by decide), Frame.minimal 0x89 none [7] (by decide),
      Frame.minimal 0x89 none [8] (by decide)] _ atFrame_init
    (by simp [Frame.opcode, Frame.minimal, Frame.shortest]; decide) (by decide)

end

/-! ## Frames without an end -/

section

variable {protocol : Protocol} {link : Link}

/-- Bytes that do not end the payload, of which `n` bytes are to come. -/
theorem feed_swallow (hgo : protocol.GoesOn .server) : ∀ {bytes : List UInt8} {s : Ws} {n : ℕ},
    s.rxParseState = .payloadUntilLengthExhausted → s.rxPacketLength = n % 2 ^ 64 → n ≤ 2 ^ 64 →
    bytes.length < n → s.allZeroNonce = true →
    (s.link.opcode = 0 ∨ s.link.opcode = 1 ∨ s.link.opcode = 2) →
    (feed (rxSm .server protocol) s bytes).stopped = false ∧
      (feed (rxSm .server protocol) s bytes).output.flatMap RxEvent.token ++
        (feed (rxSm .server protocol) s bytes).state.rxUserBuffer = s.rxUserBuffer ++ bytes
  | [], s, n, _, _, _, _, _, _ => ⟨rfl, by simp [Outcome.go]⟩
  | c :: bytes, s, n, hstate, hlen, hle, hlt, hzero, hdata => by
    have hmask : s.unmask .server c = { s with rxUserBuffer := s.rxUserBuffer ++ [c] } := by
      rw [Ws.unmask, if_pos (Or.inr hzero)]
    have hpred : (s.rxPacketLength + (2 ^ 64 - 1)) % 2 ^ 64 = n - 1 := by
      simp only [List.length_cons] at hlt
      omega
    have hmore : ¬ n - 1 = 0 := by
      simp only [List.length_cons] at hlt
      omega
    have hlt' : bytes.length < n - 1 := by
      simp only [List.length_cons] at hlt
      omega
    have hmod : n - 1 = (n - 1) % 2 ^ 64 := (Nat.mod_eq_of_lt (by omega)).symm
    rw [feed_cons, rxSm_payload hstate, hmask, hpred]
    simp only [if_neg hmore]
    rcases em ((s.rxUserBuffer ++ [c]).length ≠ protocol.rxLimit) with hroom | hfull
    · rw [if_pos hroom, Outcome.go_andThen]
      obtain ⟨hgoes, htokens⟩ := feed_swallow hgo
        (s := { s with rxPacketLength := n - 1, rxUserBuffer := s.rxUserBuffer ++ [c] }) hstate hmod
        (by omega) hlt' hzero hdata
      exact ⟨hgoes, by rw [htokens]; simp⟩
    · have hspill := @spill_data .server protocol s.link hdata hgo (s.rxUserBuffer ++ [c])
        (by simp) (n - 1)
      rw [if_neg hfull, Ws.spill]
      simp only [hspill, Outcome.andThen]
      obtain ⟨hgoes, htokens⟩ := feed_swallow hgo
        (s := { s with rxPacketLength := n - 1, rxUserBuffer := [], link := { s.link with
          events := s.link.events ++ [.callback ⟨Side.server.reason, s.rxUserBuffer ++ [c],
            s.link.frameIsBinary, s.link.final, n - 1⟩] } }) hstate hmod (by omega) hlt' hzero hdata
      refine ⟨hgoes, ?_⟩
      simp only [Bool.false_eq_true, if_false, List.flatMap_append, List.append_assoc, htokens]
      simp [RxEvent.token]

/-- The header of a frame that is not `Readable`. -/
theorem feed_unreadable_header {s : Ws} {f : Frame} (hs : AtFrame s link)
    (hkey : f.key = none) (hfield : f.field ≠ .short) (hpayload : f.payload = [])
    (hdata : IsDataFrame f) :
    ∃ s', feed (rxSm .server protocol) s f.bytes = .go s' ∧
      s'.rxParseState = .payloadUntilLengthExhausted ∧ s'.rxPacketLength = 0 ∧
      s'.allZeroNonce = true ∧ s'.rxUserBuffer = [] ∧ s'.link = link.handleFirst f.first := by
  obtain ⟨hstate, hbuffer, rfl⟩ := hs
  have hctl : ¬ (s.link.handleFirst f.first).opcode &&& 8 ≠ 0 := fun h8 => by
    have hopcode : (s.link.handleFirst f.first).opcode = f.opcode := rfl
    rw [hopcode] at h8
    rcases hdata with h | h | h <;> exact h8 (by rw [h]; decide)
  have hbytes : f.bytes = f.first :: f.second :: f.extendedLength := by
    simp [Frame.bytes, Frame.header, Frame.keyBytes_none hkey, Frame.body_none hkey, hpayload]
  rw [hbytes, feed_cons, rxSm_new hstate, Outcome.go_andThen, feed_cons,
    rxSm_second rfl (fun _ => hkey)]
  rcases hfield' : f.field with _ | _ | _
  · exact absurd hfield' hfield
  · simp only [if_neg hctl, Outcome.go_andThen, Frame.extendedLength, hfield', hpayload, hkey,
      List.length_nil]
    rw [feed_medium rfl (by decide)]
    exact ⟨_, rfl, rfl, rfl, by simp, hbuffer, rfl⟩
  · simp only [if_neg hctl, Outcome.go_andThen, Frame.extendedLength, hfield', hpayload, hkey,
      List.length_nil]
    rw [feed_long rfl (by decide)]
    exact ⟨_, rfl, rfl, rfl, by simp, hbuffer, rfl⟩

/-- What comes after a message of no bytes that has one of the longer fields and no key. -/
theorem rx_unreadable {s : Ws} {f : Frame} {bytes : List UInt8} (hgo : protocol.GoesOn .server)
    (hs : AtFrame s link) (hkey : f.key = none) (hfield : f.field ≠ .short)
    (hpayload : f.payload = []) (hdata : IsDataFrame f) (hlt : bytes.length < 2 ^ 64) :
    (feed (rxSm .server protocol) s (f.bytes ++ bytes)).stopped = false ∧
      (feed (rxSm .server protocol) s (f.bytes ++ bytes)).output.flatMap RxEvent.token ++
        (feed (rxSm .server protocol) s (f.bytes ++ bytes)).state.rxUserBuffer = bytes := by
  obtain ⟨s', hheader, hstate, hlen, hzero, hbuffer, hlink⟩ :=
    @feed_unreadable_header protocol link s f hs hkey hfield hpayload hdata
  have hswallow := feed_swallow hgo hstate (n := 2 ^ 64) (by simpa using hlen) le_rfl hlt hzero
    (by rw [hlink]; exact hdata)
  rw [feed_append, hheader, Outcome.go_andThen]
  rwa [hbuffer, List.nil_append] at hswallow

/-- A text of no bytes with its length in 16 bits. -/
def emptyText : Frame :=
  ⟨0x81, .medium, none, [], Nat.zero_le _⟩

/-- The text that follows it is payload, with its header. -/
theorem rx_unreadable_hi :
    (feed (rxSm .server ⟨0, fun _ => 0⟩) .init (emptyText.bytes ++ [0x81, 2, 104, 105])).stopped
        = false ∧
      (feed (rxSm .server ⟨0, fun _ => 0⟩) .init
          (emptyText.bytes ++ [0x81, 2, 104, 105])).output.flatMap RxEvent.token ++
        (feed (rxSm .server ⟨0, fun _ => 0⟩) .init
          (emptyText.bytes ++ [0x81, 2, 104, 105])).state.rxUserBuffer = [0x81, 2, 104, 105] :=
  rx_unreadable (fun _ => le_rfl) atFrame_init rfl (by decide) rfl
    (by simp [IsDataFrame, Frame.opcode, emptyText]; decide) (by simp)

end

/-! ## Closing -/

section

variable {side : Side} {protocol : Protocol} {link : Link}

/-- The payload of a close frame is sent back. -/
theorem frameStep_close {f : Frame} (hopcode : f.opcode = 8) (hshort : f.field = .short)
    (hstate : link.state ≠ .awaitingCloseAck) :
    (frameStep side protocol link f).output = [.writeClose (f.payload.take protocol.rxLimit)] := by
  have hop : (link.handleFirst f.first).opcode = 8 := hopcode
  have hstate' : (link.handleFirst f.first).state ≠ .awaitingCloseAck := hstate
  obtain ⟨n, rest, hspills, -⟩ := @spills_eq_cons protocol.rxLimit [] f.payload
    (rxLimit_pos protocol)
  rw [List.nil_append, List.length_nil, Nat.sub_zero] at hspills
  have hspill : (spill side protocol (link.handleFirst f.first)
        (f.payload.take protocol.rxLimit) n).stopped = true ∧
      (spill side protocol (link.handleFirst f.first) (f.payload.take protocol.rxLimit) n).output =
        [.writeClose (f.payload.take protocol.rxLimit)] := by
    rcases side with _ | _
    · simp only [spill, serverSpill]
      rw [if_pos hop, if_neg hstate']
      exact ⟨rfl, rfl⟩
    · simp only [spill, clientSpill]
      rw [if_pos hop, if_neg hstate']
      exact ⟨rfl, rfl⟩
  rw [frameStep]
  simp only [if_neg (fun h => h.1 hshort : ¬ (f.field ≠ .short ∧ _))]
  rw [hspills, feed_cons, Outcome.andThen_of_stopped hspill.1]
  exact hspill.2

end

/-! ## Bounds -/

/-- The payload of a control frame. The client takes the bit of the mask for a part of it. -/
def Side.controlMax : Side → ℕ
  | .server => 125
  | .client => 253

/-- A callback is given no more than the buffer holds, and what is sent in answer to a control
frame is no longer than one. -/
def RxEvent.Safe (side : Side) (protocol : Protocol) : RxEvent → Prop
  | .callback received => received.token.length ≤ protocol.rxLimit
  | .writeClose token => token.length ≤ side.controlMax
  | .writePong token => token.length ≤ side.controlMax
  | .callbackOnWritable => True

/-- The payload to answer a ping with is in its buffer, and is that of a control frame. -/
structure Link.Safe (side : Side) (link : Link) : Prop where
  alloc : link.pingPayload.length ≤ link.pingPayloadAlloc.getD 0
  ping : link.pingPayload.length ≤ side.controlMax

/-- What holds between two bytes. -/
structure Ws.Safe (side : Side) (protocol : Protocol) (s : Ws) : Prop where
  buffer : s.rxUserBuffer.length < protocol.rxLimit
  empty : s.rxParseState ≠ .payloadUntilLengthExhausted → s.rxUserBuffer = []
  control : s.link.opcode &&& 8 ≠ 0 →
    match s.rxParseState with
    | .new => True
    | .frameHdrLen => True
    | .collectFrameKey _ => s.rxPacketLength ≤ side.controlMax
    | .payloadUntilLengthExhausted => 0 < s.rxPacketLength ∧
        s.rxUserBuffer.length + s.rxPacketLength ≤ side.controlMax
    | _ => False
  link : s.link.Safe side

section

variable {side : Side} {protocol : Protocol} {link : Link} {s : Ws}

/-- What has been done is noted. -/
theorem noted_meets {o : Outcome Link RxEvent} {opcode : UInt8}
    (h : o.Meets (fun l => l.Safe side ∧ l.opcode = opcode) (RxEvent.Safe side protocol))
    (events : List RxEvent) :
    Outcome.Meets (fun l => l.Safe side ∧ l.opcode = opcode) (RxEvent.Safe side protocol)
      ⟨{ o.state with events }, o.output, o.stopped⟩ := by
  refine ⟨h.output, fun hgo => ?_⟩
  obtain ⟨hsafe, hopcode⟩ := h.state hgo
  exact ⟨⟨hsafe.alloc, hsafe.ping⟩, hopcode⟩

theorem le_pingAlloc (alloc : Option ℕ) (head : ℕ) : head ≤ pingAlloc alloc head := by
  rcases alloc with _ | alloc
  · exact le_rfl
  · rw [pingAlloc]
    split_ifs with h
    · exact le_rfl
    · exact Nat.not_lt.mp h

theorem serverSpill_meets {b : List UInt8} (n : ℕ) (hb : b.length ≤ protocol.rxLimit)
    (hcontrol : link.opcode &&& 8 ≠ 0 → b.length ≤ Side.server.controlMax)
    (hlink : link.Safe .server) :
    (serverSpill protocol link b n).Meets (fun l => l.Safe .server ∧ l.opcode = link.opcode)
      (RxEvent.Safe .server protocol) := by
  rw [serverSpill]
  split_ifs with h8 hack h9 hpending hlong h10 hdata hsome
  · exact ⟨by simp, by simp⟩
  · exact ⟨by simpa [RxEvent.Safe] using hcontrol (by rw [h8]; decide), by simp⟩
  · exact .go ⟨hlink, rfl⟩
  · exact .go ⟨hlink, rfl⟩
  · exact ⟨by simp [RxEvent.Safe], fun _ =>
      ⟨⟨le_pingAlloc _ _, hcontrol (by rw [h9]; decide)⟩, rfl⟩⟩
  · exact .go ⟨hlink, rfl⟩
  · exact ⟨by simpa [RxEvent.Safe] using hb, fun _ => ⟨hlink, rfl⟩⟩
  · exact .go ⟨hlink, rfl⟩
  · exact .go ⟨hlink, rfl⟩

theorem clientSpill_meets {b : List UInt8} (n : ℕ) (hb : b.length ≤ protocol.rxLimit)
    (hcontrol : link.opcode &&& 8 ≠ 0 → b.length ≤ Side.client.controlMax)
    (hlink : link.Safe .client) :
    (clientSpill protocol link b n).Meets (fun l => l.Safe .client ∧ l.opcode = link.opcode)
      (RxEvent.Safe .client protocol) := by
  rw [clientSpill]
  split_ifs with h8 hack h9 h10 hdata hnone
  · exact ⟨by simp, by simp⟩
  · exact ⟨by simpa [RxEvent.Safe] using hcontrol (by rw [h8]; decide), by simp⟩
  · exact ⟨by simpa [RxEvent.Safe] using hcontrol (by rw [h9]; decide), fun _ => ⟨hlink, rfl⟩⟩
  · exact ⟨by simpa [RxEvent.Safe] using hb, fun _ => ⟨hlink, rfl⟩⟩
  · exact .go ⟨hlink, rfl⟩
  · exact ⟨by simpa [RxEvent.Safe] using hb, fun _ => ⟨hlink, rfl⟩⟩
  · exact .go ⟨hlink, rfl⟩

theorem spill_meets (hbuffer : s.rxUserBuffer.length ≤ protocol.rxLimit)
    (hcontrol : s.link.opcode &&& 8 ≠ 0 → s.rxUserBuffer.length ≤ side.controlMax)
    (hlink : s.link.Safe side) :
    (s.spill side protocol).Meets
      (fun s' => ∃ link, s' = { s with rxUserBuffer := [], link := link } ∧ link.Safe side ∧
        link.opcode = s.link.opcode)
      (RxEvent.Safe side protocol) := by
  have hmeets : (spill side protocol s.link s.rxUserBuffer s.rxPacketLength).Meets
      (fun l => l.Safe side ∧ l.opcode = s.link.opcode) (RxEvent.Safe side protocol) := by
    rcases side with _ | _
    · exact noted_meets (serverSpill_meets s.rxPacketLength hbuffer hcontrol hlink) _
    · exact noted_meets (clientSpill_meets s.rxPacketLength hbuffer hcontrol hlink) _
  exact ⟨hmeets.output, fun h => ⟨_, rfl, hmeets.state h⟩⟩

/-- The reader goes on from a header. -/
theorem headerDone_meets {looks : Bool} (hempty : s.rxUserBuffer = []) (hlink : s.link.Safe side)
    (hcontrol : s.link.opcode &&& 8 ≠ 0 → looks = true ∧ s.rxPacketLength ≤ side.controlMax) :
    (s.headerDone side protocol looks).Meets (Ws.Safe side protocol) (RxEvent.Safe side protocol) := by
  have hlimit := rxLimit_pos protocol
  rw [Ws.headerDone]
  split_ifs with hnone
  · refine (spill_meets (s := { s with rxParseState := .new }) ?_ ?_ hlink).mono ?_
    · simp [hempty]
    · simp [hempty]
    · rintro _ ⟨link, rfl, hlink, hopcode⟩
      exact ⟨hlimit, fun _ => rfl, fun _ => trivial, hlink⟩
  · refine .go ⟨by simpa [hempty] using hlimit, fun h => absurd rfl h, fun h => ?_, hlink⟩
    obtain ⟨hlooks, hle⟩ := hcontrol h
    refine ⟨Nat.pos_of_ne_zero fun hzero => hnone ⟨hlooks, hzero⟩, ?_⟩
    simpa [hempty] using hle

theorem lengthDone_meets {looks : Bool} (hempty : s.rxUserBuffer = []) (hlink : s.link.Safe side)
    (hcontrol : s.link.opcode &&& 8 ≠ 0 → looks = true ∧ s.rxPacketLength ≤ side.controlMax) :
    (s.lengthDone side protocol looks).Meets (Ws.Safe side protocol) (RxEvent.Safe side protocol) := by
  rw [Ws.lengthDone]
  split_ifs with hmasked
  · refine .go ⟨by simpa [hempty] using rxLimit_pos protocol, fun _ => hempty, fun h => ?_, hlink⟩
    exact (hcontrol h).2
  · exact headerDone_meets hempty hlink hcontrol

/-- The length of a control frame on the server and on the client. -/
theorem controlLength_le {c : UInt8} (h126 : ¬ c &&& 0x7f = 126) (h127 : ¬ c &&& 0x7f = 127) :
    (if side = Side.server then c &&& 0x7f else c).toNat ≤ side.controlMax := by
  have hall : ∀ n < 256, ¬ UInt8.ofNat n &&& 0x7f = 126 → ¬ UInt8.ofNat n &&& 0x7f = 127 →
      (UInt8.ofNat n &&& 0x7f).toNat ≤ 125 ∧ (UInt8.ofNat n).toNat ≤ 253 := by
    decide +kernel
  have hc := hall c.toNat c.toNat_lt (by simpa using h126) (by simpa using h127)
  rw [UInt8.ofNat_toNat] at hc
  rcases side with _ | _
  · exact hc.1
  · exact hc.2

/-- A byte of payload. -/
theorem payload_meets {c : UInt8} (hs : s.Safe side protocol)
    (hstate : s.rxParseState = .payloadUntilLengthExhausted) :
    (rxSm side protocol s c).Meets (Ws.Safe side protocol) (RxEvent.Safe side protocol) := by
  obtain ⟨hbuffer, -, hcontrol, hlink⟩ := hs
  simp only [hstate] at hcontrol
  obtain ⟨x, i, hmask⟩ : ∃ x i, s.unmask side c =
      { s with rxUserBuffer := s.rxUserBuffer ++ [x], frameMaskIndex := i } := by
    rw [Ws.unmask]
    split_ifs
    · exact ⟨c, s.frameMaskIndex, rfl⟩
    · exact ⟨_, _, rfl⟩
  have hpred : s.link.opcode &&& 8 ≠ 0 →
      s.rxUserBuffer.length + 1 + (s.rxPacketLength + (2 ^ 64 - 1)) % 2 ^ 64 ≤ side.controlMax := by
    intro h
    obtain ⟨hpos, hle⟩ := hcontrol h
    have hmax : side.controlMax < 2 ^ 64 := by rcases side with _ | _ <;> decide
    omega
  have hgrown : (s.rxUserBuffer ++ [x]).length ≤ protocol.rxLimit := by
    simpa using Nat.succ_le_of_lt hbuffer
  have hspill : s.link.opcode &&& 8 ≠ 0 → (s.rxUserBuffer ++ [x]).length ≤ side.controlMax :=
    fun h => by
      have := hpred h
      simp only [List.length_append, List.length_singleton]
      omega
  rw [rxSm_payload hstate, hmask]
  simp only
  split_ifs with hlast hroom
  · refine (spill_meets (s := ⟨_, _, _, _, _, _, _, _⟩) hgrown hspill hlink).mono ?_
    rintro _ ⟨link, rfl, hlink, hopcode⟩
    exact ⟨rxLimit_pos protocol, fun _ => rfl, fun _ => trivial, hlink⟩
  · refine .go ⟨lt_of_le_of_ne hgrown hroom, fun h => absurd hstate h, fun h => ?_, hlink⟩
    simp only [hstate, List.length_append, List.length_singleton]
    exact ⟨Nat.pos_of_ne_zero hlast, hpred h⟩
  · refine (spill_meets (s := ⟨_, _, _, _, _, _, _, _⟩) hgrown hspill hlink).mono ?_
    rintro _ ⟨link, rfl, hlink, hopcode⟩
    refine ⟨rxLimit_pos protocol, fun _ => rfl, fun h => ?_, hlink⟩
    have hle := hpred (hopcode ▸ h)
    simp only [hstate]
    exact ⟨Nat.pos_of_ne_zero hlast, by simp only [List.length_nil]; omega⟩

/-- A byte of the longer fields of the length. -/
theorem length_meets {c : UInt8} (hs : s.Safe side protocol)
    (hstate : s.rxParseState = .frameHdrLen16_2 ∨ s.rxParseState = .frameHdrLen16_1 ∨
      ∃ k, s.rxParseState = .frameHdrLen64 k) :
    (rxSm side protocol s c).Meets (Ws.Safe side protocol) (RxEvent.Safe side protocol) := by
  have hempty : s.rxUserBuffer = [] :=
    hs.empty (by rcases hstate with h | h | ⟨k, h⟩ <;> simp [h])
  have hdata : ¬ s.link.opcode &&& 8 ≠ 0 := fun h => by
    have hcontrol := hs.control h
    rcases hstate with h | h | ⟨k, h⟩ <;> simp [h] at hcontrol
  rw [rxSm]
  rcases hstate with h | h | ⟨k, h⟩
  · simp only [h]
    exact .go ⟨hs.buffer, fun _ => hempty, fun h => absurd h hdata, hs.link⟩
  · simp only [h]
    exact lengthDone_meets hempty hs.link fun h => absurd h hdata
  · simp only [h]
    split_ifs
    · exact ⟨by simp, by simp⟩
    · exact .go ⟨hs.buffer, fun _ => hempty, fun h => absurd h hdata, hs.link⟩
    · exact .go ⟨hs.buffer, fun _ => hempty, fun h => absurd h hdata, hs.link⟩
    · exact lengthDone_meets hempty hs.link fun h => absurd h hdata

/-- Every byte leaves the reader safe. -/
theorem rxSm_meets {c : UInt8} (hs : s.Safe side protocol) :
    (rxSm side protocol s c).Meets (Ws.Safe side protocol) (RxEvent.Safe side protocol) := by
  rcases hstate : s.rxParseState with _ | _ | _ | _ | k | k | _
  · rw [rxSm_new hstate]
    exact .go ⟨hs.buffer, fun _ => hs.empty (by simp [hstate]), fun _ => trivial,
      hs.link.alloc, hs.link.ping⟩
  · have hempty := hs.empty (by simp [hstate])
    rw [rxSm]
    simp only [hstate]
    rcases em (c &&& 0x7f = 126) with h126 | h126
    · rw [if_pos h126]
      split_ifs with hctl
      · exact ⟨by simp, by simp⟩
      · exact .go ⟨hs.buffer, fun _ => hempty, fun h => absurd h hctl, hs.link⟩
    rw [if_neg h126]
    rcases em (c &&& 0x7f = 127) with h127 | h127
    · rw [if_pos h127]
      split_ifs with hctl
      · exact ⟨by simp, by simp⟩
      · exact .go ⟨hs.buffer, fun _ => hempty, fun h => absurd h hctl, hs.link⟩
    · rw [if_neg h127]
      exact lengthDone_meets hempty hs.link fun _ => ⟨rfl, controlLength_le h126 h127⟩
  · exact length_meets hs (Or.inl hstate)
  · exact length_meets hs (Or.inr (Or.inl hstate))
  · exact length_meets hs (Or.inr (Or.inr ⟨k, hstate⟩))
  · have hempty := hs.empty (by simp [hstate])
    have hcontrol := hs.control
    simp only [hstate] at hcontrol
    rw [rxSm]
    simp only [hstate]
    rcases em (k ≠ 3) with hkey | hkey
    · rw [if_pos hkey]
      exact .go ⟨hs.buffer, fun _ => hempty, hcontrol, hs.link⟩
    · rw [if_neg hkey]
      exact headerDone_meets hempty hs.link fun h => ⟨rfl, hcontrol h⟩
  · exact payload_meets hs hstate

/-- Whatever comes, in packets of any kind, the reader stays in its buffer and answers no control
frame with a longer one. -/
theorem rx_safe (side : Side) (protocol : Protocol) (packets : List (List UInt8)) :
    (feed (feed (rxSm side protocol)) Ws.init packets).Meets (Ws.Safe side protocol)
      (RxEvent.Safe side protocol) := by
  rw [feed_flatten]
  refine Outcome.Meets.feed (fun s c hs => rxSm_meets hs) ⟨rxLimit_pos protocol, fun _ => rfl, ?_, ?_⟩
  · exact fun _ => trivial
  · exact ⟨Nat.zero_le _, Nat.zero_le _⟩

end

end Lws

end MySocket
