import Mathlib.Data.Fintype.Basic
import Mathlib.Tactic.FinCases
import MySocket.Feed
import MySocket.WsFrame

/-!
# How libwebsockets reads frames

`libwebsocket_rx_sm` of the server and `libwebsocket_client_rx_sm` of the client read one byte at
a time. The two are the same state machine but for the places where `side` is looked at below.

* `rx_frames` : a list of frames has the effect that `frameStep` says, however it is packed. The
  payload is spilled each time the buffer is full, and at its end.
-/

namespace MySocket

namespace Lws

open WebSocket

/-! ## The code -/

/-- `enum lws_connection_states`, those of a websocket connection. -/
inductive ConnState
  | deadSocket
  | established
  | returnedCloseAlready
  | awaitingCloseAck
  | flushingStoredSendBeforeClose
  deriving DecidableEq

/-- `enum lws_rx_parse_state`. `frameHdrLen64 k` is the state `_FRAME_HDR_LEN64_` of number `k + 1`,
and `collectFrameKey k` that of `_COLLECT_FRAME_KEY_`. No state leads to one of
`LWS_RXPS_04_MASK_NONCE_1` to `LWS_RXPS_04_FRAME_HDR_1`. -/
inductive RxParseState
  | new
  | frameHdrLen
  | frameHdrLen16_2
  | frameHdrLen16_1
  | frameHdrLen64 (k : Fin 8)
  | collectFrameKey (k : Fin 4)
  | payloadUntilLengthExhausted
  deriving DecidableEq

inductive Side
  | server
  | client
  deriving DecidableEq

def Side.other : Side → Side
  | .server => .client
  | .client => .server

/-- The reasons for the callbacks on received data. -/
inductive Reason
  | receive
  | clientReceive
  | clientReceivePong
  deriving DecidableEq

/-- What the user's callback is called with, and what `lws_frame_is_binary`,
`libwebsocket_is_final_fragment` and `libwebsockets_remaining_packet_payload` tell it. -/
structure Received where
  reason : Reason
  token : List UInt8
  isBinary : Bool
  final : Bool
  remaining : ℕ
  deriving DecidableEq

/-- What a reader does to the rest of the library. -/
inductive RxEvent
  | callback (received : Received)
  | writeClose (token : List UInt8)
  | writePong (token : List UInt8)
  | callbackOnWritable
  deriving DecidableEq

/-- `struct libwebsocket_protocols` -/
structure Protocol where
  rxBufferSize : ℕ
  /-- What the callback returns, from all that has been done up to its call, which is the last. -/
  callback : List RxEvent → ℤ

/-- The number of payload bytes that fill the buffer. -/
def Protocol.rxLimit (protocol : Protocol) : ℕ :=
  if protocol.rxBufferSize = 0 then 4096 else protocol.rxBufferSize

/-- What a spill reads and writes of the connection. -/
structure Link where
  state : ConnState
  opcode : UInt8
  final : Bool
  frameIsBinary : Bool
  /-- The bytes `ping_payload_buf` has for the payload, if it is there. -/
  pingPayloadAlloc : Option ℕ
  /-- The first `ping_payload_len` bytes of it. -/
  pingPayload : List UInt8
  /-- All that the reader has done on the connection. -/
  events : List RxEvent

structure Ws where
  rxParseState : RxParseState
  rxPacketLength : ℕ
  frameMaskingNonce04 : MaskingKey
  frameMaskIndex : UInt8
  allZeroNonce : Bool
  thisFrameMasked : Bool
  /-- The first `rx_user_buffer_head` bytes. -/
  rxUserBuffer : List UInt8
  link : Link

/-- The buffer for the payload of a ping of `head` bytes. -/
def pingAlloc (alloc : Option ℕ) (head : ℕ) : ℕ :=
  match alloc with
  | some alloc => if alloc < head then head else alloc
  | none => head

/-- `spill` in `libwebsocket_rx_sm`, with `remaining` bytes of the frame to come. It is the negative
results that `libwebsocket_interpret_incoming_packet` stops at. -/
def serverSpill (protocol : Protocol) (link : Link) (buffer : List UInt8) (remaining : ℕ) :
    Outcome Link RxEvent :=
  if link.opcode = 8 then
    if link.state = .awaitingCloseAck then ⟨link, [], true⟩
    else ⟨{ link with state := .returnedCloseAlready }, [.writeClose buffer], true⟩
  else if link.opcode = 9 then
    if link.pingPayload.length ≠ 0 then .go link
    -- it is the length of the pending payload that is compared
    else if 128 - 4 < link.pingPayload.length then .go link
    else ⟨{ link with
        pingPayloadAlloc := some (pingAlloc link.pingPayloadAlloc buffer.length)
        pingPayload := buffer }, [.callbackOnWritable], false⟩
  else if link.opcode = 10 then .go link
  else if link.opcode = 1 ∨ link.opcode = 2 ∨ link.opcode = 0 then
    if 0 < buffer.length then
      let received : Received := ⟨.receive, buffer, link.frameIsBinary, link.final, remaining⟩
      ⟨link, [.callback received], protocol.callback (link.events ++ [.callback received]) < 0⟩
    else .go link
  else .go link

/-- `spill` in `libwebsocket_client_rx_sm`. `lws_handshake_client` stops at every result but 0. -/
def clientSpill (protocol : Protocol) (link : Link) (buffer : List UInt8) (remaining : ℕ) :
    Outcome Link RxEvent :=
  if link.opcode = 8 then
    if link.state = .awaitingCloseAck then ⟨link, [], true⟩
    else ⟨{ link with state := .returnedCloseAlready }, [.writeClose buffer], true⟩
  else if link.opcode = 9 then ⟨link, [.writePong buffer], false⟩
  else if link.opcode = 10 then
    let received : Received :=
      ⟨.clientReceivePong, buffer, link.frameIsBinary, link.final, remaining⟩
    ⟨link, [.callback received], protocol.callback (link.events ++ [.callback received]) ≠ 0⟩
  else if link.opcode = 0 ∨ link.opcode = 1 ∨ link.opcode = 2 then
    if buffer.length ≤ 0 then .go link
    else
      let received : Received := ⟨.clientReceive, buffer, link.frameIsBinary, link.final, remaining⟩
      ⟨link, [.callback received], protocol.callback (link.events ++ [.callback received]) ≠ 0⟩
  else .go link

/-- `spill` of both, with what it has done noted. -/
def spill (side : Side) (protocol : Protocol) (link : Link) (buffer : List UInt8)
    (remaining : ℕ) : Outcome Link RxEvent :=
  let o :=
    match side with
    | .server => serverSpill protocol link buffer remaining
    | .client => clientSpill protocol link buffer remaining
  ⟨{ o.state with events := link.events ++ o.output }, o.output, o.stopped⟩

/-- `goto spill`, after which the buffer is empty. -/
def Ws.spill (side : Side) (protocol : Protocol) (ws : Ws) : Outcome Ws RxEvent :=
  let o := Lws.spill side protocol ws.link ws.rxUserBuffer ws.rxPacketLength
  ⟨{ ws with rxUserBuffer := [], link := o.state }, o.output, o.stopped⟩

/-- `handle_first` -/
def Link.handleFirst (link : Link) (c : UInt8) : Link :=
  let opcode := c &&& 0xf
  { link with
    opcode := opcode
    final := (c >>> 7) &&& 1 = 1
    frameIsBinary := if opcode = 1 ∨ opcode = 2 then opcode = 2 else link.frameIsBinary }

/-- The end of a header. `looks` is whether a payload of no bytes is looked for. -/
def Ws.headerDone (side : Side) (protocol : Protocol) (looks : Bool) (ws : Ws) :
    Outcome Ws RxEvent :=
  if looks ∧ ws.rxPacketLength = 0 then { ws with rxParseState := .new }.spill side protocol
  else .go { ws with rxParseState := .payloadUntilLengthExhausted }

/-- The end of the length. -/
def Ws.lengthDone (side : Side) (protocol : Protocol) (looks : Bool) (ws : Ws) :
    Outcome Ws RxEvent :=
  if ws.thisFrameMasked then .go { ws with rxParseState := .collectFrameKey 0 }
  else ws.headerDone side protocol looks

/-- A byte of payload. -/
def Ws.unmask (side : Side) (ws : Ws) (c : UInt8) : Ws :=
  if side = .client ∧ ¬ ws.thisFrameMasked ∨ ws.allZeroNonce then
    { ws with rxUserBuffer := ws.rxUserBuffer ++ [c] }
  else
    { ws with
      rxUserBuffer := ws.rxUserBuffer ++
        [c ^^^ ws.frameMaskingNonce04 (Fin.ofNat 4 ws.frameMaskIndex.toNat)]
      frameMaskIndex := ws.frameMaskIndex + 1 }

/-- `libwebsocket_rx_sm` and `libwebsocket_client_rx_sm` -/
def rxSm (side : Side) (protocol : Protocol) (ws : Ws) (c : UInt8) : Outcome Ws RxEvent :=
  match ws.rxParseState with
  | .new =>
    .go { ws with
      -- the client never sets it
      allZeroNonce := side = Side.server ∨ ws.allZeroNonce
      link := ws.link.handleFirst c
      rxParseState := .frameHdrLen }
  | .frameHdrLen =>
    let ws := { ws with thisFrameMasked := c &&& 0x80 ≠ 0 }
    if c &&& 0x7f = 126 then
      if ws.link.opcode &&& 8 ≠ 0 then ⟨ws, [], true⟩
      else .go { ws with rxParseState := .frameHdrLen16_2 }
    else if c &&& 0x7f = 127 then
      if ws.link.opcode &&& 8 ≠ 0 then ⟨ws, [], true⟩
      else .go { ws with rxParseState := .frameHdrLen64 7 }
    else
      -- the client takes the bit of the mask for a part of the length
      { ws with rxPacketLength := (if side = Side.server then c &&& 0x7f else c).toNat }.lengthDone side
        protocol true
  | .frameHdrLen16_2 =>
    .go { ws with rxPacketLength := c.toNat <<< 8, rxParseState := .frameHdrLen16_1 }
  | .frameHdrLen16_1 =>
    -- the server does not look for a payload of no bytes here
    { ws with rxPacketLength := ws.rxPacketLength ||| c.toNat }.lengthDone side protocol
      (side = Side.client)
  | .frameHdrLen64 k =>
    if k = 7 then
      if c &&& 0x80 ≠ 0 then ⟨ws, [], true⟩
      else .go { ws with rxPacketLength := c.toNat <<< 56, rxParseState := .frameHdrLen64 6 }
    else if k ≠ 0 then
      .go { ws with
        rxPacketLength := ws.rxPacketLength ||| c.toNat <<< (8 * k.val)
        rxParseState := .frameHdrLen64 (k - 1) }
    else
      { ws with rxPacketLength := ws.rxPacketLength ||| c.toNat }.lengthDone side protocol
        (side = Side.client)
  | .collectFrameKey k =>
    let ws := { ws with
      frameMaskingNonce04 := Function.update ws.frameMaskingNonce04 k c
      allZeroNonce := ws.allZeroNonce ∧ c = 0 }
    if k ≠ 3 then .go { ws with rxParseState := .collectFrameKey (k + 1) }
    else
      -- the client goes on in the key where it was
      { ws with frameMaskIndex := if side = Side.server then 0 else ws.frameMaskIndex }.headerDone side
        protocol true
  | .payloadUntilLengthExhausted =>
    let ws := { ws.unmask side c with rxPacketLength := (ws.rxPacketLength + (2 ^ 64 - 1)) % 2 ^ 64 }
    if ws.rxPacketLength = 0 then { ws with rxParseState := .new }.spill side protocol
    else if ws.rxUserBuffer.length ≠ protocol.rxLimit then .go ws
    else ws.spill side protocol

/-! ## What a frame comes to -/

/-- What the buffer is spilled with, and how much of the payload is to come then, if it holds `b`
and the rest of the payload follows. -/
def spills (limit : ℕ) : List UInt8 → List UInt8 → List (List UInt8 × ℕ)
  | b, [] => [(b, 0)]
  | b, [x] => [(b ++ [x], 0)]
  | b, x :: y :: p =>
    if b.length + 1 = limit then (b ++ [x], p.length + 1) :: spills limit [] (y :: p)
    else spills limit (b ++ [x]) (y :: p)

/-- A frame as a step of the connection. -/
def frameStep (side : Side) (protocol : Protocol) (link : Link) (f : Frame) :
    Outcome Link RxEvent :=
  let link := link.handleFirst f.first
  if f.field ≠ .short ∧ link.opcode &&& 8 ≠ 0 then ⟨link, [], true⟩
  else
    feed (fun link q => spill side protocol link q.1 q.2) link
      (spills protocol.rxLimit [] f.payload)

/-- The frames whose end the reader finds : the server does not find the end of a payload of no
bytes if there is no key to come after the longer fields of the length, and the client takes the
bit of the mask for a part of the length. -/
def Readable (side : Side) (f : Frame) : Prop :=
  match side with
  | .server => f.key.isSome ∨ f.field = .short ∨ f.payload ≠ []
  | .client => f.key = none

/-- The reader is between two frames. -/
structure AtFrame (s : Ws) (link : Link) : Prop where
  rxParseState : s.rxParseState = .new
  rxUserBuffer : s.rxUserBuffer = []
  link : s.link = link

section

variable {side : Side} {protocol : Protocol} {s : Ws} {link : Link}

theorem rxLimit_pos (protocol : Protocol) : 0 < protocol.rxLimit := by
  rw [Protocol.rxLimit]
  split_ifs with h
  · decide
  · exact Nat.pos_of_ne_zero h

theorem spill_agrees (s : Ws) :
    Agrees (fun s' link => s' = { s with rxUserBuffer := [], link := link })
      (s.spill side protocol)
      (spill side protocol s.link s.rxUserBuffer s.rxPacketLength) :=
  ⟨rfl, rfl, fun _ => rfl⟩

/-! ### Payload -/

/-- The bytes that are taken for the payload `p`. -/
def Ws.wire (side : Side) (s : Ws) (p : List UInt8) : List UInt8 :=
  if side = .client ∧ ¬ s.thisFrameMasked ∨ s.allZeroNonce then p
  else xorKey s.frameMaskingNonce04 s.frameMaskIndex.toNat p

@[simp] theorem wire_nil : s.wire side [] = [] := by
  rw [Ws.wire]
  split_ifs <;> rfl

/-- One byte of the payload is taken and the others are left. -/
theorem wire_cons (side : Side) (s : Ws) (x : UInt8) (p : List UInt8) : ∃ (c : UInt8) (i : UInt8),
    s.wire side (x :: p) = c :: { s with frameMaskIndex := i }.wire side p ∧
      s.unmask side c =
        { s with rxUserBuffer := s.rxUserBuffer ++ [x], frameMaskIndex := i } := by
  rcases em (side = .client ∧ ¬ s.thisFrameMasked ∨ s.allZeroNonce) with h | h
  · exact ⟨x, s.frameMaskIndex, by rw [Ws.wire, Ws.wire, if_pos h, if_pos h],
      by rw [Ws.unmask, if_pos h]⟩
  · refine ⟨x ^^^ s.frameMaskingNonce04 (Fin.ofNat 4 s.frameMaskIndex.toNat),
      s.frameMaskIndex + 1, ?_, ?_⟩
    · rw [Ws.wire, Ws.wire, if_neg h, if_neg h, xorKey]
      congr 1
      refine xorKey_mod _ p ?_
      rw [UInt8.toNat_add]
      simp
    · rw [Ws.unmask, if_neg h, UInt8.xor_assoc, UInt8.xor_self, UInt8.xor_zero]

theorem link_unmask {c : UInt8} : (s.unmask side c).link = s.link := by
  rw [Ws.unmask]
  split_ifs <;> rfl

theorem wire_of_masked (side : Side) (s : Ws) {p : List UInt8} {key : MaskingKey}
    (hmasked : s.thisFrameMasked = true) (hkey : s.frameMaskingNonce04 = key)
    (hindex : s.frameMaskIndex = 0) (hzero : s.allZeroNonce = true → ∀ j, key j = 0) :
    s.wire side p = xorKey key 0 p := by
  rw [Ws.wire, hkey, hindex]
  split_ifs with hskip
  · exact (xorKey_zero (hzero (hskip.resolve_left fun h => h.2 hmasked)) 0 p).symm
  · rfl

theorem rxSm_payload {c : UInt8} (h : s.rxParseState = .payloadUntilLengthExhausted) :
    rxSm side protocol s c =
      let s' := { s.unmask side c with
        rxPacketLength := (s.rxPacketLength + (2 ^ 64 - 1)) % 2 ^ 64 }
      if s'.rxPacketLength = 0 then { s' with rxParseState := .new }.spill side protocol
      else if s'.rxUserBuffer.length ≠ protocol.rxLimit then .go s'
      else s'.spill side protocol := by
  rw [rxSm]
  simp only [h]

/-- The loop over the payload. -/
theorem feed_payload : ∀ {p : List UInt8} {s : Ws}, p ≠ [] →
    s.rxParseState = .payloadUntilLengthExhausted → s.rxPacketLength = p.length →
    p.length < 2 ^ 64 → Agrees AtFrame (feed (rxSm side protocol) s (s.wire side p))
      (feed (fun link q => spill side protocol link q.1 q.2) s.link
        (spills protocol.rxLimit s.rxUserBuffer p))
  | [], _, h, _, _, _ => absurd rfl h
  | [x], s, _, hstate, hlen, _ => by
    obtain ⟨c, i, hwire, hmask⟩ := wire_cons side s x []
    have hlast : s.rxPacketLength = 1 := by simpa using hlen
    rw [hwire, wire_nil, feed_singleton, rxSm_payload hstate, hmask, hlast, spills,
      feed_singleton]
    exact (spill_agrees _).mono fun s' link h => h ▸ ⟨rfl, rfl, rfl⟩
  | x :: y :: p, s, _, hstate, hlen, hlt => by
    obtain ⟨c, i, hwire, hmask⟩ := wire_cons side s x (y :: p)
    have hpred : (s.rxPacketLength + (2 ^ 64 - 1)) % 2 ^ 64 = p.length + 1 := by
      simp only [List.length_cons] at hlen hlt
      omega
    rw [hwire, feed_cons, rxSm_payload hstate, hmask, hpred, spills]
    simp only [List.length_append, List.length_singleton, Nat.add_one_ne_zero, if_false]
    rcases em (s.rxUserBuffer.length + 1 = protocol.rxLimit) with hfull | hroom
    · rw [if_neg (not_not_intro hfull), if_pos hfull, feed_cons]
      refine (spill_agrees _).andThen fun s' link h => ?_
      subst h
      exact feed_payload (s := ⟨_, _, _, _, _, _, _, _⟩) (List.cons_ne_nil y p) hstate rfl
        (Nat.lt_of_succ_lt hlt)
    · rw [if_pos hroom, if_neg hroom, Outcome.go_andThen]
      exact feed_payload (s := ⟨_, _, _, _, _, _, _, _⟩) (List.cons_ne_nil y p) hstate rfl
        (Nat.lt_of_succ_lt hlt)

/-! ### Headers -/

/-- The end of a header and the payload. -/
theorem headerDone_agrees {p : List UInt8} {looks : Bool} (hlen : s.rxPacketLength = p.length)
    (hlt : p.length < 2 ^ 64) (hlooks : p = [] → looks = true) :
    Agrees AtFrame
      ((s.headerDone side protocol looks).andThen fun s' =>
        feed (rxSm side protocol) s' (s.wire side p))
      (feed (fun link q => spill side protocol link q.1 q.2) s.link
        (spills protocol.rxLimit s.rxUserBuffer p)) := by
  rcases p with _ | ⟨x, p⟩
  · have hzero : s.rxPacketLength = 0 := hlen
    have hspills : spills protocol.rxLimit s.rxUserBuffer [] =
        [(s.rxUserBuffer, s.rxPacketLength)] := by
      rw [hzero, spills]
    rw [Ws.headerDone, if_pos ⟨hlooks rfl, hzero⟩, wire_nil, hspills, feed_singleton]
    simp only [feed_nil, Outcome.andThen_go]
    exact (spill_agrees _).mono fun s' link h => h ▸ ⟨rfl, rfl, rfl⟩
  · have hpos : ¬ s.rxPacketLength = 0 := by simp [hlen]
    rw [Ws.headerDone, if_neg fun h => hpos h.2, Outcome.go_andThen]
    exact feed_payload (s := ⟨_, _, _, _, _, _, _, _⟩) (List.cons_ne_nil x p) rfl hlen hlt

theorem feed_key {key : MaskingKey} (h : s.rxParseState = .collectFrameKey 0) :
    feed (rxSm side protocol) s (List.ofFn key) =
      { s with
        rxParseState := .collectFrameKey 3
        frameMaskingNonce04 := key
        allZeroNonce := s.allZeroNonce ∧ ∀ j, key j = 0
        frameMaskIndex := if side = Side.server then 0 else s.frameMaskIndex }.headerDone side
          protocol true := by
  have hkey : Function.update (Function.update (Function.update (Function.update
      s.frameMaskingNonce04 0 (key 0)) 1 (key 1)) 2 (key 2)) 3 (key 3) = key := by
    funext j
    fin_cases j <;> rfl
  have hzero : (∀ j, key j = 0) ↔ ((key 0 = 0 ∧ key 1 = 0) ∧ key 2 = 0) ∧ key 3 = 0 := by
    rw [Fin.forall_fin_succ, Fin.forall_fin_succ, Fin.forall_fin_succ, Fin.forall_fin_succ]
    simp [and_assoc]
  have hbytes : List.ofFn key = [key 0, key 1, key 2, key 3] := rfl
  rw [hbytes]
  simp only [feed_cons, feed_nil, Outcome.andThen_go, rxSm, h]
  simp [hkey, hzero, Bool.and_assoc]

/-- The end of the length, the key and the payload. -/
theorem lengthDone_agrees {f : Frame} {looks : Bool} (hmasked : s.thisFrameMasked = f.key.isSome)
    (hlen : s.rxPacketLength = f.payload.length) (hlt : f.payload.length < 2 ^ 64)
    (hserver : side = .server → s.allZeroNonce = true) (hclient : side = .client → f.key = none)
    (hlooks : f.key = none → f.payload = [] → looks = true) :
    Agrees AtFrame
      ((s.lengthDone side protocol looks).andThen fun s' =>
        feed (rxSm side protocol) s' (f.keyBytes ++ f.body))
      (feed (fun link q => spill side protocol link q.1 q.2) s.link
        (spills protocol.rxLimit s.rxUserBuffer f.payload)) := by
  rcases hkey : f.key with _ | key
  · have hunmasked : s.thisFrameMasked = false := by simp [hmasked, hkey]
    have hwire : s.wire side f.payload = f.keyBytes ++ f.body := by
      have hskip : side = .client ∧ ¬ s.thisFrameMasked ∨ s.allZeroNonce := by
        rcases side with _ | _
        · exact Or.inr (hserver rfl)
        · exact Or.inl ⟨rfl, by simp [hunmasked]⟩
      rw [Ws.wire, if_pos hskip, Frame.keyBytes_none hkey, Frame.body_none hkey, List.nil_append]
    rw [Ws.lengthDone, if_neg (by simp [hunmasked]), ← hwire]
    exact headerDone_agrees hlen hlt (hlooks hkey)
  · obtain rfl : side = .server := by
      rcases side with _ | _
      · rfl
      · simp [hclient rfl] at hkey
    have hwire := @wire_of_masked .server { s with
      rxParseState := .collectFrameKey 3
      frameMaskingNonce04 := key
      allZeroNonce := s.allZeroNonce ∧ ∀ j, key j = 0
      frameMaskIndex := 0 } f.payload key (by simp [hmasked, hkey]) rfl rfl (by simp)
    rw [Ws.lengthDone, if_pos (by simp [hmasked, hkey]), Outcome.go_andThen, feed_append,
      Frame.keyBytes_some hkey, Frame.body_some hkey, feed_key rfl, if_pos rfl, ← hwire]
    exact headerDone_agrees hlen hlt fun _ => rfl

/-- The 64 bits of the length after the first eight. -/
theorem feed_len64 : ∀ {bs : List UInt8} {b : UInt8} {k : Fin 8} {s : Ws},
    s.rxParseState = .frameHdrLen64 k → k ≠ 7 → bs.length = k.val →
    feed (rxSm side protocol) s (b :: bs) =
      { s with
        rxParseState := .frameHdrLen64 0
        rxPacketLength := orBytes s.rxPacketLength (b :: bs) }.lengthDone side protocol
          (side = Side.client)
  | [], b, k, s, hstate, hk, hlen => by
    obtain rfl : k = 0 := Fin.ext hlen.symm
    simp only [feed_singleton, rxSm, hstate]
    simp [orBytes]
  | b' :: bs, b, k, s, hstate, hk, hlen => by
    have hpos : k ≠ 0 := fun h => by simp [h] at hlen
    have hpred : (k - 1).val = k.val - 1 := Fin.val_sub_one_of_ne_zero hpos
    rw [feed_cons, rxSm, hstate]
    simp only [if_neg hk, if_pos hpos, Outcome.go_andThen]
    have hor : orBytes s.rxPacketLength (b :: b' :: bs) =
        orBytes (s.rxPacketLength ||| b.toNat <<< (8 * k.val)) (b' :: bs) := by
      rw [← hlen, orBytes]
    rw [feed_len64 rfl (fun h => by omega) (by rw [hpred, ← hlen]; rfl), hor]

theorem rxSm_new {c : UInt8} (h : s.rxParseState = .new) :
    rxSm side protocol s c = .go { s with
      allZeroNonce := side = Side.server ∨ s.allZeroNonce
      link := s.link.handleFirst c
      rxParseState := .frameHdrLen } := by
  rw [rxSm]
  simp only [h]

/-- The second byte of a frame. -/
theorem rxSm_second {f : Frame} (h : s.rxParseState = .frameHdrLen)
    (hclient : side = .client → f.key = none) :
    rxSm side protocol s f.second =
      let s' := { s with thisFrameMasked := f.key.isSome }
      match f.field with
      | .short =>
        { s' with rxPacketLength := f.payload.length }.lengthDone side protocol true
      | .medium =>
        if s.link.opcode &&& 8 ≠ 0 then ⟨s', [], true⟩
        else .go { s' with rxParseState := .frameHdrLen16_2 }
      | .long =>
        if s.link.opcode &&& 8 ≠ 0 then ⟨s', [], true⟩
        else .go { s' with rxParseState := .frameHdrLen64 7 } := by
  have hmask : decide (f.second &&& 0x80 ≠ 0) = f.key.isSome := by
    rw [Bool.eq_iff_iff, decide_eq_true_iff, f.second_and_mask]
  have hlen : (if side = Side.server then f.len7 else f.second) = f.len7 := by
    split_ifs with hside
    · rfl
    · have hkey : f.key = none := hclient (by rcases side <;> simp_all)
      simp [Frame.second, hkey]
  rw [rxSm]
  simp only [h, hmask, f.second_and_len, hlen]
  rcases hfield : f.field with _ | _ | _
  · have hle : f.payload.length ≤ 125 := by simpa [hfield, LengthField.max] using f.fits
    have h7 : f.len7.toNat = f.payload.length := by
      simp only [Frame.len7, hfield, UInt8.toNat_ofNat']
      omega
    rw [if_neg fun h => by simp [h] at h7; omega, if_neg fun h => by simp [h] at h7; omega, h7]
  · have h7 : f.len7 = 126 := by simp only [Frame.len7, hfield]
    rw [if_pos h7]
  · have h7 : f.len7 = 127 := by simp only [Frame.len7, hfield]
    rw [h7, if_neg (by decide), if_pos rfl]

theorem feed_medium {n : ℕ} (hstate : s.rxParseState = .frameHdrLen16_2) (h : n < 2 ^ 16) :
    feed (rxSm side protocol) s (bigEndian 2 n) =
      { s with rxParseState := .frameHdrLen16_1, rxPacketLength := n }.lengthDone side protocol
        (side = Side.client) := by
  have hlen := orBytes_bigEndian (k := 2) h
  simp only [bigEndian, orBytes, List.length_singleton, List.length_nil, Nat.zero_or] at hlen
  simp only [bigEndian, feed_cons, feed_nil, Outcome.andThen_go, rxSm, hstate, Outcome.go_andThen]
  simpa using congrArg (fun m => Ws.lengthDone side protocol (side = Side.client)
    { s with rxParseState := .frameHdrLen16_1, rxPacketLength := m }) hlen

theorem rxSm_len64 {c : UInt8} (hstate : s.rxParseState = .frameHdrLen64 7)
    (hc : c &&& 0x80 = 0) :
    rxSm side protocol s c =
      .go { s with rxPacketLength := c.toNat <<< 56, rxParseState := .frameHdrLen64 6 } := by
  rw [rxSm]
  simp only [hstate]
  simp [hc]

theorem feed_long {n : ℕ} (hstate : s.rxParseState = .frameHdrLen64 7) (h : n < 2 ^ 63) :
    feed (rxSm side protocol) s (bigEndian 8 n) =
      { s with rxParseState := .frameHdrLen64 0, rxPacketLength := n }.lengthDone side protocol
        (side = Side.client) := by
  have hhigh : UInt8.ofNat (n >>> (8 * 7)) &&& 0x80 = 0 := by
    refine Frame.and_high_of_lt ?_
    rw [UInt8.toNat_ofNat', Nat.shiftRight_eq_div_pow]
    omega
  have hlen := orBytes_bigEndian (k := 8) (n := n) (by omega)
  rw [bigEndian, orBytes, length_bigEndian, Nat.zero_or, show 8 * 7 = 56 from rfl] at hlen
  rw [bigEndian, feed_cons, rxSm_len64 hstate hhigh, Outcome.go_andThen, show 8 * 7 = 56 from rfl]
  rw [bigEndian] at hlen ⊢
  rw [feed_len64 rfl (by decide) (by simp), hlen]

/-- The header of a frame from its second byte on, and the payload. -/
theorem feed_second {f : Frame} (hstate : s.rxParseState = .frameHdrLen)
    (hserver : side = .server → s.allZeroNonce = true) (hclient : side = .client → f.key = none)
    (hlooks : f.key = none → f.payload = [] → f.field = .short ∨ side = .client) :
    Agrees AtFrame
      (feed (rxSm side protocol) s (f.second :: (f.extendedLength ++ (f.keyBytes ++ f.body))))
      (if f.field ≠ .short ∧ s.link.opcode &&& 8 ≠ 0 then ⟨s.link, [], true⟩
        else feed (fun link q => spill side protocol link q.1 q.2) s.link
          (spills protocol.rxLimit s.rxUserBuffer f.payload)) := by
  have hfits := f.fits
  have hmax : f.field.max < 2 ^ 64 := by rcases f.field with _ | _ | _ <;> decide
  have hlt := Nat.lt_of_le_of_lt hfits hmax
  rw [feed_cons, rxSm_second hstate hclient]
  rcases hfield : f.field with _ | _ | _
  · rw [if_neg fun h => h.1 rfl, Frame.extendedLength, hfield, List.nil_append]
    exact lengthDone_agrees (s := ⟨_, _, _, _, _, _, _, _⟩) rfl rfl hlt hserver hclient
      fun _ _ => rfl
  · rcases em (s.link.opcode &&& 8 ≠ 0) with hctl | hctl
    · simp only [if_pos hctl]
      rw [if_pos ⟨by decide, hctl⟩]
      exact ⟨rfl, rfl, fun h => absurd h (by simp [Outcome.andThen])⟩
    · simp only [if_neg hctl]
      rw [if_neg fun h => hctl h.2, Outcome.go_andThen, Frame.extendedLength, hfield, feed_append,
        feed_medium rfl (by simp [hfield, LengthField.max] at hfits; omega)]
      exact lengthDone_agrees (s := ⟨_, _, _, _, _, _, _, _⟩) rfl rfl hlt hserver hclient
        fun hkey hp => by simpa [hfield] using hlooks hkey hp
  · rcases em (s.link.opcode &&& 8 ≠ 0) with hctl | hctl
    · simp only [if_pos hctl]
      rw [if_pos ⟨by decide, hctl⟩]
      exact ⟨rfl, rfl, fun h => absurd h (by simp [Outcome.andThen])⟩
    · simp only [if_neg hctl]
      rw [if_neg fun h => hctl h.2, Outcome.go_andThen, Frame.extendedLength, hfield, feed_append,
        feed_long rfl (by simp [hfield, LengthField.max] at hfits; omega)]
      exact lengthDone_agrees (s := ⟨_, _, _, _, _, _, _, _⟩) rfl rfl hlt hserver hclient
        fun hkey hp => by simpa [hfield] using hlooks hkey hp

/-- The bytes of a frame have the effect of the frame. -/
theorem feed_frame {f : Frame} (hws : AtFrame s link) (hread : Readable side f) :
    Agrees AtFrame (feed (rxSm side protocol) s f.bytes) (frameStep side protocol link f) := by
  obtain ⟨hstate, hbuffer, rfl⟩ := hws
  have hbytes : f.bytes = f.first :: f.second :: (f.extendedLength ++ (f.keyBytes ++ f.body)) := by
    simp only [Frame.bytes, Frame.header, List.cons_append, List.append_assoc]
  rw [hbytes, feed_cons, rxSm_new hstate, Outcome.go_andThen, frameStep, ← hbuffer]
  refine feed_second (s := ⟨_, _, _, _, _, _, _, _⟩) rfl ?_ ?_ ?_
  · rintro rfl
    simp
  · rintro rfl
    exact hread
  · intro hkey hp
    rcases side with _ | _
    · simpa [Readable, hkey, hp] using hread
    · exact Or.inr rfl

theorem feed_frames {frames : List Frame} (hws : AtFrame s link)
    (hread : ∀ f ∈ frames, Readable side f) :
    Agrees AtFrame (feed (rxSm side protocol) s (frames.flatMap Frame.bytes))
      (feed (frameStep side protocol) link frames) :=
  Agrees.feed (fun _ _ _ hws hread => feed_frame hws hread) hws hread

/-- A connection that has just been established. -/
def Ws.init : Ws :=
  ⟨.new, 0, fun _ => 0, 0, false, false, [], ⟨.established, 0, false, false, none, [], []⟩⟩

theorem atFrame_init : AtFrame .init Ws.init.link :=
  ⟨rfl, rfl, rfl⟩

/-- A list of frames, in packets of any kind. -/
theorem rx_frames {frames : List Frame} {packets : List (List UInt8)} (hws : AtFrame s link)
    (hread : ∀ f ∈ frames, Readable side f)
    (hpackets : packets.flatten = frames.flatMap Frame.bytes) :
    Agrees AtFrame (feed (feed (rxSm side protocol)) s packets)
      (feed (frameStep side protocol) link frames) := by
  rw [feed_flatten, hpackets]
  exact feed_frames hws hread

theorem rx_frames_hi :
    Agrees AtFrame
      (feed (feed (rxSm .server ⟨0, fun _ => 0⟩)) .init [[0x81, 0x82, 1], [2, 3, 4, 105, 107]])
      (feed (frameStep .server ⟨0, fun _ => 0⟩) Ws.init.link
        [Frame.minimal 0x81 (some fun i => [1, 2, 3, 4].getD i.val 0) [104, 105] (by decide)]) :=
  rx_frames atFrame_init (by simp [Readable, Frame.minimal]) (by decide)

end

end Lws

end MySocket
