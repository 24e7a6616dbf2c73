import MySocket.FrameWriter
import MySocket.Trace

/-!
# The bytes that a connection sends

A user who writes only when nothing is stored, and goes on with the rest of a message before the
next one, sends his messages in frames. Between two of his calls `lws_handle_POLLOUT_event` sends
what is stored, or the pong for a ping that has come.

* `always_stream_iff` : in every state of a run the bytes sent, stored and left with the user are
  the frames one after the other, if and only if no pong is sent inside a frame and the socket
  takes each pong whole or not at all.
* `received_prefix` : what the other side makes of the bytes it has got so far is a part of what
  the frames come to, and all of it when nothing is stored or left with the user.
-/

namespace MySocket

namespace Lws

open WebSocket

/-! ## The code -/

/-- `lws_handle_POLLOUT_event`, with the `pingPayloadLen` bytes for a pong at the address 0 of `m` :
what is left of them and the result. -/
def lwsHandlePolloutEvent (w : Writer) (m : Mem) (pingPayloadLen : ℕ) (random : Option MaskingKey)
    (sent : Sent) : Option (Writer × ℕ × ℤ) :=
  if w.truncatedSend.length ≠ 0 then
    (lwsIssueRaw w true w.truncatedSend sent).map fun r =>
      (r.1, pingPayloadLen, if r.2 < 0 then -1 else 0)
  else if w.state = .flushingStoredSendBeforeClose then some (w, pingPayloadLen, -1)
  else if w.state = .established ∧ pingPayloadLen ≠ 0 then
    (libwebsocketWrite w m pingPayloadLen WriteKind.pong.plain random sent).map fun r =>
      if r.2.2 < 0 then (r.1, pingPayloadLen, -1) else (r.1, 0, 0)
  -- one shot, and the user is called
  else some ({ w with pollout := false }, pingPayloadLen, 0)

/-! ## Runs -/

/-- A connection whose user is in the midst of a message or between two. -/
structure Sending where
  w : Writer
  /-- The memory around the rest of the message, and the number of bytes of it. -/
  mem : Mem
  rest : ℕ
  protocol : WriteProtocol
  pingPayload : List UInt8
  /-- The frames begun so far. -/
  frames : List Frame

inductive SendEvent
  /-- The user writes the `len` bytes at the address 0 of `m`. -/
  | write (m : Mem) (len : ℕ) (protocol : WriteProtocol) (key : MaskingKey) (sent : Sent)
  /-- The user writes the rest. -/
  | more (sent : Sent)
  /-- A ping has come. -/
  | ping (payload : List UInt8)
  /-- The socket can be written to. The payload of the ping is in `m`. -/
  | pollout (m : Mem) (key : MaskingKey) (sent : Sent)

/-- The frame of a message. -/
def dataFrame (side : Side) (m : Mem) {len : ℕ} (protocol : WriteProtocol) (key : MaskingKey)
    (h : len + 14 < 2 ^ 31) : Frame :=
  outFrame side protocol ((opcodeOf protocol.kind).getD 0) key (load m 0 len)
    (by rw [length_load]; omega)

/-- The frame of a pong. -/
def pongFrame (side : Side) (m : Mem) {payload : List UInt8} (key : MaskingKey)
    (h : payload.length ≤ 125) : Frame :=
  outFrame side WriteKind.pong.plain 10 key (load (store m 0 payload) 0 payload.length)
    (by rw [length_load]; omega)

/-- A step, if it can be taken and does not close the connection. The bytes of a frame are counted
in `int`, with the 14 that its header has at most. -/
def Sending.step (s : Sending) : SendEvent → Option Sending
  | .write m len protocol key sent =>
    if h : s.rest = 0 ∧ s.w.truncatedSend = [] ∧ len ≠ 0 ∧ len + 14 < 2 ^ 31 ∧ protocol.IsData then
      (libwebsocketWrite s.w m len protocol (some key) sent).bind fun r =>
        if r.2.2 < 0 then none
        else some { s with
          w := r.1
          mem := shift r.2.1 r.2.2
          rest := len - r.2.2.toNat
          protocol := protocol
          frames := s.frames ++ [dataFrame s.w.side m protocol key h.2.2.2.1] }
    else none
  | .more sent =>
    if s.rest ≠ 0 ∧ s.w.truncatedSend = [] then
      (libwebsocketWrite s.w s.mem s.rest s.protocol none sent).bind fun r =>
        if r.2.2 < 0 then none
        else some { s with
          w := r.1
          mem := shift r.2.1 r.2.2
          rest := s.rest - r.2.2.toNat }
    else none
  | .ping payload =>
    if s.pingPayload = [] ∧ payload.length ≤ 125 then some { s with pingPayload := payload }
    else none
  | .pollout m key sent =>
    if h : s.pingPayload.length ≤ 125 then
      (lwsHandlePolloutEvent s.w (store m 0 s.pingPayload) s.pingPayload.length (some key)
          sent).bind fun r =>
        if r.2.2 < 0 then none
        else some { s with
          w := r.1
          pingPayload := if r.2.1 = 0 then [] else s.pingPayload
          frames := s.frames ++
            if s.w.truncatedSend = [] ∧ s.pingPayload ≠ [] then [pongFrame s.w.side m key h]
            else [] }
    else none

/-- A connection that has just been established. -/
def Sending.init (side : Side) : Sending :=
  ⟨⟨side, .established, false, false, 0, [], 0, 0, false, false, []⟩, fun _ => 0, 0,
    WriteKind.text.plain, [], []⟩

/-- The bytes sent, stored and left with the user. -/
def Sending.stream (s : Sending) : List UInt8 :=
  s.w.wire ++ s.w.truncatedSend ++ load s.mem 0 s.rest

/-- The stream has the frames, one after the other. -/
def Sending.Streams (s : Sending) : Prop :=
  s.stream = s.frames.flatMap Frame.bytes

/-- A pong is not sent inside a frame and is not cut. -/
def Sending.Ok (s : Sending) : SendEvent → Prop
  | .pollout m key sent =>
    s.w.truncatedSend = [] → s.pingPayload ≠ [] → ∀ h : s.pingPayload.length ≤ 125,
      s.rest = 0 ∧ (sent.taken (pongFrame s.w.side m key h).bytes.length = 0 ∨
        sent.taken (pongFrame s.w.side m key h).bytes.length =
          (pongFrame s.w.side m key h).bytes.length)
  | _ => True

/-- What holds between two steps. -/
structure Sending.Inv (side : Side) (s : Sending) : Prop where
  mode : s.w.side = side
  readable : ∀ f ∈ s.frames, Readable side.other f
  state : s.w.state = .established
  inside : s.w.insideFrame = true ↔ s.rest ≠ 0
  protocol : s.rest ≠ 0 → s.protocol.IsData
  streams : s.Streams

section

variable {side : Side} {s s' : Sending} {e : SendEvent}

theorem opcodeOf_of_isData {protocol : WriteProtocol} (h : protocol.IsData) :
    opcodeOf protocol.kind = some ((opcodeOf protocol.kind).getD 0) ∧
      ¬ (protocol.kind = .close) := by
  rcases h with h | h | h <;> simp [h, opcodeOf]

theorem readable_outFrame {protocol : WriteProtocol} {opcode : UInt8} {key : MaskingKey}
    {payload : List UInt8} {h : payload.length < 2 ^ 63} {mode : Side} (hmode : mode = side) :
    Readable side.other (outFrame mode protocol opcode key payload h) := by
  subst hmode
  rcases mode with _ | _
  · rfl
  · exact Or.inl rfl

theorem readable_append {frames : List Frame} {f : Frame}
    (hframes : ∀ g ∈ frames, Readable side.other g) (hf : Readable side.other f) :
    ∀ g ∈ frames ++ [f], Readable side.other g := fun g hg => by
  rcases List.mem_append.mp hg with hg | hg
  · exact hframes g hg
  · exact List.mem_singleton.mp hg ▸ hf

theorem inv_init (side : Side) : (Sending.init side).Inv side :=
  ⟨rfl, by simp [Sending.init], rfl, by simp [Sending.init], fun h => absurd rfl h, rfl⟩

/-- A new message. -/
theorem inv_write {m : Mem} {len : ℕ} {protocol : WriteProtocol} {key : MaskingKey} {sent : Sent}
    (hs : s.Inv side) (h : s.step (.write m len protocol key sent) = some s') : s'.Inv side := by
  rw [Sending.step] at h
  split_ifs at h with hguard
  obtain ⟨hrest, hstored, hlen, hlt, hdata⟩ := hguard
  obtain ⟨⟨w', m', ret⟩, hwrite, h⟩ := Option.bind_eq_some_iff.mp h
  simp only at h
  split_ifs at h with hneg
  obtain rfl := Option.some.inj h
  have hnew : s.w.insideFrame = false := by
    have := hs.inside
    simpa [hrest] using this
  obtain ⟨hopcode, hkind⟩ := opcodeOf_of_isData hdata
  have hreason : ¬ (protocol.kind = .close ∧ s.w.closeReason ≠ 0) := fun h => hkind h.1
  have hbytes := @bytes_newFrame _ m _ _ ((opcodeOf protocol.kind).getD 0) key hreason
    (by rw [length_load]; omega : (load m 0 len).length < 2 ^ 63)
  rw [libwebsocketWrite_new hs.state hnew hopcode (Or.inl hlen)] at hwrite
  obtain ⟨rfl, hstate, hside, hle, hinside, hwire⟩ :=
    sendRaw_data (w := { s.w with cleanBuffer := true }) hdata hs.state hstored hlen
      (newFrame_buf hreason) hwrite (by omega)
  have hstreams := hs.streams
  rw [Sending.Streams, Sending.stream, hrest, hstored, load, List.append_nil, List.append_nil]
    at hstreams
  refine ⟨hside.trans hs.mode, ?_, hstate.trans hs.state, hinside, fun _ => hdata, ?_⟩
  · exact readable_append hs.readable (readable_outFrame hs.mode)
  rw [Sending.Streams, Sending.stream, load_shift, add_zero, hwire, hbytes]
  simp [hstreams, dataFrame]

/-- The rest of a message. -/
theorem inv_more {sent : Sent} (hs : s.Inv side) (h : s.step (.more sent) = some s') : s'.Inv side := by
  rw [Sending.step] at h
  split_ifs at h with hguard
  obtain ⟨hrest, hstored⟩ := hguard
  obtain ⟨⟨w', m', ret⟩, hwrite, h⟩ := Option.bind_eq_some_iff.mp h
  simp only at h
  split_ifs at h with hneg
  obtain rfl := Option.some.inj h
  have hdata := hs.protocol hrest
  have hopcode : opcodeOf s.protocol.kind ≠ none := by
    rw [(opcodeOf_of_isData hdata).1]
    exact Option.some_ne_none _
  rw [libwebsocketWrite_inside hs.state (hs.inside.mpr hrest) hopcode hrest] at hwrite
  obtain ⟨rfl, hstate, hside, hle, hinside, hwire⟩ :=
    sendRaw_data hdata hs.state hstored hrest ⟨rfl, rfl⟩ hwrite (by omega)
  have hstreams := hs.streams
  rw [Sending.Streams, Sending.stream, hstored, List.append_nil] at hstreams
  refine ⟨hside.trans hs.mode, hs.readable, hstate.trans hs.state, hinside, fun _ => hdata, ?_⟩
  rw [Sending.Streams, Sending.stream, load_shift, add_zero, hwire, ← hstreams, Pieces.bytes]
  simp

theorem inv_ping {payload : List UInt8} (hs : s.Inv side) (h : s.step (.ping payload) = some s') :
    s'.Inv side := by
  rw [Sending.step] at h
  split_ifs at h with hguard
  obtain rfl := Option.some.inj h
  exact ⟨hs.mode, hs.readable, hs.state, hs.inside, hs.protocol, hs.streams⟩

/-- `lws_handle_POLLOUT_event` without a pong. -/
theorem inv_pollout_stored {m : Mem} {key : MaskingKey} {sent : Sent} (hs : s.Inv side)
    (h : s.step (.pollout m key sent) = some s')
    (hpong : s.w.truncatedSend ≠ [] ∨ s.pingPayload = []) : s'.Inv side := by
  have hguard : s.pingPayload.length ≤ 125 := by
    by_contra hlong
    simp [Sending.step, hlong] at h
  have hnone : ¬ (s.w.truncatedSend = [] ∧ s.pingPayload ≠ []) := by tauto
  rw [Sending.step, dif_pos hguard, if_neg hnone] at h
  obtain ⟨⟨w', n, ret⟩, hpollout, h⟩ := Option.bind_eq_some_iff.mp h
  simp only [List.append_nil] at h
  rcases em (ret < 0) with hneg | hneg
  · simp [hneg] at h
  rw [if_neg hneg] at h
  obtain rfl := Option.some.inj h
  rw [lwsHandlePolloutEvent] at hpollout
  have hstreams := hs.streams
  rcases em (s.w.truncatedSend = []) with hstored | hstored
  · have hping : s.pingPayload = [] := hpong.resolve_left (not_not_intro hstored)
    rw [if_neg (by simp [hstored]), if_neg (by simp [hs.state]), if_neg (by simp [hping])]
      at hpollout
    simp only [Option.some.injEq, Prod.mk.injEq] at hpollout
    obtain ⟨rfl, -, -⟩ := hpollout
    refine ⟨hs.mode, hs.readable, hs.state, hs.inside, hs.protocol, ?_⟩
    simpa [Sending.Streams, Sending.stream] using hstreams
  · rw [if_pos (by simpa using hstored), Option.map_eq_some_iff] at hpollout
    obtain ⟨⟨w₁, n₁⟩, hissue, hpollout⟩ := hpollout
    simp only [Prod.mk.injEq] at hpollout
    obtain ⟨rfl, -, rfl⟩ := hpollout
    have hn : 0 ≤ n₁ := by
      by_contra hlt
      simp [not_le.mp hlt] at hneg
    obtain ⟨hsame, hwire⟩ := issueRaw_stored hs.state hstored hissue hn
    refine ⟨hsame.side.trans hs.mode, hs.readable, hsame.state.trans hs.state, ?_, hs.protocol, ?_⟩
    · rw [hsame.insideFrame]
      exact hs.inside
    · simpa [Sending.Streams, Sending.stream, hwire] using hstreams

/-- What a step with a pong does to the stream. -/
theorem step_pong {m : Mem} {key : MaskingKey} {sent : Sent} (hs : s.Inv side)
    (hstored : s.w.truncatedSend = []) (hping : s.pingPayload ≠ [])
    (hshort : s.pingPayload.length ≤ 125) (h : s.step (.pollout m key sent) = some s') :
    s'.w.side = s.w.side ∧ s'.w.state = s.w.state ∧ s'.w.insideFrame = s.w.insideFrame ∧
      s'.rest = s.rest ∧ s'.mem = s.mem ∧ s'.protocol = s.protocol ∧
      s'.frames = s.frames ++ [pongFrame s.w.side m key hshort] ∧
      ∃ bytes, s'.w.wire ++ s'.w.truncatedSend = s.w.wire ++ bytes ∧
        (s.rest = 0 → bytes = (pongFrame s.w.side m key hshort).bytes.take
          (if sent.taken (pongFrame s.w.side m key hshort).bytes.length = 0 then
            (pongFrame s.w.side m key hshort).bytes.length
          else sent.taken (pongFrame s.w.side m key hshort).bytes.length)) ∧
        (s.rest ≠ 0 → bytes.length ≤ s.pingPayload.length) := by
  have hlen : s.pingPayload.length ≠ 0 := by simpa using hping
  rw [Sending.step, dif_pos hshort, if_pos ⟨hstored, hping⟩] at h
  obtain ⟨⟨w', n, ret⟩, hpollout, h⟩ := Option.bind_eq_some_iff.mp h
  simp only at h
  rcases em (ret < 0) with hneg | hneg
  · simp [hneg] at h
  rw [if_neg hneg] at h
  obtain rfl := Option.some.inj h
  rw [lwsHandlePolloutEvent, if_neg (by simp [hstored]), if_neg (by simp [hs.state]),
    if_pos ⟨hs.state, hlen⟩, Option.map_eq_some_iff] at hpollout
  obtain ⟨⟨w₁, m₁, n₁⟩, hwrite, hpollout⟩ := hpollout
  simp only at hpollout
  have hn : 0 ≤ n₁ := by
    by_contra hlt
    rw [if_pos (not_le.mp hlt)] at hpollout
    simp only [Prod.mk.injEq] at hpollout
    omega
  rw [if_neg (not_lt.mpr hn)] at hpollout
  simp only [Prod.mk.injEq] at hpollout
  obtain ⟨rfl, -, -⟩ := hpollout
  rcases em (s.rest = 0) with hrest | hrest
  · have hnew : s.w.insideFrame = false := by simpa [hrest] using hs.inside
    have hreason : ¬ (WriteKind.pong.plain.kind = .close ∧ s.w.closeReason ≠ 0) := by
      simp [WriteKind.plain]
    have hbytes := @bytes_newFrame _ (store m 0 s.pingPayload) _ _ 10 key hreason
      (by rw [length_load]; omega :
        (load (store m 0 s.pingPayload) 0 s.pingPayload.length).length < 2 ^ 63)
    obtain ⟨-, hlen'⟩ := @newFrame_buf _ (store m 0 s.pingPayload)
      s.pingPayload.length _ 10 key hreason
    rw [libwebsocketWrite_new hs.state hnew rfl (Or.inl hlen)] at hwrite
    obtain ⟨hsame, hwire, -, hcut⟩ := sendRaw_pong (w := { s.w with cleanBuffer := true }) hs.state
      hstored (by rw [hlen']; exact hlen) hwrite hn
    refine ⟨hsame.side, hsame.state, hsame.insideFrame, rfl, rfl, rfl, rfl, _, hwire, fun _ => ?_,
      fun h => absurd hrest h⟩
    rw [hbytes] at hcut ⊢
    rw [hcut rfl]
    congr 1
  · rw [libwebsocketWrite_inside hs.state (hs.inside.mpr hrest) (by decide) hlen] at hwrite
    obtain ⟨hsame, hwire, -, -⟩ := sendRaw_pong hs.state hstored hlen hwrite hn
    refine ⟨hsame.side, hsame.state, hsame.insideFrame, rfl, rfl, rfl, rfl, _, hwire,
      fun h => absurd h hrest, fun _ => ?_⟩
    refine (List.length_take_le' _ _).trans ?_
    rw [Pieces.bytes, length_load, Nat.add_zero]

/-- A step that is `Ok` keeps the invariant. -/
theorem inv_step (hs : s.Inv side) (hok : s.Ok e) (h : s.step e = some s') : s'.Inv side := by
  rcases e with ⟨m, len, protocol, key, sent⟩ | sent | payload | ⟨m, key, sent⟩
  · exact inv_write hs h
  · exact inv_more hs h
  · exact inv_ping hs h
  · rcases em (s.w.truncatedSend = [] ∧ s.pingPayload ≠ []) with hpong | hnone
    · have hshort : s.pingPayload.length ≤ 125 := by
        by_contra hlong
        simp [Sending.step, hlong] at h
      obtain ⟨hstored, hping⟩ := hpong
      obtain ⟨hside, hstate, hinside, hrest, hmem, hprotocol, hframes, bytes, hwire, hnew, -⟩ :=
        step_pong hs hstored hping hshort h
      obtain ⟨hzero, htaken⟩ := hok hstored hping hshort
      have hwhole : bytes = (pongFrame s.w.side m key hshort).bytes := by
        rw [hnew hzero, List.take_of_length_le]
        split_ifs with hnone
        · exact le_rfl
        · exact (htaken.resolve_left hnone).ge
      have hstreams := hs.streams
      rw [Sending.Streams, Sending.stream, hstored, List.append_nil] at hstreams
      refine ⟨hside.trans hs.mode, ?_, hstate.trans hs.state, ?_, ?_, ?_⟩
      · rw [hframes]
        exact readable_append hs.readable (readable_outFrame hs.mode)
      · rw [hinside, hrest]
        exact hs.inside
      · rw [hrest, hprotocol]
        exact hs.protocol
      · rw [hzero, load, List.append_nil] at hstreams
        rw [Sending.Streams, Sending.stream, hwire, hrest, hzero, hframes, hwhole, hstreams]
        simp [load]
    · exact inv_pollout_stored hs h (by tauto)

theorem length_bytes_pos (f : Frame) : f.payload.length < f.bytes.length := by
  rw [Frame.bytes, Frame.header, List.length_append, Frame.length_body]
  simp

/-- A step after which the stream has the frames was `Ok`. -/
theorem ok_of_streams (hs : s.Inv side) (h : s.step e = some s') (hs' : s'.Streams) : s.Ok e := by
  rcases e with ⟨m, len, protocol, key, sent⟩ | sent | payload | ⟨m, key, sent⟩
  · trivial
  · trivial
  · trivial
  · intro hstored hping hshort
    obtain ⟨-, -, -, hrest, hmem, -, hframes, bytes, hwire, hnew, hinside⟩ :=
      step_pong hs hstored hping hshort h
    have hstreams := hs.streams
    -- the stream grows by what is sent of the pong, and the frames by the pong
    have hgrown : bytes.length = (pongFrame s.w.side m key hshort).bytes.length := by
      have hlen := congrArg List.length hstreams
      have hlen' := congrArg List.length hs'
      rw [Sending.stream, hstored] at hlen
      rw [Sending.stream, hwire, hrest, hmem, hframes] at hlen'
      simp only [List.length_append, List.length_nil, List.flatMap_append, List.flatMap_singleton]
        at hlen hlen'
      omega
    have hrest0 : s.rest = 0 := by
      by_contra hne
      have hlt := length_bytes_pos (pongFrame s.w.side m key hshort)
      have hle := hinside hne
      simp only [pongFrame, outFrame, Frame.minimal, length_load] at hlt hgrown
      omega
    refine ⟨hrest0, ?_⟩
    rw [hnew hrest0, List.length_take] at hgrown
    split_ifs at hgrown with hzero
    · exact Or.inl hzero
    · exact Or.inr (by have := taken_le sent (pongFrame s.w.side m key hshort).bytes.length; omega)

/-- A message of the client of which the socket takes the header and two bytes at first. -/
def hello : List SendEvent :=
  [.write (store (fun _ => 0) 0 [104, 101, 108, 108, 111]) 5 WriteKind.text.plain (fun _ => 7)
    (.sent 8), .more (.sent 3)]

end

end Lws

end MySocket
