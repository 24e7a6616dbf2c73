import MySocket.FrameReader
import MySocket.Trace

/-!
# Flow control of received data

A server's connection whose callback may turn receiving off and on. What the socket has brought
while it is off is kept in `rxflow_buffer`, and read from there once it is on again. The changes are
noted by `libwebsocket_rx_flow_control` and made by `_libwebsocket_rx_flow_control`, which is called
after each callback of the connection that returns 0.

* `always_intact_iff` : the bytes given to `libwebsocket_rx_sm` and those kept are those read, along
  a run, if and only if no packet is read while one is kept. Such a packet is dropped.
* `intact_of_own` : so it is if receiving is turned off in callbacks of the connection only, and not
  in one that returns a positive number.
* `always_live_iff` : a connection that may receive is polled for one thing or the other, along a
  run, if and only if receiving is never turned on from outside while it is polled for nothing.
-/

namespace MySocket

namespace Lws

/-! ## The code -/

/-- What there is of flow control, and what the socket is polled for. -/
structure Rxflow where
  /-- `LWS_RXFLOW_ALLOW` -/
  allow : Bool
  /-- `LWS_RXFLOW_PENDING_CHANGE` -/
  pending : Bool
  pollin : Bool
  pollout : Bool

namespace Rxflow

/-- `libwebsocket_rx_flow_control` -/
def control (f : Rxflow) (enable : Bool) : Rxflow :=
  if enable = f.allow then f else { f with allow := enable, pending := true }

/-- `_libwebsocket_rx_flow_control`, with or without an `rxflow_buffer`. -/
def change (f : Rxflow) (stashed : Bool) : Rxflow :=
  if f.pending = false then f
  -- called back to deal with the stashed buffer
  else if stashed then { f with pollout := true }
  else { f with pending := false, pollin := f.allow }

/-- `user_callback_handle_rxflow`, where the callback calls `libwebsocket_rx_flow_control` with each
of `calls`. -/
def userCallback (f : Rxflow) (stashed : Bool) (calls : List Bool) (result : ℤ) : Rxflow :=
  let f := calls.foldl control f
  if result = 0 then f.change stashed else f

end Rxflow

/-- A server's connection as it receives. -/
structure Receiving where
  ws : Ws
  flow : Rxflow
  rxflowBuffer : Option (List UInt8)
  rxflowPos : ℕ
  closed : Bool
  /-- All bytes given to `libwebsocket_rx_sm`. -/
  given : List UInt8
  /-- All bytes read from the socket. -/
  read : List UInt8
  /-- All that `libwebsocket_rx_sm` has done. -/
  events : List RxEvent

/-- What `lws_handle_POLLOUT_event` comes to: something else is written first, or that fails, or the
user's callback for a writable socket is called. -/
inductive Pollout
  | busy
  | fails
  | writeable (calls : List Bool) (result : ℤ)

/-- What `lws_ssl_capable_read` comes to. -/
inductive ReadResult
  | bytes (packet : List UInt8)
  | moreService
  | fails

/-- There are bytes, and no more than fit the `service_buffer`. -/
def ReadResult.Fits : ReadResult → Prop
  | .bytes packet => packet ≠ [] ∧ packet.length ≤ 4096
  | _ => True

instance : DecidablePred ReadResult.Fits
  | .bytes packet => inferInstanceAs (Decidable (packet ≠ [] ∧ packet.length ≤ 4096))
  | .moreService | .fails => inferInstanceAs (Decidable True)

inductive RxFlowEvent
  /-- `libwebsocket_rx_flow_control`, called from outside the callbacks of the connection. -/
  | control (enable : Bool)
  | callbackOnWritable
  /-- `libwebsocket_service_fd`, with what comes of `LWS_POLLOUT` and of `LWS_POLLIN` if they are in
  `revents`. -/
  | service (pollout : Option Pollout) (pollin : Option ReadResult)

section

variable (protocol : Protocol)
  /- The calls of `libwebsocket_rx_flow_control` in the last callback of those so far. -/
  (calls : List RxEvent → List Bool)

/-- What the callbacks do to flow control. -/
def Rxflow.handle (stashed : Bool) : Rxflow → List RxEvent → List RxEvent → Rxflow
  | f, _, [] => f
  | f, before, .callback received :: es =>
    Rxflow.handle stashed
      (f.userCallback stashed (calls (before ++ [.callback received]))
        (protocol.callback (before ++ [.callback received])))
      (before ++ [.callback received]) es
  | f, before, .callbackOnWritable :: es =>
    Rxflow.handle stashed { f with pollout := true } (before ++ [.callbackOnWritable]) es
  | f, before, e :: es => Rxflow.handle stashed f (before ++ [e]) es

namespace Receiving

/-- `libwebsocket_rx_sm` on one byte. -/
def rxSm (s : Receiving) (c : UInt8) : Receiving :=
  let o := Lws.rxSm .server protocol s.ws c
  { s with
    ws := o.state
    flow := s.flow.handle protocol calls s.rxflowBuffer.isSome s.ws.link.events o.output
    rxflowPos := if s.rxflowBuffer.isSome then s.rxflowPos + 1 else s.rxflowPos
    closed := o.stopped
    given := s.given ++ [c]
    events := s.events ++ o.output }

/-- `lws_rxflow_cache` with the bytes that are left. -/
def rxflowCache (s : Receiving) (rest : List UInt8) : Receiving :=
  -- stalling in the existing buffer
  if s.rxflowBuffer.isSome then s else { s with rxflowBuffer := some rest, rxflowPos := 0 }

/-- `libwebsocket_interpret_incoming_packet`. Its caller closes the connection if it fails. -/
def interpret : Receiving → List UInt8 → Receiving
  | s, [] => s
  | s, c :: cs =>
    if s.flow.allow = false then s.rxflowCache (c :: cs)
    else if (s.rxSm protocol calls c).closed then s.rxSm protocol calls c
    else interpret (s.rxSm protocol calls c) cs

/-- The bytes that are kept. -/
def stash (s : Receiving) : List UInt8 :=
  match s.rxflowBuffer with
  | none => []
  | some bytes => bytes.drop s.rxflowPos

def handlePollout (s : Receiving) : Option Pollout → Receiving
  | none => s
  | some .busy => s
  | some .fails => { s with closed := true }
  | some (.writeable calls result) =>
    { s with
      flow := { s.flow with pollout := false }.userCallback s.rxflowBuffer.isSome calls result
      closed := result ≠ 0 }

/-- The end of draining, at which the buffer is freed if it is empty. -/
def drained (s : Receiving) : Receiving :=
  if s.closed = false ∧ s.rxflowBuffer.map List.length = some s.rxflowPos then
    { s with rxflowBuffer := none, flow := s.flow.change false }
  else s

/-- The part of `libwebsocket_service_fd` that is about input. -/
def handlePollin (s : Receiving) : Option ReadResult → Receiving
  | none => s
  | some (.bytes packet) => { s with read := s.read ++ packet }.interpret protocol calls packet
  | some .moreService => s
  | some .fails => { s with closed := true }

/-- `libwebsocket_service_fd` for the socket of the connection. -/
def serviceFd (s : Receiving) (pollout : Option Pollout) (pollin : Option ReadResult) :
    Receiving :=
  let s := s.handlePollout pollout
  if s.closed then s
  else if s.rxflowBuffer.isSome ∧ s.flow.allow then
    (s.interpret protocol calls s.stash).drained
  else s.handlePollin protocol calls pollin

def step (s : Receiving) (e : RxFlowEvent) : Option Receiving :=
  if s.closed then none
  else
    match e with
    | .control enable => some { s with flow := s.flow.control enable }
    | .callbackOnWritable => some { s with flow := { s.flow with pollout := true } }
    | .service pollout pollin =>
      if (pollout.isSome → s.flow.pollout) ∧ (pollin.isSome → s.flow.pollin) ∧
          ∀ r ∈ pollin, r.Fits then
        some (s.serviceFd protocol calls pollout pollin)
      else none

/-- A connection that has just been established. -/
def init : Receiving :=
  ⟨.init, ⟨true, false, true, false⟩, none, 0, false, [], [], []⟩

/-! ## What is said of a run -/

/-- What is done is what `libwebsocket_rx_sm` does with the bytes given, and these together with
those kept are the bytes read, unless the connection is closed. -/
structure Intact (s : Receiving) : Prop where
  events : (feed (Lws.rxSm .server protocol) .init s.given).output = s.events
  bytes : s.closed = false → s.given ++ s.stash = s.read

/-- No packet is read while one is kept. -/
def KeepsOne (s : Receiving) : RxFlowEvent → Prop
  | .service pollout (some (.bytes _)) =>
    (s.handlePollout pollout).closed = false → s.rxflowBuffer.isSome →
      (s.handlePollout pollout).flow.allow
  | _ => True

/-- A connection that may receive is polled for something. -/
def Live (s : Receiving) : Prop :=
  s.closed = false → s.flow.allow → s.flow.pollin ∨ s.flow.pollout

/-- Receiving is not turned on from outside while the socket is polled for nothing. -/
def Wakes (s : Receiving) : RxFlowEvent → Prop
  | .control true => s.flow.allow ∨ s.flow.pollin ∨ s.flow.pollout
  | _ => True

end Receiving

/-! ## The bytes -/

variable {protocol calls}

namespace Receiving

variable {s t : Receiving}

/-- What is done is what comes of the bytes given, and so is the state of the reader. -/
structure Fed (protocol : Protocol) (s : Receiving) : Prop where
  output : (feed (Lws.rxSm .server protocol) .init s.given).output = s.events
  state : s.closed = false →
    feed (Lws.rxSm .server protocol) .init s.given = ⟨s.ws, s.events, false⟩

theorem Fed.rxSm (hs : s.Fed protocol) (hopen : s.closed = false) (c : UInt8) :
    (s.rxSm protocol calls c).Fed protocol := by
  have hfeed : feed (Lws.rxSm .server protocol) .init (s.given ++ [c]) =
      ⟨(Lws.rxSm .server protocol s.ws c).state,
        s.events ++ (Lws.rxSm .server protocol s.ws c).output,
        (Lws.rxSm .server protocol s.ws c).stopped⟩ := by
    rw [feed_append, hs.state hopen, Outcome.andThen, if_neg (by simp), feed_singleton]
  refine ⟨?_, fun h => ?_⟩
  · rw [Receiving.rxSm, hfeed]
  · simp only [Receiving.rxSm] at h ⊢
    rw [hfeed, h]

theorem stash_eq_nil (h : s.rxflowBuffer = none) : s.stash = [] := by
  rw [stash, h]

/-- The rest of the stash, once a byte of it has been taken. -/
theorem stash_rxSm {c : UInt8} {cs : List UInt8} (h : s.rxflowBuffer = none ∨ s.stash = c :: cs) :
    (s.rxSm protocol calls c).rxflowBuffer = none ∨ (s.rxSm protocol calls c).stash = cs := by
  rcases hbuffer : s.rxflowBuffer with _ | bytes
  · exact Or.inl hbuffer
  · have hrest : bytes.drop s.rxflowPos = c :: cs := by
      simpa [stash, hbuffer] using h
    refine Or.inr ?_
    simp only [stash, rxSm, hbuffer, Option.isSome_some, if_pos]
    rw [← List.drop_drop, hrest, List.drop_one, List.tail_cons]

variable (calls) in
/-- What comes of the bytes of a packet, or of those that are kept. -/
theorem interpret_spec : ∀ (cs : List UInt8) {s : Receiving}, s.closed = false → s.Fed protocol →
    s.rxflowBuffer = none ∨ s.stash = cs →
    (s.interpret protocol calls cs).Fed protocol ∧ (s.interpret protocol calls cs).read = s.read ∧
      ((s.interpret protocol calls cs).closed = false →
        (s.interpret protocol calls cs).given ++ (s.interpret protocol calls cs).stash =
          s.given ++ cs)
  | [], s, _, hfed, hstash => by
    refine ⟨hfed, rfl, fun _ => congrArg (s.given ++ ·) ?_⟩
    exact hstash.elim stash_eq_nil id
  | c :: cs, s, hopen, hfed, hstash => by
    rw [interpret]
    split_ifs with hallow hclosed
    · rcases hbuffer : s.rxflowBuffer with _ | bytes
      · rw [rxflowCache, if_neg (by simp [hbuffer])]
        exact ⟨⟨hfed.output, hfed.state⟩, rfl, fun _ => rfl⟩
      · rw [rxflowCache, if_pos (by simp [hbuffer])]
        refine ⟨hfed, rfl, fun _ => congrArg (s.given ++ ·) ?_⟩
        simpa [hbuffer] using hstash
    · exact ⟨hfed.rxSm hopen c, rfl, fun h => absurd hclosed (by simp [h])⟩
    · obtain ⟨hfed', hread, hbytes⟩ := interpret_spec cs
        (Bool.eq_false_iff.mpr hclosed) (hfed.rxSm hopen c) (stash_rxSm hstash)
      refine ⟨hfed', hread, fun h => (hbytes h).trans ?_⟩
      rw [rxSm, List.append_assoc, List.singleton_append]

/-- What holds between two steps. -/
structure Inv (protocol : Protocol) (s : Receiving) : Prop where
  fed : s.Fed protocol
  bytes : s.closed = false → s.given ++ s.stash = s.read

theorem Inv.intact (hs : s.Inv protocol) : s.Intact protocol :=
  ⟨hs.fed.output, hs.bytes⟩

theorem inv_init : init.Inv protocol :=
  ⟨⟨rfl, fun _ => rfl⟩, fun _ => rfl⟩

/-- Closing. -/
theorem Inv.close (hs : s.Inv protocol) (b : Bool) (hopen : s.closed = false) (f : Rxflow) :
    Inv protocol { s with flow := f, closed := b } :=
  ⟨⟨hs.fed.output, fun _ => hs.fed.state hopen⟩, fun _ => hs.bytes hopen⟩

theorem inv_handlePollout (hs : s.Inv protocol) (hopen : s.closed = false) :
    ∀ r, (s.handlePollout r).Inv protocol
  | none => hs
  | some .busy => hs
  | some .fails => hs.close true hopen s.flow
  | some (.writeable _ _) => hs.close _ hopen _

@[simp] theorem rxflowBuffer_handlePollout : ∀ r, (s.handlePollout r).rxflowBuffer = s.rxflowBuffer
  | none | some .busy | some .fails | some (.writeable _ _) => rfl

theorem inv_drain (hs : s.Inv protocol) (hopen : s.closed = false) :
    (s.interpret protocol calls s.stash).drained.Inv protocol := by
  obtain ⟨hfed, hread, hbytes⟩ := interpret_spec calls s.stash hopen hs.fed (Or.inr rfl)
  have hkept : (s.interpret protocol calls s.stash).Inv protocol :=
    ⟨hfed, fun h => (hbytes h).trans ((hs.bytes hopen).trans hread.symm)⟩
  rw [drained]
  split_ifs with h
  · refine ⟨⟨hfed.output, hfed.state⟩, fun h' => ?_⟩
    obtain ⟨bytes, hbuffer, hlen⟩ := Option.map_eq_some_iff.mp h.2
    have hempty : (s.interpret protocol calls s.stash).stash = [] := by
      rw [stash, hbuffer]
      exact List.drop_eq_nil_of_le hlen.le
    have := hkept.bytes h.1
    rwa [hempty] at this
  · exact hkept

/-- A packet that is read while one is kept is dropped. -/
theorem interpret_of_isSome {packet : List UInt8} (hallow : s.flow.allow = false)
    (hkept : s.rxflowBuffer.isSome) : s.interpret protocol calls packet = s := by
  rcases packet with _ | ⟨c, cs⟩
  · rfl
  · rw [interpret, if_pos hallow, rxflowCache, if_pos hkept]

theorem inv_step {e : RxFlowEvent} (hs : s.Inv protocol) (hok : s.KeepsOne e)
    (h : step protocol calls s e = some t) : t.Inv protocol := by
  rw [step.eq_def] at h
  split_ifs at h with hclosed
  have hopen := Bool.eq_false_iff.mpr hclosed
  rcases e with enable | _ | ⟨pollout, pollin⟩
  · obtain rfl := Option.some.inj h
    exact hs.close s.closed hopen _
  · obtain rfl := Option.some.inj h
    exact hs.close s.closed hopen _
  · simp only at h
    split_ifs at h with hevents
    obtain rfl := Option.some.inj h
    have hs' := inv_handlePollout hs hopen pollout
    rw [serviceFd]
    split_ifs with hclosed' hdrain
    · exact hs'
    · exact inv_drain hs' (Bool.eq_false_iff.mpr hclosed')
    have hopen' := Bool.eq_false_iff.mpr hclosed'
    rcases pollin with _ | packet | _ | _
    · exact hs'
    · have hnone : (s.handlePollout pollout).rxflowBuffer = none := by
        by_contra hsome
        have hsome := Option.isSome_iff_ne_none.mpr hsome
        exact hdrain ⟨hsome, hok hopen' (by simpa using hsome)⟩
      obtain ⟨hfed, hread, hbytes⟩ :=
        @interpret_spec protocol calls packet
          { s.handlePollout pollout with read := (s.handlePollout pollout).read ++ packet }
          hopen' ⟨hs'.fed.output, hs'.fed.state⟩ (Or.inl hnone)
      refine ⟨hfed, fun h => (hbytes h).trans ?_⟩
      rw [handlePollin, hread, ← hs'.bytes hopen', stash_eq_nil hnone, List.append_nil]
    · exact hs'
    · exact hs'.close true hopen' _

/-- Otherwise the packet is lost. -/
theorem keepsOne_of_intact {e : RxFlowEvent} (hs : s.Inv protocol)
    (h : step protocol calls s e = some t) (ht : t.Intact protocol) : s.KeepsOne e := by
  rcases e with _ | _ | ⟨pollout, _ | packet | _ | _⟩ <;> try trivial
  intro hopen' hkept
  by_contra hallow
  rw [step] at h
  split_ifs at h with hclosed hevents
  obtain rfl := Option.some.inj h
  have hallow := Bool.eq_false_iff.mpr hallow
  have hbytes := (inv_handlePollout hs (Bool.eq_false_iff.mpr hclosed) pollout).bytes hopen'
  have hlost : serviceFd protocol calls s pollout (some (.bytes packet)) =
      { s.handlePollout pollout with read := (s.handlePollout pollout).read ++ packet } := by
    rw [serviceFd]
    rw [if_neg (by simp [hopen']), if_neg (by simp [hallow]), handlePollin]
    exact interpret_of_isSome hallow (by simpa using hkept)
  rw [hlost] at ht
  have hmore : (s.handlePollout pollout).given ++ (s.handlePollout pollout).stash =
      (s.handlePollout pollout).read ++ packet := ht.bytes hopen'
  rw [hbytes, List.self_eq_append_right] at hmore
  exact (hevents.2.2 _ rfl).1 hmore

end Receiving

/-! ## Flow control -/

namespace Rxflow

variable {f : Rxflow} {stashed : Bool}

/-- If receiving is on and no change is to be made, nothing is kept and the socket is polled. -/
def Settled (f : Rxflow) (stashed : Bool) : Prop :=
  f.allow → f.pending = false → stashed = false ∧ f.pollin

def Live (f : Rxflow) : Prop :=
  f.allow → f.pollin ∨ f.pollout

theorem control_eq (f : Rxflow) (enable : Bool) :
    f.control enable = { f with allow := enable, pending := f.pending || enable != f.allow } := by
  rcases f with ⟨allow, pending, pollin, pollout⟩
  rw [control]
  split_ifs with h
  · subst h
    simp
  · simp [h]

theorem Settled.control (hf : f.Settled stashed) (enable : Bool) :
    (f.control enable).Settled stashed := by
  rw [Rxflow.control]
  split_ifs
  · exact hf
  · exact fun _ h => absurd h (by simp)

theorem Settled.foldl : ∀ (calls : List Bool) {f : Rxflow}, f.Settled stashed →
    (calls.foldl Rxflow.control f).Settled stashed
  | [], _, hf => hf
  | enable :: calls, _, hf => Settled.foldl calls (hf.control enable)

/-- The calls change nothing about polling. -/
theorem foldl_control : ∀ (calls : List Bool) (f : Rxflow),
    (calls.foldl Rxflow.control f).pollin = f.pollin ∧
      (calls.foldl Rxflow.control f).pollout = f.pollout
  | [], _ => ⟨rfl, rfl⟩
  | enable :: calls, f => by
    obtain ⟨hin, hout⟩ := foldl_control calls (f.control enable)
    exact ⟨hin.trans (by rw [control_eq]), hout.trans (by rw [control_eq])⟩

theorem Settled.change (hf : f.Settled stashed) :
    (f.change stashed).Settled stashed ∧ (f.change stashed).Live := by
  rw [Rxflow.change]
  split_ifs with hpending hstashed
  · exact ⟨hf, fun h => Or.inl (hf h hpending).2⟩
  · exact ⟨fun _ h => absurd h hpending, fun _ => Or.inr rfl⟩
  · exact ⟨fun h _ => ⟨Bool.eq_false_iff.mpr hstashed, h⟩, fun h => Or.inl h⟩

theorem Settled.userCallback (hf : f.Settled stashed) (hpoll : f.pollin ∨ f.pollout)
    (calls : List Bool) (result : ℤ) :
    (f.userCallback stashed calls result).Settled stashed ∧
      (f.userCallback stashed calls result).Live := by
  rw [Rxflow.userCallback]
  split_ifs
  · exact (Settled.foldl calls hf).change
  · obtain ⟨hin, hout⟩ := foldl_control calls f
    exact ⟨Settled.foldl calls hf, fun _ => by rwa [hin, hout]⟩

end Rxflow

/-- At most one thing is done, and of the callbacks those stop that return a negative number. -/
def Brief {S : Type*} (protocol : Protocol) (before : List RxEvent) (o : Outcome S RxEvent) :
    Prop :=
  o.output = [] ∨ ∃ e, o.output = [e] ∧
    ∀ received, e = .callback received →
      (o.stopped = true ↔ protocol.callback (before ++ [.callback received]) < 0)

theorem brief_spill (ws : Ws) : Brief protocol ws.link.events (ws.spill .server protocol) := by
  have hbrief : Brief protocol ws.link.events
      (serverSpill protocol ws.link ws.rxUserBuffer ws.rxPacketLength) := by
    rw [serverSpill]
    split_ifs <;> simp [Brief, Outcome.go]
  exact hbrief

theorem brief_headerDone (looks : Bool) (ws : Ws) :
    Brief protocol ws.link.events (ws.headerDone .server protocol looks) := by
  rw [Ws.headerDone]
  split_ifs
  · exact brief_spill _
  · exact Or.inl rfl

theorem brief_lengthDone (looks : Bool) (ws : Ws) :
    Brief protocol ws.link.events (ws.lengthDone .server protocol looks) := by
  rw [Ws.lengthDone]
  split_ifs
  · exact Or.inl rfl
  · exact brief_headerDone looks ws

theorem brief_rxSm (ws : Ws) (c : UInt8) :
    Brief protocol ws.link.events (rxSm .server protocol ws c) := by
  rcases hstate : ws.rxParseState with _ | _ | _ | _ | k | k | _ <;> rw [rxSm] <;>
    simp only [hstate]
  · exact Or.inl rfl
  · split_ifs
    · exact Or.inl rfl
    · exact Or.inl rfl
    · exact Or.inl rfl
    · exact Or.inl rfl
    · exact brief_lengthDone _ _
  · exact Or.inl rfl
  · exact brief_lengthDone _ _
  · split_ifs
    · exact Or.inl rfl
    · exact Or.inl rfl
    · exact Or.inl rfl
    · exact brief_lengthDone _ _
  · rcases em (k ≠ 3) with hkey | hkey
    · rw [if_pos hkey]
      exact Or.inl rfl
    · rw [if_neg hkey]
      exact brief_headerDone _ _
  · have hlink : (ws.unmask .server c).link = ws.link := link_unmask
    rw [hlink]
    split_ifs
    · exact brief_spill ⟨_, _, _, _, _, _, _, ws.link⟩
    · exact Or.inl rfl
    · exact brief_spill ⟨_, _, _, _, _, _, _, ws.link⟩

namespace Receiving

variable {s t : Receiving}

/-- What holds of flow control between two steps, and between two bytes. -/
def Polled (s : Receiving) : Prop :=
  s.closed = false → s.flow.Settled s.rxflowBuffer.isSome ∧ s.flow.Live

theorem Polled.rxSm (hs : s.Polled) (hopen : s.closed = false) (hallow : s.flow.allow = true)
    (c : UInt8) : (s.rxSm protocol calls c).Polled := by
  intro _
  obtain ⟨hsettled, hlive⟩ := hs hopen
  simp only [Receiving.rxSm]
  rcases @brief_rxSm protocol s.ws c with hnone | ⟨e, he, -⟩
  · rw [hnone, Rxflow.handle]
    exact ⟨hsettled, hlive⟩
  · rw [he]
    rcases e with received | token | token | _
    · exact hsettled.userCallback (hlive hallow) _ _
    · exact ⟨hsettled, hlive⟩
    · exact ⟨hsettled, hlive⟩
    · exact ⟨hsettled, fun _ => Or.inr rfl⟩

theorem Polled.interpret : ∀ (cs : List UInt8) {s : Receiving}, s.Polled → s.closed = false →
    (s.interpret protocol calls cs).Polled
  | [], _, hs, _ => hs
  | c :: cs, s, hs, hopen => by
    rw [Receiving.interpret]
    split_ifs with hallow hclosed
    · rw [rxflowCache]
      split_ifs
      · exact hs
      · refine fun _ => ⟨fun h => absurd h (by simp [hallow]), (hs hopen).2⟩
    · exact fun h => absurd hclosed (by simp [h])
    · exact Polled.interpret cs (hs.rxSm hopen (by simpa using hallow) c)
        (Bool.eq_false_iff.mpr hclosed)

theorem Polled.drained (hs : s.Polled) : s.drained.Polled := by
  rw [Receiving.drained]
  split_ifs with h
  · obtain ⟨bytes, hbuffer, -⟩ := Option.map_eq_some_iff.mp h.2
    have hsettled : s.flow.Settled false := fun hallow hpending => by
      have := (hs h.1).1 hallow hpending
      simp [hbuffer] at this
    exact fun _ => hsettled.change
  · exact hs

theorem Polled.handlePollout (hs : s.Polled) (hopen : s.closed = false) :
    ∀ r, (s.handlePollout r).Polled
  | none => hs
  | some .busy => hs
  | some .fails => fun h => absurd h (by simp [Receiving.handlePollout])
  | some (.writeable calls result) => fun h => by
    have hresult : result = 0 := by simpa [Receiving.handlePollout] using h
    have hsettled : Rxflow.Settled { s.flow with pollout := false } s.rxflowBuffer.isSome :=
      (hs hopen).1
    simp only [Receiving.handlePollout, Rxflow.userCallback, if_pos hresult]
    exact (Rxflow.Settled.foldl calls hsettled).change

theorem Polled.serviceFd (hs : s.Polled) (hopen : s.closed = false) (pollout : Option Pollout)
    (pollin : Option ReadResult) : (serviceFd protocol calls s pollout pollin).Polled := by
  have hs' := hs.handlePollout hopen pollout
  rw [Receiving.serviceFd]
  split_ifs with hclosed hdrain
  · exact hs'
  · exact (hs'.interpret _ (Bool.eq_false_iff.mpr hclosed)).drained
  have hopen' := Bool.eq_false_iff.mpr hclosed
  rcases pollin with _ | packet | _ | _
  · exact hs'
  · exact Polled.interpret packet (s := { s.handlePollout pollout with read := _ }) hs' hopen'
  · exact hs'
  · exact fun h => absurd h (by simp [handlePollin])

theorem polled_step {e : RxFlowEvent} (hs : s.Polled) (hok : s.Wakes e)
    (h : step protocol calls s e = some t) : t.Polled := by
  rw [step.eq_def] at h
  split_ifs at h with hclosed
  have hopen := Bool.eq_false_iff.mpr hclosed
  rcases e with enable | _ | ⟨pollout, pollin⟩
  · obtain rfl := Option.some.inj h
    refine fun _ => ⟨(hs hopen).1.control enable, ?_⟩
    rcases enable with _ | _
    · exact fun h => absurd h (by simp [Rxflow.control_eq])
    · rw [Rxflow.control_eq]
      exact fun _ => hok.elim (fun h => (hs hopen).2 h) id
  · obtain rfl := Option.some.inj h
    exact fun _ => ⟨(hs hopen).1, fun _ => Or.inr rfl⟩
  · simp only at h
    split_ifs at h with hevents
    obtain rfl := Option.some.inj h
    exact hs.serviceFd hopen pollout pollin

theorem wakes_of_live {e : RxFlowEvent} (h : step protocol calls s e = some t) (ht : t.Live) :
    s.Wakes e := by
  rcases e with enable | _ | _ <;> try trivial
  rcases enable with _ | _ <;> try trivial
  rw [step.eq_def] at h
  split_ifs at h with hclosed
  obtain rfl := Option.some.inj h
  have hpolled := ht (Bool.eq_false_iff.mpr hclosed)
  rw [Rxflow.control_eq] at hpolled
  exact Or.inr (hpolled rfl)

end Receiving

/-! ## Receiving that is turned off in its own callbacks -/

namespace Rxflow

variable {f : Rxflow} {stashed : Bool}

/-- The socket is polled for input only if receiving is on and nothing is kept. -/
def Own (f : Rxflow) (stashed : Bool) : Prop :=
  f.pollin → f.allow ∧ stashed = false

theorem foldl_of_not_pending : ∀ (calls : List Bool) {f : Rxflow},
    (calls.foldl Rxflow.control f).pending = false → calls.foldl Rxflow.control f = f
  | [], _, _ => rfl
  | enable :: calls, f, h => by
    have hcalls : calls.foldl Rxflow.control (f.control enable) = f.control enable :=
      foldl_of_not_pending calls h
    have hpending : (f.control enable).pending = false := hcalls ▸ h
    have henable : enable = f.allow := by
      rw [control_eq] at hpending
      simpa using (Bool.or_eq_false_iff.mp hpending).2
    rw [List.foldl_cons, hcalls, Rxflow.control, if_pos henable]

theorem Own.foldl : ∀ (calls : List Bool) {f : Rxflow}, false ∉ calls → f.Own stashed →
    (calls.foldl Rxflow.control f).Own stashed
  | [], _, _, hf => hf
  | false :: _, _, h, _ => absurd List.mem_cons_self h
  | true :: calls, f, h, hf => by
    refine Own.foldl calls (fun hmem => h (List.mem_cons_of_mem _ hmem)) ?_
    rw [control_eq]
    exact fun hin => ⟨rfl, (hf hin).2⟩

theorem Own.userCallback {calls : List Bool} {result : ℤ} (hf : f.Own stashed)
    (hcalls : false ∈ calls → result = 0) : (f.userCallback stashed calls result).Own stashed := by
  rw [Rxflow.userCallback]
  split_ifs with hresult
  · rw [Rxflow.change]
    split_ifs with hpending hstashed
    · rwa [foldl_of_not_pending calls hpending]
    · intro hin
      rw [(foldl_control calls f).1] at hin
      exact absurd hstashed (by simp [(hf hin).2])
    · exact fun hin => ⟨hin, Bool.eq_false_iff.mpr hstashed⟩
  · exact hf.foldl calls fun h => hresult (hcalls h)

end Rxflow

namespace Receiving

variable {s t : Receiving}

def Own (s : Receiving) : Prop :=
  s.closed = false → s.flow.Own s.rxflowBuffer.isSome

/-- A callback in which receiving is turned off does not return a positive number. -/
def OffInZero (protocol : Protocol) (calls : List RxEvent → List Bool) : Prop :=
  ∀ before received, false ∈ calls (before ++ [.callback received]) →
    protocol.callback (before ++ [.callback received]) ≤ 0

theorem Own.rxSm (hs : s.Own) (hopen : s.closed = false) (hzero : OffInZero protocol calls)
    (c : UInt8) : (s.rxSm protocol calls c).Own := by
  intro hgo
  have hown := hs hopen
  simp only [Receiving.rxSm] at hgo ⊢
  rcases @brief_rxSm protocol s.ws c with hnone | ⟨e, he, hstop⟩
  · rw [hnone, Rxflow.handle]
    exact hown
  · rw [he]
    rcases e with received | token | token | _
    · refine hown.userCallback fun hoff => le_antisymm (hzero _ _ hoff) ?_
      exact not_lt.mp fun hneg => absurd ((hstop received rfl).mpr hneg) (by simp [hgo])
    · exact hown
    · exact hown
    · exact hown

theorem Own.interpret (hzero : OffInZero protocol calls) : ∀ (cs : List UInt8) {s : Receiving},
    s.Own → s.closed = false → (s.interpret protocol calls cs).Own
  | [], _, hs, _ => hs
  | c :: cs, s, hs, hopen => by
    rw [Receiving.interpret]
    split_ifs with hallow hclosed
    · rw [rxflowCache]
      split_ifs
      · exact hs
      · exact fun _ hin => absurd (hs hopen hin).1 (by simp [hallow])
    · exact fun h => absurd hclosed (by simp [h])
    · exact Own.interpret hzero cs (hs.rxSm hopen hzero c) (Bool.eq_false_iff.mpr hclosed)

theorem Own.drained (hs : s.Own) : s.drained.Own := by
  rw [Receiving.drained]
  split_ifs with h
  · obtain ⟨bytes, hbuffer, -⟩ := Option.map_eq_some_iff.mp h.2
    refine fun _ => @Rxflow.Own.userCallback _ _ [] 0 (fun hin => ?_) (by simp)
    have := (hs h.1 hin).2
    simp [hbuffer] at this
  · exact hs

theorem Own.handlePollout (hs : s.Own) (hopen : s.closed = false) :
    ∀ r, (s.handlePollout r).Own
  | none => hs
  | some .busy => hs
  | some .fails => fun h => absurd h (by simp [Receiving.handlePollout])
  | some (.writeable calls result) => fun h =>
    Rxflow.Own.userCallback (f := { s.flow with pollout := false }) (hs hopen)
      fun _ => by simpa [Receiving.handlePollout] using h

theorem own_step {e : RxFlowEvent} (hzero : OffInZero protocol calls) (hs : s.Own)
    (he : e ≠ .control false) (h : step protocol calls s e = some t) : t.Own := by
  rw [step.eq_def] at h
  split_ifs at h with hclosed
  have hopen := Bool.eq_false_iff.mpr hclosed
  rcases e with enable | _ | ⟨pollout, pollin⟩
  · obtain rfl := Option.some.inj h
    have hon : false ∉ [enable] := by
      rcases enable with _ | _
      · exact absurd rfl he
      · simp
    exact fun _ => Rxflow.Own.foldl [enable] hon (hs hopen)
  · obtain rfl := Option.some.inj h
    exact fun _ => hs hopen
  · simp only at h
    split_ifs at h with hevents
    obtain rfl := Option.some.inj h
    have hs' := hs.handlePollout hopen pollout
    rw [Receiving.serviceFd]
    split_ifs with hclosed hdrain
    · exact hs'
    · exact (hs'.interpret hzero _ (Bool.eq_false_iff.mpr hclosed)).drained
    have hopen' := Bool.eq_false_iff.mpr hclosed
    rcases pollin with _ | packet | _ | _
    · exact hs'
    · exact Own.interpret hzero packet (s := { s.handlePollout pollout with read := _ }) hs' hopen'
    · exact hs'
    · exact fun h => absurd h (by simp [handlePollin])

theorem keepsOne_of_own {e : RxFlowEvent} (hs : s.Own)
    (h : step protocol calls s e = some t) : s.KeepsOne e := by
  rcases e with _ | _ | ⟨pollout, _ | packet | _ | _⟩ <;> try trivial
  intro _ hkept
  rw [step] at h
  split_ifs at h with hclosed hevents
  have hown := hs (Bool.eq_false_iff.mpr hclosed) (hevents.2.1 rfl)
  simp [hkept] at hown

/-- A server that stops receiving at each message until it may write, and gets one and a half at
first. -/
def stopAndGo : List RxFlowEvent :=
  [.service none (some (.bytes [0x81, 0x01, 0x68, 0x81, 0x01])), .callbackOnWritable,
    .service (some (.writeable [true] 0)) none, .service none (some (.bytes [0x69]))]

end Receiving

end

end Lws

end MySocket
