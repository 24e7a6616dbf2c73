import Mathlib.Data.Fin.VecNotation
import MySocket.ByteMemory
import MySocket.FrameDelivery

/-!
# How libwebsockets writes frames

`libwebsocket_write` puts the header of a frame into the memory before the user's buffer and, on
the client, masks the buffer in place. What the socket does not take of a frame stays with the
user, who calls again with the rest, or, if the socket takes nothing at all, is stored by
`lws_issue_raw` and sent when the socket can be written to.

* `bytes_newFrame` : what is handed to the socket is the frame of the buffer, but for a frame with
  a reason to close.
* `sendRaw_data` : what the socket does not take of a message is with the user or stored.
* `close_reason_iff` : the other side reads the reason to close if and only if it is a client or
  the reason is the last two bytes of the key, which are put where the reason was.
-/

namespace MySocket

namespace Lws

open WebSocket

/-! ## The code -/

/-- `enum libwebsocket_write_protocol` without its flags. -/
inductive WriteKind
  | text
  | binary
  | continuation
  | http
  | close
  | ping
  | pong
  | httpFinal
  | httpHeaders
  | unknown
  deriving DecidableEq

structure WriteProtocol where
  kind : WriteKind
  noFin : Bool
  ignoreXorMask : Bool
  deriving DecidableEq

/-- The value without flags. -/
def WriteKind.plain (kind : WriteKind) : WriteProtocol :=
  ⟨kind, false, false⟩

/-- What `lws_ssl_capable_write` comes to; the socket takes no more than there is. -/
inductive Sent
  | error
  | moreService
  | sent (n : ℕ)
  deriving DecidableEq

/-- How many of `len` bytes are taken. -/
def Sent.taken : Sent → ℕ → ℕ
  | .sent n, len => min n len
  | _, _ => 0

/-- What writing reads and changes of `struct libwebsocket`. -/
structure Writer where
  /-- `mode` -/
  side : Side
  state : ConnState
  insideFrame : Bool
  cleanBuffer : Bool
  closeReason : UInt16
  /-- The `truncated_send_len` bytes at `truncated_send_offset`. -/
  truncatedSend : List UInt8
  truncatedSendOffset : ℕ
  truncatedSendAllocation : ℕ
  socketIsPermanentlyUnusable : Bool
  /-- Whether POLLOUT has been asked for. -/
  pollout : Bool
  /-- The bytes the socket has taken. -/
  wire : List UInt8

/-- `lws_issue_raw` on a buffer of the user or on what is stored, if `stored` : nothing if the
assertion fails. -/
def lwsIssueRaw (w : Writer) (stored : Bool) (buf : List UInt8) (sent : Sent) :
    Option (Writer × ℤ) :=
  if buf.length = 0 then some (w, 0)
  else if w.state = .flushingStoredSendBeforeClose ∧ w.truncatedSend.length = 0 then
    some (w, buf.length)
  else if w.truncatedSend.length ≠ 0 ∧ ¬ stored then none
  else if sent = .error then some ({ w with socketIsPermanentlyUnusable := true }, -1)
  else
    let n := sent.taken buf.length
    let w := { w with wire := w.wire ++ buf.take n }
    if w.truncatedSend.length ≠ 0 then
      let w := { w with
        truncatedSendOffset := w.truncatedSendOffset + n
        truncatedSend := w.truncatedSend.drop n }
      if w.truncatedSend.length = 0 ∧ w.state = .flushingStoredSendBeforeClose then some (w, -1)
      else some ({ w with pollout := true }, if w.truncatedSend.length = 0 then buf.length else n)
    else if n = buf.length then some (w, n)
    else if n ≠ 0 ∧ w.cleanBuffer then some (w, n)
    else
      some ({ w with
        truncatedSendAllocation := max w.truncatedSendAllocation (buf.length - n)
        truncatedSendOffset := 0
        truncatedSend := buf.drop n
        pollout := true }, buf.length)

/-- `LWS_WS_OPCODE_07__...` -/
def opcodeOf : WriteKind → Option UInt8
  | .text => some 1
  | .binary => some 2
  | .continuation => some 0
  | .close => some 8
  | .ping => some 9
  | .pong => some 10
  | _ => none

/-- The header but for the key. -/
def lengthHeader (first : UInt8) (isMaskedBit : UInt8) (len : ℕ) : List UInt8 :=
  if len < 126 then [first, UInt8.ofNat len ||| isMaskedBit]
  else if len < 65536 then
    [first, 126 ||| isMaskedBit, UInt8.ofNat (len >>> 8), UInt8.ofNat len]
  else
    [first, 127 ||| isMaskedBit, UInt8.ofNat (len >>> 56) &&& 0x7f, UInt8.ofNat (len >>> 48),
      UInt8.ofNat (len >>> 40), UInt8.ofNat (len >>> 32), UInt8.ofNat (len >>> 24),
      UInt8.ofNat (len >>> 16), UInt8.ofNat (len >>> 8), UInt8.ofNat len]

/-- Where the pieces of a frame are, relative to the user's buffer. -/
structure Pieces where
  mem : Mem
  /-- `buf` -/
  buf : ℤ
  pre : ℕ
  len : ℕ
  dropmask : Option ℤ

/-- The header of a new frame. -/
def addHeader (w : Writer) (m : Mem) (len : ℕ) (protocol : WriteProtocol) (opcode : UInt8) :
    Pieces :=
  let pre : ℕ := if w.side = .client then 4 else 0
  let dropmask := if w.side = .client then some (0 - (pre : ℤ)) else none
  let isMaskedBit : UInt8 := if w.side = .client then 0x80 else 0
  let reason := protocol.kind = .close ∧ w.closeReason ≠ 0
  let buf : ℤ := if reason then 0 - 2 else 0
  let m := if reason then
      store m buf [(w.closeReason >>> 8).toUInt8, w.closeReason.toUInt8]
    else m
  let len := if reason then len + 2 else len
  let first := if protocol.noFin then opcode else opcode ||| 0x80
  let header := lengthHeader first isMaskedBit len
  let pre := pre + header.length
  ⟨store m (buf - pre) header, buf, pre, len, dropmask⟩

/-- The payload masked where it is, and the key put before it. `dropmask` has been taken before
`buf` was moved for the reason. -/
def Pieces.mask (p : Pieces) (key : MaskingKey) : Pieces :=
  match p.dropmask with
  | none => p
  | some dropmask =>
    let m := store p.mem (dropmask + 4) (xorKey key 0 (load p.mem (dropmask + 4) p.len))
    { p with mem := store m dropmask (List.ofFn key) }

/-- What is handed to the socket. -/
def Pieces.bytes (p : Pieces) : List UInt8 :=
  load p.mem (p.buf - p.pre) (p.len + p.pre)

/-- `send_raw` and what follows, with `origLen` the length the user gave. -/
def sendRaw (w : Writer) (p : Pieces) (origLen : ℕ) (protocol : WriteProtocol) (sent : Sent) :
    Option (Writer × Mem × ℤ) :=
  if protocol = WriteKind.close.plain ∨ protocol = WriteKind.http.plain ∨
      protocol = WriteKind.httpFinal.plain ∨ protocol = WriteKind.httpHeaders.plain ∨
      protocol = WriteKind.pong.plain ∨ protocol = WriteKind.ping.plain then
    (lwsIssueRaw w false p.bytes sent).map fun r => (r.1, p.mem, r.2)
  else
    (lwsIssueRaw { w with insideFrame := true } false p.bytes sent).map fun (r : Writer × ℤ) =>
      if r.2 ≤ 0 then (r.1, p.mem, r.2)
      else if r.2 = (p.len + p.pre : ℕ) then ({ r.1 with insideFrame := false }, p.mem, origLen)
      else (r.1, p.mem, r.2 - p.pre)

/-- `libwebsocket_write` on the `len` bytes at the address 0 of `m`, with what
`libwebsockets_get_random` gives for a key : nothing if an assertion fails, else the memory it
leaves and its result. It counts in `int`, so `len` and the header are less than `2 ^ 31`. -/
def libwebsocketWrite (w : Writer) (m : Mem) (len : ℕ) (protocol : WriteProtocol)
    (random : Option MaskingKey) (sent : Sent) : Option (Writer × Mem × ℤ) :=
  if len = 0 ∧ protocol ≠ WriteKind.close.plain ∧ protocol ≠ WriteKind.ping.plain ∧
      protocol ≠ WriteKind.pong.plain then some (w, m, 0)
  else if protocol = WriteKind.http.plain ∨ protocol = WriteKind.httpFinal.plain ∨
      protocol = WriteKind.httpHeaders.plain then
    sendRaw w ⟨m, 0, 0, len, none⟩ len protocol sent
  else if w.state ≠ .established then some (w, m, -1)
  else if w.insideFrame then sendRaw w ⟨m, 0, 0, len, none⟩ len protocol sent
  else
    let w := { w with cleanBuffer := true }
    match opcodeOf protocol.kind with
    | none => some (w, m, -1)
    | some opcode =>
      let p := addHeader w m len protocol opcode
      if w.side = .client then
        match random with
        | none => some (w, p.mem, -1)
        | some key => sendRaw w (p.mask key) len protocol sent
      else sendRaw w p len protocol sent

/-! ## The bytes of a frame -/

def firstByte (protocol : WriteProtocol) (opcode : UInt8) : UInt8 :=
  if protocol.noFin then opcode else opcode ||| 0x80

section

variable {w : Writer} {m : Mem} {len : ℕ} {protocol : WriteProtocol} {opcode first : UInt8}
  {key : MaskingKey} {sent : Sent}

theorem and_low_of_lt {v : UInt8} (h : v.toNat < 128) : v &&& 0x7f = v := by
  simpa using (Frame.second_and_of_lt h false).1

/-- What is put before the key is the header of the frame with the shortest length. -/
theorem lengthHeader_eq (first : UInt8) (k : Option MaskingKey) {payload : List UInt8} {len : ℕ}
    (h : payload.length < 2 ^ 63) (hlen : payload.length = len) :
    lengthHeader first (if k.isSome then 0x80 else 0) len ++
        (Frame.minimal first k payload h).keyBytes = (Frame.minimal first k payload h).header := by
  subst hlen
  have hheader : (Frame.minimal first k payload h).header =
      first :: (Frame.minimal first k payload h).second ::
        ((Frame.minimal first k payload h).extendedLength ++
          (Frame.minimal first k payload h).keyBytes) := rfl
  rw [hheader, lengthHeader]
  rcases Nat.lt_or_ge payload.length 126 with hshort | hlong
  · have hfield : Frame.shortest payload.length = .short := if_pos hshort
    rw [if_pos hshort]
    simp [Frame.extendedLength, Frame.second, Frame.len7, Frame.minimal, hfield]
  · rw [if_neg (Nat.not_lt.mpr hlong)]
    rcases Nat.lt_or_ge payload.length 65536 with hmedium | hlong'
    · have hfield : Frame.shortest payload.length = .medium := by
        rw [Frame.shortest, if_neg (Nat.not_lt.mpr hlong), if_pos hmedium]
      rw [if_pos hmedium]
      simp [Frame.extendedLength, Frame.second, Frame.len7, Frame.minimal, hfield, bigEndian]
    · have hfield : Frame.shortest payload.length = .long := by
        rw [Frame.shortest, if_neg (Nat.not_lt.mpr hlong), if_neg (Nat.not_lt.mpr hlong')]
      have htop : (UInt8.ofNat (payload.length >>> 56)).toNat < 128 := by
        rw [UInt8.toNat_ofNat', Nat.shiftRight_eq_div_pow]
        omega
      rw [if_neg (Nat.not_lt.mpr hlong'), and_low_of_lt htop]
      simp [Frame.extendedLength, Frame.second, Frame.len7, Frame.minimal, hfield, bigEndian]

/-- The frame that a call of `libwebsocket_write` is to send. -/
def outFrame (side : Side) (protocol : WriteProtocol) (opcode : UInt8) (key : MaskingKey)
    (payload : List UInt8) (h : payload.length < 2 ^ 63) : Frame :=
  Frame.minimal (firstByte protocol opcode) (if side = .client then some key else none) payload h

/-- The pieces of a new frame, masked if it is to be. -/
def newFrame (w : Writer) (m : Mem) (len : ℕ) (protocol : WriteProtocol) (opcode : UInt8)
    (key : MaskingKey) : Pieces :=
  if w.side = .client then (addHeader w m len protocol opcode).mask key
  else addHeader w m len protocol opcode

theorem libwebsocketWrite_new (hstate : w.state = .established) (hnew : w.insideFrame = false)
    (hopcode : opcodeOf protocol.kind = some opcode)
    (hlen : len ≠ 0 ∨ protocol = WriteKind.close.plain ∨ protocol = WriteKind.ping.plain ∨
      protocol = WriteKind.pong.plain) :
    libwebsocketWrite w m len protocol (some key) sent =
      sendRaw { w with cleanBuffer := true } (newFrame w m len protocol opcode key) len protocol
        sent := by
  have hkind : ¬ (protocol = WriteKind.http.plain ∨ protocol = WriteKind.httpFinal.plain ∨
      protocol = WriteKind.httpHeaders.plain) := by
    rintro (rfl | rfl | rfl) <;> simp [opcodeOf, WriteKind.plain] at hopcode
  have hsome : ¬ (len = 0 ∧ protocol ≠ WriteKind.close.plain ∧ protocol ≠ WriteKind.ping.plain ∧
      protocol ≠ WriteKind.pong.plain) := by
    rintro ⟨hzero, hclose, hping, hpong⟩
    rcases hlen with h | h | h | h
    · exact h hzero
    · exact hclose h
    · exact hping h
    · exact hpong h
  rw [libwebsocketWrite, if_neg hsome, if_neg hkind, if_neg (not_not_intro hstate),
    if_neg (by simp [hnew]), hopcode, newFrame]
  rcases w with ⟨_ | _, _⟩ <;> rfl

/-- In a frame the bytes go out as they are. -/
theorem libwebsocketWrite_inside {random : Option MaskingKey} (hstate : w.state = .established)
    (hinside : w.insideFrame = true) (hopcode : opcodeOf protocol.kind ≠ none) (hlen : len ≠ 0) :
    libwebsocketWrite w m len protocol random sent =
      sendRaw w ⟨m, 0, 0, len, none⟩ len protocol sent := by
  have hkind : ¬ (protocol = WriteKind.http.plain ∨ protocol = WriteKind.httpFinal.plain ∨
      protocol = WriteKind.httpHeaders.plain) := by
    rintro (rfl | rfl | rfl) <;> simp [opcodeOf, WriteKind.plain] at hopcode
  rw [libwebsocketWrite, if_neg fun h => hlen h.1, if_neg hkind, if_neg (not_not_intro hstate),
    if_pos hinside]

/-- The bytes of a new frame of the server. -/
theorem bytes_server (hside : w.side = .server)
    (hreason : ¬ (protocol.kind = .close ∧ w.closeReason ≠ 0)) (h : (load m 0 len).length < 2 ^ 63) :
    (newFrame w m len protocol opcode key).bytes =
      (outFrame w.side protocol opcode key (load m 0 len) h).bytes := by
  have hclient : ¬ w.side = .client := by simp [hside]
  have hheader := lengthHeader_eq (firstByte protocol opcode) none h (length_load len 0)
  rw [Frame.keyBytes_none rfl, List.append_nil] at hheader
  rw [newFrame, if_neg hclient, Pieces.bytes, addHeader]
  simp only [if_neg hclient, if_neg hreason, Nat.zero_add]
  rw [Nat.add_comm len, load_add, load_store, load_store_of_disjoint (Or.inr (by omega))]
  simp only [outFrame, if_neg hclient, Frame.bytes, ← hheader]
  simp [firstByte, Frame.minimal, Frame.body]

/-- The bytes of a new frame of the client. -/
theorem bytes_client (hside : w.side = .client)
    (hreason : ¬ (protocol.kind = .close ∧ w.closeReason ≠ 0)) (h : (load m 0 len).length < 2 ^ 63) :
    (newFrame w m len protocol opcode key).bytes =
      (outFrame w.side protocol opcode key (load m 0 len) h).bytes := by
  have hheader := lengthHeader_eq (firstByte protocol opcode) (some key) h (length_load len 0)
  rw [Frame.keyBytes_some rfl] at hheader
  rw [newFrame, if_pos hside, Pieces.bytes, addHeader]
  simp only [if_pos hside, if_neg hreason, Pieces.mask]
  have hsame (header : List UInt8) : load (store m (0 - ((4 + header.length : ℕ) : ℤ)) header)
      (0 - ((4 : ℕ) : ℤ) + 4) len = load m 0 len :=
    load_store_of_disjoint (Or.inr (by omega))
  rw [hsame, load_three (by omega) (by simp) (by simp; omega)]
  simp only [outFrame, if_pos hside, Frame.bytes, ← hheader]
  simp [firstByte, Frame.minimal, Frame.body]

/-- What is handed to the socket for a new frame is the frame. -/
theorem bytes_newFrame (hreason : ¬ (protocol.kind = .close ∧ w.closeReason ≠ 0))
    (h : (load m 0 len).length < 2 ^ 63) :
    (newFrame w m len protocol opcode key).bytes =
      (outFrame w.side protocol opcode key (load m 0 len) h).bytes := by
  rcases hside : w.side with _ | _
  · exact hside ▸ bytes_server hside hreason h
  · exact hside ▸ bytes_client hside hreason h

theorem newFrame_buf (hreason : ¬ (protocol.kind = .close ∧ w.closeReason ≠ 0)) :
    (newFrame w m len protocol opcode key).buf = 0 ∧
      (newFrame w m len protocol opcode key).len = len := by
  rw [newFrame]
  split_ifs with hside
  · simp [Pieces.mask, addHeader, hside, hreason]
  · simp [addHeader, hreason]

/-! ## What the socket takes -/

theorem taken_le (sent : Sent) (n : ℕ) : sent.taken n ≤ n := by
  rcases sent with _ | _ | k
  · exact Nat.zero_le n
  · exact Nat.zero_le n
  · exact Nat.min_le_right k n

/-- `w'` is `w` but for the bytes written, stored and taken by the socket. -/
structure SameLink (w w' : Writer) : Prop where
  side : w'.side = w.side
  state : w'.state = w.state
  insideFrame : w'.insideFrame = w.insideFrame
  cleanBuffer : w'.cleanBuffer = w.cleanBuffer
  closeReason : w'.closeReason = w.closeReason

theorem SameLink.refl (w : Writer) : SameLink w w :=
  ⟨rfl, rfl, rfl, rfl, rfl⟩

/-- A call of `lws_issue_raw` on a buffer of the user that has not failed : `n` bytes of it are on
their way, and all of them if some of them are stored. -/
theorem issueRaw_user {buf : List UInt8} {w' : Writer} {n : ℤ} (hbuf : buf ≠ [])
    (hstate : w.state = .established) (hstored : w.truncatedSend = [])
    (h : lwsIssueRaw w false buf sent = some (w', n)) (hn : 0 ≤ n) :
    SameLink w w' ∧ w'.wire ++ w'.truncatedSend = w.wire ++ buf.take n.toNat ∧
      (w'.truncatedSend = [] ∨ n = buf.length) ∧ 0 < n ∧ n ≤ buf.length ∧
      (w.cleanBuffer = true →
        n = if sent.taken buf.length = 0 then buf.length else sent.taken buf.length) := by
  have hlen : buf.length ≠ 0 := by simpa using hbuf
  have hle := taken_le sent buf.length
  rw [lwsIssueRaw, if_neg hlen, if_neg (by simp [hstate]), if_neg (by simp [hstored])] at h
  rcases em (sent = .error) with herror | herror
  · rw [if_pos herror] at h
    simp only [Option.some.injEq, Prod.mk.injEq] at h
    omega
  rw [if_neg herror] at h
  simp only [hstored, List.length_nil, ne_eq, not_true_eq_false, if_false] at h
  split_ifs at h with hwhole hclean
  · simp only [Option.some.injEq, Prod.mk.injEq] at h
    obtain ⟨rfl, rfl⟩ := h
    refine ⟨⟨rfl, rfl, rfl, rfl, rfl⟩, by simp, Or.inl rfl, by omega, by omega, fun _ => ?_⟩
    rw [if_neg (by omega)]
  · simp only [Option.some.injEq, Prod.mk.injEq] at h
    obtain ⟨rfl, rfl⟩ := h
    refine ⟨⟨rfl, rfl, rfl, rfl, rfl⟩, by simp, Or.inl rfl, by omega, by omega, fun _ => ?_⟩
    rw [if_neg hclean.1]
  · simp only [Option.some.injEq, Prod.mk.injEq] at h
    obtain ⟨rfl, rfl⟩ := h
    refine ⟨⟨rfl, rfl, rfl, rfl, rfl⟩, by simp, Or.inr rfl, by omega, by omega, fun hbuffer => ?_⟩
    rw [if_pos (not_not.mp fun hpos => hclean ⟨hpos, hbuffer⟩)]

/-- Sending what is stored loses nothing. -/
theorem issueRaw_stored {w' : Writer} {n : ℤ} (hstate : w.state = .established)
    (hstored : w.truncatedSend ≠ [])
    (h : lwsIssueRaw w true w.truncatedSend sent = some (w', n)) (hn : 0 ≤ n) :
    SameLink w w' ∧ w'.wire ++ w'.truncatedSend = w.wire ++ w.truncatedSend := by
  have hlen : w.truncatedSend.length ≠ 0 := by simpa using hstored
  rw [lwsIssueRaw, if_neg hlen, if_neg (by simp [hstate]), if_neg (by simp)] at h
  rcases em (sent = .error) with herror | herror
  · rw [if_pos herror] at h
    simp only [Option.some.injEq, Prod.mk.injEq] at h
    omega
  rw [if_neg herror, if_pos hlen] at h
  simp only [hstate, reduceCtorEq, and_false, if_false, Option.some.injEq, Prod.mk.injEq] at h
  obtain ⟨rfl, -⟩ := h
  exact ⟨⟨rfl, hstate.symm ▸ rfl, rfl, rfl, rfl⟩, by simp⟩

/-- The protocols of messages. -/
def WriteProtocol.IsData (protocol : WriteProtocol) : Prop :=
  protocol.kind = .text ∨ protocol.kind = .binary ∨ protocol.kind = .continuation

instance (protocol : WriteProtocol) : Decidable protocol.IsData :=
  inferInstanceAs (Decidable (_ ∨ _ ∨ _))

theorem not_control (h : protocol.IsData) : ¬ (protocol = WriteKind.close.plain ∨
    protocol = WriteKind.http.plain ∨ protocol = WriteKind.httpFinal.plain ∨
    protocol = WriteKind.httpHeaders.plain ∨ protocol = WriteKind.pong.plain ∨
    protocol = WriteKind.ping.plain) := by
  rintro (rfl | rfl | rfl | rfl | rfl | rfl) <;>
    simp [WriteProtocol.IsData, WriteKind.plain] at h

/-- A part of a message is on its way, and the rest of it is with the user. -/
theorem sendRaw_data {p : Pieces} {w' : Writer} {m' : Mem} {ret : ℤ} (hdata : protocol.IsData)
    (hstate : w.state = .established) (hstored : w.truncatedSend = []) (hlen : len ≠ 0)
    (hbuf : p.buf = 0 ∧ p.len = len) (h : sendRaw w p len protocol sent = some (w', m', ret))
    (hret : 0 ≤ ret) :
    m' = p.mem ∧ w'.state = w.state ∧ w'.side = w.side ∧ ret ≤ len ∧
      (w'.insideFrame = true ↔ len - ret.toNat ≠ 0) ∧
      w'.wire ++ w'.truncatedSend ++ load p.mem ret (len - ret.toNat) = w.wire ++ p.bytes := by
  obtain ⟨hbuf, rfl⟩ := hbuf
  have hbytes : p.bytes ≠ [] := by
    rw [← List.length_pos_iff, Pieces.bytes, length_load]
    omega
  rw [sendRaw, if_neg (not_control hdata), Option.map_eq_some_iff] at h
  obtain ⟨⟨w₁, n⟩, hissue, h⟩ := h
  simp only at h
  have hn : 0 ≤ n := by
    by_contra hneg
    rw [if_pos (by omega)] at h
    simp only [Prod.mk.injEq] at h
    omega
  obtain ⟨hsame, hwire, hrest, hpos, hle, -⟩ := 
    issueRaw_user (w := { w with insideFrame := true }) hbytes hstate hstored hissue hn
  rw [Pieces.bytes, length_load] at hrest hle
  rw [if_neg (by omega)] at h
  rcases em (n = (p.len + p.pre : ℕ)) with hall | hpart
  · rw [if_pos hall] at h
    simp only [Prod.mk.injEq] at h
    obtain ⟨rfl, rfl, rfl⟩ := h
    refine ⟨rfl, hsame.state, hsame.side, le_rfl, by simp, ?_⟩
    simp only [Int.toNat_natCast, Nat.sub_self, load, List.append_nil, hwire]
    rw [List.take_of_length_le]
    rw [Pieces.bytes, length_load]
    omega
  · rw [if_neg hpart] at h
    simp only [Prod.mk.injEq] at h
    obtain ⟨rfl, rfl, rfl⟩ := h
    have hfew : n < (p.len + p.pre : ℕ) := lt_of_le_of_ne hle hpart
    refine ⟨rfl, hsame.state, hsame.side, by omega, ?_, ?_⟩
    · rw [hsame.insideFrame]
      simp only [true_iff]
      omega
    · have hload : load p.mem (n - p.pre) (p.len - (n - p.pre).toNat) = p.bytes.drop n.toNat := by
        rw [Pieces.bytes, drop_load (by omega), hbuf]
        congr 1 <;> omega
      rw [hload, hwire, List.append_assoc, List.take_append_drop]

/-- What is not taken of a pong is lost, unless none of it is taken. -/
theorem sendRaw_pong {p : Pieces} {w' : Writer} {m' : Mem} {ret : ℤ} {n : ℕ}
    (hstate : w.state = .established) (hstored : w.truncatedSend = []) (hlen : p.len ≠ 0)
    (h : sendRaw w p n WriteKind.pong.plain sent = some (w', m', ret)) (hret : 0 ≤ ret) :
    SameLink w w' ∧ w'.wire ++ w'.truncatedSend = w.wire ++ p.bytes.take ret.toNat ∧
      ret ≤ p.bytes.length ∧
      (w.cleanBuffer = true → ret =
        if sent.taken p.bytes.length = 0 then p.bytes.length
        else sent.taken p.bytes.length) := by
  have hbytes : p.bytes ≠ [] := by
    rw [← List.length_pos_iff, Pieces.bytes, length_load]
    omega
  rw [sendRaw, if_pos (by simp), Option.map_eq_some_iff] at h
  obtain ⟨⟨w₁, n⟩, hissue, h⟩ := h
  simp only [Prod.mk.injEq] at h
  obtain ⟨rfl, rfl, rfl⟩ := h
  obtain ⟨hsame, hwire, -, -, hle, hcut⟩ := issueRaw_user hbytes hstate hstored hissue hret
  exact ⟨hsame, hwire, hle, hcut⟩

/-! ## Reasons to close -/

/-- The reason in network order. -/
def reasonBytes (reason : UInt16) : List UInt8 :=
  [(reason >>> 8).toUInt8, reason.toUInt8]

/-- The frame of `libwebsocket_close_and_free_session`, which writes no bytes from memory that it
has set to zero. -/
def closeFrame (side : Side) (reason : UInt16) (key : MaskingKey) : Frame :=
  match side with
  | .server => Frame.minimal 0x88 none (reasonBytes reason) (by simp [reasonBytes])
  | .client => Frame.minimal 0x88 (some ![0, 0, key 0, key 1]) [key 2, key 3] (by simp)

theorem bytes_closeFrame (hreason : w.closeReason ≠ 0) :
    (newFrame w (fun _ => 0) 0 WriteKind.close.plain 8 key).bytes =
      (closeFrame w.side w.closeReason key).bytes := by
  have hclose : WriteKind.close.plain.kind = .close ∧ w.closeReason ≠ 0 := ⟨rfl, hreason⟩
  rcases hside : w.side with _ | _
  · have hclient : ¬ w.side = .client := by simp [hside]
    rw [newFrame, if_neg hclient, Pieces.bytes, addHeader]
    simp only [if_neg hclient, if_pos hclose]
    simp [lengthHeader, load, store, closeFrame, reasonBytes, Frame.bytes, Frame.header,
      Frame.minimal, Frame.shortest, Frame.second, Frame.len7, Frame.extendedLength, Frame.keyBytes,
      Frame.body, WriteKind.plain]
    decide
  · rw [newFrame, if_pos hside, Pieces.bytes, addHeader]
    simp only [if_pos hside, if_pos hclose, Pieces.mask]
    simp [lengthHeader, load, store, closeFrame, Frame.bytes, Frame.header, Frame.minimal,
      Frame.shortest, Frame.second, Frame.len7, Frame.extendedLength, Frame.keyBytes, Frame.body,
      WriteKind.plain, xorKey]
    exact ⟨by decide, UInt8.xor_zero.symm⟩

/-- Whether the other side reads the reason. -/
theorem close_reason_iff {protocol : Protocol} {r : Ws} {link : Link} (hreason : w.closeReason ≠ 0)
    (hr : AtFrame r link) (hstate : link.state ≠ .awaitingCloseAck)
    (hlimit : 2 ≤ protocol.rxLimit) :
    (feed (rxSm w.side.other protocol) r
        (newFrame w (fun _ => 0) 0 WriteKind.close.plain 8 key).bytes).output =
      [.writeClose (reasonBytes w.closeReason)] ↔
    w.side = .server ∨ [key 2, key 3] = reasonBytes w.closeReason := by
  have hread : Readable w.side.other (closeFrame w.side w.closeReason key) := by
    rcases w.side with _ | _
    · rfl
    · exact Or.inl rfl
  have hclose : (closeFrame w.side w.closeReason key).opcode = 8 ∧
      (closeFrame w.side w.closeReason key).field = .short ∧
      (closeFrame w.side w.closeReason key).payload.length = 2 := by
    have hfirst : (0x88 : UInt8) &&& 0xf = 8 := by decide
    rcases w.side with _ | _ <;> exact ⟨hfirst, rfl, rfl⟩
  obtain ⟨hopcode, hshort, hlen⟩ := hclose
  rw [bytes_closeFrame hreason, (feed_frame hr hread).output, frameStep_close hopcode hshort hstate,
    List.take_of_length_le (hlen.trans_le hlimit)]
  rcases w.side with _ | _
  · simp [closeFrame, Frame.minimal]
  · simp [closeFrame, Frame.minimal]

/-- A client that goes away. -/
theorem close_reason_iff_goingAway :
    (feed (rxSm .server ⟨0, fun _ => 0⟩) .init
        (newFrame ⟨.client, .established, false, false, 1001, [], 0, 0, false, false, []⟩
          (fun _ => 0) 0 WriteKind.close.plain 8 fun _ => 7).bytes).output =
      [.writeClose (reasonBytes 1001)] ↔
    Side.client = .server ∨ [7, 7] = reasonBytes 1001 :=
  @close_reason_iff ⟨.client, .established, false, false, 1001, [], 0, 0, false, false, []⟩
    (fun _ => 7) ⟨0, fun _ => 0⟩ .init Ws.init.link (by decide) atFrame_init (by decide) (by decide)

end

end Lws

end MySocket
