import Mathlib.Data.List.TakeWhile
import MySocket.HeaderLines
import MySocket.Sha1

/-!
# The handshake

A server that has parsed the headers of a request answers the key in them, and goes on with frames.
The response is put together in the buffer that the extensions of the request are copied to.

* `handshake0405_eq` : the response, from the fragments of the headers.
* `exists_head_handshake0405` : what long extensions make of it.
* `handshake0405_request` : the response to a request, from its lines.
* `handshake0405_client` : the response to the request of a client.
* `offersFrom_eq` : the protocols that a client finds in its own list.
-/

namespace MySocket

namespace Lws

/-! ## The code -/

/-- `MAX_WEBSOCKET_04_KEY_LEN` -/
def maxWebsocket04KeyLen : ℕ := 128

/-- `LWS_MAX_SOCKET_IO_BUF` -/
def maxSocketIoBuf : ℕ := 4096

/-- What is put behind the key. -/
def handshakeGuid : List UInt8 := ascii "258EAFA5-E914-47DA-95CA-C5AB0DC85B11"

/-- What the response begins with. -/
def switchingProtocols : List UInt8 :=
  ascii "HTTP/1.1 101 Switching Protocols\r\n" ++ ascii "Upgrade: WebSocket\r\n" ++
    ascii "Connection: Upgrade\r\n" ++ ascii "Sec-WebSocket-Accept: "

/-- Where the response lies in `service_buffer` : behind `MAX_WEBSOCKET_04_KEY_LEN` and
`LWS_SEND_BUFFER_PRE_PADDING` bytes. -/
def responseAt : ℕ := maxWebsocket04KeyLen + 18

/-- `LWS_CPYAPP` : the memory, and the pointer behind the string. -/
def lwsCpyapp (m : Mem) (p : ℤ) (str : List UInt8) : Mem × ℤ :=
  (store m p (str ++ [0]), p + str.length)

namespace AllocatedHeaders

/-- The protocols of the response at `p`; `none` inside for `bail`. -/
def putProtocol (ah : AllocatedHeaders) (m : Mem) (p : ℤ) : Option (Option (Mem × ℤ)) :=
  (ah.lwsHdrTotalLength tokenProtocol).bind fun n =>
    if n = 0 then some (some (m, p))
    else
      let (m, p) := lwsCpyapp m p (ascii "\r\nSec-WebSocket-Protocol: ")
      (ah.lwsHdrCopy (shift m p) 128 tokenProtocol).map fun r =>
        if r.1 < 0 then none else some (shift r.2 (-p), p + r.1)

/-- `lws_extension_server_handshake` on a server without extensions. The names that the client asks
for are copied to `service_buffer`, and none of them is found; `none` inside if it returns 1. -/
def lwsExtensionServerHandshake (ah : AllocatedHeaders) (m : Mem) : Option (Option Mem) :=
  (ah.lwsHdrTotalLength tokenExtensions).bind fun n =>
    if n = 0 then some (some m)
    else
      (ah.lwsHdrCopy m maxSocketIoBuf tokenExtensions).map fun r =>
        if r.1 < 0 then none else some r.2

/-- `handshake_0405` up to the write of the response, with `service_buffer` from the address 0 of
`m` on. It is `none` where `lws_hdr_copy` is, and `some none` for `bail`. -/
def handshake0405 (ah : AllocatedHeaders) (m : Mem) : Option (Option (List UInt8)) :=
  (ah.lwsHdrTotalLength tokenHost).bind fun hostLen =>
    (ah.lwsHdrTotalLength tokenKey).bind fun keyLen =>
      if hostLen = 0 ∨ keyLen = 0 then some none
      else if maxWebsocket04KeyLen ≤ keyLen then some none
      else
        (ah.lwsHdrSimplePtr tokenKey).join.bind fun key =>
          let m := store m 0 (key ++ handshakeGuid ++ [0])
          let hash := libwebsocketsSHA1 (load m 0 (key ++ handshakeGuid).length)
          let encoded := lwsB64EncodeString hash maxSocketIoBuf
          let m := store m 0 encoded.1
          match encoded.2 with
          | none => some none
          | some acceptLen =>
            let (m, p) := lwsCpyapp m responseAt switchingProtocols
            -- `strcpy` of the string at the beginning of the buffer
            let m := store m p (load m 0 (acceptLen + 1))
            (ah.putProtocol m (p + acceptLen)).bind fun
              | none => some none
              | some (m, p) =>
                (ah.lwsExtensionServerHandshake m).map fun r => r.map fun m =>
                  let (m, p) := lwsCpyapp m p (ascii "\r\n\r\n")
                  load m responseAt (p - responseAt).toNat

end AllocatedHeaders

/-! ## The response -/

theorem length_libwebsocketsSHA1 (d : List UInt8) : (libwebsocketsSHA1 d).length = 20 := by
  simp [libwebsocketsSHA1, sha1Result, hBytes]

/-- The line of the protocols in a response. -/
def protocolText (protocol : List UInt8) : List UInt8 :=
  if protocol = [] then [] else ascii "\r\nSec-WebSocket-Protocol: " ++ protocol

/-- The response to the key `key` with the protocols `protocol`, if there are any, up to its end. -/
def responseHead (key protocol : List UInt8) : List UInt8 :=
  switchingProtocols ++ signs (libwebsocketsSHA1 (key ++ handshakeGuid)) ++ protocolText protocol

def response (key protocol : List UInt8) : List UInt8 :=
  responseHead key protocol ++ ascii "\r\n\r\n"

section

variable {ah : AllocatedHeaders} {log : List Stored}

theorem exists_of_textOf {h : ℕ} (hne : textOf log h ≠ []) : ∃ x ∈ log, x.token = h := by
  by_contra hnone
  push Not at hnone
  refine hne ?_
  rw [textOf, List.filter_eq_nil_iff.mpr fun x hx => by simpa using hnone x hx]
  rfl

/-- `bs` have been put at `a`, up to `p`. -/
structure Written (m : Mem) (a p : ℤ) (bs : List UInt8) : Prop where
  load_eq : load m a bs.length = bs
  end_eq : a + bs.length = p

/-- More is put behind what there is, with something behind it. -/
theorem Written.append {m : Mem} {a p : ℤ} {bs : List UInt8} (hw : Written m a p bs)
    (cs ds : List UInt8) :
    Written (store m p (cs ++ ds)) a (p + cs.length) (bs ++ cs) where
  load_eq := by
    rw [List.length_append, load_add, load_store_of_disjoint (Or.inl hw.end_eq.le), hw.load_eq,
      hw.end_eq, load_store_append]
  end_eq := by
    have := hw.end_eq
    rw [List.length_append, Nat.cast_add]
    omega

theorem Written.before {m : Mem} {a b p : ℤ} {bs cs : List UInt8} (hw : Written m a p bs)
    (hcs : b + cs.length ≤ a) : Written (store m b cs) a p bs :=
  ⟨(load_store_of_disjoint (Or.inr hcs)).trans hw.load_eq, hw.end_eq⟩

/-- What is sent. -/
theorem Written.load_cpyapp {m : Mem} {a p : ℤ} {bs : List UInt8} (hw : Written m a p bs)
    (cs : List UInt8) :
    load (lwsCpyapp m p cs).1 a ((lwsCpyapp m p cs).2 - a).toNat = bs ++ cs := by
  have hend := hw.append cs [0]
  have hlen : ((lwsCpyapp m p cs).2 - a).toNat = (bs ++ cs).length := by
    have := hend.end_eq
    simp only [lwsCpyapp]
    omega
  rw [hlen]
  exact hend.load_eq

theorem putProtocol_eq (ht : Table Counts ah log) (hs : Strings log) {m : Mem} {a p : ℤ}
    {bs : List UInt8} (hw : Written m a p bs) :
    ∃ m' p', ah.putProtocol m p =
        some (if 128 ≤ (textOf log tokenProtocol).length then none else some (m', p')) ∧
      Written m' a p' (bs ++ protocolText (textOf log tokenProtocol)) := by
  rw [AllocatedHeaders.putProtocol, ht.totalLength (by decide), Option.bind_some, protocolText]
  rcases em (textOf log tokenProtocol = []) with hnil | hne
  · refine ⟨m, p, ?_, ?_⟩
    · rw [hnil]
      rfl
    · rwa [if_pos hnil, List.append_nil]
  have hlen : (textOf log tokenProtocol).length ≠ 0 := by simpa using hne
  have hname := hw.append (ascii "\r\nSec-WebSocket-Protocol: ") [0]
  have htext := hname.append (textOf log tokenProtocol) [0]
  refine ⟨_, _, ?_, by rw [if_neg hne, ← List.append_assoc]; exact htext⟩
  rw [if_neg hlen]
  simp only [lwsCpyapp]
  rw [lwsHdrCopy_text ht hs (by decide) (exists_of_textOf hne)]
  rcases Nat.lt_or_ge (textOf log tokenProtocol).length 128 with hlt | hge
  · rw [if_neg (by omega), if_neg (by omega), Option.map_some, if_neg (by simp), shift_store_shift]
  · rw [if_pos (by omega), if_pos hge]
    rfl

theorem lwsExtensionServerHandshake_eq (ht : Table Counts ah log) (hs : Strings log)
    (hlen : (textOf log tokenExtensions).length < maxSocketIoBuf) (m : Mem) :
    ah.lwsExtensionServerHandshake m = some (some
      (if textOf log tokenExtensions = [] then m
        else store m 0 (textOf log tokenExtensions ++ [0]))) := by
  rw [AllocatedHeaders.lwsExtensionServerHandshake, ht.totalLength (by decide), Option.bind_some]
  rcases em (textOf log tokenExtensions = []) with hnil | hne
  · rw [hnil]
    rfl
  rw [if_neg (by simpa using hne), if_neg hne,
    lwsHdrCopy_text ht hs (by decide) (exists_of_textOf hne), if_neg (by omega), Option.map_some,
    if_neg (by simp)]

/-- The response that is put together in `service_buffer`, before the extensions are looked at. -/
theorem handshake0405_of_key (ht : Table Counts ah log) (hs : Strings log) (m : Mem)
    (hhost : textOf log tokenHost ≠ []) (hkey : textOf log tokenKey ≠ [])
    (hlen : (textOf log tokenKey).length < 128) :
    ∃ m' p, ah.handshake0405 m =
        (if 128 ≤ (textOf log tokenProtocol).length then some none
          else (ah.lwsExtensionServerHandshake m').map fun r => r.map fun m =>
            load (lwsCpyapp m p (ascii "\r\n\r\n")).1 responseAt
              ((lwsCpyapp m p (ascii "\r\n\r\n")).2 - responseAt).toNat) ∧
      Written m' responseAt p
        (responseHead ((firstText log tokenKey).getD []) (textOf log tokenProtocol)) := by
  obtain ⟨x, hx, htoken⟩ := exists_of_textOf hkey
  have hfirst : ∃ key, firstText log tokenKey = some key := by
    rw [← Option.isSome_iff_exists, firstText, Option.isSome_map, List.find?_isSome]
    exact ⟨x, hx, by simpa using htoken⟩
  obtain ⟨key, hfirst⟩ := hfirst
  rw [AllocatedHeaders.handshake0405, ht.totalLength (by decide), ht.totalLength (by decide),
    Option.bind_some, Option.bind_some, if_neg (by simp [hhost, hkey]),
    if_neg (by simpa [maxWebsocket04KeyLen] using hlen), ht.simplePtr hs (by decide), hfirst]
  simp only [Option.map_some, Option.join_some, Option.bind_some, Option.getD_some,
    load_store_append]
  have hsigns := length_signs (libwebsocketsSHA1 (key ++ handshakeGuid))
  rw [length_libwebsocketsSHA1] at hsigns
  have hencode : lwsB64EncodeString (libwebsocketsSHA1 (key ++ handshakeGuid)) maxSocketIoBuf =
      (signs (libwebsocketsSHA1 (key ++ handshakeGuid)) ++ [0],
        some (signs (libwebsocketsSHA1 (key ++ handshakeGuid))).length) := by
    rw [lwsB64EncodeString, encodeFrom_of_lt (by rw [hsigns]; decide), Nat.zero_add]
  rw [hencode]
  simp only [lwsCpyapp]
  generalize hm : store (store m 0 (key ++ handshakeGuid ++ [0])) 0
    (signs (libwebsocketsSHA1 (key ++ handshakeGuid)) ++ [0]) = m₁
  have hstatus : Written (store m₁ responseAt (switchingProtocols ++ [0])) responseAt
      (responseAt + switchingProtocols.length) switchingProtocols := by
    have hnil : Written m₁ responseAt responseAt [] := ⟨rfl, by simp⟩
    exact hnil.append switchingProtocols [0]
  have haccept : load (store m₁ responseAt (switchingProtocols ++ [0])) 0
      ((signs (libwebsocketsSHA1 (key ++ handshakeGuid))).length + 1) =
      signs (libwebsocketsSHA1 (key ++ handshakeGuid)) ++ [0] := by
    rw [load_store_of_disjoint (Or.inl (by rw [hsigns]; decide)), ← hm,
      ← List.length_singleton (a := (0 : UInt8)), ← List.length_append, load_store]
  rw [haccept]
  obtain ⟨m', p, hput, hw⟩ := putProtocol_eq ht hs
    (hstatus.append (signs (libwebsocketsSHA1 (key ++ handshakeGuid))) [0])
  refine ⟨m', p, ?_, hw⟩
  rw [hput]
  split
  · rfl
  · rfl

/-- What is refused before anything is put together. -/
theorem handshake0405_bail (ht : Table Counts ah log) (m : Mem)
    (hbail : textOf log tokenHost = [] ∨ textOf log tokenKey = [] ∨
      128 ≤ (textOf log tokenKey).length) : ah.handshake0405 m = some none := by
  rw [AllocatedHeaders.handshake0405, ht.totalLength (by decide), ht.totalLength (by decide),
    Option.bind_some, Option.bind_some]
  simp only [List.length_eq_zero_iff]
  rcases em (textOf log tokenHost = [] ∨ textOf log tokenKey = []) with hmissing | hthere
  · rw [if_pos hmissing]
  · have hlong : maxWebsocket04KeyLen ≤ (textOf log tokenKey).length :=
      (or_assoc.mpr hbail).resolve_left hthere
    rw [if_neg hthere, if_pos hlong]

/-- What the server makes of the headers, if the extensions end before the response begins. -/
theorem handshake0405_eq (ht : Table Counts ah log) (hs : Strings log)
    (hext : (textOf log tokenExtensions).length < responseAt) (m : Mem) :
    ah.handshake0405 m = some
      (if textOf log tokenHost = [] ∨ textOf log tokenKey = [] ∨
          128 ≤ (textOf log tokenKey).length ∨ 128 ≤ (textOf log tokenProtocol).length then none
        else some (response ((firstText log tokenKey).getD []) (textOf log tokenProtocol))) := by
  rcases em (textOf log tokenHost = [] ∨ textOf log tokenKey = [] ∨
    128 ≤ (textOf log tokenKey).length) with hbail | hgoes
  · rw [handshake0405_bail ht m hbail, if_pos (by tauto)]
  simp only [not_or, Nat.not_le] at hgoes
  obtain ⟨hhost, hkey, hlen⟩ := hgoes
  obtain ⟨m', p, hresult, hw⟩ := handshake0405_of_key ht hs m hhost hkey hlen
  rw [hresult]
  rcases Nat.lt_or_ge (textOf log tokenProtocol).length 128 with hfits | hlong
  swap
  · rw [if_pos hlong, if_pos (Or.inr (Or.inr (Or.inr hlong)))]
  have hall : ¬(textOf log tokenHost = [] ∨ textOf log tokenKey = [] ∨
      128 ≤ (textOf log tokenKey).length ∨ 128 ≤ (textOf log tokenProtocol).length) := by
    simp only [not_or, Nat.not_le]
    exact ⟨hhost, hkey, hlen, hfits⟩
  rw [if_neg (Nat.not_le.mpr hfits), if_neg hall,
    lwsExtensionServerHandshake_eq ht hs (hext.trans (by decide)), Option.map_some, Option.map_some]
  rw [Written.load_cpyapp (a := responseAt) (p := p), response]
  split
  · exact hw
  · refine hw.before ?_
    rw [List.length_append, List.length_singleton]
    omega

/-- Longer extensions are copied over the response : its first byte is one of theirs. -/
theorem exists_head_handshake0405 (ht : Table Counts ah log) (hs : Strings log) (m : Mem)
    (hhost : textOf log tokenHost ≠ []) (hkey : textOf log tokenKey ≠ [])
    (hlen : (textOf log tokenKey).length < 128) (hfits : (textOf log tokenProtocol).length < 128)
    (hext : responseAt ≤ (textOf log tokenExtensions).length)
    (hbuf : (textOf log tokenExtensions).length < maxSocketIoBuf) :
    ∃ sent, ah.handshake0405 m = some (some sent) ∧
      sent.head? = (textOf log tokenExtensions ++ [0])[responseAt]? := by
  obtain ⟨m', p, hresult, hw⟩ := handshake0405_of_key ht hs m hhost hkey hlen
  have hne : textOf log tokenExtensions ≠ [] := by
    intro hnil
    rw [hnil] at hext
    exact absurd hext (by decide)
  rw [if_neg (Nat.not_le.mpr hfits), lwsExtensionServerHandshake_eq ht hs hbuf, if_neg hne,
    Option.map_some, Option.map_some] at hresult
  refine ⟨_, hresult, ?_⟩
  have hend := hw.end_eq
  have hhead : 0 < (responseHead ((firstText log tokenKey).getD [])
      (textOf log tokenProtocol)).length := by
    have : 0 < switchingProtocols.length := by decide
    simp only [responseHead, List.length_append]
    omega
  have hcopied : responseAt < (textOf log tokenExtensions ++ [0]).length := by
    rw [List.length_append, List.length_singleton]
    omega
  have hsent : 0 < ((lwsCpyapp (store m' 0 (textOf log tokenExtensions ++ [0])) p
      (ascii "\r\n\r\n")).2 - responseAt).toNat := by
    simp only [lwsCpyapp]
    omega
  have hkept : (lwsCpyapp (store m' 0 (textOf log tokenExtensions ++ [0])) p
      (ascii "\r\n\r\n")).1 responseAt =
      store m' 0 (textOf log tokenExtensions ++ [0]) responseAt := store_of_lt (by omega)
  have hbyte := getElem?_load (m := store m' 0 (textOf log tokenExtensions ++ [0])) (a := 0) hcopied
  rw [load_store, zero_add] at hbyte
  rw [List.head?_eq_getElem?, getElem?_load hsent, Nat.cast_zero, add_zero, hkept, hbyte]

end

/-! ## Requests -/

/-- The values of a header put together, as they are stored. -/
def headerText (lines : List Line) (k : ℕ) : List UInt8 := joinValues none (valuesOf lines k)

/-- The value that came first, without the spaces in front of it. -/
def firstValue (lines : List Line) (k : ℕ) : List UInt8 :=
  ((valuesOf lines k).head?.map fun v => v.dropWhile (· = space)).getD []

/-- What the server makes of the headers of a request. -/
theorem handshake0405_requestLog {ah : AllocatedHeaders} {h : ℕ} {path : List UInt8}
    {lines : List Line} (huri : IsUri h) (hpath : PlainPath false path)
    (hw : ∀ l ∈ lines, l.WellFormed) (ht : Table Counts ah (requestLog h path lines))
    (hext : (headerText lines tokenExtensions).length < responseAt) (m : Mem) :
    ah.handshake0405 m = some
      (if headerText lines tokenHost = [] ∨ headerText lines tokenKey = [] ∨
          128 ≤ (headerText lines tokenKey).length ∨
          128 ≤ (headerText lines tokenProtocol).length then none
        else some (response (firstValue lines tokenKey) (headerText lines tokenProtocol))) := by
  have htext : ∀ k, k ≠ tokenHttp → ¬IsUri k →
      textOf (requestLog h path lines) k = headerText lines k := by
    intro k hhttp hk
    have hkh : k ≠ h := fun heq => hk (heq ▸ huri)
    rw [textOf_requestLog huri hpath hw, requestText, if_neg hkh, if_neg hhttp]
    rfl
  have hkey : firstText (requestLog h path lines) tokenKey =
      (valuesOf lines tokenKey).head?.map fun v => v.dropWhile (· = space) := by
    have hkh : h ≠ tokenKey := fun heq => absurd (heq ▸ huri) (by decide)
    have hhttp : tokenHttp ≠ tokenKey := by decide
    rw [requestLog, firstText_lines hw]
    simp [firstText, hkh, hhttp]
  rw [← htext tokenExtensions (by decide) (by decide)] at hext
  rw [handshake0405_eq ht (strings_requestLog hpath hw) hext, hkey, htext _ (by decide) (by decide),
    htext _ (by decide) (by decide), htext _ (by decide) (by decide)]
  rfl

/-- A request is answered if it has a host and a key, and the keys and the protocols put together
are short enough. The answer is to the first key, with all protocols. The extensions have to end
before the response begins : see `exists_head_handshake0405`. -/
theorem handshake0405_request (frags : ℕ → Fragment) {h : ℕ} {name path : List UInt8}
    {lines : List Line} (huri : IsUri h) (hname : IsName h (name.map tolower))
    (hpath : PlainPath false path) (hne : path ≠ []) (hw : ∀ l ∈ lines, l.WellFormed)
    (hroom : lines.length + 2 < maxFrags)
    (hsize : path.length + 10 + (lines.map Line.size).sum ≤ maxHeaderLen)
    (hext : (headerText lines tokenExtensions).length < responseAt) (m : Mem) :
    ∃ s, parseAll none (Hdr.init frags) (requestLine name path ++
          (lines.flatMap Line.bytes ++ [carriageReturn, lineFeed])) = .ok s ∧
      s.parserState = .complete ∧
      s.ah.handshake0405 m = some
        (if headerText lines tokenHost = [] ∨ headerText lines tokenKey = [] ∨
            128 ≤ (headerText lines tokenKey).length ∨
            128 ≤ (headerText lines tokenProtocol).length then none
          else some (response (firstValue lines tokenKey) (headerText lines tokenProtocol))) := by
  obtain ⟨s, hrun, hstate, ht⟩ := request_run frags huri hname hpath hne hw hroom hsize
  exact ⟨s, hrun, hstate, handshake0405_requestLog huri hpath hw ht hext m⟩

/-- A request for one of two protocols, which come in a line each. -/
def upgradeLines : List Line :=
  [.known tokenHost (ascii "Host:") (ascii " server.example.com"),
    .known tokenKey (ascii "Sec-WebSocket-Key:") (ascii " dGhlIHNhbXBsZSBub25jZQ=="),
    .known tokenProtocol (ascii "Sec-WebSocket-Protocol:") (ascii " chat,"),
    .known tokenProtocol (ascii "Sec-WebSocket-Protocol:") (ascii "superchat"),
    .known tokenExtensions (ascii "Sec-WebSocket-Extensions:") (ascii " x-webkit-deflate-frame")]

-- The key and the answer that are known from the standard.
example : signs (libwebsocketsSHA1 (ascii "dGhlIHNhbXBsZSBub25jZQ==" ++ handshakeGuid)) =
    ascii "s3pPLMBiTxaQ9kYGzzhZRbK+xOo=" := by
  decide +kernel

theorem handshake0405_request_upgradeLines :
    ∃ s, parseAll none (Hdr.init fun _ => ⟨0, 0, 0⟩) (requestLine (ascii "GET ") (ascii "/chat") ++
          (upgradeLines.flatMap Line.bytes ++ [carriageReturn, lineFeed])) = .ok s ∧
      s.ah.handshake0405 (fun _ => 0) = some (some (switchingProtocols ++
        ascii "s3pPLMBiTxaQ9kYGzzhZRbK+xOo=\r\nSec-WebSocket-Protocol: chat, superchat\r\n\r\n")) := by
  have hlines : ∀ l ∈ upgradeLines, l.WellFormed := by
    simp only [upgradeLines, List.forall_mem_cons, Line.WellFormed, IsName]
    refine ⟨?_, ?_, ?_, ?_, ?_, fun l hl => absurd hl List.not_mem_nil⟩
    · decide +kernel
    · decide +kernel
    · decide +kernel
    · decide +kernel
    · decide +kernel
  obtain ⟨s, hrun, -, hanswer⟩ := @handshake0405_request (fun _ => ⟨0, 0, 0⟩) tokenGetUri
    (ascii "GET ") (ascii "/chat") upgradeLines (Or.inl rfl) (by unfold IsName; decide +kernel)
    (by decide +kernel) (by decide +kernel) hlines (by decide) (by decide +kernel)
    (by decide +kernel) fun _ => 0
  refine ⟨s, hrun, hanswer.trans ?_⟩
  decide +kernel

/-! ## The request of a client -/

/-- `key_b64` -/
def clientKey (nonce : List UInt8) : List UInt8 :=
  (lwsB64EncodeString nonce 40).1.takeWhile (· ≠ 0)

/-- `initial_handshake_hash_base64` -/
def initialHandshakeHash (nonce : List UInt8) : List UInt8 :=
  (lwsB64EncodeString (libwebsocketsSHA1 (clientKey nonce ++ handshakeGuid)) 30).1.takeWhile (· ≠ 0)

/-- `libwebsockets_generate_client_handshake` for the version 13, without extensions and without
headers of the user ; `nonce` are the random bytes. -/
def generateClientHandshake (uri host : List UInt8) (origin protocol : Option (List UInt8))
    (nonce : List UInt8) : List UInt8 :=
  ascii "GET " ++ uri ++ ascii " HTTP/1.1\r\n" ++
    ascii "Pragma: no-cache\r\n" ++ ascii "Cache-Control: no-cache\r\n" ++
    ascii "Host: " ++ host ++ ascii "\r\n" ++
    ascii "Upgrade: websocket\r\n" ++ ascii "Connection: Upgrade\r\n" ++
    ascii "Sec-WebSocket-Key: " ++ clientKey nonce ++ ascii "\r\n" ++
    (origin.elim [] fun o => ascii "Origin: http://" ++ o ++ ascii "\r\n") ++
    (protocol.elim [] fun p => ascii "Sec-WebSocket-Protocol: " ++ p ++ ascii "\r\n") ++
    ascii "Sec-WebSocket-Extensions: " ++ ascii "\r\n" ++
    ascii "Sec-WebSocket-Version: 13\r\n" ++ ascii "\r\n"

/-- The lines of the request. -/
def clientLines (host : List UInt8) (origin protocol : Option (List UInt8)) (nonce : List UInt8) :
    List Line :=
  [.known 23 (ascii "Pragma:") (ascii " no-cache"),
    .known 24 (ascii "Cache-Control:") (ascii " no-cache"),
    .known tokenHost (ascii "Host:") (space :: host),
    .known tokenUpgrade (ascii "Upgrade:") (ascii " websocket"),
    .known tokenConnection (ascii "Connection:") (ascii " Upgrade"),
    .known tokenKey (ascii "Sec-WebSocket-Key:") (space :: clientKey nonce)] ++
  ((origin.toList.map fun o => .known tokenOrigin (ascii "Origin:") (ascii " http://" ++ o)) ++
    ((protocol.toList.map fun p =>
        .known tokenProtocol (ascii "Sec-WebSocket-Protocol:") (space :: p)) ++
      [.known tokenExtensions (ascii "Sec-WebSocket-Extensions:") [space],
        .known tokenVersion (ascii "Sec-WebSocket-Version:") (ascii " 13")]))

section

variable {uri host nonce : List UInt8} {origin protocol : Option (List UInt8)}

theorem generateClientHandshake_eq :
    generateClientHandshake uri host origin protocol nonce = requestLine (ascii "GET ") uri ++
      ((clientLines host origin protocol nonce).flatMap Line.bytes ++
        [carriageReturn, lineFeed]) := by
  have hend : ascii "\r\n" = [carriageReturn, lineFeed] := by decide
  have hversion : ascii " HTTP/1.1\r\n" = space :: (httpVersion ++ [carriageReturn, lineFeed]) := by
    decide
  have hpragma : ascii "Pragma: no-cache\r\n" =
      ascii "Pragma:" ++ ascii " no-cache" ++ [carriageReturn, lineFeed] := by decide
  have hcache : ascii "Cache-Control: no-cache\r\n" =
      ascii "Cache-Control:" ++ ascii " no-cache" ++ [carriageReturn, lineFeed] := by decide
  have hhost : ascii "Host: " = ascii "Host:" ++ [space] := by decide
  have hupgrade : ascii "Upgrade: websocket\r\n" =
      ascii "Upgrade:" ++ ascii " websocket" ++ [carriageReturn, lineFeed] := by decide
  have hconnection : ascii "Connection: Upgrade\r\n" =
      ascii "Connection:" ++ ascii " Upgrade" ++ [carriageReturn, lineFeed] := by decide
  have hkey : ascii "Sec-WebSocket-Key: " = ascii "Sec-WebSocket-Key:" ++ [space] := by decide
  have horigin : ascii "Origin: http://" = ascii "Origin:" ++ ascii " http://" := by decide
  have hprotocol : ascii "Sec-WebSocket-Protocol: " =
      ascii "Sec-WebSocket-Protocol:" ++ [space] := by decide
  have hextensions : ascii "Sec-WebSocket-Extensions: " =
      ascii "Sec-WebSocket-Extensions:" ++ [space] := by decide
  have hlast : ascii "Sec-WebSocket-Version: 13\r\n" =
      ascii "Sec-WebSocket-Version:" ++ ascii " 13" ++ [carriageReturn, lineFeed] := by decide
  rw [generateClientHandshake, hend, hversion, hpragma, hcache, hhost, hupgrade, hconnection, hkey,
    horigin, hprotocol, hextensions, hlast]
  rcases origin with _ | o <;> rcases protocol with _ | p <;>
    simp [clientLines, requestLine, Line.bytes, Line.text]

/-- What is stored of some lines is not longer than they are. -/
theorem sum_size_le : ∀ lines : List Line,
    (lines.map Line.size).sum ≤ (lines.flatMap Line.bytes).length
  | [] => Nat.le_refl _
  | l :: lines => by
    have ih := sum_size_le lines
    have hl : l.size ≤ l.bytes.length := by
      rcases l with ⟨n, name, value⟩ | text
      · simp only [Line.size, Line.bytes, Line.text, List.length_append, List.length_cons,
          List.length_nil]
        omega
      · exact Nat.zero_le _
    rw [List.map_cons, List.sum_cons, List.flatMap_cons, List.length_append]
    omega

theorem sign_mem {v : UInt8} (hv : v.toNat < 64) : sign v ∈ encodeTable := by
  have hlen : encodeTable.length = 64 := by decide
  rw [sign, List.getD_eq_getElem _ _ (by omega)]
  exact List.getElem_mem _

theorem signs_mem : ∀ (t : List UInt8), ∀ c ∈ signs t, c ∈ 61 :: encodeTable
  | [], _, hc => absurd hc List.not_mem_nil
  | [a], c, hc => by
    have h0 := sign_mem (value₀_lt a)
    have h1 := sign_mem (value₁_lt a 0)
    simp only [signs, encodeTriple, List.mem_cons, List.not_mem_nil, or_false] at hc
    rcases hc with rfl | rfl | rfl | rfl
    · exact List.mem_cons_of_mem _ h0
    · exact List.mem_cons_of_mem _ h1
    · exact List.mem_cons_self
    · exact List.mem_cons_self
  | [a, b], c, hc => by
    have h0 := sign_mem (value₀_lt a)
    have h1 := sign_mem (value₁_lt a b)
    have h2 := sign_mem (value₂_lt b 0)
    simp only [signs, encodeTriple, List.mem_cons, List.not_mem_nil, or_false] at hc
    rcases hc with rfl | rfl | rfl | rfl
    · exact List.mem_cons_of_mem _ h0
    · exact List.mem_cons_of_mem _ h1
    · exact List.mem_cons_of_mem _ h2
    · exact List.mem_cons_self
  | a :: b :: d :: t, c, hc => by
    have h0 := sign_mem (value₀_lt a)
    have h1 := sign_mem (value₁_lt a b)
    have h2 := sign_mem (value₂_lt b d)
    have h3 := sign_mem (value₃_lt d)
    rw [signs] at hc
    rcases List.mem_append.mp hc with hc | hc
    · simp only [encodeTriple, List.mem_cons, List.not_mem_nil, or_false] at hc
      rcases hc with rfl | rfl | rfl | rfl
      · exact List.mem_cons_of_mem _ h0
      · exact List.mem_cons_of_mem _ h1
      · exact List.mem_cons_of_mem _ h2
      · exact List.mem_cons_of_mem _ h3
    · exact signs_mem t c hc

/-- Signs have no zero, no space and no end of a line in them. -/
theorem signs_plain (t : List UInt8) : ∀ c ∈ signs t, c ≠ 0 ∧ c ≠ space ∧ c ≠ carriageReturn := by
  have hall : (61 :: encodeTable).all (fun c => c != 0 && (c != space && c != carriageReturn)) =
      true := by
    decide +kernel
  intro c hc
  simpa using List.all_eq_true.mp hall c (signs_mem t c hc)

/-- The string that the encoder leaves in a buffer with room for it. -/
theorem takeWhile_encode {t : List UInt8} {size : ℕ} (hsize : (signs t).length + 1 < size) :
    (lwsB64EncodeString t size).1.takeWhile (· ≠ 0) = signs t := by
  have hall : ∀ c ∈ signs t, decide (c ≠ 0) = true :=
    fun c hc => decide_eq_true (signs_plain t c hc).1
  rw [lwsB64EncodeString, encodeFrom_of_lt (by omega), List.takeWhile_append_of_pos hall]
  simp

theorem clientKey_eq (hnonce : nonce.length = 16) : clientKey nonce = signs nonce :=
  takeWhile_encode (by rw [length_signs, hnonce]; decide)

theorem initialHandshakeHash_eq : initialHandshakeHash nonce =
    signs (libwebsocketsSHA1 (clientKey nonce ++ handshakeGuid)) :=
  takeWhile_encode (by rw [length_signs, length_libwebsocketsSHA1]; decide)

theorem wellFormed_clientLines (hnonce : nonce.length = 16)
    (htexts : ∀ t ∈ host :: (origin.toList ++ protocol.toList), 0 ∉ t ∧ carriageReturn ∉ t) :
    ∀ l ∈ clientLines host origin protocol nonce, l.WellFormed := by
  obtain ⟨hhost, hrest⟩ := List.forall_mem_cons.mp htexts
  obtain ⟨horigin, hprotocol⟩ := List.forall_mem_append.mp hrest
  have hspace : ∀ {t : List UInt8}, 0 ∉ t ∧ carriageReturn ∉ t →
      0 ∉ space :: t ∧ carriageReturn ∉ space :: t := fun ht => by
    simpa [space, carriageReturn] using ht
  have hkey : 0 ∉ clientKey nonce ∧ carriageReturn ∉ clientKey nonce := by
    rw [clientKey_eq hnonce]
    exact ⟨fun hc => (signs_plain _ _ hc).1 rfl, fun hc => (signs_plain _ _ hc).2.2 rfl⟩
  have hname : ∀ {n : ℕ} {name value : List UInt8}, (IsName n (name.map tolower) ∧ ¬IsUri n ∧
      n ≠ tokenChallenge) → 0 ∉ value ∧ carriageReturn ∉ value →
      (Line.known n name value).WellFormed := fun hn hv => ⟨hn.1, hn.2.1, hn.2.2, hv.1, hv.2⟩
  unfold IsName at hname
  simp only [clientLines, List.forall_mem_append, List.forall_mem_cons]
  refine ⟨⟨?_, ?_, ?_, ?_, ?_, ?_, fun l hl => absurd hl List.not_mem_nil⟩, fun l hl => ?_,
    fun l hl => ?_, ?_, ?_, fun l hl => absurd hl List.not_mem_nil⟩
  · exact hname (by decide +kernel) (by decide)
  · exact hname (by decide +kernel) (by decide)
  · exact hname (by decide +kernel) (hspace hhost)
  · exact hname (by decide +kernel) (by decide)
  · exact hname (by decide +kernel) (by decide)
  · exact hname (by decide +kernel) (hspace hkey)
  · obtain ⟨o, ho, rfl⟩ := List.mem_map.mp hl
    have hhttp : 0 ∉ ascii " http://" ∧ carriageReturn ∉ ascii " http://" := by decide
    refine hname (by decide +kernel) ?_
    rw [List.mem_append, List.mem_append, not_or, not_or]
    exact ⟨⟨hhttp.1, (horigin o ho).1⟩, hhttp.2, (horigin o ho).2⟩
  · obtain ⟨p, hp, rfl⟩ := List.mem_map.mp hl
    exact hname (by decide +kernel) (hspace (hprotocol p hp))
  · exact hname (by decide +kernel) (by decide)
  · exact hname (by decide +kernel) (by decide)

/-- `handshake_0405` answers a client of the library with the hash that the client waits for, and
with its protocols as it has them, unless these are too long. The host has to be more than spaces;
the client has no extensions and adds no headers of its own. -/
theorem handshake0405_client (frags : ℕ → Fragment) (hnonce : nonce.length = 16)
    (hpath : PlainPath false uri) (hne : uri ≠ [])
    (htexts : ∀ t ∈ host :: (origin.toList ++ protocol.toList), 0 ∉ t ∧ carriageReturn ∉ t)
    (hhost : ∃ c ∈ host, c ≠ space)
    (hsize : (generateClientHandshake uri host origin protocol nonce).length ≤ maxHeaderLen)
    (m : Mem) :
    ∃ s, parseAll none (Hdr.init frags) (generateClientHandshake uri host origin protocol nonce) =
        .ok s ∧ s.parserState = .complete ∧
      s.ah.handshake0405 m = some
        (let names := (protocol.getD []).dropWhile (· = space)
        if 128 ≤ names.length then none
        else some (switchingProtocols ++ initialHandshakeHash nonce ++
          (if names = [] then [] else ascii "\r\nSec-WebSocket-Protocol: " ++ names) ++
          ascii "\r\n\r\n")) := by
  have hw := wellFormed_clientLines hnonce htexts
  have hroom : (clientLines host origin protocol nonce).length + 2 < maxFrags := by
    rcases origin with _ | o <;> rcases protocol with _ | p <;>
      simp [clientLines, maxFrags, tokenCount]
  rw [generateClientHandshake_eq] at hsize ⊢
  have hsum := sum_size_le (clientLines host origin protocol nonce)
  have hversion : httpVersion.length = 8 := by decide
  have hmethod : (ascii "GET ").length = 4 := by decide
  simp only [requestLine, List.length_append, List.length_cons, List.length_nil] at hsize
  have hget : IsName tokenGetUri ((ascii "GET ").map tolower) := by
    unfold IsName
    decide +kernel
  have huri : IsUri tokenGetUri := Or.inl rfl
  obtain ⟨s, hrun, hstate, ht⟩ := request_run frags huri hget hpath hne hw hroom (by omega)
  have htext : ∀ k, headerText (clientLines host origin protocol nonce) k =
      joinValues none (valuesOf (clientLines host origin protocol nonce) k) := fun _ => rfl
  have hvalues : valuesOf (clientLines host origin protocol nonce) tokenHost = [space :: host] ∧
      valuesOf (clientLines host origin protocol nonce) tokenKey = [space :: clientKey nonce] ∧
      valuesOf (clientLines host origin protocol nonce) tokenProtocol =
        protocol.toList.map (space :: ·) ∧
      valuesOf (clientLines host origin protocol nonce) tokenExtensions = [[space]] := by
    rcases origin with _ | o <;> rcases protocol with _ | p <;>
      exact ⟨rfl, rfl, rfl, rfl⟩
  have hkey : (clientKey nonce).dropWhile (· = space) = clientKey nonce := by
    rw [clientKey_eq hnonce]
    rcases hs : signs nonce with _ | ⟨c, cs⟩
    · rfl
    · have hc := (signs_plain nonce c (by rw [hs]; exact List.mem_cons_self)).2.1
      simp [hc]
  have hkeyText :
      headerText (clientLines host origin protocol nonce) tokenKey = clientKey nonce := by
    rw [htext, hvalues.2.1]
    simp [joinValues, hkey]
  have hkeyFirst : firstValue (clientLines host origin protocol nonce) tokenKey =
      clientKey nonce := by
    rw [firstValue, hvalues.2.1]
    simp [hkey]
  have hprotocolText : headerText (clientLines host origin protocol nonce) tokenProtocol =
      (protocol.getD []).dropWhile (· = space) := by
    rw [htext, hvalues.2.2.1]
    rcases protocol with _ | p <;> simp [joinValues]
  have hkeyLen : (clientKey nonce).length = 24 := by
    rw [clientKey_eq hnonce, length_signs, hnonce]
  have hhostText : headerText (clientLines host origin protocol nonce) tokenHost ≠ [] := by
    obtain ⟨c, hc, hne⟩ := hhost
    have hdrop : host.dropWhile (· = space) ≠ [] := fun hnil =>
      hne (by simpa using List.dropWhile_eq_nil_iff.mp hnil c hc)
    rw [htext, hvalues.1]
    simpa [joinValues] using hdrop
  have hkeyNe : clientKey nonce ≠ [] := fun hnil => by
    rw [hnil] at hkeyLen
    exact absurd hkeyLen (by decide)
  -- The client asks for no extensions.
  have hext : (headerText (clientLines host origin protocol nonce) tokenExtensions).length <
      responseAt := by
    rw [htext, hvalues.2.2.2]
    decide
  refine ⟨s, hrun, hstate, (handshake0405_requestLog huri hpath hw ht hext m).trans ?_⟩
  rw [hkeyText, hkeyFirst, hprotocolText, initialHandshakeHash_eq, hkeyLen]
  simp only [hhostText, hkeyNe, false_or, show ¬128 ≤ 24 by decide]
  rfl

end

/-- The key of the standard comes from these random bytes. -/
theorem handshake0405_client_sample :
    ∃ s, parseAll none (Hdr.init fun _ => ⟨0, 0, 0⟩) (generateClientHandshake (ascii "/chat")
        (ascii "server.example.com") (some (ascii "example.com")) (some (ascii "chat"))
        (ascii "the sample nonce")) = .ok s ∧
      s.ah.handshake0405 (fun _ => 0) = some (some (switchingProtocols ++
        ascii "s3pPLMBiTxaQ9kYGzzhZRbK+xOo=\r\nSec-WebSocket-Protocol: chat\r\n\r\n")) := by
  obtain ⟨s, hrun, -, hanswer⟩ := @handshake0405_client (ascii "/chat")
    (ascii "server.example.com") (ascii "the sample nonce") (some (ascii "example.com"))
    (some (ascii "chat")) (fun _ => ⟨0, 0, 0⟩) (by decide) (by decide +kernel) (by decide)
    (by decide +kernel) ⟨115, by decide +kernel, by decide⟩ (by decide +kernel) fun _ => 0
  refine ⟨s, hrun, hanswer.trans ?_⟩
  decide +kernel

/-! ## The protocol that a client is answered -/

/-- `while (*pc && !okay)` : whether `p` is found in the list `pc`, in at most `fuel` turns. -/
def offersFrom (p : List UInt8) : ℕ → List UInt8 → Bool
  | 0, _ => false
  | fuel + 1, pc =>
    if pc = [] then false
    else if p <+: pc ∧ ((pc.drop p.length).head? = some 0x2c ∨ pc.drop p.length = []) then true
    else offersFrom p fuel ((pc.dropWhile (· ≠ 0x2c)).dropWhile (· ≠ space))

section

variable {p : List UInt8}

theorem offersFrom_space (hp : p.head? ≠ some space) : ∀ (fuel : ℕ) {pc : List UInt8},
    (∀ c, pc.head? = some c → c = space) → offersFrom p fuel pc = false
  | 0, _, _ => rfl
  | fuel + 1, [], _ => by rw [offersFrom, if_pos rfl]
  | fuel + 1, c :: pc, hpc => by
    obtain rfl := hpc c rfl
    have hno : ¬(p <+: space :: pc ∧
        (((space :: pc).drop p.length).head? = some 0x2c ∨ (space :: pc).drop p.length = [])) := by
      rintro ⟨hbegins, hnext⟩
      rcases p with _ | ⟨d, p⟩
      · simp [space] at hnext
      · obtain ⟨rfl, -⟩ := List.cons_prefix_cons.mp hbegins
        exact hp rfl
    rw [offersFrom, if_neg (List.cons_ne_nil _ _), if_neg hno]
    refine offersFrom_space hp fuel fun c hc => ?_
    have := List.head?_dropWhile_not (fun c => decide (c ≠ space))
      ((space :: pc).dropWhile (· ≠ 0x2c))
    rw [hc] at this
    simpa using this

/-- The list is looked through only up to its first `,` : behind it there is a space or nothing. -/
theorem offersFrom_eq (hp : p.head? ≠ some space) (pc : List UInt8) :
    offersFrom p pc.length pc = decide (pc ≠ [] ∧ p <+: pc ∧
      ((pc.drop p.length).head? = some 0x2c ∨ pc.drop p.length = [])) := by
  rcases pc with _ | ⟨c, pc⟩
  · rfl
  rw [List.length_cons, offersFrom, if_neg (List.cons_ne_nil _ _)]
  split
  next hyes => exact (decide_eq_true ⟨List.cons_ne_nil _ _, hyes⟩).symm
  next hno =>
    rw [decide_eq_false fun hyes => hno hyes.2]
    refine offersFrom_space hp _ fun c' hc' => ?_
    have := List.head?_dropWhile_not (fun c => decide (c ≠ space))
      ((c :: pc).dropWhile (· ≠ 0x2c))
    rw [hc'] at this
    simpa using this

/-- Of two protocols the second one is not found. -/
theorem offersFrom_eq_second :
    offersFrom (ascii "superchat") 15 (ascii "chat, superchat") = false :=
  (offersFrom_eq (by decide) (ascii "chat, superchat")).trans (by decide)

end

end Lws

end MySocket
