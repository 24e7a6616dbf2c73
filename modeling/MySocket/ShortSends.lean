import MySocket.Echo
import MySocket.SetupSocket

/-!
# What the echo server sends

`HandleTCPClient` dies if a `send` in its loop transmits fewer bytes than it should. The result of
the `send` before the loop, of "this server:", goes into a variable that is not read again.

* `echoesStream_iff` : what is sent is a prefix of the stream, and nothing is sent after a short
  `send`, if and only if the greeting is sent whole or the client sends nothing.
* `map_fst_sends` : with no short `send` it is what `Echo.handleTCPClient` sends.
-/

namespace MySocket

namespace Sockets

open Echo

/-! ## The code -/

/-- What `send` returns : for the call of each number and the buffer the bytes transmitted, or -1. -/
structure Sender where
  result : ℕ → List UInt8 → ℤ
  neg_one_le : ∀ i buffer, -1 ≤ result i buffer
  le_length : ∀ i buffer, result i buffer ≤ buffer.length

/-- The client socket. -/
structure ClntSocket where
  /-- The buffers given to `send`, with the results. -/
  sends : List (List UInt8 × ℤ)
  closes : ℕ

def ClntSocket.init : ClntSocket :=
  ⟨[], 0⟩

def ClntSocket.send (clnt : ClntSocket) (sender : Sender) (buffer : List UInt8) : ClntSocket :=
  { clnt with sends := clnt.sends ++ [(buffer, sender.result clnt.sends.length buffer)] }

def ClntSocket.close (clnt : ClntSocket) : ClntSocket :=
  { clnt with closes := clnt.closes + 1 }

def recvFailed : Died :=
  .systemMessage "recv() failed".toList

def sendFailed : Died :=
  .systemMessage "send() failed".toList

def sentUnexpected : Died :=
  .userMessage "send()".toList "sent unexpected number of bytes".toList

/-- The loop of `HandleTCPClient`, from the results of `recv` on, `none` for one that fails. The
stream ends with the list or with a `recv` of no bytes. -/
def sendLoop (sender : Sender) : List (Option (List UInt8)) → ClntSocket → Option Died × ClntSocket
  | [], clnt => (none, clnt)
  | none :: _, clnt => (some recvFailed, clnt)
  | some buffer :: recvs, clnt =>
    if buffer = [] then (none, clnt)
    else
      let numBytesSent := sender.result clnt.sends.length buffer
      if numBytesSent < 0 then (some sendFailed, clnt.send sender buffer)
      else if numBytesSent ≠ buffer.length then (some sentUnexpected, clnt.send sender buffer)
      else sendLoop sender recvs (clnt.send sender buffer)

/-- "this server:" with its zero byte. -/
def greeting : List UInt8 :=
  thisServer ++ [0]

/-- `HandleTCPClient` : how the program was ended, if it was, and what became of the socket. -/
def handleTCPClient (sender : Sender) (recvs : List (Option (List UInt8))) (clnt : ClntSocket) :
    Option Died × ClntSocket :=
  match recvs with
  | none :: _ => (some recvFailed, clnt)
  | recvs =>
    match sendLoop sender recvs (clnt.send sender greeting) with
    | (none, clnt) => (none, clnt.close)
    | (some died, clnt) => (some died, clnt)

/-! ## The property -/

/-- The bytes transmitted. -/
def ClntSocket.sent (clnt : ClntSocket) : List UInt8 :=
  clnt.sends.flatMap fun s => s.1.take s.2.toNat

/-- The whole buffer was transmitted. -/
def Whole (s : List UInt8 × ℤ) : Prop :=
  s.2 = s.1.length

instance : DecidablePred Whole :=
  fun s => inferInstanceAs (Decidable (s.2 = s.1.length))

/-- The greeting and the bytes of the client are sent, or a prefix of them that ends with a short
`send`. -/
structure EchoesStream (b : List UInt8) (out : Option Died × ClntSocket) : Prop where
  whole : (∀ s ∈ out.2.sends, Whole s) →
    out.1 = none ∧ out.2.sent = greeting ++ b ∧ out.2.closes = 1
  short : ∀ before s after, out.2.sends = before ++ s :: after → ¬Whole s →
    after = [] ∧ out.2.sent <+: greeting ++ b

/-! ## The loop -/

variable {sender : Sender} {b : List UInt8} {recvs : List (List UInt8)} {clnt : ClntSocket}

/-- The buffers as they are sent whole. -/
def wholeSends (recvs : List (List UInt8)) : List (List UInt8 × ℤ) :=
  recvs.map fun buffer => (buffer, (buffer.length : ℤ))

theorem Whole.eq {s : List UInt8 × ℤ} (h : Whole s) : s = (s.1, (s.1.length : ℤ)) :=
  Prod.ext rfl h

theorem whole_of_mem_wholeSends {s : List UInt8 × ℤ} (h : s ∈ wholeSends recvs) : Whole s := by
  obtain ⟨buffer, -, rfl⟩ := List.mem_map.mp h
  rfl

theorem flatMap_wholeSends (recvs : List (List UInt8)) :
    ((wholeSends recvs).flatMap fun s => s.1.take s.2.toNat) = recvs.flatten := by
  induction recvs with
  | nil => rfl
  | cons buffer recvs ih =>
    rw [wholeSends, List.map_cons, List.flatMap_cons, List.flatten_cons]
    rw [wholeSends] at ih
    rw [ih, Int.toNat_natCast, List.take_length]

/-- Either every buffer is sent whole, or the loop ends with the first that is not. -/
theorem sendLoop_sends (sender : Sender) (hpos : ∀ buffer ∈ recvs, 0 < buffer.length)
    (clnt : ClntSocket) :
    sendLoop sender (recvs.map some) clnt =
        (none, { clnt with sends := clnt.sends ++ wholeSends recvs }) ∨
      ∃ before buffer after r died, recvs = before ++ buffer :: after ∧ r ≠ (buffer.length : ℤ) ∧
        r ≤ buffer.length ∧ sendLoop sender (recvs.map some) clnt =
          (some died, { clnt with sends := clnt.sends ++ (wholeSends before ++ [(buffer, r)]) }) := by
  induction recvs generalizing clnt with
  | nil =>
    left
    rw [List.map_nil, sendLoop, wholeSends, List.map_nil, List.append_nil]
  | cons buffer recvs ih =>
    rw [List.forall_mem_cons] at hpos
    have hne : buffer ≠ [] := List.ne_nil_of_length_pos hpos.1
    have hle := sender.le_length clnt.sends.length buffer
    rw [List.map_cons, sendLoop, if_neg hne]
    by_cases hwhole : sender.result clnt.sends.length buffer = buffer.length
    · have hnext : clnt.send sender buffer =
          { clnt with sends := clnt.sends ++ wholeSends [buffer] } := by
        rw [ClntSocket.send, hwhole]
        rfl
      simp only [hwhole, ne_eq, not_true, if_false, Int.natCast_nonneg, not_lt.mpr, hnext]
      rcases ih hpos.2 { clnt with sends := clnt.sends ++ wholeSends [buffer] } with
        h | ⟨before, buffer', after, r, died, rfl, hr, hle', h⟩
      · left
        rw [h, List.append_assoc]
        rfl
      · right
        refine ⟨buffer :: before, buffer', after, r, died, rfl, hr, hle', ?_⟩
        rw [h, List.append_assoc]
        rfl
    · right
      by_cases hneg : sender.result clnt.sends.length buffer < 0
      · refine ⟨[], buffer, recvs, _, sendFailed, rfl, hwhole, hle, ?_⟩
        simp only [hneg, if_true]
        rfl
      · refine ⟨[], buffer, recvs, _, sentUnexpected, rfl, hwhole, hle, ?_⟩
        simp only [hneg, hwhole, if_false, ne_eq, not_false_eq_true, if_true]
        rfl

theorem handleTCPClient_of_none {clnt' : ClntSocket}
    (h : sendLoop sender (recvs.map some) (clnt.send sender greeting) = (none, clnt')) :
    handleTCPClient sender (recvs.map some) clnt = (none, clnt'.close) := by
  cases recvs <;> simp only [handleTCPClient, List.map_nil, List.map_cons] at h ⊢ <;> rw [h]

theorem handleTCPClient_of_some {clnt' : ClntSocket} {died : Died}
    (h : sendLoop sender (recvs.map some) (clnt.send sender greeting) = (some died, clnt')) :
    handleTCPClient sender (recvs.map some) clnt = (some died, clnt') := by
  cases recvs <;> simp only [handleTCPClient, List.map_nil, List.map_cons] at h ⊢ <;> rw [h]

/-- The sends of `HandleTCPClient` : the greeting, whatever comes of it, and those of the loop. -/
theorem handleTCPClient_sends (sender : Sender) (hpos : ∀ buffer ∈ recvs, 0 < buffer.length) :
    handleTCPClient sender (recvs.map some) .init =
        (none, ⟨(greeting, sender.result 0 greeting) :: wholeSends recvs, 1⟩) ∨
      ∃ before buffer after r died, recvs = before ++ buffer :: after ∧ r ≠ (buffer.length : ℤ) ∧
        r ≤ buffer.length ∧ handleTCPClient sender (recvs.map some) .init =
          (some died, ⟨(greeting, sender.result 0 greeting) :: (wholeSends before ++
            [(buffer, r)]), 0⟩) := by
  rcases sendLoop_sends sender hpos (ClntSocket.init.send sender greeting) with
    h | ⟨before, buffer, after, r, died, hrecvs, hr, hle, h⟩
  · exact .inl (handleTCPClient_of_none h)
  · exact .inr ⟨before, buffer, after, r, died, hrecvs, hr, hle, handleTCPClient_of_some h⟩

/-! ## The stream -/

/-- A short `send` after others that were whole is the last one. -/
theorem eq_nil_of_short {sends before after : List (List UInt8 × ℤ)} {last s : List UInt8 × ℤ}
    (hwhole : ∀ s ∈ sends, Whole s) (h : sends ++ [last] = before ++ s :: after)
    (hs : ¬Whole s) : after = [] := by
  rcases List.eq_nil_or_concat after with rfl | ⟨after', t, rfl⟩
  · rfl
  · have hsends : sends = before ++ s :: after' := by
      rw [List.concat_eq_append, ← List.cons_append, ← List.append_assoc] at h
      exact (List.append_inj' h rfl).1
    exact absurd (hwhole s (hsends ▸ List.mem_append_right _ List.mem_cons_self)) hs

theorem EchoesStream.of_whole (recvs : List (List UInt8)) (hb : recvs.flatten = greeting ++ b) :
    EchoesStream b (none, ⟨wholeSends recvs, 1⟩) where
  whole _ := ⟨rfl, by rw [← hb]; exact flatMap_wholeSends recvs, rfl⟩
  short before s after hsends hs :=
    absurd (whole_of_mem_wholeSends (hsends ▸ List.mem_append_right _ List.mem_cons_self)) hs

theorem EchoesStream.of_short (recvs : List (List UInt8)) {buffer : List UInt8}
    (rest : List UInt8) {r : ℤ} {closes : ℕ} {died : Option Died} (hr : r ≠ buffer.length)
    (hb : recvs.flatten ++ (buffer ++ rest) = greeting ++ b) :
    EchoesStream b (died, ⟨wholeSends recvs ++ [(buffer, r)], closes⟩) where
  whole h := absurd (h _ (List.mem_append_right _ (List.mem_singleton_self _))) hr
  short before s after hsends hs := by
    refine ⟨eq_nil_of_short (fun s hs => whole_of_mem_wholeSends hs) hsends hs, ?_⟩
    simp only [ClntSocket.sent, List.flatMap_append, flatMap_wholeSends, List.flatMap_singleton]
    rw [← hb, List.prefix_append_right_inj]
    exact (List.take_prefix _ _).trans (List.prefix_append _ _)

/-- After a greeting sent short nothing may be sent. -/
theorem EchoesStream.not_of_short_greeting {r : ℤ} {sends : List (List UInt8 × ℤ)} {closes : ℕ}
    {died : Option Died} (hr : ¬Whole (greeting, r)) (hne : sends ≠ []) :
    ¬EchoesStream b (died, ⟨(greeting, r) :: sends, closes⟩) := fun h =>
  hne (h.short [] (greeting, r) sends rfl hr).1

/-- With no short `send` the buffers are the ones sent by `Echo.handleTCPClient`. -/
theorem map_fst_sends (hpos : ∀ buffer ∈ recvs, 0 < buffer.length)
    (hwhole : ∀ s ∈ (handleTCPClient sender (recvs.map some) .init).2.sends, Whole s) :
    (handleTCPClient sender (recvs.map some) .init).2.sends.map Prod.fst =
      Echo.handleTCPClient recvs := by
  rcases handleTCPClient_sends sender hpos with h | ⟨before, buffer, after, r, died, -, hr, -, h⟩
  · rw [h, List.map_cons, wholeSends, List.map_map, Echo.handleTCPClient, echoLoop_eq]
    exact congrArg _ (List.map_id recvs)
  · rw [h] at hwhole
    refine absurd (hwhole (buffer, r) ?_) hr
    exact List.mem_cons_of_mem _ (List.mem_append_right _ (List.mem_singleton_self _))

/-! ## The results -/

/-- The server echoes the stream, up to the first short `send`, exactly if the greeting is sent
whole or there is nothing to echo. -/
theorem echoesStream_iff (sender : Sender) (h : Cut bufsize b recvs) :
    EchoesStream b (handleTCPClient sender (recvs.map some) .init) ↔
      Whole (greeting, sender.result 0 greeting) ∨ b = [] := by
  rcases handleTCPClient_sends sender h.pos with
    heq | ⟨before, buffer, after, r, died, hrecvs, hr, -, heq⟩
  · rw [heq]
    by_cases hgreeting : Whole (greeting, sender.result 0 greeting)
    · refine iff_of_true ?_ (.inl hgreeting)
      rw [hgreeting.eq]
      exact EchoesStream.of_whole (greeting :: recvs) (by rw [← h.flatten]; rfl)
    · rw [or_iff_right hgreeting]
      constructor
      · intro hechoes
        by_contra hb
        refine EchoesStream.not_of_short_greeting hgreeting ?_ hechoes
        rintro hnil
        rw [List.map_eq_nil_iff.mp hnil] at h
        exact hb h.flatten.symm
      · rintro rfl
        have hrecvs : recvs = [] := by
          cases recvs with
          | nil => rfl
          | cons buffer recvs =>
            have hlength := congrArg List.length h.flatten
            have hbuffer := h.pos buffer List.mem_cons_self
            rw [List.flatten_cons, List.length_append, List.length_nil] at hlength
            omega
        rw [hrecvs]
        exact EchoesStream.of_short [] [] hgreeting (by simp)
  · rw [heq]
    have hb : b ≠ [] := by
      rintro rfl
      have hbuffer : buffer ∈ recvs := hrecvs ▸ List.mem_append_right _ List.mem_cons_self
      have hnil := List.flatten_eq_nil_iff.mp h.flatten buffer hbuffer
      exact absurd (h.pos buffer hbuffer) (by rw [hnil]; exact lt_irrefl 0)
    rw [or_iff_left hb]
    by_cases hgreeting : Whole (greeting, sender.result 0 greeting)
    · refine iff_of_true ?_ hgreeting
      rw [hgreeting.eq]
      refine EchoesStream.of_short (greeting :: before) after.flatten hr ?_
      rw [← h.flatten, hrecvs]
      simp
    · refine iff_of_false (EchoesStream.not_of_short_greeting hgreeting ?_) hgreeting
      exact List.append_ne_nil_of_right_ne_nil _ (List.cons_ne_nil _ _)

/-- A `send` that transmits `n` bytes at most in its first call. -/
def firstShort (n : ℕ) : Sender where
  result i buffer := if i = 0 then min n buffer.length else buffer.length
  neg_one_le i buffer := by split_ifs <;> omega
  le_length i buffer := by split_ifs <;> omega

/-- "hi" in one piece. -/
theorem cut_hi : Cut bufsize [104, 105] [[104, 105]] :=
  ⟨rfl, by decide, by decide⟩

theorem echoesStream_hi :
    EchoesStream [104, 105] (handleTCPClient (firstShort 13) [some [104, 105]] .init) :=
  (echoesStream_iff (firstShort 13) cut_hi).mpr (.inl rfl)

/-- Of the greeting "this " is sent, and then "hi". -/
theorem not_echoesStream_hi :
    (handleTCPClient (firstShort 5) [some [104, 105]] .init).2.sent =
      [116, 104, 105, 115, 32, 104, 105] ∧
    Cut bufsize [104, 105] [[104, 105]] ∧
    ¬EchoesStream [104, 105] (handleTCPClient (firstShort 5) [some [104, 105]] .init) :=
  ⟨rfl, cut_hi, EchoesStream.not_of_short_greeting (by decide) (List.cons_ne_nil _ _)⟩

end Sockets

end MySocket
