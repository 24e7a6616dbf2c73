import Mathlib.Algebra.Group.Nat.Defs
import Mathlib.Data.List.TakeWhile
import Mathlib.Order.Basic

/-!
# The echo client and the echo server

`HandleTCPClient` sends "this server:" with the zero byte that ends it, and then back what
it receives. `TCPEchoClient` and `TCPEchoClient4` send a word, receive until they have as
many bytes as the word has, and print what each `recv` brings as a string, that is, up to the
first zero byte.

* `agrees_iff` : a client that ends has printed the word and received all that was sent only
  if the word begins with "this server:", the `recv` that brings the zero byte brings twelve
  bytes of the word behind it, and the last one brings more than thirteen bytes.
-/

namespace MySocket

namespace Echo

/-- `BUFSIZE` -/
def bufsize : ℕ :=
  512

/-- The results of `recv` that cut a stream into at most `n` bytes each. -/
structure Cut (n : ℕ) (stream : List UInt8) (recvs : List (List UInt8)) : Prop where
  flatten : recvs.flatten = stream
  pos : ∀ buffer ∈ recvs, 0 < buffer.length
  le : ∀ buffer ∈ recvs, buffer.length ≤ n

/-- The bytes of "this server:". -/
def thisServer : List UInt8 :=
  [116, 104, 105, 115, 32, 115, 101, 114, 118, 101, 114, 58]

/-- The loop of `HandleTCPClient` : what it sends for the results of `recv` up to the end of the
stream. -/
def echoLoop : List (List UInt8) → List (List UInt8)
  | [] => []
  | buffer :: recvs => buffer :: echoLoop recvs

/-- What `HandleTCPClient` sends. -/
def handleTCPClient (recvs : List (List UInt8)) : List (List UInt8) :=
  (thisServer ++ [0]) :: echoLoop recvs

/-- What `fputs` prints of a buffer. -/
def fputs (buffer : List UInt8) : List UInt8 :=
  buffer.takeWhile (· ≠ 0)

/-- What a client has printed after "Received: ", and what it has received. -/
structure Output where
  printed : List UInt8
  received : List UInt8
  deriving DecidableEq

/-- The loop of the clients, from `totalBytesRcvd` on, which is an `unsigned int`. There is no
output if it is left with nothing to receive. -/
def receiveLoop (echoStringLen : ℕ) : ℕ → List (List UInt8) → Option Output
  | totalBytesRcvd, [] => if totalBytesRcvd < echoStringLen then none else some ⟨[], []⟩
  | totalBytesRcvd, buffer :: recvs =>
    if totalBytesRcvd < echoStringLen then
      (receiveLoop echoStringLen ((totalBytesRcvd + buffer.length) % 2 ^ 32) recvs).map fun out =>
        ⟨fputs buffer ++ out.printed, buffer ++ out.received⟩
    else some ⟨[], []⟩

/-- `main` of `TCPEchoClient.c`. -/
def tcpEchoClient (echoString : List UInt8) (recvs : List (List UInt8)) : Option Output :=
  receiveLoop echoString.length 0 recvs

/-- `main` of `TCPEchoClient4.c`. -/
def tcpEchoClient4 (echoString : List UInt8) (recvs : List (List UInt8)) : Option Output :=
  receiveLoop echoString.length 0 recvs

/-! ## The property -/

/-- A client that ends has printed the word, and received the stream. -/
def Agrees (word stream : List UInt8) (out : Option Output) : Prop :=
  ∀ o, out = some o → o.printed = word ∧ o.received = stream

/-- The bytes that the first `m` results bring. -/
def received (recvs : List (List UInt8)) (m : ℕ) : ℕ :=
  (recvs.take m).flatten.length

/-- The bytes come in such portions that the count never reaches the length of the word. -/
def NeverEnds (word : List UInt8) (recvs : List (List UInt8)) : Prop :=
  ∀ m ≤ recvs.length, ¬(word.length ≤ received recvs m ∧ received recvs m < 2 ^ 32)

/-- The word begins with the greeting, one result brings the zero byte and twelve bytes after it,
and the last one more than thirteen bytes. -/
def Fortunate (word : List UInt8) (recvs : List (List UInt8)) : Prop :=
  thisServer <+: word ∧
    (∃ before buffer after, recvs = before ++ buffer :: after ∧ before.flatten.length ≤ 12 ∧
      before.flatten.length + buffer.length = 25) ∧
    ∀ before last, recvs = before ++ [last] → 13 < last.length

/-! ## The server -/

theorem echoLoop_eq : ∀ recvs : List (List UInt8), echoLoop recvs = recvs
  | [] => rfl
  | buffer :: recvs => by rw [echoLoop, echoLoop_eq recvs]

/-- However the word is cut, the stream is the greeting and the word. -/
theorem flatten_handleTCPClient {word : List UInt8} {recvs : List (List UInt8)}
    (h : Cut bufsize word recvs) :
    (handleTCPClient recvs).flatten = thisServer ++ 0 :: word := by
  rw [handleTCPClient, echoLoop_eq, List.flatten_cons, h.flatten, List.append_assoc]
  rfl

/-! ## The loop of the client -/

@[simp] theorem received_zero (recvs : List (List UInt8)) : received recvs 0 = 0 :=
  rfl

theorem received_succ (buffer : List UInt8) (recvs : List (List UInt8)) (m : ℕ) :
    received (buffer :: recvs) (m + 1) = buffer.length + received recvs m := by
  simp [received]

theorem received_le {recvs : List (List UInt8)} {m n : ℕ} (h : m ≤ n) :
    received recvs m ≤ received recvs n := by
  obtain ⟨k, rfl⟩ := Nat.exists_eq_add_of_le h
  rw [received, received, List.take_add, List.flatten_append, List.length_append]
  exact Nat.le_add_right _ _

/-- With at most thirteen bytes more than the word has, a count that has wrapped is too small. -/
theorem le_mod_iff {len t : ℕ} (h : t ≤ len + 13) :
    len ≤ t % 2 ^ 32 ↔ len ≤ t ∧ t < 2 ^ 32 := by
  omega

/-- The loop ends at the first count that reaches the length of the word. -/
theorem receiveLoop_eq_some {len : ℕ} {recvs : List (List UInt8)} {t : ℕ} {out : Output}
    (h : t + recvs.flatten.length ≤ len + 13)
    (hout : receiveLoop len (t % 2 ^ 32) recvs = some out) :
    ∃ k ≤ recvs.length, (len ≤ t + received recvs k ∧ t + received recvs k < 2 ^ 32) ∧
      (∀ j < k, t + received recvs j < len) ∧
      out = ⟨(recvs.take k).flatMap fputs, (recvs.take k).flatten⟩ := by
  induction recvs generalizing t out with
  | nil =>
    rw [List.flatten_nil, List.length_nil, Nat.add_zero] at h
    rw [receiveLoop] at hout
    split_ifs at hout with hlt
    obtain rfl := Option.some.inj hout
    exact ⟨0, Nat.le_refl 0, (le_mod_iff h).mp (Nat.not_lt.mp hlt), nofun, rfl⟩
  | cons buffer recvs ih =>
    rw [List.flatten_cons, List.length_append] at h
    rw [receiveLoop] at hout
    split_ifs at hout with hlt
    · obtain ⟨rest, hrest, rfl⟩ := Option.map_eq_some_iff.mp hout
      rw [Nat.mod_add_mod] at hrest
      obtain ⟨k, hk, hend, hbefore, rfl⟩ := ih (by omega) hrest
      refine ⟨k + 1, Nat.succ_le_succ hk, ?_, fun j hj => ?_, rfl⟩
      · rw [received_succ]
        omega
      · cases j with
        | zero =>
          -- the count at the start has not wrapped, since the one at the end has not
          rw [received_zero, Nat.add_zero]
          by_contra hge
          have hstart : len ≤ t ∧ t < 2 ^ 32 := by omega
          exact absurd ((le_mod_iff (by omega)).mpr hstart) (Nat.not_le.mpr hlt)
        | succ j =>
          have hj := hbefore j (by omega)
          rw [received_succ]
          omega
    · obtain rfl := Option.some.inj hout
      refine ⟨0, Nat.zero_le _, ?_, nofun, rfl⟩
      rw [received_zero, Nat.add_zero]
      exact (le_mod_iff (by omega)).mp (Nat.not_lt.mp hlt)

theorem receiveLoop_eq_none {len : ℕ} {recvs : List (List UInt8)} {t : ℕ}
    (h : t + recvs.flatten.length ≤ len + 13) (hout : receiveLoop len (t % 2 ^ 32) recvs = none) :
    ∀ k ≤ recvs.length, ¬(len ≤ t + received recvs k ∧ t + received recvs k < 2 ^ 32) := by
  induction recvs generalizing t with
  | nil =>
    rw [List.flatten_nil, List.length_nil, Nat.add_zero] at h
    rw [receiveLoop] at hout
    split_ifs at hout with hlt
    intro k _ hend
    rw [received, List.take_nil, List.flatten_nil, List.length_nil, Nat.add_zero] at hend
    exact absurd ((le_mod_iff h).mpr hend) (Nat.not_le.mpr hlt)
  | cons buffer recvs ih =>
    rw [List.flatten_cons, List.length_append] at h
    rw [receiveLoop] at hout
    split_ifs at hout with hlt
    have hrest := Option.map_eq_none_iff.mp hout
    rw [Nat.mod_add_mod] at hrest
    intro k hk hend
    cases k with
    | zero =>
      rw [received_zero, Nat.add_zero, ← le_mod_iff (by omega)] at hend
      omega
    | succ k =>
      rw [received_succ, ← Nat.add_assoc] at hend
      exact ih (by omega) hrest k (Nat.le_of_succ_le_succ hk) hend

/-! ## What is printed -/

theorem fputs_of_notMem {buffer : List UInt8} (h : 0 ∉ buffer) : fputs buffer = buffer :=
  List.takeWhile_eq_self_iff.mpr fun b hb => by
    have hne : b ≠ 0 := fun heq => h (heq ▸ hb)
    simpa using hne

theorem fputs_append_zero {a : List UInt8} (h : 0 ∉ a) (b : List UInt8) :
    fputs (a ++ 0 :: b) = a := by
  rw [fputs, List.takeWhile_append_of_pos]
  · simp
  · intro x hx
    have hne : x ≠ 0 := fun heq => h (heq ▸ hx)
    simpa using hne

theorem flatMap_fputs {recvs : List (List UInt8)} (h : 0 ∉ recvs.flatten) :
    recvs.flatMap fputs = recvs.flatten := by
  induction recvs with
  | nil => rfl
  | cons buffer recvs ih =>
    rw [List.flatten_cons, List.mem_append, not_or] at h
    rw [List.flatMap_cons, List.flatten_cons, fputs_of_notMem h.1, ih h.2]

/-- Every byte of the stream lies in one of the results. -/
theorem exists_buffer {recvs : List (List UInt8)} {i : ℕ} (h : i < recvs.flatten.length) :
    ∃ before buffer after, recvs = before ++ buffer :: after ∧ before.flatten.length ≤ i ∧
      i < before.flatten.length + buffer.length := by
  induction recvs generalizing i with
  | nil => cases h
  | cons buffer recvs ih =>
    by_cases hi : i < buffer.length
    · exact ⟨[], buffer, recvs, rfl, Nat.zero_le _, by simpa using hi⟩
    · rw [List.flatten_cons, List.length_append] at h
      obtain ⟨before, other, after, rfl, hle, hlt⟩ := ih (i := i - buffer.length) (by omega)
      refine ⟨buffer :: before, other, after, rfl, ?_, ?_⟩
      · rw [List.flatten_cons, List.length_append]
        omega
      · rw [List.flatten_cons, List.length_append]
        omega

/-- The bytes that come in one buffer with the zero byte, and after it, are not printed. -/
theorem flatMap_fputs_stream {word : List UInt8} (hword : 0 ∉ word)
    {before after : List (List UInt8)} {buffer : List UInt8}
    (h : (before ++ buffer :: after).flatten = thisServer ++ 0 :: word)
    (hle : before.flatten.length ≤ 12) (hlt : 12 < before.flatten.length + buffer.length) :
    ∃ lost, word = lost ++ after.flatten ∧
      before.flatten.length + buffer.length = 13 + lost.length ∧
      (before ++ buffer :: after).flatMap fputs = thisServer ++ after.flatten := by
  have hserver : 0 ∉ thisServer := by decide
  have hlen : thisServer.length = 12 := rfl
  rw [List.flatten_append, List.flatten_cons] at h
  obtain ⟨rest, hrest, hbuffer⟩ : ∃ rest, thisServer = before.flatten ++ rest ∧
      buffer ++ after.flatten = rest ++ 0 :: word := by
    rcases List.append_eq_append_iff.mp h with ⟨rest, hrest, hbuffer⟩ | ⟨rest, hrest, hbuffer⟩
    · exact ⟨rest, hrest, hbuffer⟩
    · have hzero := congrArg List.length hrest
      rw [List.length_append] at hzero
      obtain rfl := List.length_eq_zero_iff.mp (by omega : rest.length = 0)
      exact ⟨[], by rw [hrest]; simp, by simpa using hbuffer.symm⟩
  rw [hrest, List.mem_append, not_or] at hserver
  have hrestlen := congrArg List.length hrest
  rw [List.length_append] at hrestlen
  rcases List.append_eq_append_iff.mp hbuffer with ⟨more, hmore, -⟩ | ⟨more, rfl, hmore⟩
  · have hmorelen := congrArg List.length hmore
    rw [List.length_append] at hmorelen
    omega
  · cases more with
    | nil =>
      rw [List.append_nil] at hlt
      omega
    | cons zero lost =>
      rw [List.cons_append, List.cons_eq_cons] at hmore
      obtain ⟨rfl, rfl⟩ := hmore
      rw [List.mem_append, not_or] at hword
      refine ⟨lost, rfl, ?_, ?_⟩
      · rw [List.length_append, List.length_cons]
        omega
      · rw [List.flatMap_append, List.flatMap_cons, flatMap_fputs hserver.1,
          fputs_append_zero hserver.2, flatMap_fputs hword.2, hrest, List.append_assoc]

/-! ## The results -/

theorem received_append (before after : List (List UInt8)) :
    received (before ++ after) before.length = before.flatten.length := by
  rw [received, List.take_left]

/-- No result is empty, so the stream is there only with the last of them. -/
theorem received_lt {recvs : List (List UInt8)} (hpos : ∀ buffer ∈ recvs, 0 < buffer.length)
    {k : ℕ} (hk : k < recvs.length) : received recvs k < recvs.flatten.length := by
  have hsplit := List.take_append_drop k recvs
  rw [List.drop_eq_getElem_cons hk] at hsplit
  have hbuffer := hpos _ (List.getElem_mem hk)
  have hlen := congrArg (fun l => l.flatten.length) hsplit
  simp only [List.flatten_append, List.flatten_cons, List.length_append] at hlen
  rw [received]
  omega

section

variable {word : List UInt8} {recvs : List (List UInt8)}

theorem length_stream (h : recvs.flatten = thisServer ++ 0 :: word) :
    recvs.flatten.length = word.length + 13 := by
  rw [h, List.length_append, List.length_cons]
  have hlen : thisServer.length = 12 := rfl
  omega

/-- A client that has printed the word and received the stream was fortunate. -/
theorem fortunate_of_printed (hword : 0 ∉ word) (h : recvs.flatten = thisServer ++ 0 :: word)
    (hbefore : ∀ j < recvs.length, received recvs j < word.length)
    (hprinted : recvs.flatMap fputs = word) : Fortunate word recvs := by
  have hlen := length_stream h
  obtain ⟨before, buffer, after, rfl, hle, hlt⟩ :=
    exists_buffer (show 12 < recvs.flatten.length by omega)
  obtain ⟨lost, hlost, hcount, hshown⟩ := flatMap_fputs_stream hword h hle hlt
  rw [hprinted] at hshown
  refine ⟨⟨after.flatten, hshown.symm⟩, ⟨before, buffer, after, rfl, hle, ?_⟩, ?_⟩
  · have hlen₁ := congrArg List.length hlost
    have hlen₂ := congrArg List.length hshown
    have hserver : thisServer.length = 12 := rfl
    rw [List.length_append] at hlen₁ hlen₂
    omega
  · intro init last hrecvs
    rw [hrecvs] at hbefore hlen
    have hinit := hbefore init.length (by simp)
    rw [received_append] at hinit
    simp only [List.flatten_append, List.flatten_singleton, List.length_append] at hlen
    omega

/-- A fortunate client that ends has received the stream. -/
theorem Fortunate.ended_last (hf : Fortunate word recvs)
    (h : recvs.flatten = thisServer ++ 0 :: word) {k : ℕ} (hk : k ≤ recvs.length)
    (hend : word.length ≤ received recvs k) : k = recvs.length := by
  obtain ⟨-, -, hlast⟩ := hf
  by_contra hne
  rcases List.eq_nil_or_concat recvs with rfl | ⟨init, last, hconcat⟩
  · exact hne (Nat.le_zero.mp hk)
  · rw [List.concat_eq_append] at hconcat
    subst hconcat
    have hlen := length_stream h
    have hlast := hlast init last rfl
    have hinit : k ≤ init.length := by
      rw [List.length_append, List.length_singleton] at hk hne
      omega
    have hle : received (init ++ [last]) k ≤ received (init ++ [last]) init.length :=
      received_le hinit
    rw [received_append] at hle
    simp only [List.flatten_append, List.flatten_singleton, List.length_append] at hlen
    omega

/-- A fortunate client prints the word. -/
theorem Fortunate.printed (hf : Fortunate word recvs) (hword : 0 ∉ word)
    (h : recvs.flatten = thisServer ++ 0 :: word) : recvs.flatMap fputs = word := by
  obtain ⟨⟨rest, hrest⟩, ⟨before, buffer, after, rfl, hle, hcount⟩, -⟩ := hf
  obtain ⟨lost, hlost, hlen, hshown⟩ := flatMap_fputs_stream hword h hle (by omega)
  have hsame : thisServer ++ rest = lost ++ after.flatten := hrest.trans hlost
  obtain ⟨-, rfl⟩ := List.append_inj hsame (by rw [show thisServer.length = 12 from rfl]; omega)
  rw [hshown, hrest]

theorem agrees_receiveLoop_iff (hword : 0 ∉ word) (h : recvs.flatten = thisServer ++ 0 :: word)
    (hpos : ∀ buffer ∈ recvs, 0 < buffer.length) :
    Agrees word recvs.flatten (receiveLoop word.length 0 recvs) ↔
      NeverEnds word recvs ∨ Fortunate word recvs := by
  have hlen : 0 + recvs.flatten.length ≤ word.length + 13 := by
    rw [Nat.zero_add, length_stream h]
  have hzero : 0 % 2 ^ 32 = 0 := rfl
  rw [← hzero]
  constructor
  · intro hagrees
    cases hout : receiveLoop word.length (0 % 2 ^ 32) recvs with
    | none =>
      refine .inl fun m hm => ?_
      simpa using receiveLoop_eq_none hlen hout m hm
    | some out =>
      obtain ⟨k, hk, -, hbefore, rfl⟩ := receiveLoop_eq_some hlen hout
      obtain ⟨hprinted, hreceived⟩ := hagrees _ hout
      obtain rfl : k = recvs.length := by
        by_contra hne
        have hlt := received_lt hpos (Nat.lt_of_le_of_ne hk hne)
        exact Nat.ne_of_lt hlt (congrArg List.length hreceived)
      rw [List.take_length] at hprinted
      exact .inr (fortunate_of_printed hword h (fun j hj => by simpa using hbefore j hj) hprinted)
  · rintro hcond o hout
    obtain ⟨k, hk, hend, -, rfl⟩ := receiveLoop_eq_some hlen hout
    rw [Nat.zero_add] at hend
    rcases hcond with hnever | hfortunate
    · exact absurd hend (hnever k hk)
    · obtain rfl := hfortunate.ended_last h hk hend.1
      rw [List.take_length]
      exact ⟨hfortunate.printed hword h, rfl⟩

end

/-- However the word and the stream are cut, a client that ends has printed the word and received
all that the server sent exactly if it does not end at all or is fortunate. -/
theorem agrees_iff {word : List UInt8} {requests recvs : List (List UInt8)} (hword : 0 ∉ word)
    (hrequests : Cut bufsize word requests)
    (hrecvs : Cut (bufsize - 1) (handleTCPClient requests).flatten recvs) :
    (Agrees word (handleTCPClient requests).flatten (tcpEchoClient word recvs) ↔
      NeverEnds word recvs ∨ Fortunate word recvs) ∧
    (Agrees word (handleTCPClient requests).flatten (tcpEchoClient4 word recvs) ↔
      NeverEnds word recvs ∨ Fortunate word recvs) := by
  have hstream := hrecvs.flatten.trans (flatten_handleTCPClient hrequests)
  have hiff := agrees_receiveLoop_iff hword hstream hrecvs.pos
  rw [hrecvs.flatten] at hiff
  exact ⟨hiff, hiff⟩

/-- The word "hi" : the client ends with "this server:", and thirteen bytes are left. -/
theorem hi_lost :
    (handleTCPClient [[104, 105]]).flatten = thisServer ++ [0, 104, 105] ∧
      tcpEchoClient [104, 105] [thisServer, [0, 104, 105]] = some ⟨thisServer, thisServer⟩ ∧
      tcpEchoClient [104, 105] [thisServer ++ [0, 104, 105]] =
        some ⟨thisServer, thisServer ++ [0, 104, 105]⟩ ∧
      ¬Agrees [104, 105] (handleTCPClient [[104, 105]]).flatten
        (tcpEchoClient [104, 105] [thisServer, [0, 104, 105]]) ∧
      ¬Agrees [104, 105] (handleTCPClient [[104, 105]]).flatten
        (tcpEchoClient4 [104, 105] [thisServer, [0, 104, 105]]) := by
  refine ⟨by decide, by decide, by decide, fun h => ?_, fun h => ?_⟩
  · exact absurd (h ⟨thisServer, thisServer⟩ (by decide)).1 (by decide)
  · exact absurd (h ⟨thisServer, thisServer⟩ (by decide)).1 (by decide)

/-- The word "this server:this server:!!" in one `recv` of 25 bytes and one of 14. -/
theorem greeting_agrees :
    (Agrees (thisServer ++ thisServer ++ [33, 33])
        (handleTCPClient [thisServer ++ thisServer ++ [33, 33]]).flatten
        (tcpEchoClient (thisServer ++ thisServer ++ [33, 33])
          [thisServer ++ 0 :: thisServer, thisServer ++ [33, 33]]) ↔
      NeverEnds (thisServer ++ thisServer ++ [33, 33])
          [thisServer ++ 0 :: thisServer, thisServer ++ [33, 33]] ∨
        Fortunate (thisServer ++ thisServer ++ [33, 33])
          [thisServer ++ 0 :: thisServer, thisServer ++ [33, 33]]) := by
  have hrequests : Cut bufsize (thisServer ++ thisServer ++ [33, 33])
      [thisServer ++ thisServer ++ [33, 33]] :=
    ⟨by decide, by decide, by decide⟩
  refine (agrees_iff ?_ hrequests ?_).1
  · decide
  · exact ⟨by decide, by decide, by decide⟩

end Echo

end MySocket
