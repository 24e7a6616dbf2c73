import MySocket.Restart

/-!
# The objects on the wire

Every thread that calls `Client.sendObject`, the watchdog among them, puts an
`ObjectOutputStream` of its own on the one output stream of the socket, without a lock : the
stream header is one write, the object one or more later ones. `Server.SocketAction` puts a
new `ObjectInputStream` on its end for each object.

* `serve_records` : the server reads back what is on a stream of complete records.
* `intact_iff` : the stream is one of complete records, one for each call, and the server
  reads every object once, in the runs in which a call writes only while no other call is in
  the midst of its record.
-/

namespace MySocket

namespace KeepAlive

/-! ## Serialization -/

/-- What comes of reading an object from the bytes that have come. -/
inductive Reading (α : Type*)
  | object (obj : α) (rest : List UInt8)
  /-- The object is not complete, and the thread waits. -/
  | blocked
  /-- `StreamCorruptedException` -/
  | corrupted

/-- `STREAM_MAGIC` and `STREAM_VERSION` -/
def streamHeader : List UInt8 :=
  [0xAC, 0xED, 0x00, 0x05]

/-- Java serialization : the writes of `writeObject` and `flush`, and `readObject` behind the
stream header. -/
structure Serialization (α : Type*) where
  blocks : α → List (List UInt8)
  readObject : List UInt8 → Reading α

namespace Serialization

variable {α : Type*} (ser : Serialization α)

/-- The writes of one `sendObject`. -/
def writes (obj : α) : List (List UInt8) :=
  streamHeader :: ser.blocks obj

def record (obj : α) : List UInt8 :=
  (ser.writes obj).flatten

/-- What is documented : an object takes one or more writes, each of some bytes, and is read back
from them and no others. -/
structure Lawful : Prop where
  blocks_ne_nil : ∀ obj, ser.blocks obj ≠ []
  block_ne_nil : ∀ obj, ∀ block ∈ ser.blocks obj, block ≠ []
  readObject_blocks : ∀ obj rest, ser.readObject ((ser.blocks obj).flatten ++ rest) = .object obj rest
  readObject_prefix : ∀ obj bytes, bytes <+: (ser.blocks obj).flatten →
    bytes ≠ (ser.blocks obj).flatten → ser.readObject bytes = .blocked

/-- `new ObjectInputStream(in)` and `readObject`. -/
def read (bytes : List UInt8) : Reading α :=
  if streamHeader <+: bytes then ser.readObject (bytes.drop streamHeader.length)
  else if bytes <+: streamHeader then .blocked
  else .corrupted

/-- The loop of `SocketAction` : the objects it has read, and whether it has not been given up. -/
def serve : ℕ → List UInt8 → List α × Bool
  | 0, _ => ([], true)
  | fuel + 1, bytes =>
    -- `in.available() > 0`
    if bytes = [] then ([], true)
    else
      match ser.read bytes with
      | .object obj rest => (obj :: (serve fuel rest).1, (serve fuel rest).2)
      | .blocked => ([], true)
      | .corrupted => ([], false)

/-! ## Reading -/

section

variable {ser} {obj : α} {rest bytes : List UInt8}

theorem record_eq (ser : Serialization α) (obj : α) :
    ser.record obj = streamHeader ++ (ser.blocks obj).flatten :=
  rfl

theorem record_ne_nil (ser : Serialization α) (obj : α) : ser.record obj ≠ [] :=
  List.cons_ne_nil _ _

theorem Lawful.read_record (h : ser.Lawful) : ser.read (ser.record obj ++ rest) = .object obj rest := by
  have hle : streamHeader <+: ser.record obj ++ rest := by
    rw [record_eq, List.append_assoc]
    exact List.prefix_append _ _
  rw [read, if_pos hle, record_eq, List.append_assoc, List.drop_left]
  exact h.readObject_blocks obj rest

/-- A part of a record makes the thread wait. -/
theorem Lawful.read_prefix (h : ser.Lawful) (hle : bytes <+: ser.record obj)
    (hne : bytes ≠ ser.record obj) : ser.read bytes = .blocked := by
  rw [record_eq] at hle hne
  by_cases hheader : streamHeader <+: bytes
  · obtain ⟨content, rfl⟩ := hheader
    rw [read, if_pos (List.prefix_append _ _), List.drop_left]
    refine h.readObject_prefix obj content ((List.prefix_append_right_inj _).mp hle) fun heq => ?_
    exact hne (by rw [heq])
  · rw [read, if_neg hheader, if_pos]
    exact (List.prefix_or_prefix_of_prefix hle (List.prefix_append _ _)).resolve_right hheader

theorem serve_nil (ser : Serialization α) (fuel : ℕ) : ser.serve fuel [] = ([], true) := by
  cases fuel <;> rfl

theorem Lawful.serve_prefix (h : ser.Lawful) (hle : bytes <+: ser.record obj)
    (hne : bytes ≠ ser.record obj) (fuel : ℕ) : ser.serve fuel bytes = ([], true) := by
  cases fuel with
  | zero => rfl
  | succ fuel =>
    rw [serve, h.read_prefix hle hne]
    split_ifs <;> rfl

/-- The server reads the objects of complete records and waits for the rest of another one. -/
theorem Lawful.serve_records (h : ser.Lawful) {part : List UInt8}
    (hpart : ∀ fuel, ser.serve fuel part = ([], true)) :
    ∀ (objs : List α) (fuel : ℕ), (objs.flatMap ser.record ++ part).length ≤ fuel →
      ser.serve fuel (objs.flatMap ser.record ++ part) = (objs, true)
  | [], fuel, _ => hpart fuel
  | obj :: objs, fuel, hfuel => by
    rw [List.flatMap_cons, List.append_assoc] at hfuel ⊢
    have hpos := List.length_pos_iff.mpr (record_ne_nil ser obj)
    rw [List.length_append] at hfuel
    cases fuel with
    | zero => omega
    | succ fuel =>
      have hrest := h.serve_records hpart objs fuel (by omega)
      rw [serve, if_neg (List.append_ne_nil_of_left_ne_nil (record_ne_nil ser obj) _), h.read_record]
      simp only [hrest]

end

end Serialization

/-! ## The client -/

inductive Caller
  | application (thread : ℕ)
  | keepAliveWatchDog
  deriving DecidableEq

/-- A call of `sendObject`. -/
structure SendObject (α : Type*) where
  caller : Caller
  obj : α
  /-- The number of writes it has made. -/
  made : ℕ

/-- `Client`, as far as it sends. -/
structure ClientSocket (α : Type*) where
  /-- `System.currentTimeMillis()` -/
  now : ℤ
  lastSendTime : ℤ
  /-- The calls in the order in which they were made. -/
  calls : List (SendObject α)
  /-- The writes to the output stream, with the numbers of the calls that made them. -/
  written : List (ℕ × List UInt8)

inductive SendEvent (α : Type*)
  | tick (millis : ℕ)
  | sendObject (thread : ℕ) (obj : α)
  /-- The watchdog finds that it has been quiet for too long. -/
  | keepAlive
  /-- The next write of a call. -/
  | write (n : ℕ)

namespace ClientSocket

variable {α : Type*}

def start (now : ℤ) : ClientSocket α where
  now := now
  lastSendTime := now
  calls := []
  written := []

/-- The bytes sent. -/
def stream (s : ClientSocket α) : List UInt8 :=
  s.written.flatMap Prod.snd

variable (ser : Serialization α)

/-- The call has made all its writes. -/
def Made (call : SendObject α) : Prop :=
  (ser.writes call.obj).length ≤ call.made

instance (call : SendObject α) : Decidable (Made ser call) :=
  inferInstanceAs (Decidable (_ ≤ _))

/-- A thread makes one call at a time. -/
def Idle (s : ClientSocket α) (caller : Caller) : Prop :=
  ∀ call ∈ s.calls, call.caller = caller → Made ser call

instance (s : ClientSocket α) (caller : Caller) : Decidable (s.Idle ser caller) :=
  inferInstanceAs (Decidable (∀ call ∈ s.calls, _))

def sendObject (caller : Caller) (obj : α) (s : ClientSocket α) : ClientSocket α :=
  { s with calls := s.calls ++ [⟨caller, obj, 0⟩] }

/-- Call `n` writes `bytes`; the watchdog takes the time when its call is over. -/
def write (n : ℕ) (call : SendObject α) (bytes : List UInt8) (s : ClientSocket α) :
    ClientSocket α :=
  let after : SendObject α := { call with made := call.made + 1 }
  { s with
    lastSendTime :=
      if call.caller = .keepAliveWatchDog ∧ Made ser after then s.now else s.lastSendTime
    calls := s.calls.set n after
    written := s.written ++ [(n, bytes)] }

/-- `keepAlive` is the object that the watchdog sends. -/
def step (keepAlive : α) (s : ClientSocket α) : SendEvent α → Option (ClientSocket α)
  | .tick millis => some { s with now := s.now + millis }
  | .sendObject thread obj =>
    if s.Idle ser (.application thread) then some (s.sendObject (.application thread) obj) else none
  | .keepAlive =>
    if s.Idle ser .keepAliveWatchDog ∧ s.now - s.lastSendTime > Client.keepAliveDelay then
      some (s.sendObject .keepAliveWatchDog keepAlive)
    else none
  | .write n =>
    s.calls[n]?.bind fun call =>
      (ser.writes call.obj)[call.made]?.map fun bytes => s.write ser n call bytes

/-! ## The property -/

/-- The object of call `n`. -/
def obj? (s : ClientSocket α) (n : ℕ) : Option α :=
  s.calls[n]?.map SendObject.obj

/-- All writes of call `n`. -/
def record (s : ClientSocket α) (n : ℕ) : List (ℕ × List UInt8) :=
  match s.obj? n with
  | some obj => (ser.writes obj).map (n, ·)
  | none => []

def Returned (s : ClientSocket α) (n : ℕ) : Prop :=
  ∃ call, s.calls[n]? = some call ∧ Made ser call

/-- Call `n` has begun its record, and has not ended it. -/
def InMidst (s : ClientSocket α) (n : ℕ) : Prop :=
  ∃ call, s.calls[n]? = some call ∧ 0 < call.made ∧ ¬Made ser call

/-- The stream is made of the records of the calls that have returned, each of them once, and of
the beginning of one other; and these objects are what the server reads. -/
def Intact (s : ClientSocket α) : Prop :=
  ∃ (done : List ℕ) (n k : ℕ),
    s.written = done.flatMap (s.record ser) ++ (s.record ser n).take k ∧
    done.Nodup ∧ (∀ m, m ∈ done ↔ s.Returned ser m) ∧ n ∉ done ∧
    ∀ fuel, s.stream.length ≤ fuel → ser.serve fuel s.stream = (done.filterMap s.obj?, true)

/-- No other call is in the midst of its record when one writes. -/
def Alone (s : ClientSocket α) : SendEvent α → Prop
  | .write n => ∀ m, m ≠ n → ¬s.InMidst ser m
  | .tick _ | .sendObject _ _ | .keepAlive => True

theorem alone_write_iff {ser : Serialization α} {s : ClientSocket α} {n : ℕ} :
    s.Alone ser (.write n) ↔ ∀ c ∈ s.calls.zipIdx, c.2 ≠ n → 0 < c.1.made → Made ser c.1 := by
  simp only [Alone, InMidst, Prod.forall, List.mem_zipIdx_iff_getElem?, not_exists, not_and, not_not]
  exact ⟨fun h call m hcall hm => h m hm call hcall, fun h m hm call hcall => h call m hcall hm⟩

instance (s : ClientSocket α) : (e : SendEvent α) → Decidable (s.Alone ser e)
  | .write _ => decidable_of_iff _ alone_write_iff.symm
  | .tick _ | .sendObject _ _ | .keepAlive => .isTrue trivial

/-! ## What the calls have written -/

section

variable {ser} {s : ClientSocket α}

/-- What call `n` has written. -/
def out (ser : Serialization α) (s : ClientSocket α) (n : ℕ) : List (ℕ × List UInt8) :=
  match s.calls[n]? with
  | some call => ((ser.writes call.obj).take call.made).map (n, ·)
  | none => []

theorem obj?_eq {n : ℕ} {call : SendObject α} (h : s.calls[n]? = some call) :
    s.obj? n = some call.obj := by
  rw [obj?, h, Option.map_some]

theorem returned_iff {n : ℕ} {call : SendObject α} (h : s.calls[n]? = some call) :
    s.Returned ser n ↔ Made ser call := by
  simp only [Returned, h, Option.some.injEq, exists_eq_left']

theorem inMidst_iff {n : ℕ} {call : SendObject α} (h : s.calls[n]? = some call) :
    s.InMidst ser n ↔ 0 < call.made ∧ ¬Made ser call := by
  simp only [InMidst, h, Option.some.injEq, exists_eq_left']

theorem not_returned_of_none {n : ℕ} (h : s.calls[n]? = none) : ¬s.Returned ser n := by
  simp [Returned, h]

/-- A call has written the beginning of its record. -/
theorem exists_out_eq (ser : Serialization α) (s : ClientSocket α) (n : ℕ) :
    ∃ k, s.out ser n = (s.record ser n).take k := by
  cases hcall : s.calls[n]? with
  | none => exact ⟨0, by simp [out, hcall]⟩
  | some call => exact ⟨call.made, by simp [out, record, hcall, obj?_eq hcall, List.map_take]⟩

theorem out_of_returned {n : ℕ} (h : s.Returned ser n) : s.out ser n = s.record ser n := by
  obtain ⟨call, hcall, hmade⟩ := h
  simp [out, record, hcall, obj?_eq hcall, List.take_of_length_le hmade]

/-- A call that is not in the midst of its record has written nothing or all of it. -/
theorem out_eq_nil {n : ℕ} (hreturned : ¬s.Returned ser n) (hmidst : ¬s.InMidst ser n) :
    s.out ser n = [] := by
  cases hcall : s.calls[n]? with
  | none => simp [out, hcall]
  | some call =>
    rw [returned_iff hcall] at hreturned
    rw [inMidst_iff hcall] at hmidst
    have hzero : call.made = 0 := Nat.eq_zero_of_not_pos fun hpos => hmidst ⟨hpos, hreturned⟩
    simp [out, hcall, hzero]

theorem fst_of_mem_record {n : ℕ} {w : ℕ × List UInt8} (h : w ∈ s.record ser n) : w.1 = n := by
  unfold record at h
  split at h
  · obtain ⟨bytes, -, rfl⟩ := List.mem_map.mp h
    rfl
  · cases h

theorem flatMap_snd_map (n : ℕ) (blocks : List (List UInt8)) :
    (blocks.map (n, ·)).flatMap Prod.snd = blocks.flatten := by
  rw [List.flatMap_map, List.flatMap_id']

/-- The bytes of the records are the records of the objects. -/
theorem flatMap_record (s : ClientSocket α) (done : List ℕ) :
    (done.flatMap (s.record ser)).flatMap Prod.snd = (done.filterMap s.obj?).flatMap ser.record := by
  induction done with
  | nil => rfl
  | cons n done ih =>
    rw [List.flatMap_cons, List.flatMap_append, ih, record]
    cases hobj : s.obj? n with
    | none => simp [hobj]
    | some obj => simp only [hobj, flatMap_snd_map, List.filterMap_cons, List.flatMap_cons,
        Serialization.record]

/-- A call that has not returned has written a part of its record. -/
theorem serve_out (hser : ser.Lawful) {n : ℕ} (h : ¬s.Returned ser n) (fuel : ℕ) :
    ser.serve fuel ((s.out ser n).flatMap Prod.snd) = ([], true) := by
  cases hcall : s.calls[n]? with
  | none => simp [out, hcall, Serialization.serve_nil]
  | some call =>
    rw [returned_iff hcall] at h
    have hout : (s.out ser n).flatMap Prod.snd = ((ser.writes call.obj).take call.made).flatten := by
      simp only [out, hcall, flatMap_snd_map]
    have hrecord : ser.record call.obj = ((ser.writes call.obj).take call.made).flatten ++
        ((ser.writes call.obj).drop call.made).flatten := by
      rw [← List.flatten_append, List.take_append_drop, Serialization.record]
    rw [hout]
    have hle : ((ser.writes call.obj).take call.made).flatten <+: ser.record call.obj :=
      ⟨_, hrecord.symm⟩
    refine hser.serve_prefix hle (fun heq => ?_) fuel
    -- what is left to write has bytes
    rw [← heq, List.self_eq_append_right, List.flatten_eq_nil_iff] at hrecord
    have hlt : call.made < (ser.writes call.obj).length := Nat.not_le.mp h
    have hnil := hrecord _ (List.drop_eq_getElem_cons hlt ▸ List.mem_cons_self)
    rcases List.mem_cons.mp (List.getElem_mem hlt) with hheader | hblock
    · rw [hheader] at hnil
      cases hnil
    · exact hser.block_ne_nil call.obj _ hblock hnil

end

/-! ## One step -/

section

variable {ser} {s s' : ClientSocket α}

/-- The records are written one after the other : what has been written comes from the calls that
have returned and from one that has not, and no other call is in the midst of its record. -/
structure InTurn (ser : Serialization α) (s : ClientSocket α) (done : List ℕ) (n : ℕ) : Prop where
  written : s.written = done.flatMap (s.out ser) ++ s.out ser n
  nodup : done.Nodup
  mem_done : ∀ m, m ∈ done ↔ s.Returned ser m
  not_returned : ¬s.Returned ser n
  alone : ∀ m, m ≠ n → ¬s.InMidst ser m

variable {done : List ℕ} {n : ℕ}

/-- In turn, the server reads the objects of the calls that have returned. -/
theorem InTurn.intact (h : s.InTurn ser done n) (hser : ser.Lawful) : s.Intact ser := by
  have hdone : done.flatMap (s.out ser) = done.flatMap (s.record ser) :=
    List.flatMap_congr fun m hm => out_of_returned ((h.mem_done m).mp hm)
  have hwritten := h.written
  rw [hdone] at hwritten
  obtain ⟨k, hk⟩ := exists_out_eq ser s n
  refine ⟨done, n, k, by rw [hwritten, hk], h.nodup, h.mem_done, ?_, fun fuel hfuel => ?_⟩
  · rw [h.mem_done]
    exact h.not_returned
  · have hstream : s.stream =
        (done.filterMap s.obj?).flatMap ser.record ++ (s.out ser n).flatMap Prod.snd := by
      rw [stream, hwritten, List.flatMap_append, flatMap_record]
    rw [hstream] at hfuel ⊢
    exact hser.serve_records (serve_out hser h.not_returned) _ fuel hfuel

theorem inTurn_start (ser : Serialization α) (now : ℤ) : (start now).InTurn ser [] 0 := by
  constructor <;> simp [start, out, Returned, InMidst]

/-- If no other call is in the midst of its record, any call that has not returned can be the one
that has not. -/
theorem InTurn.switch (h : s.InTurn ser done n) {m : ℕ} (hm : ¬s.Returned ser m)
    (halone : ∀ i, i ≠ m → ¬s.InMidst ser i) : s.InTurn ser done m := by
  by_cases hmn : m = n
  · exact hmn ▸ h
  · refine ⟨?_, h.nodup, h.mem_done, hm, halone⟩
    rw [h.written, out_eq_nil h.not_returned (halone n (Ne.symm hmn)), out_eq_nil hm (h.alone m hmn)]

/-- What does not touch the calls. -/
theorem InTurn.of_eq (h : s.InTurn ser done n) (hcalls : s'.calls = s.calls)
    (hwritten : s'.written = s.written) : s'.InTurn ser done n := by
  have hout : s'.out ser = s.out ser := by
    funext m
    rw [out, out, hcalls]
  refine ⟨?_, h.nodup, fun m => ?_, ?_, fun m hm => ?_⟩
  · rw [hwritten, hout, h.written]
  · rw [h.mem_done, Returned, Returned, hcalls]
  · rw [Returned, hcalls]
    exact h.not_returned
  · rw [InMidst, hcalls]
    exact h.alone m hm

theorem getElem?_sendObject {caller : Caller} {obj : α} {m : ℕ} {call : SendObject α} :
    (s.sendObject caller obj).calls[m]? = some call ↔
      s.calls[m]? = some call ∨ m = s.calls.length ∧ call = ⟨caller, obj, 0⟩ := by
  rw [sendObject, List.getElem?_append]
  split_ifs with hm
  · rw [or_iff_left]
    omega
  · rw [List.getElem?_eq_none (Nat.not_lt.mp hm)]
    cases hk : m - s.calls.length with
    | zero =>
      have hlength : m = s.calls.length := by omega
      simp [hlength, eq_comm]
    | succ k =>
      have hlength : m ≠ s.calls.length := by omega
      simp [hlength]

/-- A call that has not written anything changes nothing. -/
theorem InTurn.sendObject (h : s.InTurn ser done n) (caller : Caller) (obj : α) :
    (s.sendObject caller obj).InTurn ser done n := by
  have hreturned : ∀ m, (s.sendObject caller obj).Returned ser m ↔ s.Returned ser m := fun m => by
    simp only [Returned, getElem?_sendObject]
    constructor
    · rintro ⟨call, hcall | ⟨-, rfl⟩, hmade⟩
      · exact ⟨call, hcall, hmade⟩
      · simp [Made, Serialization.writes] at hmade
    · rintro ⟨call, hcall, hmade⟩
      exact ⟨call, .inl hcall, hmade⟩
  have hout : (s.sendObject caller obj).out ser = s.out ser := by
    funext m
    by_cases hm : m < s.calls.length
    · simp [out, ClientSocket.sendObject, List.getElem?_append_left hm]
    · rw [out, out, List.getElem?_eq_none (Nat.not_lt.mp hm)]
      split
      · rename_i call hcall
        rcases getElem?_sendObject.mp hcall with hcall | ⟨-, rfl⟩
        · rw [List.getElem?_eq_none (Nat.not_lt.mp hm)] at hcall
          cases hcall
        · simp
      · rfl
  refine ⟨?_, h.nodup, fun m => ?_, ?_, fun m hm => ?_⟩
  · rw [hout]
    exact h.written
  · rw [h.mem_done, hreturned]
  · rw [hreturned]
    exact h.not_returned
  · rintro ⟨call, hcall, hpos, hmade⟩
    rcases getElem?_sendObject.mp hcall with hcall | ⟨-, rfl⟩
    · exact h.alone m hm ⟨call, hcall, hpos, hmade⟩
    · exact absurd hpos (Nat.lt_irrefl 0)

end

section

variable {ser} {s : ClientSocket α} {n : ℕ} {call : SendObject α} {bytes : List UInt8}

theorem getElem?_write_self (hcall : s.calls[n]? = some call) :
    (s.write ser n call bytes).calls[n]? = some { call with made := call.made + 1 } :=
  List.getElem?_set_self (List.getElem?_eq_some_iff.mp hcall).1

theorem getElem?_write_of_ne {m : ℕ} (hm : m ≠ n) :
    (s.write ser n call bytes).calls[m]? = s.calls[m]? :=
  List.getElem?_set_ne (Ne.symm hm)

theorem returned_write_of_ne {m : ℕ} (hm : m ≠ n) :
    (s.write ser n call bytes).Returned ser m ↔ s.Returned ser m := by
  rw [Returned, Returned, getElem?_write_of_ne hm]

theorem inMidst_write_of_ne {m : ℕ} (hm : m ≠ n) :
    (s.write ser n call bytes).InMidst ser m ↔ s.InMidst ser m := by
  rw [InMidst, InMidst, getElem?_write_of_ne hm]

theorem out_write_of_ne {m : ℕ} (hm : m ≠ n) :
    (s.write ser n call bytes).out ser m = s.out ser m := by
  rw [out, out, getElem?_write_of_ne hm]

theorem out_write_self (hcall : s.calls[n]? = some call)
    (hbytes : (ser.writes call.obj)[call.made]? = some bytes) :
    (s.write ser n call bytes).out ser n = s.out ser n ++ [(n, bytes)] := by
  simp only [out, getElem?_write_self hcall, hcall, List.take_add_one, hbytes, Option.toList_some,
    List.map_append, List.map_cons, List.map_nil]

theorem not_returned_of_write (hcall : s.calls[n]? = some call)
    (hbytes : (ser.writes call.obj)[call.made]? = some bytes) : ¬s.Returned ser n := by
  rw [returned_iff hcall]
  exact Nat.not_le.mpr (List.getElem?_eq_some_iff.mp hbytes).1

variable {done : List ℕ}

theorem InTurn.written_write (h : s.InTurn ser done n) (hcall : s.calls[n]? = some call)
    (hbytes : (ser.writes call.obj)[call.made]? = some bytes) (hne : ∀ m ∈ done, m ≠ n) :
    (s.write ser n call bytes).written =
      done.flatMap ((s.write ser n call bytes).out ser) ++ (s.write ser n call bytes).out ser n := by
  have hdone : done.flatMap ((s.write ser n call bytes).out ser) = done.flatMap (s.out ser) :=
    List.flatMap_congr fun m hm => out_write_of_ne (hne m hm)
  rw [hdone, out_write_self hcall hbytes, ← List.append_assoc, ← h.written]
  rfl

/-- A call that writes in turn goes on with its record or ends it. -/
theorem InTurn.write (h : s.InTurn ser done n) (hcall : s.calls[n]? = some call)
    (hbytes : (ser.writes call.obj)[call.made]? = some bytes) :
    ∃ done' n', (s.write ser n call bytes).InTurn ser done' n' := by
  have hnotin : n ∉ done := fun hn => h.not_returned ((h.mem_done n).mp hn)
  have hne : ∀ m ∈ done, m ≠ n := fun m hm heq => hnotin (heq ▸ hm)
  have hwritten := h.written_write hcall hbytes hne
  have hself : (s.write ser n call bytes).calls[n]? = _ := getElem?_write_self hcall
  by_cases hmade : Made ser { call with made := call.made + 1 }
  · -- the place of the call in turn is taken by one that has not been made
    have hlength : n < s.calls.length := (List.getElem?_eq_some_iff.mp hcall).1
    have hnone : (s.write ser n call bytes).calls[s.calls.length]? = none := by
      rw [getElem?_write_of_ne hlength.ne', List.getElem?_eq_none (Nat.le_refl _)]
    refine ⟨done ++ [n], s.calls.length, ?_, ?_, fun m => ?_, not_returned_of_none hnone,
      fun m hm => ?_⟩
    · rw [hwritten, List.flatMap_append, List.flatMap_singleton]
      simp only [out, hnone, List.append_nil]
    · rw [List.nodup_append]
      refine ⟨h.nodup, by simp, fun m hm k hk => ?_⟩
      rw [List.mem_singleton.mp hk]
      exact hne m hm
    · rw [List.mem_append, List.mem_singleton]
      by_cases hm : m = n
      · subst hm
        exact iff_of_true (.inr rfl) ((returned_iff hself).mpr hmade)
      · rw [or_iff_left hm, returned_write_of_ne hm, h.mem_done]
    · by_cases hmn : m = n
      · subst hmn
        exact fun hmidst => ((inMidst_iff hself).mp hmidst).2 hmade
      · rw [inMidst_write_of_ne hmn]
        exact h.alone m hmn
  · have hnot := mt (returned_iff hself).mp hmade
    refine ⟨done, n, hwritten, h.nodup, fun m => ?_, hnot, fun m hm => ?_⟩
    · by_cases hm : m = n
      · subst hm
        exact iff_of_false hnotin hnot
      · rw [returned_write_of_ne hm, h.mem_done]
    · rw [inMidst_write_of_ne hm]
      exact h.alone m hm

/-- A call that has written something and has not returned is the one whose record is not
complete. -/
theorem eq_of_partial {k i : ℕ} {w : ℕ × List UInt8}
    (hwritten : s.written = done.flatMap (s.record ser) ++ (s.record ser n).take k)
    (hdone : ∀ m, m ∈ done ↔ s.Returned ser m) (hw : w ∈ s.written) (hi : w.1 = i)
    (hreturned : ¬s.Returned ser i) : i = n := by
  rw [hwritten, List.mem_append, List.mem_flatMap] at hw
  rcases hw with ⟨m, hm, hw⟩ | hw
  · rw [← hi, fst_of_mem_record hw, ← hdone] at hreturned
    exact absurd hm hreturned
  · rw [← hi]
    exact fst_of_mem_record (List.mem_of_mem_take hw)

end

/-! ## The results -/

section

variable {ser} {keepAlive : α} {s s' : ClientSocket α} {e : SendEvent α}

/-- What a step can do : time passes, a call is made, or a call writes. -/
theorem step_cases (h : s.step ser keepAlive e = some s') :
    (∃ millis, e = .tick millis ∧ s' = { s with now := s.now + millis }) ∨
    (∃ caller obj, (∀ n, e ≠ .write n) ∧ s' = s.sendObject caller obj) ∨
    (∃ n call bytes, e = .write n ∧ s.calls[n]? = some call ∧
      (ser.writes call.obj)[call.made]? = some bytes ∧ s' = s.write ser n call bytes) := by
  cases e with
  | tick millis => exact .inl ⟨millis, rfl, (Option.some.inj h).symm⟩
  | sendObject thread obj =>
    simp only [step, Option.ite_none_right_eq_some, Option.some.injEq] at h
    exact .inr (.inl ⟨_, _, nofun, h.2.symm⟩)
  | keepAlive =>
    simp only [step, Option.ite_none_right_eq_some, Option.some.injEq] at h
    exact .inr (.inl ⟨_, _, nofun, h.2.symm⟩)
  | write n =>
    obtain ⟨call, hcall, h⟩ := Option.bind_eq_some_iff.mp h
    obtain ⟨bytes, hbytes, rfl⟩ := Option.map_eq_some_iff.mp h
    exact .inr (.inr ⟨n, call, bytes, rfl, hcall, hbytes, rfl⟩)

theorem InTurn.step {done : List ℕ} {n : ℕ} (h : s.InTurn ser done n) (hok : s.Alone ser e)
    (hstep : s.step ser keepAlive e = some s') : ∃ done' n', s'.InTurn ser done' n' := by
  rcases step_cases hstep with ⟨millis, rfl, rfl⟩ | ⟨caller, obj, -, rfl⟩ |
    ⟨m, call, bytes, rfl, hcall, hbytes, rfl⟩
  · exact ⟨done, n, h.of_eq rfl rfl⟩
  · exact ⟨done, n, h.sendObject caller obj⟩
  · exact (h.switch (not_returned_of_write hcall hbytes) hok).write hcall hbytes

/-- A header in the midst of another record leaves two that are not complete. -/
theorem InTurn.alone_of_intact {done : List ℕ} {n : ℕ} (h : s.InTurn ser done n) (hser : ser.Lawful)
    (hstep : s.step ser keepAlive e = some s') (hintact : s'.Intact ser) : s.Alone ser e := by
  rcases step_cases hstep with ⟨millis, rfl, rfl⟩ | ⟨caller, obj, hne, rfl⟩ |
    ⟨i, call, bytes, rfl, hcall, hbytes, rfl⟩
  · trivial
  · cases e with
    | write i => exact absurd rfl (hne i)
    | tick _ | sendObject _ _ | keepAlive => trivial
  · intro m hmi hmidst
    obtain ⟨done', n', k, hwritten, -, hdone, -⟩ := hintact
    obtain rfl : m = n := by_contra fun hmn => h.alone m hmn hmidst
    have hunmade := not_returned_of_write hcall hbytes
    rw [returned_iff hcall] at hunmade
    have hi : call.made = 0 := Nat.eq_zero_of_not_pos fun hpos =>
      h.alone i (Ne.symm hmi) ((inMidst_iff hcall).mpr ⟨hpos, hunmade⟩)
    have hireturned : ¬(s.write ser i call bytes).Returned ser i := by
      rw [returned_iff (getElem?_write_self hcall)]
      intro hmade
      have hblocks := List.length_pos_iff.mpr (hser.blocks_ne_nil call.obj)
      simp only [Made, Serialization.writes, List.length_cons] at hmade
      omega
    have hmreturned : ¬(s.write ser i call bytes).Returned ser m := by
      rw [returned_write_of_ne hmi]
      exact h.not_returned
    obtain ⟨other, hother, hpos, -⟩ := hmidst
    have hout : (m, streamHeader) ∈ s.out ser m := by
      obtain ⟨made, hmade⟩ := Nat.exists_eq_add_one_of_ne_zero hpos.ne'
      simp [out, hother, hmade, Serialization.writes]
    have hm := eq_of_partial hwritten hdone
      (List.mem_append_left _ (h.written ▸ List.mem_append_right _ hout)) rfl hmreturned
    have hi' := eq_of_partial hwritten hdone
      (List.mem_append_right _ (List.mem_singleton_self (i, bytes))) rfl hireturned
    exact hmi (hm.trans hi'.symm)

/-- Every object sent is on the stream in one piece and is read once, all along a run, exactly if
each call writes only while no other is in the midst of its record. -/
theorem intact_iff (hser : ser.Lawful) (keepAlive : α) (now : ℤ) (es : List (SendEvent α)) :
    Always (step ser keepAlive) (Intact ser) (start now) es ↔
      Each (step ser keepAlive) (Alone ser) (start now) es :=
  always_iff_each (I := fun s => ∃ done n, s.InTurn ser done n)
    (fun _ _ _ ⟨_, _, h⟩ hok hstep => h.step hok hstep) (fun _ ⟨_, _, h⟩ => h.intact hser)
    (fun _ _ _ ⟨_, _, h⟩ hstep hintact => h.alone_of_intact hser hstep hintact)
    ⟨[], 0, inTurn_start ser now⟩

end

end ClientSocket

/-! ## Two threads -/

/-- A `KeepAlive`, or a string of one letter. -/
inductive Sample
  | keepAlive
  | letter (c : UInt8)
  deriving DecidableEq

namespace Sample

/-- `com.hao.changlianjie.KeepAlive` -/
def className : List UInt8 :=
  [0x63, 0x6F, 0x6D, 0x2E, 0x68, 0x61, 0x6F, 0x2E, 0x63, 0x68, 0x61, 0x6E, 0x67, 0x6C, 0x69, 0x61,
    0x6E, 0x6A, 0x69, 0x65, 0x2E, 0x4B, 0x65, 0x65, 0x70, 0x41, 0x6C, 0x69, 0x76, 0x65]

/-- `TC_OBJECT` and the class with its `serialVersionUID`; there are no fields. -/
def keepAliveBlock : List UInt8 :=
  [0x73, 0x72, 0x00, 0x1E] ++ className ++
    [0xD8, 0xF5, 0xC9, 0xEE, 0x79, 0xDE, 0x68, 0x40, 0x02, 0x00, 0x00, 0x78, 0x70]

/-- `TC_STRING`, the length and the letter. -/
def blocks : Sample → List (List UInt8)
  | .keepAlive => [keepAliveBlock]
  | .letter c => [[0x74, 0x00, 0x01, c]]

def readObject (bytes : List UInt8) : Reading Sample :=
  match bytes with
  | 0x74 :: 0x00 :: 0x01 :: c :: rest => .object (.letter c) rest
  | bytes =>
    if keepAliveBlock <+: bytes then .object .keepAlive (bytes.drop keepAliveBlock.length)
    else if bytes <+: keepAliveBlock ∨ bytes <+: [0x74, 0x00, 0x01] then .blocked
    else .corrupted

def serialization : Serialization Sample where
  blocks := blocks
  readObject := readObject

theorem readObject_keepAlive (rest : List UInt8) :
    readObject (keepAliveBlock ++ rest) = .object .keepAlive rest := by
  have hread : readObject (keepAliveBlock ++ rest) =
      if keepAliveBlock <+: keepAliveBlock ++ rest then
        .object .keepAlive ((keepAliveBlock ++ rest).drop keepAliveBlock.length)
      else if keepAliveBlock ++ rest <+: keepAliveBlock ∨
          keepAliveBlock ++ rest <+: [0x74, 0x00, 0x01] then .blocked
      else .corrupted := rfl
  rw [hread, if_pos (List.prefix_append _ _), List.drop_left]

/-- A part of a `KeepAlive` is no string. -/
theorem readObject_keepAlive_prefix {bytes : List UInt8} (h : bytes <+: keepAliveBlock)
    (hne : bytes ≠ keepAliveBlock) : readObject bytes = .blocked := by
  unfold readObject
  split
  · obtain ⟨more, hmore⟩ := h
    cases hmore
  · rw [if_neg fun hle => hne (h.eq_of_length_le hle.length_le), if_pos (.inl h)]

theorem readObject_letter_prefix {c : UInt8} {bytes : List UInt8}
    (h : bytes <+: [0x74, 0x00, 0x01, c]) (hne : bytes ≠ [0x74, 0x00, 0x01, c]) :
    readObject bytes = .blocked := by
  rw [List.prefix_iff_eq_take] at h
  have hlength : bytes.length < 4 := by
    by_contra hge
    rw [List.take_of_length_le (Nat.not_lt.mp hge)] at h
    exact hne h
  generalize bytes.length = k at h hlength
  subst h
  match k, hlength with
  | 0, _ | 1, _ | 2, _ | 3, _ => rfl

theorem serialization_lawful : serialization.Lawful where
  blocks_ne_nil obj := by cases obj <;> exact List.cons_ne_nil _ _
  block_ne_nil obj block hblock := by
    cases obj <;> rw [List.mem_singleton.mp hblock] <;> exact List.cons_ne_nil _ _
  readObject_blocks obj rest := by
    cases obj with
    | keepAlive => exact readObject_keepAlive rest
    | letter c => rfl
  readObject_prefix obj bytes hle hne := by
    cases obj with
    | keepAlive => exact readObject_keepAlive_prefix hle hne
    | letter c => exact readObject_letter_prefix hle hne

end Sample

namespace ClientSocket

/-- The string "a" is sent, and a `KeepAlive` after it. -/
theorem in_turn_intact :
    Always (step Sample.serialization .keepAlive) (Intact Sample.serialization) (start 0)
      [.sendObject 0 (.letter 0x61), .tick 2001, .keepAlive, .write 0, .write 0, .write 1,
        .write 1] := by
  refine (intact_iff Sample.serialization_lawful .keepAlive 0 _).mpr ?_
  refine Each.cons rfl trivial (Each.cons rfl trivial (Each.cons rfl trivial ?_))
  exact Each.cons rfl (by decide) (Each.cons rfl (by decide) (Each.cons rfl (by decide)
    (Each.cons rfl (by decide) trivial)))

/-- The watchdog and an application each write their header before they write their object. -/
theorem headers_mixed :
    (run (step Sample.serialization .keepAlive) (start 0)
        [.sendObject 0 (.letter 0x61), .tick 2001, .keepAlive, .write 0, .write 1, .write 0,
          .write 1]).map stream =
      some (streamHeader ++ streamHeader ++ [0x74, 0x00, 0x01, 0x61] ++ Sample.keepAliveBlock) ∧
    (∀ fuel, 0 < fuel → Sample.serialization.serve fuel
      (streamHeader ++ streamHeader ++ [0x74, 0x00, 0x01, 0x61] ++ Sample.keepAliveBlock) =
        ([], false)) ∧
    ¬Always (step Sample.serialization .keepAlive) (Intact Sample.serialization) (start 0)
      [.sendObject 0 (.letter 0x61), .tick 2001, .keepAlive, .write 0, .write 1, .write 0,
        .write 1] := by
  have hserve : ∀ fuel, 0 < fuel → Sample.serialization.serve fuel
      (streamHeader ++ streamHeader ++ [0x74, 0x00, 0x01, 0x61] ++ Sample.keepAliveBlock) =
        ([], false) := fun fuel hfuel => by
    cases fuel with
    | zero => cases hfuel
    | succ fuel => rfl
  refine ⟨by decide, hserve, fun h => ?_⟩
  obtain ⟨done, n, k, -, -, -, -, hread⟩ := h.last rfl
  have hfalse := (hserve 100 (by decide)).symm.trans (hread 100 (by decide))
  cases congrArg Prod.snd hfalse

end ClientSocket

end KeepAlive

end MySocket
