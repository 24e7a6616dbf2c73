import MySocket.HeaderTable

/-!
# Strings that a client keeps in the table of the headers

Before a client has headers to parse, `libwebsocket_client_connect` puts the strings that it was
called with into the table. A token that has a string already gets the new one : the old one stays
in `data`, but nothing leads to it.

* `lwsHdrSimpleCreate_eq` : when there is room, and what is stored then.
* `Keeps` : the table is a map from the tokens to strings.
* `createAll_reads` : any number of strings, with what is read for each token at the end.
-/

namespace MySocket

namespace Lws

/-- `_WSI_TOKEN_CLIENT_SENT_PROTOCOLS` and what follows it. -/
def tokenClientSentProtocols : ℕ := 74
def tokenClientPeerAddress : ℕ := 75
def tokenClientUri : ℕ := 76
def tokenClientHost : ℕ := 77
def tokenClientOrigin : ℕ := 78

namespace AllocatedHeaders

/-- The strings of `libwebsocket_client_connect`, each with its token. -/
def clientStrings (address path host : List UInt8) (origin protocol : Option (List UInt8)) :
    List (ℕ × List UInt8) :=
  [(tokenClientPeerAddress, address), (tokenClientUri, path), (tokenClientHost, host)] ++
    (origin.toList.map (Prod.mk tokenClientOrigin) ++
      protocol.toList.map (Prod.mk tokenClientSentProtocols))

/-- One call of `lws_hdr_simple_create` after the other, `none` once one returns -1. -/
def createAll (ah : AllocatedHeaders) : List (ℕ × List UInt8) → Option AllocatedHeaders
  | [] => some ah
  | x :: calls => (ah.lwsHdrSimpleCreate x.1 x.2).bind fun ah => ah.createAll calls

/-- What `lws_hdr_simple_create` leaves if there is room. -/
def filed (ah : AllocatedHeaders) (h : ℕ) (s : List UInt8) : AllocatedHeaders where
  nextFragIndex := ah.nextFragIndex + 1
  fragIndex := Function.update ah.fragIndex h (ah.nextFragIndex + 1)
  frags := Function.update ah.frags (ah.nextFragIndex + 1) ⟨ah.pos, s.length, 0⟩
  data := ah.data ++ (s ++ [0])

end AllocatedHeaders

open AllocatedHeaders

section

variable {ah : AllocatedHeaders} {h : ℕ} {s : List UInt8}

theorem put_pos (ah : AllocatedHeaders) (c : UInt8) : (ah.put c).pos = ah.pos + 1 := by
  simp [put, pos]

/-- The loop of `lws_hdr_simple_create` ends early exactly if the string is too long. -/
theorem putAll_eq : ∀ {ah : AllocatedHeaders} {s : List UInt8}, ah.pos ≤ maxHeaderLen →
    ah.putAll s = if ah.pos + s.length ≤ maxHeaderLen then some (s.foldl put ah) else none
  | ah, [], hpos => by rw [putAll, if_pos (by simpa using hpos), List.foldl_nil]
  | ah, c :: s, hpos => by
    rw [putAll, List.length_cons, List.foldl_cons]
    rcases Nat.eq_or_lt_of_le hpos with heq | hlt
    · rw [if_pos heq, if_neg (by omega)]
    · have ih := @putAll_eq (ah.put c) s (by rw [put_pos]; omega)
      rw [if_neg (by omega), ih, put_pos]
      congr 1
      simp only [eq_iff_iff]
      omega

/-- The bytes of a string are counted. -/
theorem foldl_put : ∀ {s : List UInt8} {ah : AllocatedHeaders}, 0 ∉ s → s.foldl put ah =
    { ah with
      data := ah.data ++ s
      frags := Function.update ah.frags ah.nextFragIndex
        { ah.frags ah.nextFragIndex with len := ah.len + s.length } }
  | [], ah, _ => by simp [len]
  | c :: s, ah, hzero => by
    rw [List.mem_cons, not_or] at hzero
    have hc : c ≠ 0 := Ne.symm hzero.1
    have hnext : (ah.put c).nextFragIndex = ah.nextFragIndex := rfl
    rw [List.foldl_cons, foldl_put hzero.2, put_len, if_neg hc, hnext, put_frags, if_neg hc,
      Function.update_self, Function.update_idem]
    simp [put, Nat.add_right_comm, Nat.add_assoc]

/-- What `lws_hdr_simple_create` does with a string. -/
theorem lwsHdrSimpleCreate_eq (hpos : ah.pos ≤ maxHeaderLen) (hzero : 0 ∉ s) :
    ah.lwsHdrSimpleCreate h s =
      if ah.nextFragIndex + 1 ≠ maxFrags ∧ ah.pos + s.length + 1 ≤ maxHeaderLen
      then some (ah.filed h s) else none := by
  have hopen : (ah.openFragment.setIndex h (ah.nextFragIndex + 1)).pos = ah.pos := rfl
  rw [lwsHdrSimpleCreate]
  rcases em (ah.nextFragIndex + 1 = maxFrags) with hfull | hfull
  · rw [if_pos hfull, if_neg fun hroom => hroom.1 hfull]
  rw [if_neg hfull, putAll_eq (by rwa [hopen]), hopen, List.length_append, List.length_singleton]
  rcases em (ah.pos + s.length + 1 ≤ maxHeaderLen) with hroom | hroom
  · rw [if_pos (by omega), if_pos ⟨hfull, hroom⟩, List.foldl_append, foldl_put hzero]
    simp [filed, put, openFragment, setIndex, len]
  · rw [if_neg (by omega), if_neg fun hroom' => hroom hroom'.2]

/-! ## A map from the tokens -/

/-- The fragment number `i` is the string `s`, and no other fragment follows. -/
structure HasString (ah : AllocatedHeaders) (i : ℕ) (s : List UInt8) : Prop where
  pos : i ≠ 0
  le : i ≤ ah.nextFragIndex
  zero : 0 ∉ s
  bytes : s ++ [0] <+: ah.data.drop (ah.frags i).offset
  len : (ah.frags i).len = s.length
  next : (ah.frags i).next = 0

/-- The tokens have the strings of `text`, and there has been room for all of them. -/
structure Keeps (ah : AllocatedHeaders) (text : ℕ → Option (List UInt8)) : Prop where
  room : ah.nextFragIndex < maxFrags
  size : ah.pos ≤ maxHeaderLen
  fresh : ∀ h, text h = none → ah.fragIndex h = 0
  strings : ∀ h s, text h = some s → HasString ah (ah.fragIndex h) s

/-- Another string leaves those that are there. -/
theorem HasString.filed {i : ℕ} {s' : List UInt8} (hs : HasString ah i s) :
    HasString (ah.filed h s') i s := by
  have hfrag : (ah.filed h s').frags i = ah.frags i :=
    Function.update_of_ne (Nat.ne_of_lt (Nat.lt_succ_of_le hs.le)) _ _
  refine ⟨hs.pos, Nat.le_succ_of_le hs.le, hs.zero, ?_, hfrag ▸ hs.len, hfrag ▸ hs.next⟩
  obtain ⟨rest, hrest⟩ := hs.bytes
  have hle : (ah.frags i).offset ≤ ah.data.length := by
    by_contra hgt
    rw [List.drop_eq_nil_of_le (by omega)] at hrest
    simp at hrest
  refine ⟨rest ++ (s' ++ [0]), ?_⟩
  rw [hfrag, AllocatedHeaders.filed, List.drop_append_of_le_length hle, ← hrest,
    List.append_assoc (s ++ [0])]

theorem hasString_filed (hzero : 0 ∉ s) :
    HasString (ah.filed h s) (ah.nextFragIndex + 1) s := by
  have hfrag : (ah.filed h s).frags (ah.nextFragIndex + 1) = ⟨ah.pos, s.length, 0⟩ :=
    Function.update_self _ _ _
  refine ⟨Nat.succ_ne_zero _, Nat.le_refl _, hzero, ?_, ?_, ?_⟩
  · rw [hfrag]
    change _ <+: (ah.data ++ (s ++ [0])).drop ah.data.length
    rw [List.drop_left]
  · rw [hfrag]
  · rw [hfrag]

namespace Keeps

variable {text : ℕ → Option (List UInt8)}

theorem init (frags : ℕ → Fragment) : Keeps (lwsAllocateHeaderTable frags) fun _ => none :=
  ⟨Nat.succ_pos _, Nat.zero_le _, fun _ _ => rfl, fun _ _ hs => by simp at hs⟩

/-- A new string is stored instead of the one that the token has. -/
theorem filed (hk : Keeps ah text) (hzero : 0 ∉ s) (hroom : ah.nextFragIndex + 1 < maxFrags)
    (hsize : ah.pos + s.length + 1 ≤ maxHeaderLen) :
    Keeps (ah.filed h s) (Function.update text h (some s)) := by
  refine ⟨hroom, ?_, fun h' hnone => ?_, fun h' s' hsome => ?_⟩
  · simpa [AllocatedHeaders.filed, pos, Nat.add_assoc] using hsize
  · rcases em (h' = h) with rfl | hne
    · simp at hnone
    · rw [Function.update_of_ne hne] at hnone
      exact (Function.update_of_ne hne _ _).trans (hk.fresh h' hnone)
  · change HasString _ (Function.update ah.fragIndex h (ah.nextFragIndex + 1) h') s'
    rcases em (h' = h) with rfl | hne
    · rw [Function.update_self] at hsome ⊢
      obtain rfl := Option.some.inj hsome
      exact hasString_filed hzero
    · rw [Function.update_of_ne hne] at hsome ⊢
      exact (hk.strings h' s' hsome).filed

theorem hdrFrags (hk : Keeps ah text) (h : ℕ) :
    ah.hdrFrags h = some (if (text h).isSome then [ah.fragIndex h] else []) := by
  rw [AllocatedHeaders.hdrFrags]
  rcases htext : text h with _ | s
  · rw [hk.fresh h htext]
    rfl
  · have hs := hk.strings h s htext
    have hfollows : Follows ah.frags (ah.fragIndex h) [ah.fragIndex h] := ⟨rfl, hs.pos, hs.next⟩
    exact hfollows.fragsFrom (Nat.succ_pos _)

theorem cString (hk : Keeps ah text) (htext : text h = some s) :
    ah.cString (ah.frags (ah.fragIndex h)).offset = some s := by
  have hs := hk.strings h s htext
  obtain ⟨rest, hrest⟩ := hs.bytes
  have hall : ∀ c ∈ s, decide (c ≠ 0) = true := fun c hc =>
    decide_eq_true fun h0 => hs.zero (h0 ▸ hc)
  rw [AllocatedHeaders.cString, ← hrest, if_pos (by simp), List.append_assoc,
    List.takeWhile_append_of_pos hall]
  simp

theorem simplePtr (hk : Keeps ah text) (h : ℕ) : ah.lwsHdrSimplePtr h = (text h).map some := by
  rw [lwsHdrSimplePtr]
  rcases htext : text h with _ | s
  · rw [if_pos (hk.fresh h htext)]
    rfl
  · rw [if_neg (hk.strings h s htext).pos, hk.cString htext]
    rfl

theorem totalLength (hk : Keeps ah text) (h : ℕ) :
    ah.lwsHdrTotalLength h = some ((text h).elim 0 List.length) := by
  rw [lwsHdrTotalLength, hk.hdrFrags]
  rcases htext : text h with _ | s
  · rfl
  · simp [(hk.strings h s htext).len]

theorem copy (hk : Keeps ah text) (htext : text h = some s) (m : Mem) (len : ℤ) :
    ah.lwsHdrCopy m len h =
      if len ≤ s.length then some (-1, m) else some ((s.length : ℤ), store m 0 (s ++ [0])) := by
  have hlen : ah.lwsHdrTotalLength h = some s.length := by rw [hk.totalLength, htext]; rfl
  rw [lwsHdrCopy, hlen, Option.bind_some]
  congr 1
  rw [hk.hdrFrags, htext]
  simp [copyFrags, hk.cString htext]

end Keeps

/-! ## One string after the other -/

/-- The string that each token has after the calls. -/
def overwrite (text : ℕ → Option (List UInt8)) :
    List (ℕ × List UInt8) → ℕ → Option (List UInt8)
  | [] => text
  | x :: calls => overwrite (Function.update text x.1 (some x.2)) calls

/-- The last string that a token is given. -/
def lastFor (h : ℕ) (calls : List (ℕ × List UInt8)) : Option (List UInt8) :=
  (calls.reverse.find? fun x => x.1 = h).map Prod.snd

theorem overwrite_eq : ∀ (calls : List (ℕ × List UInt8)) (text : ℕ → Option (List UInt8)) (h : ℕ),
    overwrite text calls h = (lastFor h calls).or (text h)
  | [], _, _ => rfl
  | x :: calls, text, h => by
    rw [overwrite, overwrite_eq calls, lastFor, lastFor, List.reverse_cons, List.find?_append]
    rcases em (x.1 = h) with rfl | hne
    · rw [Function.update_self]
      cases List.find? (fun y => decide (y.1 = x.1)) calls.reverse <;> simp
    · rw [Function.update_of_ne (Ne.symm hne)]
      simp [hne]

/-- The place that the strings need. -/
def roomFor : List (ℕ × List UInt8) → ℕ
  | [] => 0
  | x :: calls => x.2.length + 1 + roomFor calls

theorem Keeps.createAll : ∀ {calls : List (ℕ × List UInt8)} {ah : AllocatedHeaders}
    {text : ℕ → Option (List UInt8)}, Keeps ah text → (∀ x ∈ calls, 0 ∉ x.2) →
    (ah.nextFragIndex + calls.length < maxFrags ∧ ah.pos + roomFor calls ≤ maxHeaderLen ∧
        ∃ ah', ah.createAll calls = some ah' ∧ Keeps ah' (overwrite text calls)) ∨
      (¬(ah.nextFragIndex + calls.length < maxFrags ∧ ah.pos + roomFor calls ≤ maxHeaderLen) ∧
        ah.createAll calls = none)
  | [], ah, _, hk, _ => Or.inl ⟨hk.room, hk.size, ah, rfl, hk⟩
  | x :: calls, ah, text, hk, hzero => by
    obtain ⟨hx, hzero⟩ := List.forall_mem_cons.mp hzero
    have hroom := hk.room
    have hstep := @lwsHdrSimpleCreate_eq ah x.1 x.2 hk.size hx
    rw [AllocatedHeaders.createAll, hstep, List.length_cons, roomFor]
    rcases em (ah.nextFragIndex + 1 ≠ maxFrags ∧ ah.pos + x.2.length + 1 ≤ maxHeaderLen)
      with hfits | hfits
    · have hnext : (ah.filed x.1 x.2).nextFragIndex = ah.nextFragIndex + 1 := rfl
      have hpos : (ah.filed x.1 x.2).pos = ah.pos + x.2.length + 1 := by
        simp [AllocatedHeaders.filed, pos, Nat.add_assoc]
      have ih := (hk.filed (h := x.1) hx (by omega) hfits.2).createAll hzero
      rw [hnext, hpos] at ih
      rw [if_pos hfits, Option.bind_some]
      rcases ih with ⟨hr, hs, ah', hrun, hk'⟩ | ⟨hno, hrun⟩
      · exact Or.inl ⟨by omega, by omega, ah', hrun, hk'⟩
      · exact Or.inr ⟨by omega, hrun⟩
    · rw [if_neg hfits]
      exact Or.inr ⟨by omega, rfl⟩

/-- The strings are stored if there is room for all of them. A token then has the last one that it
was given, as a pointer, as a length and as a copy, and none if it was given none. -/
theorem createAll_reads (frags : ℕ → Fragment) {calls : List (ℕ × List UInt8)}
    (hzero : ∀ x ∈ calls, 0 ∉ x.2) :
    ((∃ ah, (lwsAllocateHeaderTable frags).createAll calls = some ah) ↔
        calls.length < maxFrags ∧ roomFor calls ≤ maxHeaderLen) ∧
      ∀ ah, (lwsAllocateHeaderTable frags).createAll calls = some ah → ∀ h,
        ah.lwsHdrSimplePtr h = (lastFor h calls).map some ∧
        ah.lwsHdrTotalLength h = some ((lastFor h calls).elim 0 List.length) ∧
        ∀ s, lastFor h calls = some s → ∀ m (len : ℤ), ah.lwsHdrCopy m len h =
          if len ≤ s.length then some (-1, m) else some ((s.length : ℤ), store m 0 (s ++ [0])) := by
  have hnext : (lwsAllocateHeaderTable frags).nextFragIndex = 0 := rfl
  have hpos : (lwsAllocateHeaderTable frags).pos = 0 := rfl
  have hcases := (Keeps.init frags).createAll hzero
  rw [hnext, hpos, Nat.zero_add, Nat.zero_add] at hcases
  rcases hcases with ⟨hroom, hsize, ah, hrun, hk⟩ | ⟨hno, hrun⟩
  · refine ⟨⟨fun _ => ⟨hroom, hsize⟩, fun _ => ⟨ah, hrun⟩⟩, fun ah' hrun' h => ?_⟩
    obtain rfl : ah = ah' := Option.some.inj (hrun.symm.trans hrun')
    have htext := overwrite_eq calls (fun _ => none) h
    rw [Option.or_none] at htext
    refine ⟨?_, ?_, fun s hlast m len => ?_⟩
    · rw [hk.simplePtr, htext]
    · rw [hk.totalLength, htext]
    · exact hk.copy (htext.trans hlast) m len
  · refine ⟨⟨fun hsome => ?_, fun hfits => absurd hfits hno⟩, fun ah' hrun' => ?_⟩
    · obtain ⟨ah, hah⟩ := hsome
      simp [hrun] at hah
    · simp [hrun] at hrun'

/-- A client that goes on to its proxy : the address of the server is overwritten. -/
theorem createAll_reads_proxy :
    ∃ ah, (lwsAllocateHeaderTable fun _ => ⟨0, 0, 0⟩).createAll
        (clientStrings (ascii "a.b") (ascii "/x") (ascii "a.b") none (some (ascii "chat")) ++
          [(tokenClientPeerAddress, ascii "proxy")]) = some ah ∧
      ah.lwsHdrSimplePtr tokenClientPeerAddress = some (some (ascii "proxy")) ∧
      ah.lwsHdrSimplePtr tokenClientUri = some (some (ascii "/x")) ∧
      ah.lwsHdrSimplePtr tokenClientOrigin = none := by
  obtain ⟨hiff, hreads⟩ := @createAll_reads (fun _ => ⟨0, 0, 0⟩)
    (clientStrings (ascii "a.b") (ascii "/x") (ascii "a.b") none (some (ascii "chat")) ++
      [(tokenClientPeerAddress, ascii "proxy")]) (by decide +kernel)
  obtain ⟨ah, hrun⟩ := hiff.mpr ⟨by decide +kernel, by decide +kernel⟩
  have hread := hreads ah hrun
  refine ⟨ah, hrun, ?_, ?_, ?_⟩
  · exact (hread tokenClientPeerAddress).1.trans (by decide +kernel)
  · exact (hread tokenClientUri).1.trans (by decide +kernel)
  · exact (hread tokenClientOrigin).1.trans (by decide +kernel)

end

end Lws

end MySocket
