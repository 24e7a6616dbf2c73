import Mathlib.Logic.Function.Basic
import MySocket.ByteMemory
import MySocket.Lextable

/-!
# The table of the headers

`struct allocated_headers` keeps the values of the headers one after the other in `data`. What
came for a token is a list of fragments, each with the number of the next one.

* `Layout` : the fragments as they lie in `data`, with the token each of them is for.
* `Layout.hdrFrags` : the list for a token is that of its fragments in their order.
* `Layout.first`, `Layout.more` : another fragment is put to the end of its list.
* `copyFrags_text` : a copy of a header is the values put together, if these are strings.
* `Table` : the layout, with what is known of each fragment and the room in the arrays.
-/

namespace MySocket

namespace Lws

/-! ## The code -/

/-- `enum lws_token_indexes`, as far as it is used by name. -/
def tokenGetUri : ℕ := 0
def tokenPostUri : ℕ := 1
def tokenOptionsUri : ℕ := 2
def tokenHost : ℕ := 3
def tokenConnection : ℕ := 4
def tokenUpgrade : ℕ := 5
def tokenOrigin : ℕ := 6
def tokenChallenge : ℕ := 8
def tokenExtensions : ℕ := 9
def tokenProtocol : ℕ := 12
def tokenHttp : ℕ := 15
def tokenKey : ℕ := 32
def tokenVersion : ℕ := 33
def tokenSworigin : ℕ := 34
def tokenHttpUriArgs : ℕ := 73

/-- `WSI_TOKEN_COUNT` -/
def tokenCount : ℕ := 79

/-- The methods. -/
def IsUri (h : ℕ) : Prop :=
  h = tokenGetUri ∨ h = tokenPostUri ∨ h = tokenOptionsUri

instance IsUri.decidable (h : ℕ) : Decidable (IsUri h) :=
  inferInstanceAs (Decidable (_ ∨ _ ∨ _))

/-- The length of the array `frags`. -/
def maxFrags : ℕ := 2 * tokenCount

/-- `LWS_MAX_HEADER_LEN` -/
def maxHeaderLen : ℕ := 1024

/-- `struct lws_fragments` -/
structure Fragment where
  offset : ℕ
  len : ℕ
  /-- `next_frag_index` -/
  next : ℕ
deriving DecidableEq

/-- `struct allocated_headers`, of which `data` has what has been stored : `pos` is its length. -/
structure AllocatedHeaders where
  nextFragIndex : ℕ
  fragIndex : ℕ → ℕ
  frags : ℕ → Fragment
  data : List UInt8

namespace AllocatedHeaders

/-- `pos` -/
def pos (ah : AllocatedHeaders) : ℕ := ah.data.length

/-- `len` of the fragment that is written to. -/
def len (ah : AllocatedHeaders) : ℕ := (ah.frags ah.nextFragIndex).len

/-- `data[pos++] = c`, and `len++` unless it is the byte zero. -/
def put (ah : AllocatedHeaders) (c : UInt8) : AllocatedHeaders :=
  { ah with
    data := ah.data ++ [c]
    frags := if c = 0 then ah.frags
      else Function.update ah.frags ah.nextFragIndex
        { ah.frags ah.nextFragIndex with len := ah.len + 1 } }

/-- `next_frag_index++`, with an empty fragment at the end of what is stored. -/
def openFragment (ah : AllocatedHeaders) : AllocatedHeaders :=
  { ah with
    nextFragIndex := ah.nextFragIndex + 1
    frags := Function.update ah.frags (ah.nextFragIndex + 1) ⟨ah.pos, 0, 0⟩ }

/-- `frag_index[h] = i` -/
def setIndex (ah : AllocatedHeaders) (h i : ℕ) : AllocatedHeaders :=
  { ah with fragIndex := Function.update ah.fragIndex h i }

/-- `frags[n].next_frag_index = i` -/
def link (ah : AllocatedHeaders) (n i : ℕ) : AllocatedHeaders :=
  { ah with frags := Function.update ah.frags n { ah.frags n with next := i } }

theorem put_frags (ah : AllocatedHeaders) (c : UInt8) : (ah.put c).frags =
    if c = 0 then ah.frags
    else Function.update ah.frags ah.nextFragIndex
      { ah.frags ah.nextFragIndex with len := ah.len + 1 } := rfl

theorem put_offset (ah : AllocatedHeaders) (c : UInt8) (i : ℕ) :
    ((ah.put c).frags i).offset = (ah.frags i).offset := by
  rw [put_frags]
  split
  · rfl
  rcases em (i = ah.nextFragIndex) with rfl | hi
  · rw [Function.update_self]
  · rw [Function.update_of_ne hi]

theorem put_next (ah : AllocatedHeaders) (c : UInt8) (i : ℕ) :
    ((ah.put c).frags i).next = (ah.frags i).next := by
  rw [put_frags]
  split
  · rfl
  rcases em (i = ah.nextFragIndex) with rfl | hi
  · rw [Function.update_self]
  · rw [Function.update_of_ne hi]

theorem put_len (ah : AllocatedHeaders) (c : UInt8) :
    (ah.put c).len = if c = 0 then ah.len else ah.len + 1 := by
  change ((ah.put c).frags ah.nextFragIndex).len = _
  rw [put_frags]
  split
  · rfl
  · rw [Function.update_self]

theorem put_len_of_ne (ah : AllocatedHeaders) (c : UInt8) {i : ℕ} (hi : i ≠ ah.nextFragIndex) :
    ((ah.put c).frags i).len = (ah.frags i).len := by
  rw [put_frags]
  split
  · rfl
  · rw [Function.update_of_ne hi]

theorem openFragment_frags (ah : AllocatedHeaders) : ah.openFragment.frags =
    Function.update ah.frags (ah.nextFragIndex + 1) ⟨ah.pos, 0, 0⟩ := rfl

theorem setIndex_frags (ah : AllocatedHeaders) (h i : ℕ) : (ah.setIndex h i).frags = ah.frags := rfl

theorem link_frags (ah : AllocatedHeaders) (n i : ℕ) : (ah.link n i).frags =
    Function.update ah.frags n { ah.frags n with next := i } := rfl

/-- The fragments from number `n` on, `none` if there are more than `fuel`. -/
def fragsFrom (frags : ℕ → Fragment) : ℕ → ℕ → Option (List ℕ)
  | _, 0 => some []
  | 0, _ + 1 => none
  | fuel + 1, n + 1 => (fragsFrom frags fuel (frags (n + 1)).next).map ((n + 1) :: ·)

/-- `while (frags[n].next_frag_index) n = frags[n].next_frag_index`, for at most `fuel` turns. -/
def lastFrag (frags : ℕ → Fragment) : ℕ → ℕ → Option ℕ
  | 0, n => if (frags n).next = 0 then some n else none
  | fuel + 1, n => if (frags n).next = 0 then some n else lastFrag frags fuel (frags n).next

/-- The fragments for a token, as `do .. while (n)` goes through them. -/
def hdrFrags (ah : AllocatedHeaders) (h : ℕ) : Option (List ℕ) :=
  fragsFrom ah.frags maxFrags (ah.fragIndex h)

/-- `lws_hdr_total_length`, `none` if it does not end. -/
def lwsHdrTotalLength (ah : AllocatedHeaders) (h : ℕ) : Option ℕ :=
  (ah.hdrFrags h).map fun is => (is.map fun i => (ah.frags i).len).sum

/-- The string at `offset`, `none` if there is no byte zero in what has been stored. -/
def cString (ah : AllocatedHeaders) (offset : ℕ) : Option (List UInt8) :=
  if 0 ∈ ah.data.drop offset then some ((ah.data.drop offset).takeWhile (· ≠ 0)) else none

/-- `do .. while (n)` of `lws_hdr_copy` for the fragments `is`, with `dest` at `a`. -/
def copyFrags (ah : AllocatedHeaders) : List ℕ → ℤ → Mem → Option Mem
  | [], _, m => some m
  | i :: is, a, m =>
    (ah.cString (ah.frags i).offset).bind fun s =>
      ah.copyFrags is (a + (ah.frags i).len) (store m a (s ++ [0]))

/-- `lws_hdr_copy` to the address 0 of `m` : what it returns, and the memory afterwards. It is
`none` if it does not end or reads behind what has been stored. -/
def lwsHdrCopy (ah : AllocatedHeaders) (m : Mem) (len : ℤ) (h : ℕ) : Option (ℤ × Mem) :=
  (ah.lwsHdrTotalLength h).bind fun toklen =>
    if len ≤ toklen then some (-1, m)
    else (ah.hdrFrags h).bind fun is => (ah.copyFrags is 0 m).map fun m => ((toklen : ℤ), m)

/-- The string that `lws_hdr_simple_ptr` points to, `none` for a null pointer. -/
def lwsHdrSimplePtr (ah : AllocatedHeaders) (h : ℕ) : Option (Option (List UInt8)) :=
  if ah.fragIndex h = 0 then none else some (ah.cString (ah.frags (ah.fragIndex h)).offset)

/-- The loop of `lws_hdr_simple_create`. -/
def putAll : AllocatedHeaders → List UInt8 → Option AllocatedHeaders
  | ah, [] => some ah
  | ah, c :: cs => if ah.pos = maxHeaderLen then none else (ah.put c).putAll cs

/-- `lws_hdr_simple_create` for the string `s`, `none` for -1. -/
def lwsHdrSimpleCreate (ah : AllocatedHeaders) (h : ℕ) (s : List UInt8) :
    Option AllocatedHeaders :=
  if ah.nextFragIndex + 1 = maxFrags then none
  else (ah.openFragment.setIndex h (ah.nextFragIndex + 1)).putAll (s ++ [0])

/-- `lws_allocate_header_table`; `frags` holds anything. -/
def lwsAllocateHeaderTable (frags : ℕ → Fragment) : AllocatedHeaders :=
  ⟨0, fun _ => 0, frags, []⟩

end AllocatedHeaders

/-! ## The fragments -/

/-- What is stored in a fragment, and the token that it is for. -/
structure Stored where
  token : ℕ
  bytes : List UInt8

/-- The numbers of the fragments for a token, where the first of `log` comes after number `i`. -/
def owned (h : ℕ) : ℕ → List Stored → List ℕ
  | _, [] => []
  | i, x :: log => if x.token = h then (i + 1) :: owned h (i + 1) log else owned h (i + 1) log

/-- The bytes of all fragments. -/
def bytesOf (log : List Stored) : List UInt8 := (log.map Stored.bytes).flatten

/-- The list of fragments that begins with number `n` is `is`. -/
def Follows (frags : ℕ → Fragment) : ℕ → List ℕ → Prop
  | n, [] => n = 0
  | n, i :: is => n = i ∧ i ≠ 0 ∧ Follows frags (frags i).next is

theorem bytesOf_append (log log' : List Stored) :
    bytesOf (log ++ log') = bytesOf log ++ bytesOf log' := by
  rw [bytesOf, List.map_append, List.flatten_append]
  rfl

@[simp] theorem bytesOf_singleton (x : Stored) : bytesOf [x] = x.bytes := by
  simp [bytesOf]

section owned

variable {h : ℕ}

theorem owned_append : ∀ (log log' : List Stored) (i : ℕ),
    owned h i (log ++ log') = owned h i log ++ owned h (i + log.length) log'
  | [], _, _ => rfl
  | x :: log, log', i => by
    have ih := owned_append log log' (i + 1)
    rw [List.length_cons, show i + (log.length + 1) = i + 1 + log.length by omega]
    rw [List.cons_append, owned, owned, ih]
    split
    · rfl
    · rfl

theorem mem_owned : ∀ {log : List Stored} {i j : ℕ}, j ∈ owned h i log →
    ∃ k x, j = i + k + 1 ∧ log[k]? = some x ∧ x.token = h
  | x :: log, i, j, hj => by
    rw [owned] at hj
    have hrest : j ∈ owned h (i + 1) log → ∃ k y, j = i + k + 1 ∧ (x :: log)[k]? = some y ∧
        y.token = h := by
      intro hj
      obtain ⟨k, y, rfl, hy, hh⟩ := mem_owned hj
      exact ⟨k + 1, y, by omega, hy, hh⟩
    split at hj
    next hx =>
      rcases List.mem_cons.mp hj with rfl | hj
      · exact ⟨0, x, rfl, rfl, hx⟩
      · exact hrest hj
    next => exact hrest hj

theorem owned_pairwise : ∀ (log : List Stored) (i : ℕ), (owned h i log).Pairwise (· < ·)
  | [], _ => List.Pairwise.nil
  | x :: log, i => by
    rw [owned]
    split
    · refine List.pairwise_cons.mpr ⟨fun j hj => ?_, owned_pairwise log (i + 1)⟩
      obtain ⟨k, -, rfl, -⟩ := mem_owned hj
      omega
    · exact owned_pairwise log (i + 1)

theorem length_owned : ∀ (log : List Stored) (i : ℕ), (owned h i log).length ≤ log.length
  | [], _ => Nat.le_refl _
  | x :: log, i => by
    have ih := length_owned log (i + 1)
    rw [owned, List.length_cons]
    split
    · rw [List.length_cons]
      omega
    · omega

/-- Only the tokens matter. -/
theorem owned_congr : ∀ {log log' : List Stored} (i : ℕ),
    (∀ x : ℕ, (log[x]?.map Stored.token = some h ↔ log'[x]?.map Stored.token = some h)) →
    log.length = log'.length → owned h i log = owned h i log'
  | [], [], _, _, _ => rfl
  | x :: log, y :: log', i, hsame, hlen => by
    have ih : owned h (i + 1) log = owned h (i + 1) log' :=
      owned_congr (i + 1) (fun k => hsame (k + 1)) (Nat.succ.inj hlen)
    have h0 : x.token = h ↔ y.token = h := by simpa using hsame 0
    rw [owned, owned, ih]
    rcases em (x.token = h) with hx | hx
    · rw [if_pos hx, if_pos (h0.mp hx)]
    · rw [if_neg hx, if_neg fun hy => hx (h0.mpr hy)]

end owned

namespace Follows

variable {f g : ℕ → Fragment}

theorem congr : ∀ {is : List ℕ} {n : ℕ}, (∀ i ∈ is, (f i).next = (g i).next) →
    Follows f n is → Follows g n is
  | [], _, _, h => h
  | i :: is, n, hfg, ⟨hn, h0, h⟩ => by
    refine ⟨hn, h0, ?_⟩
    rw [← hfg i List.mem_cons_self]
    exact h.congr fun j hj => hfg j (List.mem_cons_of_mem _ hj)

theorem fragsFrom : ∀ {is : List ℕ} {n fuel : ℕ}, Follows f n is → is.length ≤ fuel →
    AllocatedHeaders.fragsFrom f fuel n = some is
  | [], n, fuel, h, _ => by
    obtain rfl : n = 0 := h
    cases fuel <;> rfl
  | i :: is, _, fuel, ⟨rfl, h0, h⟩, hfuel => by
    obtain ⟨i, rfl⟩ := Nat.exists_eq_succ_of_ne_zero h0
    obtain ⟨fuel, rfl⟩ := Nat.exists_eq_succ_of_ne_zero
      (Nat.ne_of_gt (Nat.lt_of_lt_of_le (Nat.succ_pos _) hfuel))
    rw [AllocatedHeaders.fragsFrom, h.fragsFrom (Nat.le_of_succ_le_succ hfuel)]
    rfl

theorem lastFrag : ∀ {is : List ℕ} {n m fuel : ℕ}, Follows f n (is ++ [m]) → is.length ≤ fuel →
    AllocatedHeaders.lastFrag f fuel n = some m
  | [], _, m, fuel, ⟨rfl, _, h⟩, _ => by
    have h : (f m).next = 0 := h
    cases fuel <;> rw [AllocatedHeaders.lastFrag, if_pos h]
  | i :: is, _, m, fuel, ⟨rfl, _, h⟩, hfuel => by
    obtain ⟨fuel, rfl⟩ := Nat.exists_eq_succ_of_ne_zero
      (Nat.ne_of_gt (Nat.lt_of_lt_of_le (Nat.succ_pos _) hfuel))
    have hne : (f i).next ≠ 0 := by
      rcases is with _ | ⟨j, is⟩
      · exact h.1 ▸ h.2.1
      · exact h.1 ▸ h.2.1
    rw [AllocatedHeaders.lastFrag, if_neg hne]
    exact h.lastFrag (Nat.le_of_succ_le_succ hfuel)

/-- Another fragment at the end of a list. -/
theorem concat {k : ℕ} (hk : k ≠ 0) (hlast : (g k).next = 0) :
    ∀ {is : List ℕ} {n m : ℕ}, Follows f n (is ++ [m]) → (∀ i ∈ is, (g i).next = (f i).next) →
    (g m).next = k → Follows g n (is ++ [m] ++ [k])
  | [], n, m, ⟨hn, h0, _⟩, _, hm => ⟨hn, h0, hm, hk, hlast⟩
  | i :: is, n, m, ⟨hn, h0, h⟩, hfg, hm => by
    refine ⟨hn, h0, ?_⟩
    rw [hfg i List.mem_cons_self]
    exact concat hk hlast h (fun j hj => hfg j (List.mem_cons_of_mem _ hj)) hm

end Follows

/-- The fragments are those of `log`, in its order. -/
structure Layout (ah : AllocatedHeaders) (log : List Stored) : Prop where
  next : ah.nextFragIndex = log.length
  data : ah.data = bytesOf log
  offset : ∀ i < log.length, (ah.frags (i + 1)).offset = (bytesOf (log.take i)).length
  lists : ∀ h < tokenCount, Follows ah.frags (ah.fragIndex h) (owned h 0 log)

/-- The fragments of `h` that `frag_index` has lost count as fragments for `lost`. -/
def Stored.lose (h lost : ℕ) (x : Stored) : Stored :=
  if x.token = h then ⟨lost, x.bytes⟩ else x

/-- A fragment that is lost if it is one with the arguments of a path. -/
abbrev Stored.orphan : Stored → Stored := Stored.lose tokenHttpUriArgs tokenCount

theorem Stored.lose_bytes (h lost : ℕ) (x : Stored) : (x.lose h lost).bytes = x.bytes := by
  unfold lose
  split
  · rfl
  · rfl

/-- The other tokens keep their fragments. -/
theorem Stored.lose_token_eq_iff (x : Stored) {h lost k : ℕ} (hlost : tokenCount ≤ lost)
    (hk : k < tokenCount) : (x.lose h lost).token = k ↔ x.token = k ∧ k ≠ h := by
  unfold lose
  split
  next hx =>
    refine iff_of_false (hk.trans_le hlost).ne' ?_
    rintro ⟨rfl, hne⟩
    exact hne hx
  next hx => exact ⟨fun hk => ⟨hk, hk ▸ hx⟩, And.left⟩

theorem bytesOf_lose (h lost : ℕ) (log : List Stored) :
    bytesOf (log.map (Stored.lose h lost)) = bytesOf log := by
  simp [bytesOf, Function.comp_def, Stored.lose_bytes]

namespace Layout

variable {ah : AllocatedHeaders} {log : List Stored}

theorem init (frags : ℕ → Fragment) : Layout (AllocatedHeaders.lwsAllocateHeaderTable frags) [] :=
  ⟨rfl, rfl, fun _ h => absurd h (Nat.not_lt_zero _), fun _ _ => rfl⟩

theorem hdrFrags (hl : Layout ah log) (hlen : log.length ≤ maxFrags) {h : ℕ} (hh : h < tokenCount) :
    ah.hdrFrags h = some (owned h 0 log) :=
  (hl.lists h hh).fragsFrom ((length_owned log 0).trans hlen)

theorem fragIndex_eq_zero_iff (hl : Layout ah log) {h : ℕ} (hh : h < tokenCount) :
    ah.fragIndex h = 0 ↔ owned h 0 log = [] := by
  have := hl.lists h hh
  rcases howned : owned h 0 log with _ | ⟨i, is⟩
  · rw [howned] at this
    exact iff_of_true this rfl
  · rw [howned] at this
    exact iff_of_false (this.1 ▸ this.2.1) (List.cons_ne_nil _ _)

/-- The last fragment is written to. -/
theorem setLast {x : Stored} (hl : Layout ah (log ++ [x])) {ah' : AllocatedHeaders}
    {bytes : List UInt8} (hnext : ah'.nextFragIndex = ah.nextFragIndex)
    (hindex : ah'.fragIndex = ah.fragIndex)
    (hoff : ∀ i, (ah'.frags i).offset = (ah.frags i).offset)
    (hlink : ∀ i, (ah'.frags i).next = (ah.frags i).next)
    (hdata : ah'.data = bytesOf log ++ bytes) : Layout ah' (log ++ [⟨x.token, bytes⟩]) where
  next := by
    rw [hnext, hl.next, List.length_append, List.length_append]
    rfl
  data := by rw [hdata, bytesOf_append, bytesOf_singleton]
  offset i hi := by
    rw [List.length_append, List.length_singleton] at hi
    have hi' : i < (log ++ [x]).length := by
      rw [List.length_append, List.length_singleton]
      exact hi
    rw [hoff, hl.offset i hi', List.take_append_of_le_length (by omega),
      List.take_append_of_le_length (by omega)]
  lists h hh := by
    rw [hindex]
    have := hl.lists h hh
    rw [owned_append] at this ⊢
    exact this.congr fun i _ => (hlink i).symm

theorem put {x : Stored} (hl : Layout ah (log ++ [x])) (c : UInt8) :
    Layout (ah.put c) (log ++ [⟨x.token, x.bytes ++ [c]⟩]) := by
  refine hl.setLast rfl rfl (ah.put_offset c) (ah.put_next c) ?_
  rw [AllocatedHeaders.put, hl.data, bytesOf_append, bytesOf_singleton, List.append_assoc]

/-- A fragment that no list has yet. -/
theorem offset_open (hl : Layout ah log) {ah' : AllocatedHeaders} {x : Stored}
    (hoff : ∀ i, (ah'.frags i).offset = (ah.openFragment.frags i).offset) (i : ℕ)
    (hi : i < (log ++ [x]).length) :
    (ah'.frags (i + 1)).offset = (bytesOf ((log ++ [x]).take i)).length := by
  rw [List.length_append, List.length_singleton] at hi
  rw [hoff, AllocatedHeaders.openFragment_frags, List.take_append_of_le_length (by omega)]
  rcases Nat.lt_succ_iff_lt_or_eq.mp hi with hi | rfl
  · rw [Function.update_of_ne (by rw [hl.next]; omega)]
    exact hl.offset i hi
  · rw [hl.next, Function.update_self, List.take_length, ← hl.data]
    rfl

/-- The first fragment for a token. -/
theorem first (hl : Layout ah log) {h : ℕ} (hnone : owned h 0 log = []) :
    Layout (ah.openFragment.setIndex h (ah.nextFragIndex + 1)) (log ++ [⟨h, []⟩]) where
  next := by
    rw [List.length_append]
    exact congrArg (· + 1) hl.next
  data := by
    rw [bytesOf_append, bytesOf_singleton, List.append_nil]
    exact hl.data
  offset := hl.offset_open fun _ => rfl
  lists k hk := by
    rw [owned_append, Nat.zero_add, AllocatedHeaders.setIndex_frags,
      AllocatedHeaders.openFragment_frags]
    change Follows _ (Function.update ah.fragIndex h (ah.nextFragIndex + 1) k) _
    rcases em (k = h) with rfl | hkh
    · rw [hnone, Function.update_self, hl.next]
      simp only [owned, if_pos, List.nil_append]
      refine ⟨rfl, Nat.succ_ne_zero _, ?_⟩
      rw [Function.update_self]
      rfl
    · rw [Function.update_of_ne hkh]
      simp only [owned, if_neg (Ne.symm hkh), List.append_nil]
      refine (hl.lists k hk).congr fun i hi => ?_
      obtain ⟨j, x, rfl, hx, -⟩ := mem_owned hi
      have := (List.getElem?_eq_some_iff.mp hx).1
      rw [Function.update_of_ne (by rw [hl.next]; omega)]

/-- Another fragment for a token. -/
theorem more (hl : Layout ah log) {h m : ℕ} {is : List ℕ} (hsome : owned h 0 log = is ++ [m]) :
    Layout (ah.openFragment.link m (ah.nextFragIndex + 1)) (log ++ [⟨h, []⟩]) := by
  have hlt : ∀ {k i : ℕ}, i ∈ owned k 0 log → i ≠ ah.nextFragIndex + 1 := by
    intro k i hi
    obtain ⟨j, x, rfl, hx, -⟩ := mem_owned hi
    have := (List.getElem?_eq_some_iff.mp hx).1
    rw [hl.next]
    omega
  have hm : m ∈ owned h 0 log := by
    rw [hsome]
    exact List.mem_append_right _ (List.mem_singleton.mpr rfl)
  have hfrags : ∀ i, i ≠ m → i ≠ ah.nextFragIndex + 1 →
      ((ah.openFragment.link m (ah.nextFragIndex + 1)).frags i).next = (ah.frags i).next := by
    intro i him hi
    rw [AllocatedHeaders.link_frags, AllocatedHeaders.openFragment_frags,
      Function.update_of_ne him, Function.update_of_ne hi]
  constructor
  · rw [List.length_append]
    exact congrArg (· + 1) hl.next
  · rw [bytesOf_append, bytesOf_singleton, List.append_nil]
    exact hl.data
  · refine hl.offset_open fun i => ?_
    rw [AllocatedHeaders.link_frags]
    rcases em (i = m) with rfl | him
    · rw [Function.update_self]
    · rw [Function.update_of_ne him]
  · intro k hk
    have hlist := hl.lists k hk
    rw [owned_append, Nat.zero_add]
    rcases em (k = h) with rfl | hkh
    · rw [hsome] at hlist ⊢
      simp only [owned, if_pos]
      rw [← hl.next]
      have hpair := owned_pairwise (h := k) log 0
      rw [hsome] at hpair
      refine hlist.concat (Nat.succ_ne_zero _) ?_ (fun i hi => hfrags i ?_ ?_) ?_
      · rw [AllocatedHeaders.link_frags, AllocatedHeaders.openFragment_frags,
          Function.update_of_ne (hlt hm).symm, Function.update_self]
      · exact Nat.ne_of_lt ((List.pairwise_append.mp hpair).2.2 i hi m
          (List.mem_singleton.mpr rfl))
      · exact hlt (by rw [hsome]; exact List.mem_append_left _ hi)
      · rw [AllocatedHeaders.link_frags, Function.update_self]
    · simp only [owned, if_neg (Ne.symm hkh), List.append_nil]
      refine hlist.congr fun i hi => (hfrags i ?_ (hlt hi)).symm
      rintro rfl
      obtain ⟨j, x, rfl, hx, hxk⟩ := mem_owned hi
      obtain ⟨j', y, hj, hy, hyh⟩ := mem_owned hm
      obtain rfl : j = j' := by omega
      rw [hx] at hy
      obtain rfl := Option.some.inj hy
      exact hkh (hxk.symm.trans hyh)

/-- The index of a token is given up. -/
theorem lose (hl : Layout ah log) (h : ℕ) {lost : ℕ} (hlost : tokenCount ≤ lost) :
    Layout (ah.setIndex h 0) (log.map (Stored.lose h lost)) where
  next := by
    rw [List.length_map]
    exact hl.next
  data := by
    rw [bytesOf_lose]
    exact hl.data
  offset i hi := by
    rw [List.length_map] at hi
    rw [← List.map_take, bytesOf_lose]
    exact hl.offset i hi
  lists k hk := by
    change Follows ah.frags (Function.update ah.fragIndex h 0 k) _
    rcases em (k = h) with rfl | hne
    · have hnone : owned k 0 (log.map (Stored.lose k lost)) = [] := by
        refine List.eq_nil_iff_forall_not_mem.mpr fun j hj => ?_
        obtain ⟨i, x, -, hx, htoken⟩ := mem_owned hj
        rw [List.getElem?_map, Option.map_eq_some_iff] at hx
        obtain ⟨y, -, rfl⟩ := hx
        exact ((y.lose_token_eq_iff hlost hk).mp htoken).2 rfl
      rw [Function.update_self, hnone]
      rfl
    · have howned : owned k 0 (log.map (Stored.lose h lost)) = owned k 0 log := by
        refine owned_congr 0 (fun i => ?_) (List.length_map _)
        rw [List.getElem?_map]
        rcases log[i]? with _ | x
        · rfl
        · simp [x.lose_token_eq_iff hlost hk, hne]
      rw [howned, Function.update_of_ne hne]
      exact hl.lists k hk

/-! ## Copies of headers -/

/-- The string in a fragment ends before the next one, if there is the byte zero in it. -/
theorem cString (hl : Layout ah log) {k : ℕ} {x : Stored} (hx : log[k]? = some x)
    (h0 : 0 ∈ x.bytes) :
    ah.cString (ah.frags (k + 1)).offset = some (x.bytes.takeWhile (· ≠ 0)) := by
  obtain ⟨hk, rfl⟩ := List.getElem?_eq_some_iff.mp hx
  have hdrop : ah.data.drop (ah.frags (k + 1)).offset =
      log[k].bytes ++ bytesOf (log.drop (k + 1)) := by
    have hsplit : ah.data =
        bytesOf (log.take k) ++ (log[k].bytes ++ bytesOf (log.drop (k + 1))) := by
      rw [hl.data, ← bytesOf_singleton log[k], ← bytesOf_append, ← bytesOf_append,
        List.singleton_append, ← List.drop_eq_getElem_cons hk, List.take_append_drop]
    rw [hl.offset k hk, hsplit, List.drop_left]
  rw [AllocatedHeaders.cString, hdrop, if_pos (List.mem_append_left _ h0)]
  congr 1
  obtain ⟨s, rest, hs, hrest⟩ : ∃ s rest, log[k].bytes = s ++ 0 :: rest ∧ 0 ∉ s := by
    obtain ⟨s, rest, hs, hrest⟩ := List.eq_append_cons_of_mem h0
    exact ⟨s, rest, hs, hrest⟩
  have hall : ∀ l, (s ++ 0 :: l).takeWhile (· ≠ 0) = s := by
    intro l
    rw [List.takeWhile_append_of_pos fun c hc => by
      simpa using fun hc0 : c = 0 => hrest (hc0 ▸ hc)]
    simp
  rw [hs, hall, List.append_assoc, List.cons_append, hall]

end Layout

/-- Writing strings no longer than their fragments stays in the place for these. -/
theorem copyFrags_frame {ah : AllocatedHeaders} : ∀ {is : List ℕ} {a : ℤ} {m : Mem},
    (∀ i ∈ is, ∃ s, ah.cString (ah.frags i).offset = some s ∧ s.length ≤ (ah.frags i).len) →
    ∃ m', ah.copyFrags is a m = some m' ∧
      ∀ j : ℤ, j < a ∨ a + (is.map fun i => (ah.frags i).len).sum < j → m' j = m j
  | [], _, m, _ => ⟨m, rfl, fun _ _ => rfl⟩
  | i :: is, a, m, h => by
    obtain ⟨s, hs, hlen⟩ := h i List.mem_cons_self
    obtain ⟨m', hm', hframe⟩ := @copyFrags_frame ah is (a + (ah.frags i).len)
      (store m a (s ++ [0])) fun j hj => h j (List.mem_cons_of_mem _ hj)
    refine ⟨m', by rw [AllocatedHeaders.copyFrags, hs]; exact hm', fun j hj => ?_⟩
    rw [List.map_cons, List.sum_cons, Nat.cast_add] at hj
    rw [hframe j (by omega)]
    rcases hj with hj | hj
    · exact store_of_lt hj
    · refine store_of_ge ?_
      rw [List.length_append, List.length_singleton]
      omega

/-- The strings are put together. -/
theorem copyFrags_text {ah : AllocatedHeaders} {v : ℕ → List UInt8} : ∀ {is : List ℕ} {a : ℤ}
    {m : Mem}, is ≠ [] →
    (∀ i ∈ is, ah.cString (ah.frags i).offset = some (v i) ∧ (v i).length = (ah.frags i).len) →
    ah.copyFrags is a m = some (store m a ((is.map v).flatten ++ [0]))
  | [], _, _, h, _ => absurd rfl h
  | i :: is, a, m, _, h => by
    obtain ⟨hs, hlen⟩ := h i List.mem_cons_self
    rw [AllocatedHeaders.copyFrags, hs, Option.bind_some, List.map_cons, List.flatten_cons]
    rcases em (is = []) with rfl | hne
    · simp [AllocatedHeaders.copyFrags]
    · rw [copyFrags_text hne fun j hj => h j (List.mem_cons_of_mem _ hj)]
      obtain ⟨c, cs, hcs⟩ := List.exists_cons_of_ne_nil
        (List.append_ne_nil_of_right_ne_nil (is.map v).flatten (List.cons_ne_nil (0 : UInt8) []))
      rw [List.append_assoc, hcs, ← hlen, store_over]

/-! ## The table -/

/-- Each fragment with its length is `good` behind those before it. -/
def Kept (good : List Stored → Stored → ℕ → Prop) (frags : ℕ → Fragment) (log : List Stored) :
    Prop :=
  ∀ pre x post, log = pre ++ x :: post → good pre x (frags (pre.length + 1)).len

/-- The table is that of `log`, and nothing is outside of its arrays. -/
structure Table (good : List Stored → Stored → ℕ → Prop) (ah : AllocatedHeaders)
    (log : List Stored) : Prop where
  layout : Layout ah log
  room : log.length < maxFrags
  data : ah.pos ≤ maxHeaderLen
  kept : Kept good ah.frags log

def Stored.push (x : Stored) (c : UInt8) : Stored := ⟨x.token, x.bytes ++ [c]⟩

section

variable {good : List Stored → Stored → ℕ → Prop}

namespace Kept

variable {f g : ℕ → Fragment} {log : List Stored} {x : Stored}

theorem nil : Kept good f [] := fun pre x post h => by simp at h

theorem concat_iff : Kept good f (log ++ [x]) ↔
    Kept good f log ∧ good log x (f (log.length + 1)).len := by
  constructor
  · intro h
    refine ⟨fun pre y post hlog => h pre y (post ++ [x]) ?_, h log x [] rfl⟩
    rw [hlog, List.append_assoc]
    rfl
  · rintro ⟨h, hx⟩ pre y post hlog
    rcases List.eq_nil_or_concat post with rfl | ⟨post', z, rfl⟩
    · obtain ⟨rfl, rfl⟩ : log = pre ∧ x = y := by simpa using List.append_inj' hlog rfl
      exact hx
    · have hlog : log ++ [x] = (pre ++ y :: post') ++ [z] := by simpa using hlog
      exact h pre y post' (List.append_inj' hlog rfl).1

theorem congr (h : Kept good f log) (hfg : ∀ i < log.length, (g (i + 1)).len = (f (i + 1)).len) :
    Kept good g log := fun pre x post hlog => by
  rw [hfg pre.length (by rw [hlog]; simp)]
  exact h pre x post hlog

/-- What is known of the fragment of one entry of the log. -/
theorem getElem {k : ℕ} (h : Kept good f log) (hx : log[k]? = some x) :
    good (log.take k) x (f (k + 1)).len := by
  obtain ⟨hk, rfl⟩ := List.getElem?_eq_some_iff.mp hx
  have hgood := h (log.take k) log[k] (log.drop (k + 1)) (by simp)
  rwa [List.length_take, Nat.min_eq_left hk.le] at hgood

end Kept

namespace Table

variable {ah : AllocatedHeaders} {log : List Stored} {x : Stored}

theorem init (frags : ℕ → Fragment) :
    Table good (AllocatedHeaders.lwsAllocateHeaderTable frags) [] :=
  ⟨Layout.init frags, by decide, Nat.zero_le _, Kept.nil⟩

theorem next (ht : Table good ah (log ++ [x])) : ah.nextFragIndex = log.length + 1 := by
  rw [ht.layout.next, List.length_append]
  rfl

/-- What is known of the fragment that is written to. -/
theorem last (ht : Table good ah (log ++ [x])) : good log x ah.len := by
  rw [AllocatedHeaders.len, ht.next]
  exact (Kept.concat_iff.mp ht.kept).2

/-- The last fragment is written to. -/
theorem setLast (ht : Table good ah (log ++ [x])) {ah' : AllocatedHeaders} {bytes : List UInt8}
    (hnext : ah'.nextFragIndex = ah.nextFragIndex) (hindex : ah'.fragIndex = ah.fragIndex)
    (hoff : ∀ i, (ah'.frags i).offset = (ah.frags i).offset)
    (hlink : ∀ i, (ah'.frags i).next = (ah.frags i).next)
    (hlen : ∀ i, i ≠ ah.nextFragIndex → (ah'.frags i).len = (ah.frags i).len)
    (hdata : ah'.data = bytesOf log ++ bytes) (hpos : ah'.pos ≤ maxHeaderLen)
    (hgood : good log ⟨x.token, bytes⟩ ah'.len) : Table good ah' (log ++ [⟨x.token, bytes⟩]) where
  layout := ht.layout.setLast hnext hindex hoff hlink hdata
  room := by
    rw [List.length_append]
    simpa using ht.room
  data := hpos
  kept := by
    rw [Kept.concat_iff]
    refine ⟨(Kept.concat_iff.mp ht.kept).1.congr fun i hi => hlen _ ?_, ?_⟩
    · rw [ht.next]
      omega
    · rw [AllocatedHeaders.len, hnext, ht.next] at hgood
      exact hgood

theorem put (ht : Table good ah (log ++ [x])) (c : UInt8) (hpos : ah.pos < maxHeaderLen)
    (hgood : good log (x.push c) (if c = 0 then ah.len else ah.len + 1)) :
    Table good (ah.put c) (log ++ [x.push c]) := by
  have hdata : (ah.put c).data = bytesOf log ++ (x.bytes ++ [c]) := by
    rw [AllocatedHeaders.put, ht.layout.data, bytesOf_append, bytesOf_singleton, List.append_assoc]
  refine ht.setLast rfl rfl (ah.put_offset c) (ah.put_next c) (fun i hi => ah.put_len_of_ne c hi)
    hdata ?_ ?_
  · rw [AllocatedHeaders.pos, AllocatedHeaders.put, List.length_append]
    exact hpos
  · rw [ah.put_len c]
    exact hgood

/-- A fragment that is new. -/
theorem kept_open (ht : Table good ah log) {h : ℕ} (hgood : good log ⟨h, []⟩ 0) :
    Kept good ah.openFragment.frags (log ++ [⟨h, []⟩]) := by
  rw [Kept.concat_iff, AllocatedHeaders.openFragment_frags, ht.layout.next]
  refine ⟨ht.kept.congr fun i hi => ?_, ?_⟩
  · rw [Function.update_of_ne (by omega)]
  · rw [Function.update_self]
    exact hgood

/-- The first fragment for a token. -/
theorem first (ht : Table good ah log) (hroom : log.length + 1 < maxFrags) {h : ℕ}
    (hnone : owned h 0 log = []) (hgood : good log ⟨h, []⟩ 0) :
    Table good (ah.openFragment.setIndex h (ah.nextFragIndex + 1)) (log ++ [⟨h, []⟩]) where
  layout := ht.layout.first hnone
  room := by
    rw [List.length_append]
    exact hroom
  data := ht.data
  kept := ht.kept_open hgood

/-- Another fragment for a token. -/
theorem more (ht : Table good ah log) (hroom : log.length + 1 < maxFrags) {h m : ℕ} {is : List ℕ}
    (hsome : owned h 0 log = is ++ [m]) (hgood : good log ⟨h, []⟩ 0) :
    Table good (ah.openFragment.link m (ah.nextFragIndex + 1)) (log ++ [⟨h, []⟩]) where
  layout := ht.layout.more hsome
  room := by
    rw [List.length_append]
    exact hroom
  data := ht.data
  kept := (ht.kept_open hgood).congr fun i _ => by
    rw [AllocatedHeaders.link_frags]
    rcases em (i + 1 = m) with rfl | hi
    · rw [Function.update_self]
    · rw [Function.update_of_ne hi]

/-- The index of a token is given up. -/
theorem lose (ht : Table good ah log) (h : ℕ) {lost : ℕ} (hlost : tokenCount ≤ lost)
    (hgood : ∀ pre y len, good pre y len →
      good (pre.map (Stored.lose h lost)) (y.lose h lost) len) :
    Table good (ah.setIndex h 0) (log.map (Stored.lose h lost)) where
  layout := ht.layout.lose h hlost
  room := by
    rw [List.length_map]
    exact ht.room
  data := ht.data
  kept := fun pre y post hlog => by
    obtain ⟨pre', rest, hsplit, rfl, hrest⟩ := List.map_eq_append_iff.mp hlog
    obtain ⟨z, post', rfl, rfl, rfl⟩ := List.map_eq_cons_iff.mp hrest
    rw [List.length_map]
    exact hgood _ _ _ (ht.kept pre' z post' hsplit)

/-- A new fragment for a token, whether it has some already or not. -/
theorem replace (ht : Table good ah log) (hroom : log.length + 1 < maxFrags) {h lost : ℕ}
    (hh : h < tokenCount) (hlost : tokenCount ≤ lost)
    (hgood : ∀ pre y len, good pre y len →
      good (pre.map (Stored.lose h lost)) (y.lose h lost) len)
    (hnew : good (log.map (Stored.lose h lost)) ⟨h, []⟩ 0) :
    Table good (ah.openFragment.setIndex h (ah.nextFragIndex + 1))
      (log.map (Stored.lose h lost) ++ [⟨h, []⟩]) := by
  have hlose := ht.lose h hlost hgood
  have hnone : owned h 0 (log.map (Stored.lose h lost)) = [] :=
    (hlose.layout.fragIndex_eq_zero_iff hh).mp (by simp [AllocatedHeaders.setIndex])
  have hindex : (ah.setIndex h 0).openFragment.setIndex h (ah.nextFragIndex + 1) =
      ah.openFragment.setIndex h (ah.nextFragIndex + 1) := by
    simp [AllocatedHeaders.setIndex, AllocatedHeaders.openFragment, AllocatedHeaders.pos]
  rw [← hindex]
  exact hlose.first (by simpa using hroom) hnone hnew

/-- The arguments of a path begin. -/
theorem question (ht : Table good ah (log ++ [x])) (hpos : ah.pos < maxHeaderLen)
    (hroom : log.length + 2 < maxFrags) (hseal : good log (x.push 0) ah.len)
    (horphan : ∀ pre y len, good pre y len → good (pre.map Stored.orphan) y.orphan len)
    (hnew : good ((log ++ [x.push 0]).map Stored.orphan) ⟨tokenHttpUriArgs, []⟩ 0) :
    Table good ((ah.put 0).openFragment.setIndex tokenHttpUriArgs ((ah.put 0).nextFragIndex + 1))
      ((log ++ [x.push 0]).map Stored.orphan ++ [⟨tokenHttpUriArgs, []⟩]) := by
  have hput : Table good (ah.put 0) (log ++ [x.push 0]) := by
    refine ht.put 0 hpos ?_
    rw [if_pos rfl]
    exact hseal
  exact hput.replace (by simpa using hroom) (by decide) (Nat.le_refl _) horphan hnew

end Table

end

end Lws

end MySocket
