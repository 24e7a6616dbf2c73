import Mathlib.Data.List.Basic
import Mathlib.Logic.Function.Basic
import MySocket.SwapRemove
import MySocket.Trace

/-!
# The sockets that are polled

`fds` is the table `poll` is called with. `lws_lookup` has the connection of a socket, and
`position_in_fds_table` its place in the table. The first place is that of the dummy pipe, which
wakes `poll` and belongs to no connection.

* `always_seated` : in every run each open connection has a place of its own and each place but the
  first an open connection, and no removal reads outside the table or finds no connection there.
* `poll_refines` : the table with the events to poll for is a refinement of a map from the open
  connections to their events.
* `round_misses` : a round over the table services connections that are ready, in the order of the
  table and none twice, and misses at most one for each that is closed in it.
-/

set_option linter.unusedSectionVars false

namespace MySocket

namespace Lws

/-! ## The code -/

/-- `LWS_POLLIN` -/
def pollin : UInt16 := 1

/-- `LWS_POLLOUT` -/
def pollout : UInt16 := 4

/-- `struct libwebsocket_pollfd` -/
structure Pollfd where
  fd : ℕ
  events : UInt16
  revents : UInt16

/-- What `struct libwebsocket_context` has of the sockets. -/
structure PollTable (W : Type*) where
  maxFds : ℕ
  /-- The first `fds_count` entries. -/
  fds : List Pollfd
  lwsLookup : ℕ → Option W
  sock : W → ℕ
  position : W → ℤ

namespace PollTable

variable {W P : Type*} [DecidableEq W] [DecidableEq P]

/-- `insert_wsi_socket_into_fds` for a connection with the socket `s`. -/
def insertWsi (t : PollTable W) (w : W) (s : ℕ) : PollTable W × ℤ :=
  if t.maxFds ≤ t.fds.length then (t, 1)
  else if t.maxFds ≤ s then (t, 1)
  else
    ({ t with
        sock := Function.update t.sock w s
        lwsLookup := Function.update t.lwsLookup s (some w)
        position := Function.update t.position w t.fds.length
        fds := t.fds ++ [⟨s, pollin, 0⟩] }, 0)

/-- `remove_wsi_socket_from_fds`, `none` where it would read outside the table or at a null
pointer. -/
def removeWsi (t : PollTable W) (w : W) : Option (PollTable W × ℤ) :=
  t.fds.getLast?.bind fun last =>
    if t.fds.length = 1 then some ({ t with fds := [] }, 0)
    else if t.maxFds < t.sock w then some ({ t with fds := t.fds.dropLast }, 1)
    else if t.position w < 0 ∨ t.maxFds ≤ t.position w then none
    else
      (t.lwsLookup last.fd).map fun guy =>
        ({ t with
            fds := swapRemove t.fds (t.position w).toNat
            position :=
              Function.update (Function.update t.position guy (t.position w)) w (-1)
            lwsLookup := Function.update t.lwsLookup (t.sock w) none }, 0)

/-- `lws_change_pollfd` -/
def changePollfd (t : PollTable W) (w : W) (and or : UInt16) : PollTable W :=
  { t with
    fds := t.fds.modify (t.position w).toNat fun e => { e with events := (e.events &&& ~~~and) ||| or } }

/-- `libwebsocket_callback_on_writable` -/
def callbackOnWritable (t : PollTable W) (w : W) : PollTable W :=
  if t.position w < 0 then t else t.changePollfd w 0 pollout

/-- One turn of the loop below. -/
def writableAt (protocol : W → P) (p : P) (t : PollTable W) (n : ℕ) : PollTable W :=
  match t.fds[n]?.bind fun e => t.lwsLookup e.fd with
  | none => t
  | some w => if protocol w = p then t.callbackOnWritable w else t

/-- `libwebsocket_callback_on_writable_all_protocol` -/
def callbackOnWritableAllProtocol (protocol : W → P) (p : P) (t : PollTable W) : PollTable W :=
  (List.range t.fds.length).foldl (writableAt protocol p) t

/-- `pollfd->revents = 0` after a socket has been serviced, at the place it had. -/
def clearRevents (t : PollTable W) (n : ℕ) : PollTable W :=
  { t with fds := t.fds.modify n fun e => { e with revents := 0 } }

/-- The loop of `lws_plat_service` from place `n` on, with `libwebsocket_service_fd` for the sockets
of connections, and those that it services. `closes` are the connections that are closed then. The
round has no socket in it that accepts another one, and no time-out that closes another one. -/
def serviceFrom (closes : W → Bool) : ℕ → ℕ → PollTable W → Option (PollTable W × List W)
  | 0, _, t => some (t, [])
  | k + 1, n, t =>
    match t.fds[n]? with
    | none => some (t, [])
    | some e =>
      if e.revents = 0 then serviceFrom closes k (n + 1) t
      else
        match t.lwsLookup e.fd with
        -- the dummy pipe is read
        | none => serviceFrom closes k (n + 1) t
        | some w =>
          if closes w then
            -- the place is looked at again
            (t.removeWsi w).bind fun r =>
              (serviceFrom closes k n (r.1.clearRevents n)).map (Prod.map id (w :: ·))
          else (serviceFrom closes k (n + 1) (t.clearRevents n)).map (Prod.map id (w :: ·))

/-- A round over all places, of which none is looked at that has been removed. -/
def service (closes : W → Bool) (t : PollTable W) : Option (PollTable W × List W) :=
  serviceFrom closes t.fds.length 0 t

/-- What happens to the table. -/
inductive Event (W P : Type*)
  /-- A connection gets a socket. -/
  | insert (w : W) (s : ℕ)
  /-- An open connection is closed. -/
  | remove (w : W)
  | change (w : W) (and or : UInt16)
  | writableAll (p : P)
  /-- `poll` fills in `revents`. -/
  | poll (revents : ℕ → UInt16)

def step (protocol : W → P) (t : PollTable W) : Event W P → Option (PollTable W)
  -- the socket is one that the process has not got yet
  | .insert w s =>
    if t.position w = -1 ∧ s ∉ t.fds.map Pollfd.fd then some (t.insertWsi w s).1 else none
  | .remove w => if t.position w = -1 then none else (t.removeWsi w).map Prod.fst
  | .change w and or => if t.position w = -1 then none else some (t.changePollfd w and or)
  | .writableAll p => some (t.callbackOnWritableAllProtocol protocol p)
  | .poll revents => some { t with fds := t.fds.map fun e => { e with revents := revents e.fd } }

/-- The table after `lws_plat_init`, with the dummy pipe. -/
def init (maxFds dummy : ℕ) : PollTable W :=
  ⟨maxFds, [⟨dummy, pollin, 0⟩], fun _ => none, fun _ => 0, fun _ => -1⟩

/-! ## Places -/

/-- Each open connection has a place and each place but the first an open connection. -/
structure Seated (t : PollTable W) : Prop where
  dummy : ∃ e, t.fds[0]? = some e ∧ t.lwsLookup e.fd = none
  slot : ∀ (i : ℕ) e, t.fds[i + 1]? = some e →
    ∃ w, t.lwsLookup e.fd = some w ∧ t.position w = i + 1 ∧ t.sock w = e.fd
  seat : ∀ w, t.position w = -1 ∨ t.lwsLookup (t.sock w) = some w ∧
    ∃ (i : ℕ) (e : Pollfd), t.fds[i + 1]? = some e ∧ t.position w = i + 1 ∧ e.fd = t.sock w
  lookup : ∀ s w, t.lwsLookup s = some w → t.sock w = s ∧ t.position w ≠ -1
  room : t.fds.length ≤ t.maxFds
  low : ∀ w, t.position w ≠ -1 → t.sock w < t.maxFds

variable {t t' : PollTable W} {w : W} {protocol : W → P}

theorem seated_init {maxFds : ℕ} (h : 0 < maxFds) (dummy : ℕ) :
    (init maxFds dummy : PollTable W).Seated where
  dummy := ⟨_, rfl, rfl⟩
  slot i e h := by simp [init] at h
  seat _ := Or.inl rfl
  lookup _ _ h := by simp [init] at h
  room := h
  low _ h := absurd rfl h

theorem Seated.insertWsi (ht : t.Seated) {s : ℕ} (hw : t.position w = -1)
    (hs : s ∉ t.fds.map Pollfd.fd) : (t.insertWsi w s).1.Seated := by
  rw [PollTable.insertWsi]
  split_ifs with hfull hhigh
  · exact ht
  · exact ht
  have hfresh : ∀ {i : ℕ} {e : Pollfd}, t.fds[i]? = some e → e.fd ≠ s := fun he h =>
    hs (List.mem_map.mpr ⟨_, List.mem_of_getElem? he, h⟩)
  obtain ⟨d, hd, hnone⟩ := ht.dummy
  have hlen : 0 < t.fds.length := (List.getElem?_eq_some_iff.mp hd).1
  refine ⟨⟨d, ?_, ?_⟩, fun i e he => ?_, fun v => ?_, fun r v hv => ?_, ?_, fun v hv => ?_⟩
  · exact (List.getElem?_append_left hlen).trans hd
  · exact (Function.update_of_ne (hfresh hd) _ _).trans hnone
  · simp only [List.getElem?_append] at he
    split_ifs at he with hi
    · obtain ⟨v, hlookup, hposition, hsock⟩ := ht.slot i e he
      have hvw : v ≠ w := fun h => by
        rw [h, hw] at hposition
        omega
      exact ⟨v, (Function.update_of_ne (hfresh he) _ _).trans hlookup,
        (Function.update_of_ne hvw _ _).trans hposition,
        (Function.update_of_ne hvw _ _).trans hsock⟩
    · obtain ⟨hlt, rfl⟩ := List.getElem?_eq_some_iff.mp he
      have hi : t.fds.length = i + 1 := by
        simp only [List.length_singleton] at hlt
        omega
      refine ⟨w, ?_, ?_, ?_⟩
      · simp
      · simp [hi]
      · simp
  · rcases em (v = w) with rfl | hvw
    · refine Or.inr ⟨?_, t.fds.length - 1, ⟨s, pollin, 0⟩, ?_, ?_, ?_⟩
      · simp
      · simp [Nat.sub_add_cancel hlen]
      · simp only [Function.update_self]
        omega
      · simp
    · refine (ht.seat v).imp (Function.update_of_ne hvw _ _).trans
        fun ⟨hlookup, i, e, he, hposition, hsock⟩ => ⟨?_, i, e, ?_, ?_, ?_⟩
      · simp only [Function.update_of_ne hvw]
        exact (Function.update_of_ne (hsock ▸ hfresh he) _ _).trans hlookup
      · exact (List.getElem?_append_left (List.getElem?_eq_some_iff.mp he).1).trans he
      · exact (Function.update_of_ne hvw _ _).trans hposition
      · exact hsock.trans (Function.update_of_ne hvw _ _).symm
  · rcases em (r = s) with rfl | hrs
    · obtain rfl : w = v := by simpa using hv
      simp only [Function.update_self, true_and]
      omega
    · obtain ⟨hsock, hopen⟩ := ht.lookup r v ((Function.update_of_ne hrs _ _).symm.trans hv)
      have hvw : v ≠ w := fun h => hopen (h ▸ hw)
      exact ⟨(Function.update_of_ne hvw _ _).trans hsock,
        fun h => hopen ((Function.update_of_ne hvw _ _).symm.trans h)⟩
  · simpa using Nat.succ_le_of_lt (not_le.mp hfull)
  · rcases em (v = w) with rfl | hvw
    · simpa using hhigh
    · simp only [Function.update_of_ne hvw] at hv ⊢
      exact ht.low v hv

/-- A place is that of one connection. -/
theorem Seated.position_inj (ht : t.Seated) {v : W} {k : ℕ} (hv : t.position v = k + 1)
    (hw : t.position w = k + 1) : v = w := by
  obtain ⟨hvlookup, i, e, he, hi, hesock⟩ := (ht.seat v).resolve_left (by omega)
  obtain ⟨hwlookup, j, e', he', hj, he'sock⟩ := (ht.seat w).resolve_left (by omega)
  obtain rfl : i = j := by omega
  obtain rfl := Option.some.inj (he.symm.trans he')
  rw [← hesock] at hvlookup
  rw [← he'sock, hvlookup] at hwlookup
  exact Option.some.inj hwlookup

/-- What the removal of an open connection comes to. -/
theorem Seated.removeWsi_eq (ht : t.Seated) (hw : t.position w ≠ -1) :
    ∃ (i j : ℕ) (last : Pollfd) (guy : W), t.position w = i + 1 ∧ i + 1 < t.fds.length ∧
      t.fds.getLast? = some last ∧ t.fds.length = j + 2 ∧ t.fds[j + 1]? = some last ∧
      t.lwsLookup last.fd = some guy ∧ t.position guy = j + 1 ∧ t.sock guy = last.fd ∧
      t.removeWsi w = some ({ t with
        fds := swapRemove t.fds (i + 1)
        position := Function.update (Function.update t.position guy (i + 1)) w (-1)
        lwsLookup := Function.update t.lwsLookup (t.sock w) none }, 0) := by
  obtain ⟨-, i, e, he, hposition, -⟩ := (ht.seat w).resolve_left hw
  have hi := (List.getElem?_eq_some_iff.mp he).1
  obtain ⟨j, hj⟩ : ∃ j, t.fds.length = j + 2 := ⟨t.fds.length - 2, by omega⟩
  have hlast : t.fds.getLast? = t.fds[j + 1]? := by
    rw [List.getLast?_eq_getElem?, hj]
    rfl
  obtain ⟨last, hentry⟩ : ∃ last, t.fds[j + 1]? = some last :=
    ⟨_, List.getElem?_eq_getElem (by omega)⟩
  obtain ⟨guy, hlookup, hguy, hsock⟩ := ht.slot j last hentry
  refine ⟨i, j, last, guy, hposition, hi, hlast.trans hentry, hj, hentry, hlookup, hguy, hsock, ?_⟩
  have hroom := ht.room
  rw [removeWsi, hlast, hentry, Option.bind_some, if_neg (by omega),
    if_neg (not_lt.mpr (ht.low w hw).le), if_neg (by omega), hlookup, Option.map_some, hposition]
  rfl

theorem Seated.removeWsi (ht : t.Seated) (hw : t.position w ≠ -1) {r : PollTable W × ℤ}
    (h : t.removeWsi w = some r) : r.1.Seated := by
  obtain ⟨i, j, last, guy, hposition, hi, hlast, hj, hentry, hlookup, hguy, hsock, hremove⟩ :=
    ht.removeWsi_eq hw
  obtain rfl := Option.some.inj (h.symm.trans hremove)
  have hwsock : t.lwsLookup (t.sock w) = some w := ((ht.seat w).resolve_left hw).1
  -- a connection that is looked up with another socket is another one
  have hother : ∀ {s : ℕ} {v : W}, t.lwsLookup s = some v → v ≠ w → s ≠ t.sock w :=
    fun hv hne h => hne (Option.some.inj ((h ▸ hv).symm.trans hwsock))
  have hplace : ∀ k, (swapRemove t.fds (i + 1))[k + 1]? =
      if k + 2 < t.fds.length then if i = k then some last else t.fds[k + 1]? else none :=
    fun k => by simp [getElem?_swapRemove hlast]
  obtain ⟨d, hd, hnone⟩ := ht.dummy
  refine ⟨⟨d, ?_, ?_⟩, fun k e he => ?_, fun v => ?_, fun s v hv => ?_, ?_, fun v hv => ?_⟩
  · simp only [getElem?_swapRemove hlast]
    rw [if_pos (by omega), if_neg (by omega), hd]
  · simp only [Function.update_apply]
    split_ifs
    · rfl
    · exact hnone
  · simp only [hplace] at he
    split_ifs at he with hk hik
    · obtain rfl := Option.some.inj he
      have hne : guy ≠ w := fun h => by
        rw [h] at hguy
        omega
      refine ⟨guy, (Function.update_of_ne (hother hlookup hne) _ _).trans hlookup, ?_, hsock⟩
      simp [Function.update_of_ne hne, hik]
    · obtain ⟨v, hv, hvposition, hvsock⟩ := ht.slot k e he
      have hvw : v ≠ w := fun h => by
        rw [h] at hvposition
        omega
      have hvguy : v ≠ guy := fun h => by
        rw [h] at hvposition
        omega
      refine ⟨v, (Function.update_of_ne (hother hv hvw) _ _).trans hv, ?_, hvsock⟩
      simp [Function.update_of_ne hvw, Function.update_of_ne hvguy, hvposition]
  · rcases em (v = w) with rfl | hvw
    · exact Or.inl (Function.update_self _ _ _)
    rcases em (v = guy) with rfl | hvguy
    · rw [← hsock] at hlookup
      refine Or.inr ⟨(Function.update_of_ne (hother hlookup hvw) _ _).trans hlookup, i, last, ?_, ?_,
        hsock.symm⟩
      · have hne : i ≠ j := fun h => hvw (ht.position_inj hguy (h ▸ hposition))
        rw [hplace, if_pos (by omega), if_pos rfl]
      · simp [Function.update_of_ne hvw]
    · refine (ht.seat v).imp (fun h => ?_) fun ⟨hv, k, e, he, hvposition, hvsock⟩ =>
        ⟨(Function.update_of_ne (hother hv hvw) _ _).trans hv, k, e, ?_, ?_, hvsock⟩
      · simp [Function.update_of_ne hvw, Function.update_of_ne hvguy, h]
      · have hklt := (List.getElem?_eq_some_iff.mp he).1
        have hkj : k ≠ j := fun h => hvguy (ht.position_inj (h ▸ hvposition) hguy)
        have hki : i ≠ k := fun h => hvw (ht.position_inj hvposition (h ▸ hposition))
        rw [hplace, if_pos (by omega), if_neg hki]
        exact he
      · simp [Function.update_of_ne hvw, Function.update_of_ne hvguy, hvposition]
  · simp only [Function.update_apply] at hv
    split_ifs at hv with hs
    obtain ⟨hvsock, hopen⟩ := ht.lookup s v hv
    have hvw : v ≠ w := fun h => hs (h ▸ hvsock).symm
    refine ⟨hvsock, ?_⟩
    simp only [Function.update_apply, if_neg hvw]
    split_ifs
    · omega
    · exact hopen
  · simp only [length_swapRemove]
    exact (Nat.sub_le _ _).trans ht.room
  · refine ht.low v fun h => hv ?_
    simp only [Function.update_apply]
    split_ifs with hvw hvguy
    · rfl
    · rw [hvguy, hguy] at h
      omega
    · exact h

/-! ## The events to poll for -/

/-- The events an open connection is polled for. -/
def eventsOf (t : PollTable W) (w : W) : Option UInt16 :=
  if t.position w < 0 then none else t.fds[(t.position w).toNat]?.map Pollfd.events

/-- The open connections with the events they are polled for, and how many sockets are polled. -/
structure Polled (W : Type*) where
  events : W → Option UInt16
  count : ℕ

def polled (t : PollTable W) : Polled W :=
  ⟨t.eventsOf, t.fds.length⟩

/-- What each event should do. -/
def Polled.next (protocol : W → P) (maxFds : ℕ) (a : Polled W) : Event W P → Polled W
  | .insert w s =>
    if a.count < maxFds ∧ s < maxFds then
      ⟨Function.update a.events w (some Lws.pollin), a.count + 1⟩
    else a
  | .remove w => ⟨Function.update a.events w none, a.count - 1⟩
  | .change w and or =>
    ⟨Function.update a.events w ((a.events w).map fun e => (e &&& ~~~and) ||| or), a.count⟩
  | .writableAll p =>
    ⟨fun w => if protocol w = p then (a.events w).map (· ||| Lws.pollout) else a.events w, a.count⟩
  | .poll _ => a

theorem eventsOf_of_seat {i : ℕ} (h : t.position w = i + 1) :
    t.eventsOf w = t.fds[i + 1]?.map Pollfd.events := by
  rw [eventsOf, if_neg (by omega), h]
  rfl

theorem eventsOf_of_closed (h : t.position w = -1) : t.eventsOf w = none := by
  rw [eventsOf, if_pos (by omega)]

/-- A change that leaves the sockets where they are leaves the connections there. -/
theorem Seated.modify (ht : t.Seated) {fds : List Pollfd}
    (h : fds.map Pollfd.fd = t.fds.map Pollfd.fd) : Seated { t with fds := fds } := by
  have hlen : fds.length = t.fds.length := by simpa using congrArg List.length h
  have hfd : ∀ i : ℕ, fds[i]?.map Pollfd.fd = t.fds[i]?.map Pollfd.fd := fun i => by
    rw [← List.getElem?_map, h, List.getElem?_map]
  have hto : ∀ {i : ℕ} {e : Pollfd}, t.fds[i]? = some e → ∃ e', fds[i]? = some e' ∧ e'.fd = e.fd :=
    fun {i e} he => by
      have := hfd i
      rw [he, Option.map_some, Option.map_eq_some_iff] at this
      exact this
  have hfrom : ∀ {i : ℕ} {e : Pollfd}, fds[i]? = some e →
      ∃ e', t.fds[i]? = some e' ∧ e'.fd = e.fd := fun {i e} he => by
    have := (hfd i).symm
    rw [he, Option.map_some, Option.map_eq_some_iff] at this
    exact this
  obtain ⟨d, hd, hnone⟩ := ht.dummy
  obtain ⟨d', hd', hsame⟩ := hto hd
  refine ⟨⟨d', hd', hsame ▸ hnone⟩, fun i e he => ?_, fun w => ?_, ht.lookup, hlen ▸ ht.room, ht.low⟩
  · obtain ⟨e', he', hsame⟩ := hfrom he
    exact hsame ▸ ht.slot i e' he'
  · refine (ht.seat w).imp_right fun ⟨hlookup, i, e, he, hposition, hsock⟩ => ?_
    obtain ⟨e', he', hsame⟩ := hto he
    exact ⟨hlookup, i, e', he', hposition, hsame.trans hsock⟩

theorem map_fd_changePollfd (t : PollTable W) (w : W) (and or : UInt16) :
    (t.changePollfd w and or).fds.map Pollfd.fd = t.fds.map Pollfd.fd := by
  refine List.ext_getElem? fun i => ?_
  simp only [changePollfd, List.getElem?_map, List.getElem?_modify]
  rcases t.fds[i]? with _ | e
  · rfl
  · simp only [Option.map_some]
    split_ifs <;> rfl

theorem Seated.changePollfd (ht : t.Seated) (w : W) (and or : UInt16) :
    (t.changePollfd w and or).Seated :=
  ht.modify (map_fd_changePollfd t w and or)

theorem Seated.eventsOf_changePollfd (ht : t.Seated) (hw : t.position w ≠ -1) (and or : UInt16) :
    (t.changePollfd w and or).eventsOf =
      Function.update t.eventsOf w ((t.eventsOf w).map fun e => (e &&& ~~~and) ||| or) := by
  obtain ⟨-, i, -, -, hposition, -⟩ := (ht.seat w).resolve_left hw
  have hi : (t.position w).toNat = i + 1 := by omega
  -- nobody moves
  have hsame : ∀ v, (t.changePollfd w and or).position v = t.position v := fun _ => rfl
  funext v
  rcases em (v = w) with rfl | hvw
  · rw [Function.update_self, eventsOf_of_seat hposition,
      eventsOf_of_seat ((hsame v).trans hposition)]
    simp [PollTable.changePollfd, hi, Function.comp_def]
  · rw [Function.update_of_ne hvw]
    rcases ht.seat v with hv | ⟨-, j, -, -, hv, -⟩
    · rw [eventsOf_of_closed hv, eventsOf_of_closed ((hsame v).trans hv)]
    · have hij : i ≠ j := fun h => hvw (ht.position_inj hv (h ▸ hposition))
      rw [eventsOf_of_seat hv, eventsOf_of_seat ((hsame v).trans hv)]
      simp [PollTable.changePollfd, hi, hij]

theorem Seated.eventsOf_removeWsi (ht : t.Seated) (hw : t.position w ≠ -1) {r : PollTable W × ℤ}
    (h : t.removeWsi w = some r) :
    r.1.eventsOf = Function.update t.eventsOf w none ∧ r.1.fds.length = t.fds.length - 1 := by
  obtain ⟨i, j, last, guy, hposition, hi, hlast, hj, hentry, hlookup, hguy, hsock, hremove⟩ :=
    ht.removeWsi_eq hw
  obtain rfl := Option.some.inj (h.symm.trans hremove)
  refine ⟨funext fun v => ?_, length_swapRemove _ _⟩
  rcases em (v = w) with rfl | hvw
  · simp [eventsOf]
  rw [Function.update_of_ne hvw]
  rcases em (v = guy) with rfl | hvguy
  · have hij : i ≠ j := fun h => hvw (ht.position_inj hguy (h ▸ hposition))
    rw [eventsOf_of_seat hguy, hentry, eventsOf_of_seat (i := i) (by simp [Function.update_of_ne hvw]),
      getElem?_swapRemove hlast, if_pos (by omega), if_pos rfl]
  · rcases ht.seat v with hv | ⟨-, k, e, he, hv, -⟩
    · rw [eventsOf_of_closed hv, eventsOf_of_closed]
      simp [Function.update_of_ne hvw, Function.update_of_ne hvguy, hv]
    · have hkj : k ≠ j := fun h => hvguy (ht.position_inj (h ▸ hv) hguy)
      have hki : i ≠ k := fun h => hvw (ht.position_inj hv (h ▸ hposition))
      have hk := (List.getElem?_eq_some_iff.mp he).1
      rw [eventsOf_of_seat hv, eventsOf_of_seat (i := k)
        (by simp [Function.update_of_ne hvw, Function.update_of_ne hvguy, hv]),
        getElem?_swapRemove hlast, if_pos (by omega), if_neg (by omega)]

theorem Seated.polled_insertWsi (ht : t.Seated) {s : ℕ} (hw : t.position w = -1) :
    (t.insertWsi w s).1.polled = t.polled.next protocol t.maxFds (.insert w s) := by
  rw [PollTable.insertWsi, Polled.next]
  rcases em (t.maxFds ≤ t.fds.length) with hfull | hfull
  · rw [if_pos hfull, if_neg fun h => absurd h.1 (not_lt.mpr hfull)]
  rw [if_neg hfull]
  rcases em (t.maxFds ≤ s) with hhigh | hhigh
  · rw [if_pos hhigh, if_neg fun h => absurd h.2 (not_lt.mpr hhigh)]
  rw [if_neg hhigh, if_pos ⟨not_le.mp hfull, not_le.mp hhigh⟩]
  obtain ⟨d, hd, -⟩ := ht.dummy
  have hlen : 0 < t.fds.length := (List.getElem?_eq_some_iff.mp hd).1
  simp only [polled, List.length_append, List.length_singleton, Polled.mk.injEq, and_true]
  funext v
  rcases em (v = w) with rfl | hvw
  · rw [Function.update_self, eventsOf_of_seat (i := t.fds.length - 1)]
    · simp [Nat.sub_add_cancel hlen]
    · simp only [Function.update_self]
      omega
  · rw [Function.update_of_ne hvw]
    rcases ht.seat v with hv | ⟨-, j, e, he, hv, -⟩
    · rw [eventsOf_of_closed hv, eventsOf_of_closed]
      exact (Function.update_of_ne hvw _ _).trans hv
    · rw [eventsOf_of_seat hv, eventsOf_of_seat (i := j)]
      · simp [List.getElem?_append_left (List.getElem?_eq_some_iff.mp he).1]
      · exact (Function.update_of_ne hvw _ _).trans hv

theorem Seated.position_lt (ht : t.Seated) (w : W) : t.position w < t.fds.length := by
  rcases ht.seat w with hw | ⟨-, i, e, he, hw, -⟩
  · omega
  · have := (List.getElem?_eq_some_iff.mp he).1
    omega

/-- What the loop has done before place `n`. -/
structure AllBefore (protocol : W → P) (p : P) (t : PollTable W) (n : ℕ) (u : PollTable W) :
    Prop where
  seated : u.Seated
  maxFds : u.maxFds = t.maxFds
  position : u.position = t.position
  length : u.fds.length = t.fds.length
  events : ∀ w, u.eventsOf w = if protocol w = p ∧ t.position w < n then
    (t.eventsOf w).map (· ||| Lws.pollout) else t.eventsOf w

theorem allBefore_zero (ht : t.Seated) (p : P) : AllBefore protocol p t 0 t where
  seated := ht
  maxFds := rfl
  position := rfl
  length := rfl
  events w := by
    split_ifs with h
    · rw [eventsOf, if_pos (by simpa using h.2)]
      rfl
    · rfl

theorem AllBefore.succ {p : P} {n : ℕ} {u : PollTable W} (hu : AllBefore protocol p t n u)
    (hn : n < t.fds.length) : AllBefore protocol p t (n + 1) (writableAt protocol p u n) := by
  obtain ⟨hseated, hmax, hposition, hlength, hevents⟩ := hu
  obtain ⟨d, hd, hnone⟩ := hseated.dummy
  -- what is left when place `n` is that of nobody to be called back
  have hskip : (∀ w, t.position w = n → protocol w ≠ p) → AllBefore protocol p t (n + 1) u :=
    fun hno => ⟨hseated, hmax, hposition, hlength, fun w => by
      rw [hevents]
      refine if_congr (and_congr_right fun hw => ?_) rfl rfl
      have : t.position w ≠ n := fun h => hno w h hw
      push_cast
      omega⟩
  rcases n with _ | n
  · have hsame : writableAt protocol p u 0 = u := by
      rw [writableAt, hd, Option.bind_some, hnone]
    rw [hsame]
    refine hskip fun w hw => ?_
    rcases hseated.seat w with h | ⟨-, i, -, -, h, -⟩ <;> rw [hposition] at h <;> omega
  · obtain ⟨e, he⟩ : ∃ e, u.fds[n + 1]? = some e := ⟨_, List.getElem?_eq_getElem (by omega)⟩
    obtain ⟨w, hlookup, hw, -⟩ := hseated.slot n e he
    rcases em (protocol w = p) with hp | hp
    · have hcall : writableAt protocol p u (n + 1) = u.changePollfd w 0 Lws.pollout := by
        rw [writableAt, he, Option.bind_some, hlookup]
        simp only [if_pos hp, callbackOnWritable]
        rw [if_neg (by omega)]
      rw [hcall]
      refine ⟨hseated.changePollfd w _ _, hmax, hposition, ?_, fun v => ?_⟩
      · simp [PollTable.changePollfd, hlength]
      rw [hseated.eventsOf_changePollfd (by omega)]
      rcases em (v = w) with rfl | hvw
      · rw [Function.update_self, hevents, if_neg (by rw [← hposition]; omega), if_pos]
        · simp
        · rw [← hposition, hw]
          exact ⟨hp, by push_cast; omega⟩
      · rw [Function.update_of_ne hvw, hevents]
        refine if_congr (and_congr_right fun _ => ?_) rfl rfl
        have : t.position v ≠ n + 1 := fun h =>
          hvw (hseated.position_inj (hposition ▸ h) hw)
        push_cast
        omega
    · have hsame : writableAt protocol p u (n + 1) = u := by
        rw [writableAt, he, Option.bind_some, hlookup]
        simp only [if_neg hp]
      rw [hsame]
      exact hskip fun v hv => hseated.position_inj (hposition ▸ hv) hw ▸ hp

theorem allBefore_range (ht : t.Seated) (p : P) : ∀ n ≤ t.fds.length,
    AllBefore protocol p t n ((List.range n).foldl (writableAt protocol p) t)
  | 0, _ => allBefore_zero ht p
  | n + 1, hn => by
    rw [List.range_succ, List.foldl_append]
    exact (allBefore_range ht p n (Nat.le_of_lt hn)).succ hn

/-- Every step keeps the places, and does to the events what it should. -/
theorem Seated.step (ht : t.Seated) {e : Event W P} (h : PollTable.step protocol t e = some t') :
    t'.Seated ∧ t'.maxFds = t.maxFds ∧ t'.polled = t.polled.next protocol t.maxFds e := by
  rcases e with ⟨w, s⟩ | w | ⟨w, and, or⟩ | p | revents <;> rw [PollTable.step] at h
  · split_ifs at h with hfree
    obtain rfl := Option.some.inj h
    refine ⟨ht.insertWsi hfree.1 hfree.2, ?_, ht.polled_insertWsi hfree.1⟩
    rw [PollTable.insertWsi]
    split_ifs <;> rfl
  · split_ifs at h with hopen
    obtain ⟨r, hr, rfl⟩ := Option.map_eq_some_iff.mp h
    obtain ⟨hevents, hlength⟩ := ht.eventsOf_removeWsi hopen hr
    refine ⟨ht.removeWsi hopen hr, ?_, ?_⟩
    · obtain ⟨i, j, last, guy, -, -, -, -, -, -, -, -, hremove⟩ := ht.removeWsi_eq hopen
      rw [Option.some.inj (hr.symm.trans hremove)]
    · rw [polled, hevents, hlength]
      rfl
  · split_ifs at h with hopen
    obtain rfl := Option.some.inj h
    refine ⟨ht.changePollfd w and or, rfl, ?_⟩
    rw [polled, ht.eventsOf_changePollfd hopen]
    simp [PollTable.changePollfd, Polled.next, polled]
  · obtain rfl := Option.some.inj h
    have hall := @allBefore_range _ _ _ _ t protocol ht p _ le_rfl
    refine ⟨hall.seated, hall.maxFds, ?_⟩
    rw [polled, polled, Polled.next, callbackOnWritableAllProtocol, hall.length]
    congr 1
    funext w
    rw [hall.events]
    exact if_congr (and_iff_left (ht.position_lt w)) rfl rfl
  · obtain rfl := Option.some.inj h
    refine ⟨ht.modify (by simp), rfl, ?_⟩
    rw [polled, Polled.next, polled, List.length_map]
    congr 1
    funext w
    simp [eventsOf, Function.comp_def]

/-! ## Runs -/

theorem seated_run {maxFds dummy : ℕ} (h : 0 < maxFds) {es : List (Event W P)}
    (hrun : run (PollTable.step protocol) (init maxFds dummy) es = some t) : t.Seated :=
  (always_of_step (fun _ _ _ hs hstep => (hs.step hstep).1) (seated_init h dummy) es).last hrun

/-- In every run each open connection has a place of its own, each place but the first an open
connection, and each open connection can be removed. -/
theorem always_seated {maxFds : ℕ} (h : 0 < maxFds) (dummy : ℕ) (es : List (Event W P)) :
    Always (PollTable.step protocol)
      (fun t => t.Seated ∧ ∀ w, t.position w ≠ -1 → ∃ t', t.removeWsi w = some (t', 0))
      (init maxFds dummy) es := by
  refine Always.mono (fun t (ht : t.Seated) => ⟨ht, fun w hw => ?_⟩)
    (always_of_step (fun _ _ _ hs hstep => (hs.step hstep).1) (seated_init h dummy) es)
  obtain ⟨i, j, last, guy, -, -, -, -, -, -, -, -, hremove⟩ := ht.removeWsi_eq hw
  exact ⟨_, hremove⟩

theorem always_seated_two : Always (PollTable.step fun w : ℕ => w)
    (fun t => t.Seated ∧ ∀ w, t.position w ≠ -1 → ∃ t', t.removeWsi w = some (t', 0))
    (init 8 3) [.insert 0 5, .insert 1 6, .remove 0] :=
  always_seated (by decide) 3 _

/-- A run of the table is one of the map from the open connections to the events they are polled
for. -/
theorem poll_refines {maxFds dummy : ℕ} (h : 0 < maxFds) {es : List (Event W P)}
    (hrun : run (PollTable.step protocol) (init maxFds dummy) es = some t) :
    Moves (fun a e b => b = Polled.next protocol maxFds a e) ⟨fun _ => none, 1⟩ es t.polled := by
  have hinit : (init maxFds dummy : PollTable W).polled = ⟨fun _ => none, 1⟩ := rfl
  rw [← hinit]
  refine Steps.simulates (steps_of_invariant
    (I := fun t => t.Seated ∧ t.maxFds = maxFds) (fun s e s' hs hstep => ?_)
    (fun s e s' hs hstep => ?_) ⟨seated_init h dummy, rfl⟩ es) hrun
  · exact ⟨(hs.1.step hstep).1, (hs.1.step hstep).2.1.trans hs.2⟩
  · exact hs.2 ▸ (hs.1.step hstep).2.2

theorem poll_refines_two : ∃ t : PollTable (ℕ),
    run (PollTable.step fun w : ℕ => w) (init 8 3) [.insert 0 5, .insert 1 6, .remove 0] = some t ∧
      Moves (fun a e b => b = Polled.next (fun w : ℕ => w) 8 a e) ⟨fun _ => none, 1⟩
        [.insert 0 5, .insert 1 6, .remove 0] t.polled := by
  have hsome : (run (PollTable.step fun w : ℕ => w) (init 8 3)
      [.insert 0 5, .insert 1 6, .remove 0]).isSome = true := by decide +kernel
  obtain ⟨t, ht⟩ := Option.isSome_iff_exists.mp hsome
  exact ⟨t, ht, poll_refines (by decide) ht⟩

/-! ## A round -/

/-- The connections from place `n` on that `poll` has found ready. -/
def readyFrom (t : PollTable W) (n : ℕ) : List W :=
  (t.fds.drop n).filterMap fun e => if e.revents = 0 then none else t.lwsLookup e.fd

theorem readyFrom_eq {e : Pollfd} {n : ℕ} (he : t.fds[n]? = some e) :
    t.readyFrom n =
      (if e.revents = 0 then none else t.lwsLookup e.fd).toList ++ t.readyFrom (n + 1) := by
  obtain ⟨hlt, rfl⟩ := List.getElem?_eq_some_iff.mp he
  rw [readyFrom, List.drop_eq_getElem_cons hlt, List.filterMap_cons, readyFrom]
  split_ifs
  · rfl
  · rcases t.lwsLookup _ with _ | w <;> rfl

theorem Seated.clearRevents (ht : t.Seated) (n : ℕ) : (t.clearRevents n).Seated := by
  refine ht.modify (List.ext_getElem? fun i => ?_)
  simp only [List.getElem?_map, List.getElem?_modify]
  rcases t.fds[i]? with _ | e
  · rfl
  · simp only [Option.map_some]
    split_ifs <;> rfl

theorem eventsOf_clearRevents (t : PollTable W) (n : ℕ) :
    (t.clearRevents n).eventsOf = t.eventsOf := by
  funext w
  simp only [eventsOf, PollTable.clearRevents, List.getElem?_modify]
  rcases t.fds[(t.position w).toNat]? with _ | e
  · rfl
  · simp only [Option.map_some]
    split_ifs <;> rfl

theorem readyFrom_of_le {n : ℕ} (h : t.fds.length ≤ n) : t.readyFrom n = [] := by
  rw [readyFrom, List.drop_eq_nil_of_le h, List.filterMap_nil]

theorem readyFrom_clearRevents (t : PollTable W) (n : ℕ) :
    (t.clearRevents n).readyFrom n = t.readyFrom (n + 1) := by
  rcases Nat.lt_or_ge n t.fds.length with hn | hn
  · have he : (t.clearRevents n).fds[n]? = some { t.fds[n] with revents := 0 } := by
      simp [PollTable.clearRevents, List.getElem?_eq_getElem hn]
    rw [readyFrom_eq he, if_pos rfl, Option.toList_none, List.nil_append, readyFrom, readyFrom]
    simp [PollTable.clearRevents, List.drop_modify_of_lt]
  · rw [readyFrom_of_le (Nat.le_succ_of_le hn), readyFrom_of_le]
    simpa [PollTable.clearRevents] using hn

theorem Seated.position_of_mem (ht : t.Seated) {n : ℕ} (h : w ∈ t.readyFrom n) :
    ∃ i : ℕ, n ≤ i ∧ t.position w = i := by
  obtain ⟨e, he, hw⟩ := List.mem_filterMap.mp h
  split_ifs at hw
  obtain ⟨j, hj⟩ := List.mem_iff_getElem?.mp he
  rw [List.getElem?_drop] at hj
  obtain ⟨d, hd, hnone⟩ := ht.dummy
  rcases hi : n + j with _ | i
  · rw [hi, hd] at hj
    rw [Option.some.inj hj, hw] at hnone
    cases hnone
  · obtain ⟨v, hv, hposition, -⟩ := ht.slot i e (hi ▸ hj)
    obtain rfl := Option.some.inj (hv.symm.trans hw)
    exact ⟨i + 1, by omega, hposition⟩

theorem Seated.nodup_readyFrom (ht : t.Seated) : ∀ (k n : ℕ), t.fds.length ≤ n + k →
    (t.readyFrom n).Nodup
  | 0, n, h => by
    have h : t.fds.length ≤ n := h
    rw [readyFrom_of_le h]
    exact List.nodup_nil
  | k + 1, n, h => by
    rcases Nat.lt_or_ge n t.fds.length with hn | hn
    · have hlater := ht.nodup_readyFrom k (n + 1) (by omega)
      rw [readyFrom_eq (List.getElem?_eq_getElem hn)]
      split_ifs
      · exact hlater
      rcases hlookup : t.lwsLookup t.fds[n].fd with _ | w
      · exact hlater
      refine List.nodup_cons.mpr ⟨fun hmem => ?_, hlater⟩
      obtain ⟨i, hi, hposition⟩ := ht.position_of_mem hmem
      rcases n with _ | n
      · obtain ⟨d, hd, hnone⟩ := ht.dummy
        rw [List.getElem?_eq_getElem hn, Option.some.injEq] at hd
        rw [hd, hnone] at hlookup
        cases hlookup
      · obtain ⟨v, hv, hvposition, -⟩ := ht.slot n _ (List.getElem?_eq_getElem hn)
        obtain rfl := Option.some.inj (hv.symm.trans hlookup)
        omega
    · rw [readyFrom_of_le hn]
      exact List.nodup_nil

/-- The connections after place `n` that are ready once the one at `n` has been removed. -/
theorem Seated.readyFrom_removeWsi (ht : t.Seated) {i : ℕ} (hw : t.position w = i + 1)
    {r : PollTable W × ℤ} (h : t.removeWsi w = some r) :
    (r.1.readyFrom (i + 2)).Sublist (t.readyFrom (i + 2)) ∧
      (t.readyFrom (i + 2)).length ≤ (r.1.readyFrom (i + 2)).length + 1 := by
  have hopen : t.position w ≠ -1 := by omega
  obtain ⟨i', j, last, guy, hposition, hi, -, -, -, -, -, -, hremove⟩ := ht.removeWsi_eq hopen
  obtain rfl : i' = i := by omega
  obtain rfl := Option.some.inj (h.symm.trans hremove)
  have hfds : (swapRemove t.fds (i' + 1)).drop (i' + 2) = (t.fds.drop (i' + 2)).dropLast := by
    have hdrop := drop_swapRemove (List.drop_eq_getElem_cons hi)
    have hnext : i' + 2 = i' + 1 + 1 := rfl
    rw [hnext, ← List.drop_drop, hdrop]
    rcases List.eq_nil_or_concat (t.fds.drop (i' + 2)) with h | ⟨l, a, h⟩ <;> rw [h] <;> simp
  have hready : ∀ e ∈ (t.fds.drop (i' + 2)).dropLast,
      (if e.revents = 0 then none
        else Function.update t.lwsLookup (t.sock w) none e.fd) =
      if e.revents = 0 then none else t.lwsLookup e.fd := fun e he => by
    rw [Function.update_of_ne]
    intro hfd
    obtain ⟨k, hk⟩ := List.mem_iff_getElem?.mp ((List.dropLast_sublist _).mem he)
    rw [List.getElem?_drop] at hk
    obtain ⟨v, hv, hvposition, -⟩ := ht.slot (i' + 1 + k) e (by rw [← hk]; congr 1; omega)
    rw [hfd, ((ht.seat w).resolve_left hopen).1] at hv
    obtain rfl := Option.some.inj hv
    omega
  have heq : (List.filterMap (fun e : Pollfd => if e.revents = 0 then none
        else Function.update t.lwsLookup (t.sock w) none e.fd) (t.fds.drop (i' + 2)).dropLast) =
      (t.fds.drop (i' + 2)).dropLast.filterMap fun e =>
        if e.revents = 0 then none else t.lwsLookup e.fd := List.filterMap_congr hready
  simp only [readyFrom, hfds, heq]
  refine ⟨(List.dropLast_sublist _).filterMap _, ?_⟩
  rcases List.eq_nil_or_concat (t.fds.drop (i' + 2)) with h | ⟨l, a, h⟩
  · simp [h]
  · rw [h, List.concat_eq_append, List.dropLast_concat, List.filterMap_append, List.length_append]
    exact Nat.add_le_add_left (List.length_filterMap_le _ _) _

/-- What the loop does from place `n` on. -/
theorem Seated.serviceFrom (closes : W → Bool) : ∀ (k n : ℕ) {t : PollTable W}, t.Seated →
    t.fds.length ≤ n + k → ∃ t' served, serviceFrom closes k n t = some (t', served) ∧
      served.Sublist (t.readyFrom n) ∧
      (t.readyFrom n).length ≤ served.length + (served.filter closes).length ∧
      t'.Seated ∧ ∀ w, t'.eventsOf w = if w ∈ served ∧ closes w then none else t.eventsOf w
  | 0, n, t, ht, h => by
    have h : t.fds.length ≤ n := h
    exact ⟨t, [], rfl, List.nil_sublist _, by simp [readyFrom_of_le h], ht, by simp⟩
  | k + 1, n, t, ht, h => by
    rw [PollTable.serviceFrom]
    rcases he : t.fds[n]? with _ | e
    · rw [List.getElem?_eq_none_iff] at he
      exact ⟨t, [], rfl, List.nil_sublist _, by simp [readyFrom_of_le he], ht, by simp⟩
    simp only
    rw [readyFrom_eq he]
    rcases em (e.revents = 0) with hidle | hready
    · rw [if_pos hidle, if_pos hidle]
      exact ht.serviceFrom closes k (n + 1) (by omega)
    rw [if_neg hready, if_neg hready]
    rcases hlookup : t.lwsLookup e.fd with _ | w
    · exact ht.serviceFrom closes k (n + 1) (by omega)
    simp only [Option.toList_some, List.singleton_append]
    obtain ⟨i, rfl, hw⟩ : ∃ i, n = i + 1 ∧ t.position w = i + 1 := by
      rcases n with _ | i
      · obtain ⟨d, hd, hnone⟩ := ht.dummy
        rw [Option.some.inj (he.symm.trans hd), hnone] at hlookup
        cases hlookup
      · obtain ⟨v, hv, hposition, -⟩ := ht.slot i e he
        exact ⟨i, rfl, Option.some.inj (hv.symm.trans hlookup) ▸ hposition⟩
    have hopen : t.position w ≠ -1 := by omega
    have hnext : i + 1 + 1 = i + 2 := rfl
    rw [hnext]
    rcases hcloses : closes w with _ | _
    · obtain ⟨t', served, hrest, hsub, hmissed, ht', hevents⟩ :=
        (ht.clearRevents (i + 1)).serviceFrom closes k (i + 2)
          (by simp only [PollTable.clearRevents, List.length_modify]; omega)
      have hafter : (t.clearRevents (i + 1)).readyFrom (i + 2) = t.readyFrom (i + 2) := by
        simp [readyFrom, PollTable.clearRevents, List.drop_modify_of_lt]
      rw [hafter] at hsub hmissed
      refine ⟨t', w :: served, by simp [hrest], hsub.cons_cons w, ?_, ht', fun v => ?_⟩
      · simp only [List.length_cons, List.filter_cons, hcloses]
        simpa using by omega
      · rw [hevents, eventsOf_clearRevents]
        refine if_congr (and_congr_left fun hv => ?_) rfl rfl
        simp only [List.mem_cons, iff_or_self]
        rintro rfl
        simp [hcloses] at hv
    · obtain ⟨_, _, _, _, -, -, -, -, -, -, -, -, hremove⟩ := ht.removeWsi_eq hopen
      obtain ⟨hsub', hmissed'⟩ := ht.readyFrom_removeWsi hw hremove
      obtain ⟨hremoved, hlength⟩ := ht.eventsOf_removeWsi hopen hremove
      obtain ⟨t', served, hrest, hsub, hmissed, ht', hevents⟩ :=
        ((ht.removeWsi hopen hremove).clearRevents (i + 1)).serviceFrom closes k (i + 1)
          (by simp only [PollTable.clearRevents, List.length_modify] at hlength ⊢; omega)
      rw [readyFrom_clearRevents, hnext] at hsub hmissed
      refine ⟨t', w :: served, ?_, (hsub.trans hsub').cons_cons w, ?_, ht', fun v => ?_⟩
      · rw [hremove]
        simp [hrest]
      · simp only [List.length_cons, List.filter_cons, hcloses, if_true]
        omega
      · rw [hevents, eventsOf_clearRevents, hremoved]
        rcases em (v = w) with rfl | hvw
        · simp [hcloses]
        · simp [hvw]

/-- In a round after any run, connections are serviced that are ready, in the order of the table and
none twice, and at most one that is ready is missed for each that is closed. -/
theorem round_misses {maxFds dummy : ℕ} (h : 0 < maxFds) {es : List (Event W P)}
    (hrun : run (PollTable.step protocol) (init maxFds dummy) es = some t) (closes : W → Bool) :
    ∃ t' served, t.service closes = some (t', served) ∧ served.Sublist (t.readyFrom 0) ∧
      (t.readyFrom 0).Nodup ∧
      (t.readyFrom 0).length ≤ served.length + (served.filter closes).length ∧
      ∀ w, t'.eventsOf w = if w ∈ served ∧ closes w then none else t.eventsOf w := by
  have ht := seated_run h hrun
  obtain ⟨t', served, hservice, hsub, hmissed, -, hevents⟩ :=
    ht.serviceFrom closes t.fds.length 0 (by omega)
  exact ⟨t', served, hservice, hsub, ht.nodup_readyFrom t.fds.length 0 (by omega), hmissed, hevents⟩

/-- Three connections that are ready, of which the first is closed : the last waits for the next
round. -/
theorem round_misses_three : ∃ t : PollTable (ℕ), ∃ t' served,
    run (PollTable.step fun w : ℕ => w) (init 8 3)
      [.insert 0 5, .insert 1 6, .insert 2 7, .poll fun _ => Lws.pollin] = some t ∧
      t.service (· = 0) = some (t', served) ∧ served.Sublist (t.readyFrom 0) ∧
      (t.readyFrom 0).Nodup ∧
      (t.readyFrom 0).length ≤ served.length + (served.filter (· = 0)).length ∧
      ∀ w, t'.eventsOf w = if w ∈ served ∧ decide (w = 0) then none else t.eventsOf w := by
  have hsome : (run (PollTable.step fun w : ℕ => w) (init 8 3)
      [.insert 0 5, .insert 1 6, .insert 2 7, .poll fun _ => Lws.pollin]).isSome = true := by
    decide +kernel
  obtain ⟨t, ht⟩ := Option.isSome_iff_exists.mp hsome
  obtain ⟨t', served, h⟩ := round_misses (by decide) ht (· = 0)
  exact ⟨t, t', served, ht, h⟩

end PollTable

end Lws

end MySocket
