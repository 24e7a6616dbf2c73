import Mathlib.Data.Int.Order.Basic
import Mathlib.Logic.Function.Basic
import MySocket.Trace

/-!
# The time-out of the keep-alive server

A client sends an object at least every two seconds, and `Server.SocketAction` gives the
connection up when it has received nothing for `receiveTimeDelay`. Its loop looks at the
clock before it looks into the socket, and the thread that would look also runs the action
for the object read last, for as long as that takes.

* `no_read_before` : no object has been read in the `receiveTimeDelay` milliseconds before a
  time-out, in any run.
* `justified_iff` : none has been waiting unread either, exactly when the socket is empty at
  every test that ends in a time-out.
-/

namespace MySocket

namespace KeepAlive

/-- An object that is sent over the connection. -/
structure Message (Cls Val : Type*) where
  getClass : Cls
  value : Val

/-- `ObjectAction` : it returns an object to send back, or `null`. -/
abbrev ObjectAction (Cls Val : Type*) :=
  Message Cls Val → Option (Message Cls Val)

/-- `DefaultObjectAction` -/
def defaultObjectAction {Cls Val : Type*} : ObjectAction Cls Val :=
  some

/-- `receiveTimeDelay` -/
def receiveTimeDelay : ℤ :=
  3000

/-- Where the thread of the connection is. -/
inductive Phase (Cls Val : Type*)
  /-- The connection has not been accepted. -/
  | accept
  /-- The conditions of the loop, and the time-out test. -/
  | test
  /-- `in.available()` -/
  | available
  /-- `ois.readObject()` -/
  | readObject
  /-- An object has been read, the clock has not. -/
  | received (obj : Message Cls Val)
  | doAction (oa : ObjectAction Cls Val) (obj : Message Cls Val)
  | sleep (since : ℤ)
  | done

/-- `SocketAction`, with what it sees of the server and of its socket. -/
structure SocketAction (Cls Val : Type*) where
  /-- `System.currentTimeMillis()` -/
  now : ℤ
  running : Bool
  actionMapping : Cls → Option (ObjectAction Cls Val)
  run : Bool
  lastReceiveTime : ℤ
  phase : Phase Cls Val
  closed : Bool
  /-- The objects that wait in the socket, with the times they arrived at. -/
  unread : List (ℤ × Message Cls Val)
  /-- The objects sent back. -/
  sent : List (Message Cls Val)
  /-- The times that the objects read so far arrived at and were read at. -/
  reads : List (ℤ × ℤ)

inductive Event (Cls Val : Type*)
  /-- Time passes. -/
  | tick (millis : ℕ)
  /-- An object of the client arrives. -/
  | arrive (obj : Message Cls Val)
  | addActionMap (cls : Cls) (action : ObjectAction Cls Val)
  /-- `Server.stop` -/
  | stop
  /-- The thread goes on. -/
  | next
  /-- What the thread is in raises an exception. -/
  | exception

namespace SocketAction

variable {Cls Val : Type*}

/-- A connection that waits to be accepted. -/
def start (now : ℤ) (actionMapping : Cls → Option (ObjectAction Cls Val)) : SocketAction Cls Val where
  now := now
  running := true
  actionMapping := actionMapping
  run := true
  lastReceiveTime := now
  phase := .accept
  closed := false
  unread := []
  sent := []
  reads := []

def overThis (s : SocketAction Cls Val) : SocketAction Cls Val :=
  { s with run := false, closed := true }

/-- The thread, as far as the next place where time can pass. -/
def next (s : SocketAction Cls Val) : Option (SocketAction Cls Val) :=
  match s.phase with
  | .accept => some { s with lastReceiveTime := s.now, phase := .test }
  | .test =>
    some (if s.running && s.run then
        if s.now - s.lastReceiveTime > receiveTimeDelay then s.overThis
        else { s with phase := .available }
      else { s with phase := .done })
  | .available =>
    some (if 0 < s.unread.length then { s with phase := .readObject }
      else { s with phase := .sleep s.now })
  | .readObject =>
    match s.unread with
    | (arrival, obj) :: unread =>
      some { s with unread, reads := (arrival, s.now) :: s.reads, phase := .received obj }
    | [] => none
  | .received obj =>
    let oa := s.actionMapping obj.getClass
    some { s with lastReceiveTime := s.now, phase := .doAction (oa.getD defaultObjectAction) obj }
  | .doAction oa obj =>
    some { s with sent := s.sent ++ (oa obj).toList, phase := .test }
  | .sleep since => if since + 10 ≤ s.now then some { s with phase := .test } else none
  | .done => none

/-- The handler of the loop. -/
def exception (s : SocketAction Cls Val) : Option (SocketAction Cls Val) :=
  match s.phase with
  | .available | .readObject | .doAction _ _ | .sleep _ =>
    some { s.overThis with phase := .test }
  -- outside the `try`, or on the way to the clock
  | .accept | .test | .received _ | .done => none

/-- One event of the connection. -/
def step [DecidableEq Cls] (s : SocketAction Cls Val) :
    Event Cls Val → Option (SocketAction Cls Val)
  | .tick millis => some { s with now := s.now + millis }
  | .arrive obj => some { s with unread := s.unread ++ [(s.now, obj)] }
  | .addActionMap cls action =>
    some { s with actionMapping := Function.update s.actionMapping cls (some action) }
  | .stop => some { s with running := false }
  | .next => s.next
  | .exception => s.exception

/-! ## The property -/

/-- The step calls `overThis` because of the time-out test. -/
def TimedOut (s : SocketAction Cls Val) (e : Event Cls Val) (s' : SocketAction Cls Val) : Prop :=
  e = .next ∧ s.phase = .test ∧ s.run = true ∧ s'.run = false

/-- An object was read at the time `t`. -/
def ReadAt (s : SocketAction Cls Val) (t : ℤ) : Prop :=
  ∃ r ∈ s.reads, r.2 = t

/-- An object was waiting unread at the time `t` : one that has been read since, or still waits. -/
def WaitingAt (s : SocketAction Cls Val) (t : ℤ) : Prop :=
  (∃ r ∈ s.reads, r.1 ≤ t ∧ t < r.2) ∨ ∃ u ∈ s.unread, u.1 ≤ t

/-- A time-out comes only if no object was read or was waiting in the last `receiveTimeDelay`
milliseconds. -/
def Justified (s : SocketAction Cls Val) (e : Event Cls Val) (s' : SocketAction Cls Val) : Prop :=
  s.TimedOut e s' → ∀ t, s.now - receiveTimeDelay ≤ t → t ≤ s.now → ¬s.ReadAt t ∧ ¬s.WaitingAt t

/-- The time-out test of the loop. -/
def Expired (s : SocketAction Cls Val) : Prop :=
  s.phase = .test ∧ s.running = true ∧ s.run = true ∧
    receiveTimeDelay < s.now - s.lastReceiveTime

/-- At a test that ends in a time-out the socket is empty. -/
def Drained (s : SocketAction Cls Val) (e : Event Cls Val) : Prop :=
  e = .next → s.Expired → s.unread = []

/-! ## The invariant -/

/-- The clock has not gone back. Every object was read before `lastReceiveTime`, except for one
that has been read just now. -/
structure Stamped (s : SocketAction Cls Val) : Prop where
  unread : ∀ u ∈ s.unread, u.1 ≤ s.now
  last : s.lastReceiveTime ≤ s.now
  reads : ∀ r ∈ s.reads, r.2 ≤ s.now
  stamped : (∀ obj, s.phase ≠ .received obj) → ∀ r ∈ s.reads, r.2 ≤ s.lastReceiveTime

variable {s s' : SocketAction Cls Val}

theorem start_stamped (now : ℤ) (actionMapping : Cls → Option (ObjectAction Cls Val)) :
    (start now actionMapping).Stamped where
  unread _ h := absurd h List.not_mem_nil
  last := le_rfl
  reads _ h := absurd h List.not_mem_nil
  stamped _ _ h := absurd h List.not_mem_nil

/-- What `Stamped` says nothing about, between one clock reading and the next. -/
theorem Stamped.of_eq (h : s.Stamped) (hphase : ∀ obj, s.phase ≠ .received obj)
    (hnow : s'.now = s.now) (hlast : s'.lastReceiveTime = s.lastReceiveTime)
    (hunread : s'.unread = s.unread) (hreads : s'.reads = s.reads) : s'.Stamped where
  unread u hu := by
    rw [hnow]
    exact h.unread u (hunread ▸ hu)
  last := by
    rw [hnow, hlast]
    exact h.last
  reads r hr := by
    rw [hnow]
    exact h.reads r (hreads ▸ hr)
  stamped _ r hr := by
    rw [hlast]
    exact h.stamped hphase r (hreads ▸ hr)

theorem Stamped.next (h : s.Stamped) (hnext : s.next = some s') : s'.Stamped := by
  unfold SocketAction.next at hnext
  cases hphase : s.phase with
  | accept =>
    simp only [hphase, Option.some.injEq] at hnext
    obtain rfl := hnext
    exact ⟨h.unread, le_rfl, h.reads, fun _ => h.reads⟩
  | test =>
    simp only [hphase, Option.some.injEq] at hnext
    obtain rfl := hnext
    split_ifs
    · exact h.of_eq (by simp [hphase]) rfl rfl rfl rfl
    · exact h.of_eq (by simp [hphase]) rfl rfl rfl rfl
    · exact h.of_eq (by simp [hphase]) rfl rfl rfl rfl
  | available =>
    simp only [hphase, Option.some.injEq] at hnext
    obtain rfl := hnext
    split_ifs
    · exact h.of_eq (by simp [hphase]) rfl rfl rfl rfl
    · exact h.of_eq (by simp [hphase]) rfl rfl rfl rfl
  | readObject =>
    cases hunread : s.unread with
    | nil => simp [hphase, hunread] at hnext
    | cons u unread =>
      simp only [hphase, hunread, Option.some.injEq] at hnext
      obtain rfl := hnext
      refine ⟨fun u' hu => h.unread u' (by simp [hunread, hu]), h.last, fun r hr => ?_,
        fun hne => absurd rfl (hne u.2)⟩
      rcases List.mem_cons.mp hr with rfl | hr
      · exact le_rfl
      · exact h.reads r hr
  | received obj =>
    simp only [hphase, Option.some.injEq] at hnext
    obtain rfl := hnext
    exact ⟨h.unread, le_rfl, h.reads, fun _ => h.reads⟩
  | doAction oa obj =>
    simp only [hphase, Option.some.injEq] at hnext
    obtain rfl := hnext
    exact h.of_eq (by simp [hphase]) rfl rfl rfl rfl
  | sleep since =>
    simp only [hphase, Option.ite_none_right_eq_some, Option.some.injEq] at hnext
    obtain ⟨-, rfl⟩ := hnext
    exact h.of_eq (by simp [hphase]) rfl rfl rfl rfl
  | done => simp [hphase] at hnext

theorem Stamped.exception (h : s.Stamped) (hexc : s.exception = some s') : s'.Stamped := by
  unfold SocketAction.exception at hexc
  cases hphase : s.phase with
  | available | readObject | doAction oa obj | sleep since =>
    simp only [hphase, Option.some.injEq] at hexc
    obtain rfl := hexc
    exact h.of_eq (by simp [hphase]) rfl rfl rfl rfl
  | accept | test | received obj | done => simp [hphase] at hexc

theorem Stamped.step [DecidableEq Cls] (h : s.Stamped) {e : Event Cls Val}
    (hstep : s.step e = some s') : s'.Stamped := by
  cases e with
  | tick millis =>
    obtain rfl := Option.some.inj hstep
    have hnow : s.now ≤ s.now + millis := by omega
    exact ⟨fun u hu => (h.unread u hu).trans hnow, h.last.trans hnow,
      fun r hr => (h.reads r hr).trans hnow, h.stamped⟩
  | arrive obj =>
    obtain rfl := Option.some.inj hstep
    refine ⟨fun u hu => ?_, h.last, h.reads, h.stamped⟩
    rcases List.mem_append.mp hu with hu | hu
    · exact h.unread u hu
    · rw [List.mem_singleton.mp hu]
  | addActionMap cls action =>
    obtain rfl := Option.some.inj hstep
    exact ⟨h.unread, h.last, h.reads, h.stamped⟩
  | stop =>
    obtain rfl := Option.some.inj hstep
    exact ⟨h.unread, h.last, h.reads, h.stamped⟩
  | next => exact h.next hstep
  | exception => exact h.exception hstep

/-! ## The results -/

/-- A step calls `overThis` because of the test exactly when the test says so. -/
theorem timedOut_iff [DecidableEq Cls] {e : Event Cls Val} (hstep : s.step e = some s') :
    s.TimedOut e s' ↔ e = .next ∧ s.Expired := by
  constructor
  · rintro ⟨rfl, hphase, hrun, hrun'⟩
    have hnext : s.next = some s' := hstep
    unfold next at hnext
    simp only [hphase, hrun, Bool.and_true, Option.some.injEq] at hnext
    split_ifs at hnext with hrunning hlate
    · exact ⟨rfl, hphase, hrunning, hrun, hlate⟩
    · rw [← hnext] at hrun'
      cases hrun'
    · rw [← hnext] at hrun'
      cases hrun'
  · rintro ⟨rfl, hphase, hrunning, hrun, hlate⟩
    have hnext : s.next = some s' := hstep
    unfold next at hnext
    simp only [hphase, hrun, hrunning, Bool.and_true, if_true, gt_iff_lt, hlate,
      Option.some.injEq] at hnext
    exact ⟨rfl, hphase, hrun, by rw [← hnext]; rfl⟩

/-- Whatever has been read was read too long ago when the test expires. -/
theorem Stamped.read_before (h : s.Stamped) (hexp : s.Expired) {r : ℤ × ℤ} (hr : r ∈ s.reads) :
    r.2 < s.now - receiveTimeDelay := by
  obtain ⟨hphase, -, -, hlate⟩ := hexp
  have hstamped := h.stamped (by simp [hphase]) r hr
  omega

/-- In the `receiveTimeDelay` milliseconds before a time-out no object was read. -/
theorem no_read_before [DecidableEq Cls] (now : ℤ)
    (actionMapping : Cls → Option (ObjectAction Cls Val)) (es : List (Event Cls Val)) :
    Steps step (fun s e s' => s.TimedOut e s' → ∀ t, s.now - receiveTimeDelay ≤ t → ¬s.ReadAt t)
      (start now actionMapping) es := by
  refine steps_of_invariant (I := Stamped) (fun s e s' h hstep => h.step hstep)
    (fun s e s' h hstep hout t ht => ?_) (start_stamped now actionMapping) es
  rintro ⟨r, hr, rfl⟩
  have hread := h.read_before ((timedOut_iff hstep).mp hout).2 hr
  omega

/-- Under the invariant, a time-out is justified exactly when the socket is empty. -/
theorem Stamped.justified_iff_drained [DecidableEq Cls] (h : s.Stamped) {e : Event Cls Val}
    (hstep : s.step e = some s') : s.Justified e s' ↔ s.Drained e := by
  unfold Justified Drained
  rw [timedOut_iff hstep]
  constructor
  · rintro hjust rfl hexp
    by_contra hne
    obtain ⟨u, hu⟩ := List.exists_mem_of_ne_nil _ hne
    -- it waits at the time of the test itself
    have hdelay : s.now - receiveTimeDelay ≤ s.now := by
      unfold receiveTimeDelay
      omega
    exact (hjust ⟨rfl, hexp⟩ s.now hdelay le_rfl).2 (.inr ⟨u, hu, h.unread u hu⟩)
  · rintro hempty ⟨rfl, hexp⟩ t ht -
    constructor
    · rintro ⟨r, hr, rfl⟩
      have hread := h.read_before hexp hr
      omega
    · rintro (⟨r, hr, -, hwait⟩ | ⟨u, hu, -⟩)
      · have hread := h.read_before hexp hr
        omega
      · rw [hempty rfl hexp] at hu
        exact absurd hu List.not_mem_nil

/-- In a run, every time-out comes only if no object was read or was waiting unread in the last
`receiveTimeDelay` milliseconds, exactly when the socket is empty at every test that expires. -/
theorem justified_iff [DecidableEq Cls] (now : ℤ)
    (actionMapping : Cls → Option (ObjectAction Cls Val)) (es : List (Event Cls Val)) :
    Steps step Justified (start now actionMapping) es ↔
      Each step Drained (start now actionMapping) es :=
  steps_iff_each (I := Stamped) (fun _ _ _ h _ hstep => h.step hstep)
    (fun _ _ _ h hstep => h.justified_iff_drained hstep) (start_stamped now actionMapping)

/-- An action takes longer than `receiveTimeDelay` : the client goes on talking, and is given up at
the next test, while its object waits. -/
theorem talking_client_dropped :
    ∃ t, MySocket.run step (start 0 fun _ => none : SocketAction Unit ℕ)
        [.next, .arrive ⟨(), 1⟩, .next, .next, .next, .next, .tick 2000, .arrive ⟨(), 2⟩, .tick 1100,
          .next] = some t ∧
      ∃ t', t.step .next = some t' ∧ t'.closed = true ∧ t.TimedOut .next t' ∧ t.now = 3100 ∧
        t.WaitingAt 2000 ∧ ¬t.Justified .next t' := by
  refine ⟨_, rfl, _, rfl, rfl, ⟨rfl, rfl, rfl, rfl⟩, rfl, ?_, fun h => ?_⟩
  · exact .inr ⟨_, List.mem_singleton_self _, by decide⟩
  · have hsilent := h ⟨rfl, rfl, rfl, rfl⟩ 2000 (by decide) (by decide)
    exact hsilent.2 (.inr ⟨_, List.mem_singleton_self _, by decide⟩)

end SocketAction

end KeepAlive

end MySocket
