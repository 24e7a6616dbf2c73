import Mathlib.Data.List.Perm.Basic
import MySocket.Trace

/-!
# Starting the keep-alive client again

`Client.start` starts two threads, and `Client.stop` lowers the flag `running` that their
loops test. The threads belong to no start in particular : the next `start` raises the flag
again and replaces the socket, and a loop that has slept through it goes on with that socket.

* `safe_iff` : there is one loop of each kind at most, and no loop uses a socket made after
  its own start, in the runs in which every loop has ended before the next start.
-/

namespace MySocket

namespace KeepAlive

inductive WatchDogKind
  | keepAlive
  | receive
  deriving DecidableEq

/-- Where a thread is in its loop. -/
inductive WatchDogPhase
  /-- The condition of the loop. -/
  | test
  /-- The body of the loop. -/
  | body
  | sleep (wakeTime : ℤ)
  deriving DecidableEq

/-- A thread whose loop has not ended. -/
structure WatchDog where
  kind : WatchDogKind
  /-- The start that made it, counted from 1. -/
  started : ℕ
  phase : WatchDogPhase
  deriving DecidableEq

/-- A loop has sent on a socket or read from it, the one of the start `socket`. -/
structure SocketUse where
  started : ℕ
  socket : ℕ
  deriving DecidableEq

structure Client where
  /-- `System.currentTimeMillis()` -/
  now : ℤ
  running : Bool
  /-- The sockets made so far; `socket` is the last of them. -/
  sockets : ℕ
  lastSendTime : ℤ
  loops : List WatchDog
  uses : List SocketUse

inductive ClientEvent
  /-- Time passes. -/
  | tick (millis : ℕ)
  /-- `start`, and whether `new Socket` finds the server. -/
  | start (connects : Bool)
  | stop
  /-- A loop tests `running`. -/
  | test (l : WatchDog)
  /-- A loop runs its body, with what the socket has to read and whether there is an exception. -/
  | body (l : WatchDog) (available fails : Bool)
  | wake (l : WatchDog) (interrupted : Bool)

namespace Client

def checkDelay : ℤ :=
  10

def keepAliveDelay : ℤ :=
  2000

def initial (now : ℤ) : Client where
  now := now
  running := false
  sockets := 0
  lastSendTime := 0
  loops := []
  uses := []

/-! ## The code -/

def start (connects : Bool) (c : Client) : Client :=
  if c.running then c
  else if connects then
    let started := c.sockets + 1
    { c with
      sockets := started
      lastSendTime := c.now
      running := true
      loops := ⟨.receive, started, .test⟩ :: ⟨.keepAlive, started, .test⟩ :: c.loops }
  else c

def stop (c : Client) : Client :=
  if c.running then { c with running := false } else c

/-- The loop goes on in `phase`. -/
def goOn (l : WatchDog) (phase : WatchDogPhase) (c : Client) : Client :=
  { c with loops := { l with phase } :: c.loops.erase l }

/-- The loop sends on the socket or reads from it. -/
def use (l : WatchDog) (c : Client) : Client :=
  { c with uses := ⟨l.started, c.sockets⟩ :: c.uses }

/-- A loop sends a `KeepAlive`. -/
def sendKeepAlive (l : WatchDog) (fails : Bool) (c : Client) : Client :=
  let c := c.use l
  let c := if fails then c.stop else c
  { c with lastSendTime := c.now }

/-- The body of the loop. -/
def body (l : WatchDog) (available fails : Bool) (c : Client) : Client :=
  match l.kind with
  | .keepAlive =>
    if c.now - c.lastSendTime > keepAliveDelay then (c.sendKeepAlive l fails).goOn l .test
    else c.goOn l (.sleep (c.now + checkDelay))
  | .receive =>
    let c := if available then c.use l else c
    if fails then c.stop.goOn l .test
    else if available then c.goOn l .test
    else c.goOn l (.sleep (c.now + 10))

def step (c : Client) : ClientEvent → Option Client
  | .tick millis => some { c with now := c.now + millis }
  | .start connects => some (c.start connects)
  | .stop => some c.stop
  | .test l =>
    if l ∈ c.loops ∧ l.phase = .test then
      some (if c.running then c.goOn l .body else { c with loops := c.loops.erase l })
    else none
  | .body l available fails =>
    if l ∈ c.loops ∧ l.phase = .body then some (c.body l available fails) else none
  | .wake l interrupted =>
    match l.phase with
    | .sleep wakeTime =>
      if l ∈ c.loops ∧ (wakeTime ≤ c.now ∨ interrupted = true) then
        some ((if interrupted then c.stop else c).goOn l .test)
      else none
    | .test | .body => none

/-! ## The property -/

/-- The loops of one kind that are still live. -/
def live (kind : WatchDogKind) (c : Client) : List WatchDog :=
  c.loops.filter (·.kind = kind)

structure Safe (c : Client) : Prop where
  one : ∀ kind, (c.live kind).length ≤ 1
  own : ∀ u ∈ c.uses, ¬u.started < u.socket

/-- A start that makes a socket finds no loop that is still live. -/
def AllEnded (c : Client) : ClientEvent → Prop
  | .start connects => c.running = false → connects = true → c.loops = []
  | .tick _ | .stop | .test _ | .body _ _ _ | .wake _ _ => True

/-! ## The invariant -/

/-- The loops are those of the last start. -/
structure Current (c : Client) : Prop where
  one : ∀ kind, (c.live kind).length ≤ 1
  started : ∀ l ∈ c.loops, l.started = c.sockets
  own : ∀ u ∈ c.uses, ¬u.started < u.socket

variable {c : Client} {l : WatchDog}

theorem Current.safe (h : c.Current) : c.Safe :=
  ⟨h.one, h.own⟩

theorem current_initial (now : ℤ) : (initial now).Current := by
  refine ⟨fun kind => by simp [live, initial], ?_, ?_⟩ <;> simp [initial]

/-- What does not touch the loops, the sockets or their uses. -/
theorem Current.of_eq {c' : Client} (h : c.Current) (hloops : c'.loops = c.loops)
    (hsockets : c'.sockets = c.sockets) (huses : c'.uses = c.uses) : c'.Current := by
  refine ⟨fun kind => ?_, fun l hl => ?_, fun u hu => ?_⟩
  · rw [live, hloops]
    exact h.one kind
  · rw [hsockets]
    exact h.started l (hloops ▸ hl)
  · exact h.own u (huses ▸ hu)

@[simp] theorem loops_stop (c : Client) : c.stop.loops = c.loops := by
  unfold stop
  split_ifs <;> rfl

@[simp] theorem loops_use (c : Client) (l : WatchDog) : (c.use l).loops = c.loops :=
  rfl

theorem Current.stop (h : c.Current) : c.stop.Current := by
  unfold Client.stop
  split_ifs
  · exact h.of_eq rfl rfl rfl
  · exact h

/-- A loop of the last start uses the socket of its own start. -/
theorem Current.use (h : c.Current) (hl : l ∈ c.loops) : (c.use l).Current := by
  refine ⟨h.one, h.started, fun u hu => ?_⟩
  rcases List.mem_cons.mp hu with rfl | hu
  · exact (h.started l hl).not_lt
  · exact h.own u hu

@[simp] theorem loops_sendKeepAlive (c : Client) (l : WatchDog) (fails : Bool) :
    (c.sendKeepAlive l fails).loops = c.loops := by
  cases fails <;> simp [sendKeepAlive]

theorem Current.sendKeepAlive (h : c.Current) (hl : l ∈ c.loops) (fails : Bool) :
    (c.sendKeepAlive l fails).Current := by
  cases fails with
  | false => exact (h.use hl).of_eq rfl rfl rfl
  | true => exact (h.use hl).stop.of_eq rfl rfl rfl

theorem length_live_goOn (hl : l ∈ c.loops) (phase : WatchDogPhase) (kind : WatchDogKind) :
    ((c.goOn l phase).live kind).length = (c.live kind).length := by
  have hperm := (List.perm_cons_erase hl).filter fun l' => decide (l'.kind = kind)
  rw [live, live, hperm.length_eq, goOn]
  by_cases hkind : l.kind = kind <;> simp [hkind]

theorem Current.goOn (h : c.Current) (hl : l ∈ c.loops) (phase : WatchDogPhase) :
    (c.goOn l phase).Current := by
  refine ⟨fun kind => ?_, fun l' hl' => ?_, h.own⟩
  · rw [length_live_goOn hl]
    exact h.one kind
  · rcases List.mem_cons.mp hl' with rfl | hl'
    · exact h.started l hl
    · exact h.started l' (List.mem_of_mem_erase hl')

/-- A loop ends. -/
theorem Current.erase (h : c.Current) (l : WatchDog) :
    ({ c with loops := c.loops.erase l } : Client).Current := by
  refine ⟨fun kind => ?_, fun l' hl' => h.started l' (List.mem_of_mem_erase hl'), h.own⟩
  exact ((List.erase_sublist.filter _).length_le).trans (h.one kind)

theorem Current.body (h : c.Current) (hl : l ∈ c.loops) (available fails : Bool) :
    (c.body l available fails).Current := by
  unfold Client.body
  cases l.kind with
  | keepAlive =>
    dsimp only
    split_ifs
    · exact (h.sendKeepAlive hl fails).goOn (by simpa using hl) .test
    · exact h.goOn hl _
  | receive =>
    dsimp only
    split_ifs
    · exact (h.use hl).stop.goOn (by simpa using hl) .test
    · exact h.stop.goOn (by simpa using hl) .test
    · exact (h.use hl).goOn hl .test
    · exact h.goOn hl _

/-- A start with no loop left leaves its own two. -/
theorem Current.start (h : c.Current) {connects : Bool} (hok : c.AllEnded (.start connects)) :
    (c.start connects).Current := by
  unfold Client.start
  split_ifs with hrun hconnects
  · exact h
  · have hnone := hok (Bool.eq_false_iff.mpr hrun) hconnects
    refine ⟨fun kind => ?_, fun l hl => ?_, h.own⟩
    · cases kind <;> simp [live, hnone]
    · rw [hnone] at hl
      simp only [List.mem_cons, List.not_mem_nil, or_false] at hl
      rcases hl with rfl | rfl <;> rfl
  · exact h

theorem Current.step (h : c.Current) {e : ClientEvent} {c' : Client} (hok : c.AllEnded e)
    (hstep : c.step e = some c') : c'.Current := by
  cases e with
  | tick millis =>
    obtain rfl := Option.some.inj hstep
    exact h.of_eq rfl rfl rfl
  | start connects =>
    obtain rfl := Option.some.inj hstep
    exact h.start hok
  | stop =>
    obtain rfl := Option.some.inj hstep
    exact h.stop
  | test l =>
    simp only [Client.step, Option.ite_none_right_eq_some, Option.some.injEq] at hstep
    obtain ⟨⟨hl, -⟩, rfl⟩ := hstep
    split_ifs
    · exact h.goOn hl _
    · exact h.erase l
  | body l available fails =>
    simp only [Client.step, Option.ite_none_right_eq_some, Option.some.injEq] at hstep
    obtain ⟨⟨hl, -⟩, rfl⟩ := hstep
    exact h.body hl available fails
  | wake l interrupted =>
    cases hphase : l.phase with
    | sleep wakeTime =>
      simp only [Client.step, hphase, Option.ite_none_right_eq_some, Option.some.injEq] at hstep
      obtain ⟨⟨hl, -⟩, rfl⟩ := hstep
      split_ifs
      · exact h.stop.goOn (by simpa using hl) .test
      · exact h.goOn hl .test
    | test | body => simp [Client.step, hphase] at hstep

/-! ## The results -/

/-- A start that finds a loop of some kind live makes a second one. -/
theorem allEnded_of_safe {e : ClientEvent} {c' : Client} (hstep : c.step e = some c')
    (hsafe : c'.Safe) : c.AllEnded e := by
  cases e with
  | start connects =>
    intro hrun hconnects
    obtain rfl := Option.some.inj hstep
    by_contra hne
    obtain ⟨l, hl⟩ := List.exists_mem_of_ne_nil _ hne
    have hlive : l ∈ c.live l.kind := List.mem_filter.mpr ⟨hl, by simp⟩
    have hpos : 0 < (c.live l.kind).length := List.length_pos_of_mem hlive
    have hone := hsafe.one l.kind
    have hmore : (c.live l.kind).length + 1 ≤ ((c.start connects).live l.kind).length := by
      cases hkind : l.kind <;> simp [Client.start, hrun, hconnects, live]
    omega
  | tick _ | stop | test _ | body _ _ _ | wake _ _ => trivial

/-- The client is safe all along a run exactly if every loop has ended before a start makes the
next socket. -/
theorem safe_iff (now : ℤ) (es : List ClientEvent) :
    Always step Safe (initial now) es ↔ Each step AllEnded (initial now) es :=
  always_iff_each (fun _ _ _ h hok hstep => h.step hok hstep) (fun _ h => h.safe)
    (fun _ _ _ _ hstep hsafe => allEnded_of_safe hstep hsafe) (current_initial now)

/-- The client is stopped and started again before its loops wake. The first keep-alive loop sends
on the second socket, and there are four loops. -/
theorem restart_unsafe :
    (MySocket.run step (initial 0)
        [.start true, .test ⟨.keepAlive, 1, .test⟩, .body ⟨.keepAlive, 1, .body⟩ false false,
          .stop, .start true, .tick 2001, .wake ⟨.keepAlive, 1, .sleep 10⟩ false,
          .test ⟨.keepAlive, 1, .test⟩, .body ⟨.keepAlive, 1, .body⟩ false false]).map
      (fun c => (c.loops.length, c.uses)) = some (4, [⟨1, 2⟩]) ∧
      ¬Always step Safe (initial 0)
        [.start true, .test ⟨.keepAlive, 1, .test⟩, .body ⟨.keepAlive, 1, .body⟩ false false,
          .stop, .start true, .tick 2001, .wake ⟨.keepAlive, 1, .sleep 10⟩ false,
          .test ⟨.keepAlive, 1, .test⟩, .body ⟨.keepAlive, 1, .body⟩ false false] := by
  refine ⟨by decide, fun h => ?_⟩
  have hlast := h.last rfl
  exact hlast.own ⟨1, 2⟩ (.head _) (by decide)

end Client

end KeepAlive

end MySocket
