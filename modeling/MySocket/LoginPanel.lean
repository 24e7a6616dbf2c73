import Mathlib.Data.List.Basic
import MySocket.Trace

/-!
# The polls of the login panel

`loginPanel.js` shows a QR code and asks the server whether it has been scanned, one
request `verify_mblogin` after the other. The only thing that ends a chain of requests is
the flag `longPollingOff` : `closePanel` sets it, nothing takes it back, and the reply that
brings the user does not look at it.

* `belongs_iff` : a reply is acted on exactly when it belongs to the opening of the panel
  that is on display, in the runs whose logins all bring a user and come in time, and in which
  no opening after the first `closePanel` gets any other reply.
* `no_renewal` : after the first `closePanel`, no request is followed by another one.
-/

namespace MySocket

/-- What `account_info` holds. -/
structure Uinfo where
  accountId : ℕ
  privileges : Option String
  deriving DecidableEq

/-- A request `verify_mblogin`. -/
structure LoginPoll where
  /-- The opening of the panel that its chain started in. -/
  opening : ℕ
  qrcode : String
  deriving DecidableEq

/-- `data.msg` : an object, null, or a value whose `typeof` is another one. -/
inductive LoginMsg
  | user (uinfo : Uinfo)
  | null
  | other
  deriving DecidableEq

inductive PollReply
  | timeout
  /-- The request fails in another way. -/
  | error
  | done (status : ℕ) (msg : LoginMsg)

structure LoginPanel where
  longPollingOff : Bool
  qrcode : String
  /-- `#loginPanel` is on display. -/
  visible : Bool
  accountInfo : Option Uinfo
  /-- The requests `get_qrcode` in flight. -/
  qrcodes : ℕ
  /-- The requests `verify_mblogin` in flight. -/
  polls : List LoginPoll
  /-- The requests `check_playauth` in flight, by the user they are for. -/
  playauths : List Uinfo
  /-- How often the event `login` has been fired. -/
  logins : ℕ
  /-- The times that the panel has come on display. -/
  openings : ℕ

inductive LoginEvent
  /-- `open` -/
  | opened
  /-- `close` -/
  | closed
  | goBackByJs
  /-- The reply to `get_qrcode`, with `msg.qrsrc`; `none` if its status is not `200`. -/
  | qrcode (qrsrc : Option String)
  | polled (poll : LoginPoll) (reply : PollReply)
  /-- The reply to `check_playauth`, with the privileges if its status is `200`; `none` if the
  request fails, or its reply is the JSON text of null. -/
  | playauth (uinfo : Uinfo) (reply : Option (Option String))
  /-- Other code of the page writes `account_info`. -/
  | setItem (accountInfo : Option Uinfo)

namespace LoginPanel

/-- A page in which the panel has not been opened. -/
def start (accountInfo : Option Uinfo) : LoginPanel where
  longPollingOff := false
  qrcode := ""
  visible := false
  accountInfo := accountInfo
  qrcodes := 0
  polls := []
  playauths := []
  logins := 0
  openings := 0

/-! ## The functions of the script -/

/-- `render` : it brings the panel on display, which it may be already. -/
def render (s : LoginPanel) : LoginPanel :=
  { s with
    visible := true
    qrcodes := s.qrcodes + 1
    openings := if s.visible then s.openings else s.openings + 1 }

def closePanel (s : LoginPanel) : LoginPanel :=
  { s with visible := false, longPollingOff := true, qrcode := "" }

/-- `storageUinfo`, up to its request. To `typeof`, null is an object, so its `account_id` is
asked for : `none` is the `TypeError`. -/
def storageUinfo (msg : LoginMsg) (s : LoginPanel) : Option LoginPanel :=
  match msg with
  | .user uinfo => some { s with playauths := uinfo :: s.playauths }
  | .null => none
  | .other => some s

/-- `longPolling`, in the chain of an opening. -/
def longPolling (opening : ℕ) (s : LoginPanel) : LoginPanel :=
  { s with polls := ⟨opening, s.qrcode⟩ :: s.polls }

/-- The callbacks of `longPolling`. -/
def callback (opening : ℕ) (reply : PollReply) (s : LoginPanel) : LoginPanel :=
  match reply with
  | .timeout => if s.longPollingOff then s else s.longPolling opening
  | .error => s
  | .done status msg =>
    if status = 200 then
      match s.storageUinfo msg with
      | some s => { s.closePanel with logins := s.logins + 1 }
      | none => s
    else if s.longPollingOff then s
    else s.longPolling opening

/-- `open` -/
def openPanel (s : LoginPanel) : LoginPanel :=
  if (s.accountInfo.map Uinfo.accountId).getD 0 = 0 then
    let s := s.render
    s.longPolling s.openings
  else s

/-- One event of the page. -/
def step (s : LoginPanel) : LoginEvent → Option LoginPanel
  | .opened => some s.openPanel
  | .closed => some s.closePanel
  | .goBackByJs => some (if s.visible then s.closePanel else s)
  | .qrcode qrsrc =>
    if 0 < s.qrcodes then
      some { s with qrcodes := s.qrcodes - 1, qrcode := qrsrc.getD s.qrcode }
    else none
  | .polled poll reply =>
    if poll ∈ s.polls then
      some (({ s with polls := s.polls.erase poll } : LoginPanel).callback poll.opening reply)
    else none
  | .playauth uinfo reply =>
    if uinfo ∈ s.playauths then
      let s := { s with playauths := s.playauths.erase uinfo }
      some (match reply with
        | some privileges =>
          { s with accountInfo := some { uinfo with privileges := privileges <|> uinfo.privileges } }
        | none => s)
    else none
  | .setItem accountInfo => some { s with accountInfo }

/-! ## The property -/

/-- The panel is open, in the opening that the chain of the request started in. -/
def Current (s : LoginPanel) (poll : LoginPoll) : Prop :=
  s.visible = true ∧ poll.opening = s.openings

/-- The next request of the chain has been sent. -/
def Renewed (s : LoginPanel) (poll : LoginPoll) (s' : LoginPanel) : Prop :=
  ∃ qrcode, s'.polls = ⟨poll.opening, qrcode⟩ :: s.polls.erase poll

/-- `account_info` has the user. -/
def Stored (s : LoginPanel) (uinfo : Uinfo) : Prop :=
  ∃ privileges, s.accountInfo = some { uinfo with privileges }

/-- What a reply is for has been done : the user is on the way to `account_info` and `login` has
been fired, or the next request has been sent. -/
def Acted (s : LoginPanel) (poll : LoginPoll) (reply : PollReply) (s' : LoginPanel) : Prop :=
  match reply with
  | .timeout => s.Renewed poll s'
  | .error => False
  | .done status msg =>
    if status = 200 then
      ∃ uinfo, msg = .user uinfo ∧ s'.playauths = uinfo :: s.playauths ∧ s'.logins = s.logins + 1
    else s.Renewed poll s'

/-- Only the request is no longer in flight. -/
def Ignored (s : LoginPanel) (poll : LoginPoll) (s' : LoginPanel) : Prop :=
  s' = { s with polls := s.polls.erase poll }

/-- A reply is acted on if it belongs to the opening on display, and ignored if it does not. Of a
login that was acted on, the user is stored once the privileges are known. -/
def Belongs (s : LoginPanel) (e : LoginEvent) (s' : LoginPanel) : Prop :=
  match e with
  | .polled poll reply =>
    reply ≠ .error → (s.Acted poll reply s' ↔ s.Current poll) ∧
      (¬s.Current poll → s.Ignored poll s')
  | .playauth uinfo _ => s'.Stored uinfo
  | _ => True

/-- A login brings a user and comes to the opening that its request belongs to, and once the panel
has been closed no other reply does. The request for the privileges of the user does not fail. -/
def Timely (s : LoginPanel) : LoginEvent → Prop
  | .polled poll .timeout => s.longPollingOff = true → ¬s.Current poll
  | .polled poll (.done status msg) =>
    if status = 200 then
      match msg with
      | .user _ => s.Current poll
      | .null => ¬s.Current poll
      | .other => False
    else s.longPollingOff = true → ¬s.Current poll
  | .playauth uinfo none => s.Stored uinfo
  | _ => True

/-! ## The invariant -/

/-- Until the panel is closed for the first time, all requests belong to its first opening. -/
def Unclosed (s : LoginPanel) : Prop :=
  s.longPollingOff = false → ∀ poll ∈ s.polls, s.Current poll

variable {s s' : LoginPanel}

theorem start_unclosed (accountInfo : Option Uinfo) : (start accountInfo).Unclosed :=
  fun _ _ h => absurd h List.not_mem_nil

theorem unclosed_of_off (h : s.longPollingOff = true) : s.Unclosed :=
  fun hoff => absurd (h.symm.trans hoff) (by decide)

/-- What `Unclosed` says nothing about. -/
theorem Unclosed.of_eq (h : s.Unclosed) (hoff : s'.longPollingOff = s.longPollingOff)
    (hpolls : s'.polls ⊆ s.polls) (hvisible : s'.visible = s.visible)
    (hopenings : s'.openings = s.openings) : s'.Unclosed := fun hoff' poll hpoll => by
  obtain ⟨hvis, hopening⟩ := h (hoff.symm.trans hoff') poll (hpolls hpoll)
  exact ⟨hvisible.trans hvis, hopening.trans hopenings.symm⟩

theorem Unclosed.openPanel (h : s.Unclosed) : s.openPanel.Unclosed := by
  unfold LoginPanel.openPanel
  split_ifs
  · intro hoff poll hpoll
    rcases List.mem_cons.mp hpoll with rfl | hpoll
    · exact ⟨rfl, rfl⟩
    · -- a request in flight, so the panel has been on display since
      obtain ⟨hvisible, hopening⟩ := h hoff poll hpoll
      exact ⟨rfl, by simp [longPolling, render, hvisible, hopening]⟩
  · exact h

/-- A request in the chain of a current one. -/
theorem Unclosed.longPolling (h : s.Unclosed) {poll : LoginPoll} (hcurrent : s.Current poll) :
    (s.longPolling poll.opening).Unclosed := fun hoff poll' hpoll' => by
  rcases List.mem_cons.mp hpoll' with rfl | hpoll'
  · exact hcurrent
  · exact h hoff poll' hpoll'

theorem Unclosed.callback (h : s.Unclosed) {poll : LoginPoll}
    (hcurrent : s.longPollingOff = false → s.Current poll) (reply : PollReply) :
    (s.callback poll.opening reply).Unclosed := by
  cases reply with
  | timeout =>
    unfold LoginPanel.callback
    dsimp only
    split_ifs with hoff
    · exact h
    · exact h.longPolling (hcurrent (by simpa using hoff))
  | error => exact h
  | done status msg =>
    unfold LoginPanel.callback
    dsimp only
    split_ifs with hstatus hoff
    · cases msg with
      | user uinfo => exact unclosed_of_off rfl
      | null => exact h
      | other => exact unclosed_of_off rfl
    · exact h
    · exact h.longPolling (hcurrent (by simpa using hoff))

/-- A reply takes its request out of those in flight, and runs the callback. -/
theorem step_polled {poll : LoginPoll} {reply : PollReply}
    (hstep : s.step (.polled poll reply) = some s') :
    poll ∈ s.polls ∧
      s' = ({ s with polls := s.polls.erase poll } : LoginPanel).callback poll.opening reply := by
  simp only [step, Option.ite_none_right_eq_some, Option.some.injEq] at hstep
  exact ⟨hstep.1, hstep.2.symm⟩

theorem Unclosed.step (h : s.Unclosed) {e : LoginEvent} (hstep : s.step e = some s') :
    s'.Unclosed := by
  cases e with
  | opened =>
    obtain rfl := Option.some.inj hstep
    exact h.openPanel
  | closed =>
    obtain rfl := Option.some.inj hstep
    exact unclosed_of_off rfl
  | goBackByJs =>
    obtain rfl := Option.some.inj hstep
    split_ifs
    · exact unclosed_of_off rfl
    · exact h
  | qrcode qrsrc =>
    simp only [LoginPanel.step, Option.ite_none_right_eq_some, Option.some.injEq] at hstep
    obtain ⟨-, rfl⟩ := hstep
    exact h.of_eq rfl (List.Subset.refl _) rfl rfl
  | polled poll reply =>
    obtain ⟨hpoll, rfl⟩ := step_polled hstep
    have herase : ({ s with polls := s.polls.erase poll } : LoginPanel).Unclosed :=
      h.of_eq rfl List.erase_subset rfl rfl
    exact herase.callback (fun hoff => h hoff poll hpoll) reply
  | playauth uinfo reply =>
    simp only [LoginPanel.step, Option.ite_none_right_eq_some, Option.some.injEq] at hstep
    obtain ⟨-, rfl⟩ := hstep
    cases reply with
    | none => exact h.of_eq rfl (List.Subset.refl _) rfl rfl
    | some privileges => exact h.of_eq rfl (List.Subset.refl _) rfl rfl
  | setItem accountInfo =>
    obtain rfl := Option.some.inj hstep
    exact h.of_eq rfl (List.Subset.refl _) rfl rfl

/-! ## The results -/

theorem renewed_longPolling (s : LoginPanel) (poll : LoginPoll) :
    s.Renewed poll
      (({ s with polls := s.polls.erase poll } : LoginPanel).longPolling poll.opening) :=
  ⟨s.qrcode, rfl⟩

/-- With one request less nothing has been renewed. -/
theorem not_renewed (s : LoginPanel) (poll : LoginPoll) :
    ¬s.Renewed poll ({ s with polls := s.polls.erase poll } : LoginPanel) := by
  rintro ⟨qrcode, h⟩
  have hlength := congrArg List.length h
  dsimp only at hlength
  rw [List.length_cons] at hlength
  omega

/-- With the flag set, a reply that is no login is ignored. Without it, the next request is
sent. -/
theorem Unclosed.belongs_of_renewal {poll : LoginPoll} (h : s.Unclosed) (hpoll : poll ∈ s.polls)
    (hs' : s' = if s.longPollingOff then { s with polls := s.polls.erase poll }
      else ({ s with polls := s.polls.erase poll } : LoginPanel).longPolling poll.opening) :
    ((s.Renewed poll s' ↔ s.Current poll) ∧ (¬s.Current poll → s.Ignored poll s')) ↔
      (s.longPollingOff = true → ¬s.Current poll) := by
  rw [hs']
  cases hoff : s.longPollingOff with
  | true =>
    have hnot := not_renewed s poll
    rw [hoff] at hnot
    exact ⟨fun hboth _ hcurrent => hnot (hboth.1.mpr hcurrent), fun hstale =>
      ⟨iff_of_false hnot (hstale rfl), fun _ => by rw [Ignored, hoff]; rfl⟩⟩
  | false =>
    have hrenewed := renewed_longPolling s poll
    rw [hoff] at hrenewed
    have hcurrent := h hoff poll hpoll
    exact iff_of_true ⟨iff_of_true hrenewed hcurrent, fun hstale => absurd hcurrent hstale⟩ nofun

/-- A login is acted on if it brings a user, whatever opening it belongs to. -/
theorem belongs_of_login {poll : LoginPoll} (msg : LoginMsg)
    (hs' : s' =
      ({ s with polls := s.polls.erase poll } : LoginPanel).callback poll.opening (.done 200 msg)) :
    ((s.Acted poll (.done 200 msg) s' ↔ s.Current poll) ∧
        (¬s.Current poll → s.Ignored poll s')) ↔ s.Timely (.polled poll (.done 200 msg)) := by
  subst hs'
  cases msg with
  | user uinfo =>
    have hacted : s.Acted poll (.done 200 (.user uinfo)) (({ s with polls := s.polls.erase poll } :
        LoginPanel).callback poll.opening (.done 200 (.user uinfo))) := ⟨uinfo, rfl, rfl, rfl⟩
    exact ⟨fun h => h.1.mp hacted, fun hcurrent =>
      ⟨iff_of_true hacted hcurrent, fun hstale => absurd hcurrent hstale⟩⟩
  | null => simp [Acted, Timely, callback, storageUinfo, Ignored]
  | other => simp [Acted, Timely, callback, storageUinfo, closePanel, Ignored]

/-- Under the invariant, a step handles its reply as it should exactly when its event is
`Timely`. -/
theorem Unclosed.belongs_iff_timely (h : s.Unclosed) {e : LoginEvent} (hstep : s.step e = some s') :
    s.Belongs e s' ↔ s.Timely e := by
  cases e with
  | polled poll reply =>
    obtain ⟨hpoll, hs'⟩ := step_polled hstep
    cases reply with
    | error => exact ⟨fun _ => trivial, fun _ hreply => absurd rfl hreply⟩
    | timeout =>
      have hrenewal := h.belongs_of_renewal hpoll hs'
      simpa [Belongs, Timely, Acted] using hrenewal
    | done status msg =>
      by_cases hstatus : status = 200
      · subst hstatus
        simpa [Belongs] using belongs_of_login msg hs'
      · rw [LoginPanel.callback, if_neg hstatus] at hs'
        have hrenewal := h.belongs_of_renewal hpoll hs'
        simpa [Belongs, Timely, Acted, hstatus] using hrenewal
  | playauth uinfo reply =>
    simp only [LoginPanel.step, Option.ite_none_right_eq_some, Option.some.injEq] at hstep
    obtain ⟨-, rfl⟩ := hstep
    cases reply with
    | none => exact Iff.rfl
    | some privileges => exact iff_of_true ⟨_, rfl⟩ trivial
  | opened | closed | goBackByJs | qrcode qrsrc | setItem accountInfo => exact Iff.rfl

/-- In a run, every reply is acted on if and only if it belongs to the opening on display, exactly
when every login brings a user to the opening its request belongs to, and no other reply comes to
an opening once the panel has been closed. -/
theorem belongs_iff (accountInfo : Option Uinfo) (es : List LoginEvent) :
    Steps step Belongs (start accountInfo) es ↔ Each step Timely (start accountInfo) es :=
  steps_iff_each (I := Unclosed) (fun _ _ _ h _ hstep => h.step hstep)
    (fun _ _ _ h hstep => h.belongs_iff_timely hstep) (start_unclosed accountInfo)

/-- Closed and opened again : the time-out of the new opening's request is not acted on, the login
that the old opening waited for is. -/
theorem reopened_deaf :
    ∃ t, run step (start none) [.opened, .closed, .opened] = some t ∧
      t.polls = [⟨2, ""⟩, ⟨1, ""⟩] ∧
      (∃ t', t.step (.polled ⟨2, ""⟩ .timeout) = some t' ∧ t.Current ⟨2, ""⟩ ∧
        t'.polls = [⟨1, ""⟩] ∧ ¬t.Belongs (.polled ⟨2, ""⟩ .timeout) t') ∧
      ∃ t', t.step (.polled ⟨1, ""⟩ (.done 200 (.user ⟨7, none⟩))) = some t' ∧
        ¬t.Current ⟨1, ""⟩ ∧ t'.logins = 1 ∧ t'.visible = false ∧
        ¬t.Belongs (.polled ⟨1, ""⟩ (.done 200 (.user ⟨7, none⟩))) t' := by
  have hold : ¬(((start none).openPanel.closePanel).openPanel).Current ⟨1, ""⟩ :=
    fun h => absurd h.2 (by decide)
  refine ⟨_, rfl, by decide, ⟨_, rfl, ⟨rfl, rfl⟩, by decide, fun h => ?_⟩,
    _, rfl, hold, by decide, by decide, fun h => ?_⟩
  · exact not_renewed _ _ ((h (by simp)).1.mpr ⟨rfl, rfl⟩)
  · exact hold ((h (by simp)).1.mp ⟨_, rfl, rfl, rfl⟩)

/-! ## After the first `closePanel` -/

/-- The callbacks find the flag set : no request is sent. -/
theorem callback_of_off (hoff : s.longPollingOff = true) (opening : ℕ) (reply : PollReply) :
    (s.callback opening reply).longPollingOff = true ∧
      (s.callback opening reply).polls = s.polls := by
  cases reply with
  | timeout => simp [callback, hoff]
  | error => exact ⟨hoff, rfl⟩
  | done status msg =>
    unfold callback
    dsimp only
    split_ifs
    · cases msg with
      | user uinfo => exact ⟨rfl, rfl⟩
      | null => exact ⟨hoff, rfl⟩
      | other => exact ⟨rfl, rfl⟩
    · exact ⟨hoff, rfl⟩

/-- Nothing takes the flag back. -/
theorem off_step (hoff : s.longPollingOff = true) {e : LoginEvent} (hstep : s.step e = some s') :
    s'.longPollingOff = true := by
  cases e with
  | opened =>
    obtain rfl := Option.some.inj hstep
    unfold openPanel
    split_ifs
    · exact hoff
    · exact hoff
  | closed =>
    obtain rfl := Option.some.inj hstep
    rfl
  | goBackByJs =>
    obtain rfl := Option.some.inj hstep
    split_ifs
    · rfl
    · exact hoff
  | qrcode qrsrc =>
    simp only [step, Option.ite_none_right_eq_some, Option.some.injEq] at hstep
    obtain ⟨-, rfl⟩ := hstep
    exact hoff
  | polled poll reply =>
    obtain ⟨-, rfl⟩ := step_polled hstep
    have herase : ({ s with polls := s.polls.erase poll } : LoginPanel).longPollingOff = true := hoff
    exact (callback_of_off herase poll.opening reply).1
  | playauth uinfo reply =>
    simp only [step, Option.ite_none_right_eq_some, Option.some.injEq] at hstep
    obtain ⟨-, rfl⟩ := hstep
    cases reply with
    | none => exact hoff
    | some privileges => exact hoff
  | setItem accountInfo =>
    obtain rfl := Option.some.inj hstep
    exact hoff

/-- Once the panel has been closed, each later opening asks a single time whether its QR code has
been scanned : no reply is followed by another request. -/
theorem no_renewal (hoff : s.longPollingOff = true) (es : List LoginEvent) :
    Steps step (fun s e s' => ∀ poll reply, e = .polled poll reply →
      s'.polls = s.polls.erase poll) s es := by
  refine steps_of_invariant (I := fun s => s.longPollingOff = true)
    (fun s e s' hoff hstep => off_step hoff hstep) (fun s e s' hoff hstep => ?_) hoff es
  rintro poll reply rfl
  obtain ⟨-, rfl⟩ := step_polled hstep
  have herase : ({ s with polls := s.polls.erase poll } : LoginPanel).longPollingOff = true := hoff
  exact (callback_of_off herase poll.opening reply).2

end LoginPanel

end MySocket
