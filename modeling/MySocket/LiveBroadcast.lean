import Mathlib.Data.List.Basic
import MySocket.Broadcast
import MySocket.Trace

/-!
# A broadcast over a list that changes

The broadcast loop of `tomcat7servlet` asks for the size of `mmiList`, gets an element and
sends the message, and counts its index up. Between any two of these steps other connections
can be opened, which adds them at the end of the list, or closed, which moves all later
ones one place to the left.

`complete_of_harmless` : the connections that are there all the time get the message exactly
once, and no index is out of bounds, if no close moves one of them from the place the loop
visits next to one it has passed, and no close between the test and `get` leaves nothing at the
place that was tested. If nobody comes between the two either, there is no other way.
-/

namespace MySocket

namespace Tomcat7Servlet

/-- Where the loop stands. -/
inductive LoopPhase (γ : Type*)
  /-- Before `i < mmiList.size()`. -/
  | test
  /-- Before `mmiList.get(i)`. -/
  | get
  /-- Before the message is written to `mmib`. -/
  | send (mmib : γ)
  /-- The loop has ended. -/
  | done
  /-- `get` was out of bounds. -/
  | failed
  deriving DecidableEq

/-- The list, the loop over it and the connections that the message was sent to, the last
one first. -/
structure Loop (γ : Type*) where
  mmiList : List γ
  i : ℕ
  phase : LoopPhase γ
  sent : List γ
  deriving DecidableEq

inductive LoopEvent (γ : Type*)
  | test
  | get
  | send
  | onOpen (c : γ)
  | onClose (c : γ)
  deriving DecidableEq

variable {γ : Type*} [DecidableEq γ]

namespace Loop

/-- `onTextMessage` has not returned yet. -/
def Running (s : Loop γ) : Prop :=
  s.phase ≠ .done ∧ s.phase ≠ .failed

instance (s : Loop γ) : Decidable s.Running :=
  inferInstanceAs (Decidable (_ ∧ _))

/-- A step of the loop, or of another connection while the loop is running. -/
def step (s : Loop γ) : LoopEvent γ → Option (Loop γ)
  | .test =>
    match s.phase with
    | .test =>
      if s.i < s.mmiList.length then some { s with phase := .get }
      else some { s with phase := .done }
    | _ => none
  | .get =>
    match s.phase with
    | .get =>
      match s.mmiList[s.i]? with
      | some mmib => some { s with phase := .send mmib }
      | none => some { s with phase := .failed }
    | _ => none
  | .send =>
    match s.phase with
    | .send mmib => some { s with phase := .test, i := s.i + 1, sent := mmib :: s.sent }
    | _ => none
  | .onOpen c =>
    if s.Running ∧ c ∉ s.mmiList then some { s with mmiList := s.mmiList ++ [c] } else none
  | .onClose c =>
    if s.Running then some { s with mmiList := s.mmiList.erase c } else none

/-- `onTextMessage` is called. -/
def start (mmiList : List γ) : Loop γ :=
  ⟨mmiList, 0, .test, []⟩

/-- The connections in `stay` have the message once, and the loop has not failed. -/
def Complete (stay : γ → Prop) (s : Loop γ) : Prop :=
  s.phase ≠ .failed ∧ ∀ c, stay c → s.sent.count c = 1

/-- The places before this one have been visited. -/
def passed (s : Loop γ) : ℕ :=
  match s.phase with
  | .send _ => s.i + 1
  | _ => s.i

/-- A close in the part that has been visited does not move up a connection in `stay` from the
place that comes next; a close between the test and `get` leaves more than `i` connections. -/
def Harmless (stay : γ → Prop) (s : Loop γ) : LoopEvent γ → Prop
  | .onClose c =>
    (s.mmiList.idxOf c < s.passed → ∀ d, s.mmiList[s.passed]? = some d → ¬stay d) ∧
      (s.phase = .get → s.i < (s.mmiList.erase c).length)
  | _ => True

/-- No connection is opened between the test and `get`. -/
def Unjoined (s : Loop γ) : LoopEvent γ → Prop
  | .onOpen _ => s.phase ≠ .get
  | _ => True

/-- The connections that `get` has returned, the last one first. -/
def taken (s : Loop γ) : List γ :=
  match s.phase with
  | .send mmib => mmib :: s.sent
  | _ => s.sent

/-- Those that stay are in the list; they were taken once if their place was passed, and not
yet if it was not. -/
structure Sound (stay : γ → Prop) (s : Loop γ) : Prop where
  nodup : s.mmiList.Nodup
  mem : ∀ c, stay c → c ∈ s.mmiList
  once : ∀ c, stay c → s.mmiList.idxOf c < s.passed → s.taken.count c = 1
  notYet : ∀ c, stay c → s.passed ≤ s.mmiList.idxOf c → s.taken.count c = 0
  found : s.phase ≠ .failed
  ahead : s.phase = .get → s.i < s.mmiList.length
  finished : s.phase = .done → s.mmiList.length ≤ s.i

/-- It has passed a connection that stays without taking it. -/
def Missed (stay : γ → Prop) (s : Loop γ) : Prop :=
  s.mmiList.Nodup ∧ ∃ d, stay d ∧ d ∈ s.mmiList ∧ s.mmiList.idxOf d < s.passed ∧ d ∉ s.taken

/-- The loop has failed, or it will with the next `get`. -/
def Short (s : Loop γ) : Prop :=
  s.phase = .failed ∨ s.phase = .get ∧ s.mmiList.length ≤ s.i

variable {stay : γ → Prop} {s s' : Loop γ} {e : LoopEvent γ}

theorem step_cases (h : s.step e = some s') :
    (e = .test ∧ s.phase = .test ∧ s.i < s.mmiList.length ∧ s' = { s with phase := .get }) ∨
    (e = .test ∧ s.phase = .test ∧ s.mmiList.length ≤ s.i ∧ s' = { s with phase := .done }) ∨
    (∃ hi : s.i < s.mmiList.length, e = .get ∧ s.phase = .get ∧
      s' = { s with phase := .send s.mmiList[s.i] }) ∨
    (e = .get ∧ s.phase = .get ∧ s.mmiList.length ≤ s.i ∧ s' = { s with phase := .failed }) ∨
    (∃ mmib, e = .send ∧ s.phase = .send mmib ∧
      s' = { s with phase := .test, i := s.i + 1, sent := mmib :: s.sent }) ∨
    (∃ c, e = .onOpen c ∧ s.Running ∧ c ∉ s.mmiList ∧ s' = { s with mmiList := s.mmiList ++ [c] }) ∨
    (∃ c, e = .onClose c ∧ s.Running ∧ s' = { s with mmiList := s.mmiList.erase c }) := by
  cases e with
  | test =>
    simp only [step] at h
    split at h
    · split at h
      · exact .inl ⟨rfl, ‹_›, ‹_›, (Option.some.inj h).symm⟩
      · exact .inr (.inl ⟨rfl, ‹_›, not_lt.mp ‹_›, (Option.some.inj h).symm⟩)
    · cases h
  | get =>
    simp only [step] at h
    split at h
    · split at h
      · rename_i mmib hget
        obtain ⟨hi, rfl⟩ := List.getElem?_eq_some_iff.mp hget
        exact .inr (.inr (.inl ⟨hi, rfl, ‹_›, (Option.some.inj h).symm⟩))
      · rename_i hget
        exact .inr (.inr (.inr (.inl
          ⟨rfl, ‹_›, List.getElem?_eq_none_iff.mp hget, (Option.some.inj h).symm⟩)))
    · cases h
  | send =>
    simp only [step] at h
    split at h
    · exact .inr (.inr (.inr (.inr (.inl ⟨_, rfl, ‹_›, (Option.some.inj h).symm⟩))))
    · cases h
  | onOpen c =>
    simp only [step] at h
    split at h
    · rename_i hrun
      exact .inr (.inr (.inr (.inr (.inr (.inl
        ⟨c, rfl, hrun.1, hrun.2, (Option.some.inj h).symm⟩)))))
    · cases h
  | onClose c =>
    simp only [step] at h
    split at h
    · exact .inr (.inr (.inr (.inr (.inr (.inr ⟨c, rfl, ‹_›, (Option.some.inj h).symm⟩)))))
    · cases h

/-- Where an element is once another one is removed. -/
theorem idxOf_erase {c d : γ} (l : List γ) (h : d ≠ c) :
    (l.erase c).idxOf d = if l.idxOf c < l.idxOf d then l.idxOf d - 1 else l.idxOf d := by
  induction l with
  | nil => rfl
  | cons x l ih => grind

/-- The element at a place is the one whose index it is. -/
theorem getElem?_eq_some_iff_idxOf {l : List γ} (hl : l.Nodup) {n : ℕ} {d : γ} (hd : d ∈ l) :
    l[n]? = some d ↔ l.idxOf d = n := by
  constructor
  · intro h
    obtain ⟨hn, rfl⟩ := List.getElem?_eq_some_iff.mp h
    exact List.Nodup.idxOf_getElem hl n hn
  · rintro rfl
    exact List.getElem?_idxOf hd

/-- A step that passes no place and takes no connection. -/
theorem Sound.phase {p : LoopPhase γ} {i : ℕ} {sent : List γ} (h : s.Sound stay)
    (hpassed : passed { s with phase := p, i, sent } = s.passed)
    (htaken : Loop.taken { s with phase := p, i, sent } = s.taken) (hp : p ≠ .failed)
    (hahead : p = .get → i < s.mmiList.length) (hdone : p = .done → s.mmiList.length ≤ i) :
    Sound stay { s with phase := p, i, sent } where
  nodup := h.nodup
  mem := h.mem
  once := fun d hd hlt => htaken ▸ h.once d hd (hpassed ▸ hlt)
  notYet := fun d hd hle => htaken ▸ h.notYet d hd (hpassed ▸ hle)
  found := hp
  ahead := hahead
  finished := hdone

/-- `get` passes the next place and takes the connection there. -/
theorem Sound.get (h : s.Sound stay) (hp : s.phase = .get) (hi : s.i < s.mmiList.length) :
    Sound stay { s with phase := .send s.mmiList[s.i] } := by
  have hpassed : s.passed = s.i := by simp only [passed, hp]
  have htaken : s.taken = s.sent := by simp only [Loop.taken, hp]
  have hplace : ∀ d, stay d → (s.mmiList[s.i] = d ↔ s.mmiList.idxOf d = s.i) := fun d hd => by
    rw [← getElem?_eq_some_iff_idxOf h.nodup (h.mem d hd), List.getElem?_eq_getElem hi,
      Option.some.injEq]
  refine ⟨h.nodup, h.mem, fun d hd hlt => ?_, fun d hd hle => ?_, by simp, by simp, by simp⟩
  · change (s.mmiList[s.i] :: s.sent).count d = 1
    change s.mmiList.idxOf d < s.i + 1 at hlt
    by_cases heq : s.mmiList[s.i] = d
    · have hnew := h.notYet d hd (by rw [hpassed, (hplace d hd).mp heq])
      rw [heq, List.count_cons_self, ← htaken, hnew]
    · have hne : s.mmiList.idxOf d ≠ s.i := fun hidx => heq ((hplace d hd).mpr hidx)
      rw [List.count_cons_of_ne heq, ← htaken]
      exact h.once d hd (by omega)
  · change (s.mmiList[s.i] :: s.sent).count d = 0
    change s.i + 1 ≤ s.mmiList.idxOf d at hle
    have heq : s.mmiList[s.i] ≠ d := fun heq => by
      have := (hplace d hd).mp heq
      omega
    rw [List.count_cons_of_ne heq, ← htaken]
    exact h.notYet d hd (by omega)

/-- Connections are added after all that stay. -/
theorem Sound.onOpen {c : γ} (h : s.Sound stay) (hrun : s.Running) (hc : c ∉ s.mmiList) :
    Sound stay { s with mmiList := s.mmiList ++ [c] } := by
  have hidx : ∀ d, stay d → (s.mmiList ++ [c]).idxOf d = s.mmiList.idxOf d := fun d hd =>
    List.idxOf_append_of_mem (h.mem d hd)
  refine ⟨?_, fun d hd => List.mem_append_left _ (h.mem d hd), fun d hd hlt => ?_,
    fun d hd hle => ?_, h.found, fun hp => ?_, fun hdone => absurd hdone hrun.1⟩
  · exact List.nodup_append.mpr ⟨h.nodup, by simp, by simpa using fun d hd => ne_of_mem_of_not_mem hd hc⟩
  · exact h.once d hd (hidx d hd ▸ hlt)
  · exact h.notYet d hd (hidx d hd ▸ hle)
  · rw [List.length_append]
    exact Nat.lt_add_right _ (h.ahead hp)

/-- A close that moves no connection that stays to a place already passed, and leaves one for
`get`. -/
theorem Sound.onClose {c : γ} (h : s.Sound stay) (hrun : s.Running) (hc : ¬stay c)
    (hok : s.Harmless stay (.onClose c)) : Sound stay { s with mmiList := s.mmiList.erase c } := by
  have hne : ∀ d, stay d → d ≠ c := fun d hd heq => hc (heq ▸ hd)
  have hidx : ∀ d, stay d → _ := fun d hd => idxOf_erase s.mmiList (hne d hd)
  -- what stays is not at the next place if a place before that falls away
  have hnext : ∀ d, stay d → s.mmiList.idxOf c < s.passed → s.mmiList.idxOf d ≠ s.passed :=
    fun d hd hlt heq => hok.1 hlt d ((getElem?_eq_some_iff_idxOf h.nodup (h.mem d hd)).mpr heq) hd
  refine ⟨h.nodup.erase c, fun d hd => (List.mem_erase_of_ne (hne d hd)).mpr (h.mem d hd),
    fun d hd hlt => ?_, fun d hd hle => ?_, h.found, hok.2, fun hdone => absurd hdone hrun.1⟩
  · change (s.mmiList.erase c).idxOf d < s.passed at hlt
    rw [hidx d hd] at hlt
    have := hnext d hd
    refine h.once d hd ?_
    split at hlt <;> omega
  · change s.passed ≤ (s.mmiList.erase c).idxOf d at hle
    rw [hidx d hd] at hle
    refine h.notYet d hd ?_
    split at hle <;> omega

theorem Sound.step (h : s.Sound stay) (hA : ∀ c, e = .onClose c → ¬stay c)
    (hok : s.Harmless stay e) (hstep : s.step e = some s') : s'.Sound stay := by
  rcases step_cases hstep with ⟨-, hp, hi, rfl⟩ | ⟨-, hp, hi, rfl⟩ | ⟨hi, -, hp, rfl⟩ |
    ⟨rfl, hp, hi, rfl⟩ | ⟨mmib, -, hp, rfl⟩ | ⟨c, -, hrun, hc, rfl⟩ | ⟨c, rfl, hrun, rfl⟩
  · exact h.phase (by simp only [passed, hp]) (by simp only [Loop.taken, hp]) (by simp)
      (fun _ => hi) (by simp)
  · exact h.phase (by simp only [passed, hp]) (by simp only [Loop.taken, hp]) (by simp) (by simp)
      fun _ => hi
  · exact h.get hp hi
  · exact absurd (h.ahead hp) (not_lt.mpr hi)
  · exact h.phase (by simp only [passed, hp]) (by simp only [Loop.taken, hp]) (by simp) (by simp)
      (by simp)
  · exact h.onOpen hrun hc
  · exact h.onClose hrun (hA c rfl) hok

/-- A loop that has failed takes no step. -/
theorem step_of_failed (hfail : s.phase = .failed) (e : LoopEvent γ) : s.step e = none := by
  cases e <;> simp [step, Running, hfail]

/-- A step that passes no place and takes no connection. -/
theorem Missed.phase {p : LoopPhase γ} {i : ℕ} {sent : List γ} (h : s.Missed stay)
    (hpassed : passed { s with phase := p, i, sent } = s.passed)
    (htaken : Loop.taken { s with phase := p, i, sent } = s.taken) :
    Missed stay { s with phase := p, i, sent } := by
  obtain ⟨hnodup, d, hd, hmem, hlt, hnot⟩ := h
  exact ⟨hnodup, d, hd, hmem, hpassed ▸ hlt, htaken ▸ hnot⟩

/-- A connection that was missed is never visited. -/
theorem Missed.step (h : s.Missed stay) (hA : ∀ c, e = .onClose c → ¬stay c)
    (hstep : s.step e = some s') : s'.Missed stay := by
  have ⟨hnodup, d, hd, hmem, hlt, htaken⟩ := h
  rcases step_cases hstep with ⟨-, hp, -, rfl⟩ | ⟨-, hp, -, rfl⟩ | ⟨hi, -, hp, rfl⟩ |
    ⟨-, hp, -, rfl⟩ | ⟨mmib, -, hp, rfl⟩ | ⟨c, -, -, hc, rfl⟩ | ⟨c, rfl, -, rfl⟩
  · exact h.phase (by simp only [passed, hp]) (by simp only [Loop.taken, hp])
  · exact h.phase (by simp only [passed, hp]) (by simp only [Loop.taken, hp])
  · -- the place that `get` visits comes later
    simp only [passed, Loop.taken, hp] at hlt htaken
    have hne : d ≠ s.mmiList[s.i] := fun heq => by
      have := hnodup.idxOf_getElem s.i hi
      rw [← heq] at this
      omega
    refine ⟨hnodup, d, hd, hmem, Nat.lt_succ_of_lt hlt, ?_⟩
    exact fun hin => (List.mem_cons.mp hin).elim hne htaken
  · exact h.phase (by simp only [passed, hp]) (by simp only [Loop.taken, hp])
  · exact h.phase (by simp only [passed, hp]) (by simp only [Loop.taken, hp])
  · refine ⟨?_, d, hd, List.mem_append_left _ hmem, ?_, htaken⟩
    · exact List.nodup_append.mpr
        ⟨hnodup, by simp, by simpa using fun d hd => ne_of_mem_of_not_mem hd hc⟩
    · exact (List.idxOf_append_of_mem hmem).symm ▸ hlt
  · have hne : d ≠ c := fun heq => hA c rfl (heq ▸ hd)
    refine ⟨hnodup.erase c, d, hd, (List.mem_erase_of_ne hne).mpr hmem, ?_, htaken⟩
    change (s.mmiList.erase c).idxOf d < s.passed
    rw [idxOf_erase s.mmiList hne]
    split <;> omega

/-- With nobody coming, nothing comes to the place that `get` looks at. -/
theorem Short.step (h : s.Short) (hA : s.Unjoined e) (hstep : s.step e = some s') : s'.Short := by
  rcases h with hfail | ⟨hp, hi⟩
  · rw [step_of_failed hfail] at hstep
    cases hstep
  rcases step_cases hstep with ⟨-, hp', -⟩ | ⟨-, hp', -⟩ | ⟨hi', -⟩ | ⟨-, -, -, rfl⟩ |
    ⟨mmib, -, hp', -⟩ | ⟨c, rfl, -⟩ | ⟨c, -, -, rfl⟩
  · rw [hp] at hp'
    cases hp'
  · rw [hp] at hp'
    cases hp'
  · omega
  · exact .inl rfl
  · rw [hp] at hp'
    cases hp'
  · exact absurd hp hA
  · exact .inr ⟨hp, List.length_erase_le.trans hi⟩

/-- Any other step makes the loop miss a connection or run short. -/
theorem Sound.spoilt (h : s.Sound stay) (hA : ∀ c, e = .onClose c → ¬stay c)
    (hbad : ¬s.Harmless stay e) (hstep : s.step e = some s') : s'.Missed stay ∨ s'.Short := by
  rcases step_cases hstep with ⟨rfl, -⟩ | ⟨rfl, -⟩ | ⟨hi, rfl, -⟩ | ⟨rfl, -⟩ | ⟨mmib, rfl, -⟩ |
    ⟨c, rfl, -⟩ | ⟨c, rfl, -, rfl⟩
  · exact absurd trivial hbad
  · exact absurd trivial hbad
  · exact absurd trivial hbad
  · exact absurd trivial hbad
  · exact absurd trivial hbad
  · exact absurd trivial hbad
  rcases not_and_or.mp hbad with hmove | hshort
  · obtain ⟨hlt, d, hget, hd⟩ : s.mmiList.idxOf c < s.passed ∧
        ∃ d, s.mmiList[s.passed]? = some d ∧ stay d := by
      simpa using hmove
    have hne : d ≠ c := fun heq => hA c rfl (heq ▸ hd)
    have hidx := (getElem?_eq_some_iff_idxOf h.nodup (h.mem d hd)).mp hget
    refine .inl ⟨h.nodup.erase c, d, hd, (List.mem_erase_of_ne hne).mpr (h.mem d hd), ?_, ?_⟩
    · change (s.mmiList.erase c).idxOf d < s.passed
      rw [idxOf_erase s.mmiList hne]
      split <;> omega
    · exact List.count_eq_zero.mp (h.notYet d hd hidx.ge)
  · obtain ⟨hp, hi⟩ := Classical.not_imp.mp hshort
    exact .inr (.inr ⟨hp, not_lt.mp hi⟩)

theorem Sound.complete (h : s.Sound stay) (hover : ¬s.Running) : s.Complete stay := by
  have hdone : s.phase = .done := by
    by_contra hp
    exact hover ⟨hp, h.found⟩
  refine ⟨h.found, fun c hc => ?_⟩
  have hlt := List.idxOf_lt_length_of_mem (h.mem c hc)
  have honce := h.once c hc
  simp only [passed, Loop.taken, hdone] at honce
  exact honce (hlt.trans_le (h.finished hdone))

theorem Missed.not_complete (h : s.Missed stay) (hover : ¬s.Running) : ¬s.Complete stay := by
  rintro ⟨hfound, hcount⟩
  have hdone : s.phase = .done := by
    by_contra hp
    exact hover ⟨hp, hfound⟩
  obtain ⟨-, d, hd, -, -, htaken⟩ := h
  simp only [Loop.taken, hdone] at htaken
  have := hcount d hd
  rw [List.count_eq_zero.mpr htaken] at this
  omega

theorem Short.not_complete (h : s.Short) (hover : ¬s.Running) : ¬s.Complete stay := by
  rintro ⟨hfound, -⟩
  rcases h with hfail | ⟨hp, -⟩
  · exact hfound hfail
  · exact hover ⟨by simp [hp], hfound⟩

theorem start_sound {mmiList : List γ} (hnodup : mmiList.Nodup) (hstay : ∀ c, stay c → c ∈ mmiList) :
    (start mmiList).Sound stay where
  nodup := hnodup
  mem := hstay
  once := fun d _ hlt => absurd hlt (Nat.not_lt_zero _)
  notYet := fun _ _ _ => rfl
  found := by simp [start]
  ahead := by simp [start]
  finished := by simp [start]

/-- The connections that are in the list when the broadcast begins and are not closed by the
events of the run. -/
def Stays (mmiList : List γ) (es : List (LoopEvent γ)) (c : γ) : Prop :=
  c ∈ mmiList ∧ .onClose c ∉ es

/-- A broadcast that is over has reached every connection that stayed, once, without a `get` out
of bounds, if each close was harmless to these connections. This is also necessary unless a
connection was opened between a test and its `get`. -/
theorem complete_of_harmless {mmiList : List γ} (hnodup : mmiList.Nodup)
    {es : List (LoopEvent γ)} {t : Loop γ} (hrun : run step (start mmiList) es = some t)
    (hover : ¬t.Running) :
    (Each step (Harmless (Stays mmiList es)) (start mmiList) es →
        t.Complete (Stays mmiList es)) ∧
      (Each step Unjoined (start mmiList) es → t.Complete (Stays mmiList es) →
        Each step (Harmless (Stays mmiList es)) (start mmiList) es) := by
  have hA : Each step (fun _ e => ∀ c, e = .onClose c → ¬Stays mmiList es c)
      (start mmiList) es := by
    refine each_of_mem ?_
    rintro e he c rfl ⟨-, hnot⟩
    exact hnot he
  have hstart := start_sound hnodup fun c (hc : Stays mmiList es c) => hc.1
  constructor
  · intro heach
    have hsound : Always step (Sound (Stays mmiList es)) (start mmiList) es :=
      (heach.and hA).always (fun _ _ _ h hok hstep => h.step hok.2 hok.1 hstep) hstart
    exact (hsound.last hrun).complete hover
  · intro hjoin hcomplete
    have hend : Each step (Harmless (Stays mmiList es)) (start mmiList) es ∧
          t.Sound (Stays mmiList es) ∨
        ¬Each step (Harmless (Stays mmiList es)) (start mmiList) es ∧
          (t.Missed (Stays mmiList es) ∨ t.Short) :=
      each_or_spoilt (fun _ _ _ h hA hok hstep => h.step hA.1 hok hstep)
        (fun _ _ _ h hA hbad hstep => h.spoilt hA.1 hbad hstep)
        (fun _ _ _ h hA hstep => h.imp (fun h => h.step hA.1 hstep) fun h => h.step hA.2 hstep)
        hstart (hA.and hjoin) hrun
    rcases hend with ⟨heach, -⟩ | ⟨-, ht | ht⟩
    · exact heach
    · exact absurd hcomplete (ht.not_complete hover)
    · exact absurd hcomplete (ht.not_complete hover)

/-! ## A list that does not change -/

/-- One iteration. -/
def iteration : List (LoopEvent γ) :=
  [.test, .get, .send]

theorem run_iteration {mmiList sent : List γ} {i : ℕ} (hi : i < mmiList.length) :
    run step ⟨mmiList, i, .test, sent⟩ iteration =
      some ⟨mmiList, i + 1, .test, mmiList[i] :: sent⟩ := by
  simp [iteration, run_cons, step, hi]

theorem run_iterations (mmiList : List γ) :
    ∀ (n i : ℕ), i + n ≤ mmiList.length →
      run step ⟨mmiList, i, .test, (mmiList.take i).reverse⟩ (List.replicate n iteration).flatten =
        some ⟨mmiList, i + n, .test, (mmiList.take (i + n)).reverse⟩
  | 0, i, _ => rfl
  | n + 1, i, h => by
    have htake : mmiList[i] :: (mmiList.take i).reverse = (mmiList.take (i + 1)).reverse := by
      rw [← List.take_append_getElem (by omega), List.reverse_append]
      rfl
    have hrest := run_iterations mmiList n (i + 1) (by omega)
    rw [List.replicate_succ, List.flatten_cons, run_append, run_iteration (by omega),
      Option.bind_some, htake, hrest, Nat.add_right_comm]
    rfl

/-- With nobody coming or going the loop is the one of `sendFrom`. -/
theorem run_alone (mmiList : List γ) (message : String) :
    ∃ t, run step (start mmiList)
        ((List.replicate mmiList.length iteration).flatten ++ [.test]) = some t ∧
      ¬t.Running ∧
      t.sent.reverse.map (fun c => (c, message)) =
        (Tomcat7Servlet.onTextMessage working message mmiList).written := by
  have hall := run_iterations mmiList mmiList.length 0 (by omega)
  rw [Nat.zero_add, List.take_length] at hall
  refine ⟨⟨mmiList, mmiList.length, .done, mmiList.reverse⟩, ?_, fun h => h.1 rfl, ?_⟩
  · rw [run_append, start, show ([] : List γ) = (mmiList.take 0).reverse from rfl, hall]
    simp [run_cons, step]
  · rw [Tomcat7Servlet.onTextMessage, sendFrom_eq, List.drop_zero, sendAll_working,
      List.reverse_reverse]

end Loop

/-- The first of three connections closes after it was served : the second is passed over. -/
def firstCloses : List (LoopEvent ℕ) :=
  [.test, .get, .send, .onClose 0, .test, .get, .send, .test]

/-- The last connection closes after it was counted and before it is looked up. -/
def lastCloses : List (LoopEvent ℕ) :=
  [.test, .onClose 0, .get]

theorem connection_skipped :
    run Loop.step (Loop.start [0, 1, 2]) firstCloses = some ⟨[1, 2], 2, .done, [2, 0]⟩ ∧
      ¬Loop.Complete (Loop.Stays [0, 1, 2] firstCloses) ⟨[1, 2], 2, .done, [2, 0]⟩ ∧
      run Loop.step (Loop.start [0]) lastCloses = some ⟨[], 0, .failed, []⟩ ∧
      ¬Loop.Complete (Loop.Stays [0] lastCloses) ⟨[], 0, .failed, []⟩ := by
  refine ⟨by decide, fun h => ?_, by decide, fun h => h.1 rfl⟩
  exact absurd (h.2 1 ⟨by decide, by decide⟩) (by decide)

/-- A connection closes before its turn, and after a test that found another one. -/
theorem nobody_skipped :
    Loop.Complete (Loop.Stays [0, 1] [.test, .onClose 1, .get, .send, .test])
        ⟨[0], 1, .done, [0]⟩ ∧
      Each Loop.step (Loop.Harmless (Loop.Stays [0, 1] [.test, .onClose 1, .get, .send, .test]))
        (Loop.start [0, 1]) [.test, .onClose 1, .get, .send, .test] := by
  obtain ⟨hsuffices, hneeded⟩ := @Loop.complete_of_harmless ℕ _ [0, 1] (by decide)
    [.test, .onClose 1, .get, .send, .test] ⟨[0], 1, .done, [0]⟩ rfl (by decide)
  have hcomplete : Loop.Complete (Loop.Stays [0, 1] [.test, .onClose 1, .get, .send, .test])
      ⟨[0], 1, .done, [0]⟩ := by
    refine hsuffices (.cons rfl trivial (.cons rfl ⟨?_, ?_⟩ (.cons rfl trivial (.cons rfl trivial
      (.cons rfl trivial trivial)))))
    · exact fun hlt => absurd hlt (by decide)
    · exact fun _ => by decide
  refine ⟨hcomplete, hneeded ?_ hcomplete⟩
  exact .cons rfl trivial (.cons rfl trivial (.cons rfl trivial (.cons rfl trivial
    (.cons rfl trivial trivial))))

end Tomcat7Servlet

end MySocket
