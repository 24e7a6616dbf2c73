import Mathlib.Data.List.AList
import MySocket.Trace

/-!
# The registry of WebSocket connections

`HelloWorldWebSocketServlet` and `LineWebSocketServlet` keep the open connections in the
static map `mmiList`. `onOpen` stores the connection under the millisecond it was opened
in, `onClose` removes that key. The two servlets differ in the greeting they send.

* `Keyed.step` : in every run only open connections are stored, each under its own key;
  so no connection is stored twice.
* `Registered.step`, `registered_distinct` : no open connection goes missing exactly as
  long as no `onOpen` reads the millisecond of a connection that is still open.
-/

set_option linter.unusedSectionVars false

namespace MySocket

/-- The servlets that register their connections in `mmiList`. -/
inductive Servlet
  /-- `HelloWorldWebSocketServlet` of the project `Test`. -/
  | helloWorld
  /-- `LineWebSocketServlet`. -/
  | line

/-- What `onOpen` writes to the new connection. -/
def Servlet.greeting : Servlet → String → String
  | .helloWorld, mykey => "open " ++ mykey
  | .line, mykey => mykey

/-- Whether a connection has been opened and closed. -/
inductive ConnStatus
  | fresh
  | live
  | closed
  deriving DecidableEq

/-- The map, the field `mykey` of each connection object, the last clock reading, and
which connections are open. -/
structure Registry (γ : Type*) where
  mmiList : AList fun _ : String => γ
  mykey : γ → Option String
  clock : ℕ
  status : γ → ConnStatus

/-- What happens to a connection; `ms` is what `System.currentTimeMillis()` returns. -/
inductive ConnEvent (γ : Type*)
  | onOpen (c : γ) (ms : ℕ)
  | onClose (c : γ)

section

variable {γ : Type*} [DecidableEq γ]

namespace Registry

/-- `MyMessageInbound.onOpen` : the registry afterwards, and the greeting. A failed
write of the greeting is caught, and changes nothing. -/
def onOpen (v : Servlet) (r : Registry γ) (c : γ) (ms : ℕ) : Registry γ × String :=
  ({ mmiList := r.mmiList.insert (toString ms) c
     mykey := Function.update r.mykey c (some (toString ms))
     clock := ms
     status := Function.update r.status c .live }, v.greeting (toString ms))

/-- `MyMessageInbound.onClose`; `remove` of a null key removes nothing. -/
def onClose (r : Registry γ) (c : γ) : Registry γ :=
  { r with
    mmiList := match r.mykey c with
      | some k => r.mmiList.erase k
      | none => r.mmiList
    status := Function.update r.status c .closed }

/-- The container opens a connection once and closes it at most once after that; the
clock does not run backwards. -/
def step (v : Servlet) (r : Registry γ) : ConnEvent γ → Option (Registry γ)
  | .onOpen c ms => if r.status c = .fresh ∧ r.clock ≤ ms then some (r.onOpen v c ms).1 else none
  | .onClose c => if r.status c = .live then some (r.onClose c) else none

variable {v : Servlet} {r r' : Registry γ}

theorem step_cases {e : ConnEvent γ} (h : r.step v e = some r') :
    (∃ c ms, e = .onOpen c ms ∧ r.status c = .fresh ∧ r.clock ≤ ms ∧ r' = (r.onOpen v c ms).1) ∨
    (∃ c, e = .onClose c ∧ r.status c = .live ∧ r' = r.onClose c) := by
  cases e with
  | onOpen c ms =>
    simp only [step, Option.ite_none_right_eq_some, Option.some.injEq] at h
    exact .inl ⟨c, ms, rfl, h.1.1, h.1.2, h.2.symm⟩
  | onClose c =>
    simp only [step, Option.ite_none_right_eq_some, Option.some.injEq] at h
    exact .inr ⟨c, rfl, h.1, h.2.symm⟩

theorem onOpen_lookup (c : γ) (ms : ℕ) (k : String) :
    (r.onOpen v c ms).1.mmiList.lookup k =
      if k = toString ms then some c else r.mmiList.lookup k := by
  simp only [onOpen]
  split_ifs with h
  · rw [h, AList.lookup_insert]
  · rw [AList.lookup_insert_ne h]

theorem onOpen_mykey (c d : γ) (ms : ℕ) :
    (r.onOpen v c ms).1.mykey d = if d = c then some (toString ms) else r.mykey d := by
  simp [onOpen, Function.update_apply]

theorem onOpen_status (c d : γ) (ms : ℕ) :
    (r.onOpen v c ms).1.status d = if d = c then .live else r.status d := by
  simp [onOpen, Function.update_apply]

theorem onClose_lookup (c : γ) (k : String) :
    (r.onClose c).mmiList.lookup k =
      if r.mykey c = some k then none else r.mmiList.lookup k := by
  simp only [onClose]
  cases hk : r.mykey c with
  | none => simp
  | some k' =>
    by_cases h : k = k'
    · rw [h, AList.lookup_erase, if_pos rfl]
    · simp [AList.lookup_erase_ne h, Ne.symm h]

theorem onClose_status (c d : γ) :
    (r.onClose c).status d = if d = c then .closed else r.status d := by
  simp [onClose, Function.update_apply]

/-! ## What every run keeps -/

/-- Only open connections are stored, each under its own key. -/
def Keyed (r : Registry γ) : Prop :=
  ∀ k c, r.mmiList.lookup k = some c → r.mykey c = some k ∧ r.status c = .live

theorem Keyed.step {e : ConnEvent γ} (h : r.Keyed) (hstep : r.step v e = some r') :
    r'.Keyed := by
  rcases step_cases hstep with ⟨c, ms, rfl, hc, -, rfl⟩ | ⟨c, rfl, hc, rfl⟩
  · intro k d hd
    rw [onOpen_lookup] at hd
    rw [onOpen_mykey, onOpen_status]
    split_ifs at hd with hk
    · obtain rfl := Option.some.inj hd
      simp [hk]
    · obtain ⟨hkey, hlive⟩ := h k d hd
      have hne : d ≠ c := by
        rintro rfl
        rw [hc] at hlive
        cases hlive
      simp [hne, hkey, hlive]
  · intro k d hd
    rw [onClose_lookup] at hd
    split_ifs at hd with hk
    obtain ⟨hkey, hlive⟩ := h k d hd
    have hne : d ≠ c := by
      rintro rfl
      exact hk hkey
    rw [onClose_status, if_neg hne]
    exact ⟨hkey, hlive⟩

/-- The stored connections, in the order the map lists them. -/
def values (r : Registry γ) : List γ :=
  r.mmiList.entries.map Sigma.snd

theorem mem_values {c : γ} : c ∈ r.values ↔ ∃ k, r.mmiList.lookup k = some c := by
  simp only [values, List.mem_map, AList.lookup, ← Option.mem_def]
  constructor
  · rintro ⟨⟨k, d⟩, hmem, rfl⟩
    exact ⟨k, (List.mem_dlookup_iff r.mmiList.nodupKeys).mpr hmem⟩
  · rintro ⟨k, hk⟩
    exact ⟨⟨k, c⟩, (List.mem_dlookup_iff r.mmiList.nodupKeys).mp hk, rfl⟩

/-- No connection is stored twice. -/
theorem Keyed.nodup (h : r.Keyed) : r.values.Nodup := by
  refine List.Nodup.map_on ?_ (List.NodupKeys.nodup r.mmiList.nodupKeys)
  rintro ⟨k, c⟩ hk ⟨k', d⟩ hk' heq
  obtain rfl : c = d := heq
  have h1 := (h k c ((List.mem_dlookup_iff r.mmiList.nodupKeys).mpr hk)).1
  have h2 := (h k' c ((List.mem_dlookup_iff r.mmiList.nodupKeys).mpr hk')).1
  obtain rfl : k = k' := Option.some.inj (h1.symm.trans h2)
  rfl

/-! ## Every open connection is stored -/

/-- The stored connections are exactly the open ones, each stored under one key. -/
structure Registered (r : Registry γ) : Prop where
  mem_iff : ∀ c, c ∈ r.values ↔ r.status c = .live
  once : ∀ k k' c, r.mmiList.lookup k = some c → r.mmiList.lookup k' = some c → k = k'

/-- `onOpen` reads another millisecond than every connection that is still open did. -/
def Distinct (r : Registry γ) : ConnEvent γ → Prop
  | .onOpen _ ms => ∀ d, r.status d = .live → r.mykey d ≠ some (toString ms)
  | .onClose _ => True

/-- An open connection is found under its own key. -/
theorem Registered.lookup (h : r.Registered) (hk : r.Keyed) {c : γ} (hc : r.status c = .live) :
    ∃ k, r.mykey c = some k ∧ r.mmiList.lookup k = some c := by
  obtain ⟨k, hck⟩ := mem_values.mp ((h.mem_iff c).mpr hc)
  exact ⟨k, (hk k c hck).1, hck⟩

/-- With the keys in order, registration is membership of the open connections. -/
theorem Keyed.registered (hk : r.Keyed) (h : ∀ c, r.status c = .live → c ∈ r.values) :
    r.Registered where
  mem_iff c := ⟨fun hc => by
    obtain ⟨k, hck⟩ := mem_values.mp hc
    exact (hk k c hck).2, h c⟩
  once k k' c h1 h2 := Option.some.inj ((hk k c h1).1.symm.trans (hk k' c h2).1)

theorem Registered.step {e : ConnEvent γ} (hk : r.Keyed) (h : r.Registered)
    (hok : r.Distinct e) (hstep : r.step v e = some r') : r'.Registered := by
  refine (hk.step hstep).registered fun d hd => mem_values.mpr ?_
  rcases step_cases hstep with ⟨c, ms, rfl, hc, -, rfl⟩ | ⟨c, rfl, hc, rfl⟩
  · rw [onOpen_status] at hd
    split_ifs at hd with hdc
    · exact ⟨toString ms, by simp [onOpen_lookup, hdc]⟩
    · obtain ⟨k, hkey, hlookup⟩ := h.lookup hk hd
      have hne : k ≠ toString ms := by
        rintro rfl
        exact hok d hd hkey
      exact ⟨k, by rw [onOpen_lookup, if_neg hne, hlookup]⟩
  · rw [onClose_status] at hd
    split_ifs at hd with hdc
    obtain ⟨k, hkey, hlookup⟩ := h.lookup hk hd
    have hne : r.mykey c ≠ some k := by
      intro hck
      obtain ⟨k', hkey', hlookup'⟩ := h.lookup hk hc
      obtain rfl : k = k' := Option.some.inj (hck.symm.trans hkey')
      exact hdc (Option.some.inj (hlookup.symm.trans hlookup'))
    exact ⟨k, by rw [onClose_lookup, if_neg hne, hlookup]⟩

/-- An `onOpen` that leaves every open connection stored read a millisecond of its own. -/
theorem registered_distinct {e : ConnEvent γ} (hk : r.Keyed) (h : r.Registered)
    (hstep : r.step v e = some r') (h' : r'.Registered) : r.Distinct e := by
  rcases step_cases hstep with ⟨c, ms, rfl, hc, -, rfl⟩ | ⟨c, rfl, -, -⟩
  · intro d hd hkey
    obtain ⟨k, hkey', hlookup⟩ := h.lookup hk hd
    obtain rfl : toString ms = k := Option.some.inj (hkey.symm.trans hkey')
    have hne : d ≠ c := by
      rintro rfl
      rw [hc] at hd
      cases hd
    have hlive : (r.onOpen v c ms).1.status d = .live := by rw [onOpen_status, if_neg hne, hd]
    obtain ⟨k, hk1, hk2⟩ := h'.lookup (hk.step hstep) hlive
    rw [onOpen_mykey, if_neg hne, hkey] at hk1
    obtain rfl := Option.some.inj hk1
    rw [onOpen_lookup, if_pos rfl] at hk2
    exact hne (Option.some.inj hk2).symm
  · trivial

/-- The servlet has just been loaded. -/
def empty : Registry γ :=
  ⟨∅, fun _ => none, 0, fun _ => .fresh⟩

theorem empty_keyed : (empty : Registry γ).Keyed := by
  intro k c h
  simp [empty] at h

theorem empty_registered : (empty : Registry γ).Registered :=
  empty_keyed.registered fun c hc => by simp [empty] at hc

/-- In every state of a run the map holds exactly the open connections, each once, if and
only if no `onOpen` of the run reads the millisecond of a connection still open. -/
theorem registered_iff_distinct (v : Servlet) (es : List (ConnEvent γ)) :
    Always (step v) Registered (empty : Registry γ) es ↔ Each (step v) Distinct empty es :=
  always_iff_each (I := fun r : Registry γ => r.Keyed ∧ r.Registered)
    (fun _ _ _ h hok hstep => ⟨h.1.step hstep, h.2.step h.1 hok hstep⟩) (fun _ h => h.2)
    (fun _ _ _ h hstep h' => registered_distinct h.1 h.2 hstep h')
    ⟨empty_keyed, empty_registered⟩

end Registry

end

/-- Two connections opened in one millisecond : the first is gone from the map, and when
it closes the second one goes too. -/
theorem onOpen_same_ms :
    ∃ r₁ r₂ : Registry (Fin 2),
      run (Registry.step .helloWorld) Registry.empty [.onOpen 0 5, .onOpen 1 5] = some r₁ ∧
      run (Registry.step .helloWorld) Registry.empty [.onOpen 0 5, .onOpen 1 5, .onClose 0] = some r₂ ∧
      r₁.status 0 = .live ∧ r₁.values = [1] ∧ r₂.status 1 = .live ∧ r₂.values = [] ∧
      ¬r₁.Registered :=
  ⟨_, _, rfl, rfl, rfl, rfl, rfl, rfl, fun h => by
    have := (h.mem_iff 0).mpr rfl
    exact absurd this (by decide)⟩

end MySocket
