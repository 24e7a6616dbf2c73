import Mathlib.Data.List.Infix

/-!
# Runs of guarded step functions

A system is a step function `S → E → Option S` : `none` when the event is not enabled
in the state. `run` takes a list of events; every prefix of a run is a run, so a
statement about the end of every run is a statement about every state reached.

`Always P` says that `P` holds in each state a run goes through, `Steps R` that each
step taken is in `R`, and `Each ok` that each event meets `ok` in the state it is taken
in. The rules that relate them :

* `Each.always` : an invariant that every `ok` step keeps holds all along a run whose
  steps are all `ok`;
* `always_iff_each`, `steps_iff_each` : when a step that is not `ok` also breaks the
  property, the condition is exact;
* `each_or_spoilt` : when such a step spoils the state for good, the end of a run tells
  whether it met the condition;
* `Steps.simulates` : a run whose steps are all matched by an abstract relation is a
  run of that relation.
-/

namespace MySocket

variable {S E A : Type*}

/-- The state a list of events leads to, `none` if one of them is not enabled. -/
def run (step : S → E → Option S) : S → List E → Option S
  | s, [] => some s
  | s, e :: es => (step s e).bind fun s' => run step s' es

/-- `P` holds in every state the run goes through, the first one included. -/
def Always (step : S → E → Option S) (P : S → Prop) : S → List E → Prop
  | s, [] => P s
  | s, e :: es => P s ∧ ∀ s', step s e = some s' → Always step P s' es

/-- Every step the run takes is in `R`. -/
def Steps (step : S → E → Option S) (R : S → E → S → Prop) : S → List E → Prop
  | _, [] => True
  | s, e :: es => ∀ s', step s e = some s' → R s e s' ∧ Steps step R s' es

/-- Every event of the run meets `ok` in the state it is taken in. -/
def Each (step : S → E → Option S) (ok : S → E → Prop) : S → List E → Prop :=
  Steps step fun s e _ => ok s e

section

variable {step : S → E → Option S} {s s' : S} {e : E} {es fs : List E}

@[simp] theorem run_nil : run step s [] = some s :=
  rfl

theorem run_cons : run step s (e :: es) = (step s e).bind fun s' => run step s' es :=
  rfl

theorem run_cons_eq_some {t : S} :
    run step s (e :: es) = some t ↔ ∃ s', step s e = some s' ∧ run step s' es = some t := by
  simp [run_cons, Option.bind_eq_some_iff]

theorem run_append : ∀ (es fs : List E) (s : S),
    run step s (es ++ fs) = (run step s es).bind fun t => run step t fs
  | [], _, _ => rfl
  | e :: es, fs, s => by
    cases h : step s e with
    | none => simp [run_cons, h]
    | some s' => simp [run_cons, h, run_append es fs s']

/-- `Always` is a statement about the end of every prefix. -/
theorem always_iff_initial {P : S → Prop} :
    Always step P s es ↔ ∀ fs, fs <+: es → ∀ t, run step s fs = some t → P t := by
  induction es generalizing s with
  | nil =>
    constructor
    · intro h fs hfs t ht
      obtain rfl := List.prefix_nil.mp hfs
      obtain rfl : s = t := by simpa using ht
      exact h
    · exact fun h => h [] (List.nil_prefix) s rfl
  | cons e es ih =>
    constructor
    · rintro ⟨hs, h⟩ fs hfs t ht
      rcases List.prefix_cons_iff.mp hfs with rfl | ⟨fs', rfl, hfs'⟩
      · obtain rfl : s = t := by simpa using ht
        exact hs
      · obtain ⟨s', hstep, hrun⟩ := run_cons_eq_some.mp ht
        exact ih.mp (h s' hstep) fs' hfs' t hrun
    · intro h
      refine ⟨h [] List.nil_prefix s rfl, fun s' hstep => ih.mpr fun fs hfs t ht => ?_⟩
      exact h (e :: fs) (List.cons_prefix_cons.mpr ⟨rfl, hfs⟩) t
        (run_cons_eq_some.mpr ⟨s', hstep, ht⟩)

theorem Always.head {P : S → Prop} (h : Always step P s es) : P s :=
  always_iff_initial.mp h [] List.nil_prefix s rfl

/-- What holds all along a run holds at its end. -/
theorem Always.last {P : S → Prop} {t : S} (h : Always step P s es)
    (ht : run step s es = some t) : P t :=
  always_iff_initial.mp h es List.prefix_rfl t ht

theorem Always.mono {P Q : S → Prop} (hPQ : ∀ s, P s → Q s) (h : Always step P s es) :
    Always step Q s es :=
  always_iff_initial.mpr fun fs hfs t ht => hPQ t (always_iff_initial.mp h fs hfs t ht)

/-- A run of `ok` steps, one step at a time. -/
theorem Each.cons {ok : S → E → Prop} (hstep : step s e = some s') (hok : ok s e)
    (h : Each step ok s' es) : Each step ok s (e :: es) := fun t ht => by
  obtain rfl : s' = t := Option.some.inj (hstep.symm.trans ht)
  exact ⟨hok, h⟩

/-- An invariant kept by every step in `R` turns `R` into whatever follows from it. -/
theorem Steps.mono_of_invariant {R Q : S → E → S → Prop} {I : S → Prop}
    (hkeep : ∀ s e s', I s → step s e = some s' → R s e s' → I s')
    (hQ : ∀ s e s', I s → step s e = some s' → R s e s' → Q s e s') :
    ∀ {s : S} {es : List E}, I s → Steps step R s es → Steps step Q s es
  | _, [], _, _ => trivial
  | s, e :: es, hI, h => fun s' hstep => by
    obtain ⟨hR, hrest⟩ := h s' hstep
    exact ⟨hQ s e s' hI hstep hR,
      Steps.mono_of_invariant hkeep hQ (hkeep s e s' hI hstep hR) hrest⟩

theorem Steps.mono {R Q : S → E → S → Prop} (hRQ : ∀ s e s', R s e s' → Q s e s')
    (h : Steps step R s es) : Steps step Q s es :=
  h.mono_of_invariant (I := fun _ => True) (fun _ _ _ _ _ _ => trivial)
    (fun s e s' _ _ hR => hRQ s e s' hR) trivial

/-- An invariant that every step in `R` keeps holds all along a run of such steps. -/
theorem Steps.always {R : S → E → S → Prop} {I : S → Prop}
    (hkeep : ∀ s e s', I s → step s e = some s' → R s e s' → I s') :
    ∀ {s : S} {es : List E}, I s → Steps step R s es → Always step I s es
  | _, [], hI, _ => hI
  | s, e :: _, hI, h => ⟨hI, fun s' hstep => by
      obtain ⟨hR, hrest⟩ := h s' hstep
      exact Steps.always hkeep (hkeep s e s' hI hstep hR) hrest⟩

/-- An invariant that every `ok` step keeps holds all along a run of `ok` steps. -/
theorem Each.always {ok : S → E → Prop} {I : S → Prop}
    (hkeep : ∀ s e s', I s → ok s e → step s e = some s' → I s') (hI : I s)
    (h : Each step ok s es) : Always step I s es :=
  Steps.always (fun s e s' hI hstep hok => hkeep s e s' hI hok hstep) hI h

/-- If an `ok` step keeps the invariant `I`, and under `I` the steps in `R` are the `ok` ones,
then the steps of a run are all in `R` exactly when they are all `ok`. -/
theorem steps_iff_each {ok : S → E → Prop} {R : S → E → S → Prop} {I : S → Prop}
    (hkeep : ∀ s e s', I s → ok s e → step s e = some s' → I s')
    (hR : ∀ s e s', I s → step s e = some s' → (R s e s' ↔ ok s e)) (hI : I s) :
    Steps step R s es ↔ Each step ok s es := by
  constructor
  · exact Steps.mono_of_invariant
      (fun s e s' hI hstep h => hkeep s e s' hI ((hR s e s' hI hstep).mp h) hstep)
      (fun s e s' hI hstep h => (hR s e s' hI hstep).mp h) hI
  · exact Steps.mono_of_invariant (fun s e s' hI hstep h => hkeep s e s' hI h hstep)
      (fun s e s' hI hstep h => (hR s e s' hI hstep).mpr h) hI

/-- If an `ok` step keeps the invariant `I`, and a step that lands in `P` was `ok`, then
`P` holds all along a run exactly when every step of it is `ok`. -/
theorem always_iff_each {ok : S → E → Prop} {I P : S → Prop}
    (hkeep : ∀ s e s', I s → ok s e → step s e = some s' → I s')
    (hIP : ∀ s, I s → P s)
    (hexact : ∀ s e s', I s → step s e = some s' → P s' → ok s e) :
    ∀ {s : S} {es : List E}, I s → (Always step P s es ↔ Each step ok s es)
  | s, es, hI => by
    refine ⟨fun h => ?_, fun h => (Each.always hkeep hI h).mono hIP⟩
    induction es generalizing s with
    | nil => exact trivial
    | cons e es ih =>
      intro s' hstep
      have hs' := h.2 s' hstep
      have hok := hexact s e s' hI hstep hs'.head
      exact ⟨hok, ih s' (hkeep s e s' hI hok hstep) hs'⟩

/-- An invariant of the steps by events in `A` holds all along a run of such events. -/
theorem always_of_mem {I : S → Prop} {A : E → Prop}
    (hkeep : ∀ s e s', I s → A e → step s e = some s' → I s') :
    ∀ {s : S} {es : List E}, I s → (∀ e ∈ es, A e) → Always step I s es
  | _, [], hI, _ => hI
  | s, e :: _, hI, hA => by
    obtain ⟨hAe, hA⟩ := List.forall_mem_cons.mp hA
    exact ⟨hI, fun s' hstep => always_of_mem hkeep (hkeep s e s' hI hAe hstep) hA⟩

/-- What is known of all events of a run is known of each step of it. -/
theorem each_of_mem {A : E → Prop} : ∀ {s : S} {es : List E}, (∀ e ∈ es, A e) →
    Each step (fun _ e => A e) s es
  | _, [], _ => trivial
  | _, e :: _, hA => fun _ _ => by
    obtain ⟨hAe, hA⟩ := List.forall_mem_cons.mp hA
    exact ⟨hAe, each_of_mem hA⟩

theorem Each.and {ok ok' : S → E → Prop} : ∀ {s : S} {es : List E}, Each step ok s es →
    Each step ok' s es → Each step (fun s e => ok s e ∧ ok' s e) s es
  | _, [], _, _ => trivial
  | _, _ :: _, h, h' => fun s' hstep => by
    obtain ⟨hok, h⟩ := h s' hstep
    obtain ⟨hok', h'⟩ := h' s' hstep
    exact ⟨⟨hok, hok'⟩, Each.and h h'⟩

/-- If an `ok` step keeps the invariant `I`, and any other leads to a state that stays `Bad`,
then a run of `ok` steps ends in `I` and any other run in a `Bad` state. `A` is what is known
of all its steps. -/
theorem each_or_spoilt {ok : S → E → Prop} {I Bad : S → Prop} {A : S → E → Prop}
    (hkeep : ∀ s e s', I s → A s e → ok s e → step s e = some s' → I s')
    (hspoil : ∀ s e s', I s → A s e → ¬ok s e → step s e = some s' → Bad s')
    (hstay : ∀ s e s', Bad s → A s e → step s e = some s' → Bad s') :
    ∀ {s t : S} {es : List E}, I s → Each step A s es → run step s es = some t →
      Each step ok s es ∧ I t ∨ ¬Each step ok s es ∧ Bad t
  | s, t, [], hI, _, ht => by
    obtain rfl : s = t := by simpa using ht
    exact .inl ⟨trivial, hI⟩
  | s, t, e :: es, hI, hA, ht => by
    obtain ⟨s', hstep, hrun⟩ := run_cons_eq_some.mp ht
    obtain ⟨hAe, hA⟩ := hA s' hstep
    by_cases hok : ok s e
    · rcases each_or_spoilt hkeep hspoil hstay (hkeep s e s' hI hAe hok hstep) hA hrun with
        ⟨heach, ht⟩ | ⟨heach, ht⟩
      · exact .inl ⟨heach.cons hstep hok, ht⟩
      · exact .inr ⟨fun h => heach (h s' hstep).2, ht⟩
    · refine .inr ⟨fun h => hok (h s' hstep).1, ?_⟩
      exact (Each.always hstay (hspoil s e s' hI hAe hok hstep) hA).last hrun

/-- Every step of every run is in `R` once each enabled step is. -/
theorem steps_of_step {R : S → E → S → Prop} (h : ∀ s e s', step s e = some s' → R s e s') :
    ∀ (s : S) (es : List E), Steps step R s es
  | _, [] => trivial
  | s, e :: es => fun s' hstep => ⟨h s e s' hstep, steps_of_step h s' es⟩

/-- What an invariant of every enabled step says of a step holds of every step of every run. -/
theorem steps_of_invariant {Q : S → E → S → Prop} {I : S → Prop}
    (hkeep : ∀ s e s', I s → step s e = some s' → I s')
    (hQ : ∀ s e s', I s → step s e = some s' → Q s e s') (hI : I s) (es : List E) :
    Steps step Q s es :=
  Steps.mono_of_invariant (R := fun _ _ _ => True) (fun s e s' hI hstep _ => hkeep s e s' hI hstep)
    (fun s e s' hI hstep _ => hQ s e s' hI hstep) hI (steps_of_step (fun _ _ _ _ => trivial) s es)

/-- An invariant of every enabled step holds all along every run. -/
theorem always_of_step {I : S → Prop} (hkeep : ∀ s e s', I s → step s e = some s' → I s')
    (hI : I s) (es : List E) : Always step I s es :=
  Steps.always (R := fun _ _ _ => True) (fun s e s' hI hstep _ => hkeep s e s' hI hstep) hI
    (steps_of_step (fun _ _ _ _ => trivial) s es)

end

/-! ## Simulation -/

/-- A run of the relation `move` : the events `es` can lead from `a` to `b`. -/
inductive Moves (move : A → E → A → Prop) : A → List E → A → Prop
  | nil (a : A) : Moves move a [] a
  | cons {a b c : A} {e : E} {es : List E} :
    move a e b → Moves move b es c → Moves move a (e :: es) c

/-- If each step of a run moves its abstraction by `move`, the run is a run of `move`. -/
theorem Steps.simulates {step : S → E → Option S} {move : A → E → A → Prop} {abs : S → A} :
    ∀ {s t : S} {es : List E}, Steps step (fun s e s' => move (abs s) e (abs s')) s es →
      run step s es = some t → Moves move (abs s) es (abs t)
  | s, t, [], _, ht => by
    obtain rfl : s = t := by simpa using ht
    exact .nil _
  | s, t, e :: es, h, ht => by
    obtain ⟨s', hstep, hrun⟩ := run_cons_eq_some.mp ht
    obtain ⟨hmove, hrest⟩ := h s' hstep
    exact .cons hmove (hrest.simulates hrun)

end MySocket
