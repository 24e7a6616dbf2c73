import Mathlib.Data.List.Basic

/-!
# Machines that are fed one item at a time

A machine is a function `S → I → Outcome S E` : an item leads to a state, produces some output and
may stop the machine. `feed` gives it the items of a list up to the one it stops at.

* `feed_flatten` : how the items are packed makes no difference.
* `Agrees.feed` : if what one machine makes of the items that stand for `a` agrees with what
  another makes of `a`, the two agree on lists. This is the rule by which a reader of bytes is a
  reader of what the bytes encode.
* `Outcome.Meets.feed` : the invariant rule.
-/

namespace MySocket

variable {S T I J E : Type*}

/-- What an item leads to. -/
structure Outcome (S E : Type*) where
  state : S
  output : List E
  stopped : Bool

namespace Outcome

/-- No output, and on. -/
def go (s : S) : Outcome S E :=
  ⟨s, [], false⟩

/-- Go on with `f` unless the machine has stopped. -/
def andThen (o : Outcome S E) (f : S → Outcome S E) : Outcome S E :=
  if o.stopped then o else ⟨(f o.state).state, o.output ++ (f o.state).output, (f o.state).stopped⟩

theorem andThen_of_stopped {o : Outcome S E} (h : o.stopped = true) (f : S → Outcome S E) :
    o.andThen f = o :=
  if_pos h

@[simp] theorem go_andThen (s : S) (f : S → Outcome S E) : (go s).andThen f = f s :=
  rfl

@[simp] theorem andThen_go (o : Outcome S E) : o.andThen go = o := by
  rcases o with ⟨s, output, stopped⟩
  rcases stopped <;> simp [andThen, go]

theorem andThen_assoc (o : Outcome S E) (f g : S → Outcome S E) :
    (o.andThen f).andThen g = o.andThen fun s => (f s).andThen g := by
  rcases o with ⟨s, output, stopped⟩
  rcases stopped with _ | _
  · rcases h : (f s).stopped <;> simp [andThen, h]
  · rfl

/-- All output is in `Q`, and the state is left in `P` unless the machine has stopped. -/
structure Meets (P : S → Prop) (Q : E → Prop) (o : Outcome S E) : Prop where
  output : ∀ e ∈ o.output, Q e
  state : o.stopped = false → P o.state

theorem Meets.go {P : S → Prop} {Q : E → Prop} {s : S} (h : P s) : (go s).Meets P Q :=
  ⟨fun _ he => absurd he List.not_mem_nil, fun _ => h⟩

theorem Meets.mono {P P' : S → Prop} {Q : E → Prop} {o : Outcome S E} (ho : o.Meets P Q)
    (hP : ∀ s, P s → P' s) : o.Meets P' Q :=
  ⟨ho.output, fun h => hP _ (ho.state h)⟩

theorem Meets.andThen {P P' : S → Prop} {Q : E → Prop} {o : Outcome S E} {f : S → Outcome S E}
    (ho : o.Meets P Q) (hf : ∀ s, P s → (f s).Meets P' Q) : (o.andThen f).Meets P' Q := by
  rcases o with ⟨s, output, stopped⟩
  rcases stopped with _ | _
  · obtain ⟨hout, hstate⟩ := hf s (ho.state rfl)
    exact ⟨fun e he => (List.mem_append.mp he).elim (ho.output e) (hout e), hstate⟩
  · exact ⟨ho.output, fun h => absurd h (by simp [Outcome.andThen])⟩

end Outcome

/-- The same output and the same end, with states in `R` unless the machines have stopped. -/
structure Agrees (R : S → T → Prop) (o : Outcome S E) (o' : Outcome T E) : Prop where
  output : o.output = o'.output
  stopped : o.stopped = o'.stopped
  state : o.stopped = false → R o.state o'.state

theorem Agrees.andThen {R Q : S → T → Prop} {o : Outcome S E} {o' : Outcome T E}
    {f : S → Outcome S E} {g : T → Outcome T E} (h : Agrees R o o')
    (hfg : ∀ s t, R s t → Agrees Q (f s) (g t)) : Agrees Q (o.andThen f) (o'.andThen g) := by
  rcases o with ⟨s, output, stopped⟩
  rcases o' with ⟨t, output', stopped'⟩
  obtain ⟨rfl, rfl, hR⟩ := h
  rcases stopped with _ | _
  · obtain ⟨hout, hstop, hQ⟩ := hfg s t (hR rfl)
    exact ⟨congrArg (output ++ ·) hout, hstop, hQ⟩
  · exact ⟨rfl, rfl, fun h => absurd h (by simp [Outcome.andThen])⟩

/-- `o` with another view of its state. -/
theorem Agrees.mono {R Q : S → T → Prop} {o : Outcome S E} {o' : Outcome T E} (h : Agrees R o o')
    (hRQ : ∀ s t, R s t → Q s t) : Agrees Q o o' :=
  ⟨h.output, h.stopped, fun hs => hRQ _ _ (h.state hs)⟩

/-- The items of a list, up to the one the machine stops at. -/
def feed (step : S → I → Outcome S E) : S → List I → Outcome S E
  | s, [] => .go s
  | s, a :: as => (step s a).andThen fun s' => feed step s' as

section

variable {step : S → I → Outcome S E} {astep : T → J → Outcome T E} {s : S} {t : T}

@[simp] theorem feed_nil : feed step s [] = .go s :=
  rfl

theorem feed_cons (a : I) (as : List I) :
    feed step s (a :: as) = (step s a).andThen fun s' => feed step s' as :=
  rfl

theorem feed_singleton (a : I) : feed step s [a] = step s a :=
  Outcome.andThen_go _

theorem feed_append : ∀ (as bs : List I) (s : S),
    feed step s (as ++ bs) = (feed step s as).andThen fun s' => feed step s' bs
  | [], _, _ => rfl
  | a :: as, bs, s => by
    rw [List.cons_append, feed_cons, feed_cons, Outcome.andThen_assoc]
    congr 1
    exact funext fun s' => feed_append as bs s'

/-- What has been put out stays put out. -/
theorem feed_output_prefix (as bs : List I) (s : S) :
    (feed step s as).output <+: (feed step s (as ++ bs)).output := by
  rw [feed_append, Outcome.andThen]
  split_ifs
  · exact List.prefix_rfl
  · exact List.prefix_append _ _

/-- The packets do not matter, only what is in them. -/
theorem feed_flatten : ∀ (packets : List (List I)) (s : S),
    feed (feed step) s packets = feed step s packets.flatten
  | [], _ => rfl
  | p :: packets, s => by
    rw [feed_cons, List.flatten_cons, feed_append]
    congr 1
    exact funext fun s' => feed_flatten packets s'

/-- The machine that is fed `code a` for `a` agrees with the one that is fed `a`. -/
theorem Agrees.feed {R : S → T → Prop} {code : J → List I} {ok : J → Prop}
    (hstep : ∀ s t a, R s t → ok a → Agrees R (feed step s (code a)) (astep t a)) :
    ∀ {as : List J} {s : S} {t : T}, R s t → (∀ a ∈ as, ok a) →
      Agrees R (MySocket.feed step s (as.flatMap code)) (MySocket.feed astep t as)
  | [], _, _, hR, _ => ⟨rfl, rfl, fun _ => hR⟩
  | a :: as, s, t, hR, hok => by
    rw [List.flatMap_cons, feed_append, feed_cons]
    exact (hstep s t a hR (hok a List.mem_cons_self)).andThen fun s' t' hR' =>
      Agrees.feed hstep hR' fun b hb => hok b (List.mem_cons_of_mem a hb)

/-- An invariant that every step keeps. -/
theorem Outcome.Meets.feed {P : S → Prop} {Q : E → Prop}
    (hstep : ∀ s a, P s → (step s a).Meets P Q) :
    ∀ {as : List I} {s : S}, P s → (MySocket.feed step s as).Meets P Q
  | [], _, hP => .go hP
  | a :: _, s, hP => (hstep s a hP).andThen fun _ hP' => Outcome.Meets.feed hstep hP'

end

end MySocket
