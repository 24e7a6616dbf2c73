import Mathlib.Logic.Basic

/-!
# Computations that may stop

What a computation in `Except` ends with : a value, of which one thing is known, or the reason why
it stopped, of which another is.

* `Yields.bind`, `Yields.map` : the rules for computations made of others.
* `yields_iff` : the reasons for which a computation may stop, and all it may end with.
-/

namespace MySocket

variable {ε α β : Type*}

/-- The computation ends with a value in `Q`, or stops for a reason in `E`. -/
def Yields (E : ε → Prop) (Q : α → Prop) : Except ε α → Prop
  | .ok a => Q a
  | .error e => E e

section

variable {E E' : ε → Prop} {Q Q' : α → Prop} {R : β → Prop} {x : Except ε α}

@[simp] theorem yields_ok {a : α} : Yields E Q (.ok a : Except ε α) ↔ Q a := Iff.rfl

@[simp] theorem yields_error {e : ε} : Yields E Q (.error e : Except ε α) ↔ E e := Iff.rfl

theorem yields_iff : Yields E Q x ↔ (∀ a, x = .ok a → Q a) ∧ ∀ e, x = .error e → E e := by
  rcases x with e | a
  · simp
  · simp

theorem exists_of_map_toOption {f : α → β} {b : β} (h : x.toOption.map f = some b) :
    ∃ a, x = .ok a ∧ f a = b := by
  rcases x with e | a
  · exact nomatch h
  · exact ⟨a, rfl, Option.some.inj h⟩

theorem Yields.mono (h : Yields E Q x) (hE : ∀ e, E e → E' e) (hQ : ∀ a, Q a → Q' a) :
    Yields E' Q' x := by
  rcases x with e | a
  · exact hE e h
  · exact hQ a h

theorem Yields.bind {f : α → Except ε β} (h : Yields E Q x) (hf : ∀ a, Q a → Yields E R (f a)) :
    Yields E R (x.bind f) := by
  rcases x with e | a
  · exact h
  · exact hf a h

theorem Yields.map {f : α → β} (h : Yields E Q x) (hf : ∀ a, Q a → R (f a)) :
    Yields E R (x.map f) := by
  rcases x with e | a
  · exact h
  · exact hf a h

end

end MySocket
