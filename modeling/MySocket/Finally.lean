import Mathlib.Tactic.TypeStar

/-!
# Programs that throw

A program with a state and exceptions ends with a value or with an exception, and with a
state in both cases. `Ends P x Q` says that `x`, started in `P`, ends in `Q`, whichever way
it ends; `Keeps I x` that `I` survives it. The rules follow the statements of a program :
what a `finally` block establishes holds however the block before it ends
(`Ends.tryFinally`).
-/

namespace MySocket

/-- A program with the state `σ` that throws `ε`. -/
abbrev Prog (σ ε α : Type) :=
  ExceptT ε (StateM σ) α

variable {σ ε α β : Type}

/-- How `x` ends from `s`, and the state it leaves. -/
def Prog.exec (x : Prog σ ε α) (s : σ) : Except ε α × σ :=
  x.run.run s

/-- Started in `P`, `x` ends in `Q`. -/
def Ends (P : σ → Prop) (x : Prog σ ε α) (Q : Except ε α → σ → Prop) : Prop :=
  ∀ s, P s → Q (x.exec s).1 (x.exec s).2

/-- `x` leaves `I` true, however it ends. -/
def Keeps (I : σ → Prop) (x : Prog σ ε α) : Prop :=
  Ends I x fun _ => I

/-! ## Execution -/

theorem exec_bind (x : Prog σ ε α) (f : α → Prog σ ε β) (s : σ) :
    Prog.exec (x >>= f) s =
      match x.exec s with
      | (.ok a, t) => (f a).exec t
      | (.error e, t) => (.error e, t) := by
  change ExceptT.bindCont f (x.exec s).1 (x.exec s).2 = _
  rcases x.exec s with ⟨_ | a, t⟩ <;> rfl

theorem exec_get_bind (f : σ → Prog σ ε β) (s : σ) : Prog.exec (get >>= f) s = (f s).exec s :=
  rfl

theorem exec_tryCatch (x : Prog σ ε α) (h : ε → Prog σ ε α) (s : σ) :
    Prog.exec (tryCatch x h) s =
      match x.exec s with
      | (.ok a, t) => (.ok a, t)
      | (.error e, t) => (h e).exec t := by
  change (match (x.exec s).1 with
    | .ok a => (pure (.ok a) : StateM σ (Except ε α))
    | .error e => h e) (x.exec s).2 = _
  rcases x.exec s with ⟨_ | a, t⟩ <;> rfl

/-- An exception of the `finally` block takes the place of how the block before it ended. -/
theorem exec_tryFinally (x : Prog σ ε α) (f : Prog σ ε β) (s : σ) :
    Prog.exec (tryFinally x f) s =
      match f.exec (x.exec s).2 with
      | (.ok _, t) => ((x.exec s).1, t)
      | (.error e, t) => (.error e, t) := by
  simp only [Prog.exec, tryFinally, tryFinally']
  rcases hx : StateT.run x.run s with ⟨_ | a, t⟩ <;> rcases hf : StateT.run f.run t with ⟨_ | b, u⟩
  all_goals
    have hx' : x s = _ := hx
    have hf' : f t = _ := hf
    have hpure (γ : Type) (c : γ) (u : σ) : (StateT.pure c : StateM σ γ) u = (c, u) := rfl
    simp [StateT.run, Functor.map, ExceptT.map, ExceptT.mk, ExceptT.run, StateT.bind, bind, pure,
      hpure, hx', hf']

/-! ## Rules -/

section

variable {P Q R I : σ → Prop} {x : Prog σ ε α}

theorem Ends.mono {Q R : Except ε α → σ → Prop} (h : Ends P x Q) (hQR : ∀ r s, Q r s → R r s) :
    Ends P x R :=
  fun s hs => hQR _ _ (h s hs)

theorem Ends.bind {Q : Except ε α → σ → Prop} {R : Except ε β → σ → Prop} {f : α → Prog σ ε β}
    (hx : Ends P x Q) (hf : ∀ a, Ends (Q (.ok a)) (f a) R)
    (hthrow : ∀ e s, Q (.error e) s → R (.error e) s) : Ends P (x >>= f) R := fun s hs => by
  have hQ := hx s hs
  rw [exec_bind]
  rcases h : x.exec s with ⟨e | a, t⟩ <;> rw [h] at hQ
  · exact hthrow e t hQ
  · exact hf a t hQ

theorem Ends.tryCatch {Q R : Except ε α → σ → Prop} {h : ε → Prog σ ε α} (hx : Ends P x Q)
    (hok : ∀ a s, Q (.ok a) s → R (.ok a) s) (hh : ∀ e, Ends (Q (.error e)) (h e) R) :
    Ends P (tryCatch x h) R := fun s hs => by
  have hQ := hx s hs
  rw [exec_tryCatch]
  rcases hr : x.exec s with ⟨e | a, t⟩ <;> rw [hr] at hQ
  · exact hh e t hQ
  · exact hok a t hQ

theorem Ends.tryFinally {f : Prog σ ε β} (hx : Ends P x fun _ => Q) (hf : Ends Q f fun _ => R) :
    Ends P (tryFinally x f) fun _ => R := fun s hs => by
  have hR := hf _ (hx s hs)
  rw [exec_tryFinally]
  rcases h : f.exec (x.exec s).2 with ⟨e | b, t⟩ <;> rw [h] at hR <;> exact hR

theorem Keeps.pure (a : α) : Keeps I (Pure.pure a : Prog σ ε α) :=
  fun _ hs => hs

theorem Keeps.throw (e : ε) : Keeps I (MonadExcept.throw e : Prog σ ε α) :=
  fun _ hs => hs

theorem Keeps.get : Keeps I (MonadState.get : Prog σ ε σ) :=
  fun _ hs => hs

theorem Keeps.modify {f : σ → σ} (h : ∀ s, I s → I (f s)) :
    Keeps I (modify f : Prog σ ε PUnit) :=
  fun s hs => h s hs

theorem Keeps.bind {f : α → Prog σ ε β} (hx : Keeps I x) (hf : ∀ a, Keeps I (f a)) :
    Keeps I (x >>= f) :=
  Ends.bind hx hf fun _ _ h => h

theorem Keeps.ite {c : Prop} [Decidable c] {y : Prog σ ε α} (hx : Keeps I x) (hy : Keeps I y) :
    Keeps I (if c then x else y) := by
  by_cases hc : c
  · rwa [if_pos hc]
  · rwa [if_neg hc]

theorem Keeps.tryCatch {h : ε → Prog σ ε α} (hx : Keeps I x) (hh : ∀ e, Keeps I (h e)) :
    Keeps I (tryCatch x h) :=
  Ends.tryCatch hx (fun _ _ hs => hs) hh

theorem Keeps.tryFinally {f : Prog σ ε β} (hx : Keeps I x) (hf : Keeps I f) :
    Keeps I (tryFinally x f) :=
  Ends.tryFinally hx hf

theorem Keeps.forM {xs : List β} {f : β → Prog σ ε PUnit} (h : ∀ b, Keeps I (f b)) :
    Keeps I (xs.forM f) := by
  induction xs with
  | nil => exact Keeps.pure _
  | cons b xs ih => exact (h b).bind fun _ => ih

end

end MySocket
