import Mathlib.Data.List.Basic
import Mathlib.Data.List.Forall2

/-!
# Backtracking regular expressions

Matching as the usual backtracking engines do it : an expression is tried at a position,
its alternatives in a fixed order (a repetition from the longest on), and the first way
through is the match. `Re.run` lists all ways through in that order, each a `Hit`.

* `mem_run_seq` and its kin say which ways there are, `head_run_seq` and its kin which comes
  first, `run_ungroup` that a group changes none.
* `Re.find` tries the positions from left to right, `Re.replaceFirst` and `Re.replaceAll`
  rewrite what it finds; `find_eq_some` and `find_ne_none` describe it.

Repetition is of one character class, which is what the patterns here need.
-/

namespace MySocket

/-- Regular expressions. -/
inductive Re
  /-- A word, given by a class for each of its characters. -/
  | lit (ps : List (Char → Bool))
  /-- As many characters of a class as possible. -/
  | star (p : Char → Bool)
  /-- The expression, or nothing. -/
  | opt (r : Re)
  | seq (r₁ r₂ : Re)
  /-- A numbered group. -/
  | group (n : ℕ) (r : Re)
  /-- `^` -/
  | bos
  /-- `$` : the end, or the end but for a line terminator. -/
  | eos

/-- A way to match : what is taken, what is left, and what the groups hold. -/
structure Hit where
  taken : List Char
  rest : List Char
  groups : List (ℕ × List Char)

/-- One way to match after another. -/
def Hit.append (h₁ h₂ : Hit) : Hit :=
  ⟨h₁.taken ++ h₂.taken, h₂.rest, h₁.groups ++ h₂.groups⟩

/-- The text of group `n`. -/
def Hit.get (h : Hit) (n : ℕ) : List Char :=
  (h.groups.lookup n).getD []

/-- The hit without what group `n` holds. -/
def Hit.ungroup (n : ℕ) (h : Hit) : Hit :=
  { h with groups := h.groups.filter fun g => g.1 ≠ n }

/-- The line terminators of one character. -/
def isTerminator (c : Char) : Bool :=
  c = '\n' || c = '\r' || c = Char.ofNat 0x85 || c = Char.ofNat 0x2028 || c = Char.ofNat 0x2029

/-- Nothing is left but a line terminator, which `\r\n` is one of. -/
def atEnd (before : List Char) : List Char → Bool
  | [] => true
  | ['\n'] => before.getLast? ≠ some '\r'
  | [c] => isTerminator c
  | ['\r', '\n'] => true
  | _ => false

/-- The ways to take characters of a class, from the longest on. -/
def splits (p : Char → Bool) : List Char → List (List Char × List Char)
  | [] => [([], [])]
  | c :: cs =>
    if p c then ((splits p cs).map fun s => (c :: s.1, s.2)) ++ [([], c :: cs)] else [([], c :: cs)]

/-- Take a word. -/
def takeLit : List (Char → Bool) → List Char → Option (List Char × List Char)
  | [], cs => some ([], cs)
  | _ :: _, [] => none
  | p :: ps, c :: cs => if p c then (takeLit ps cs).map fun s => (c :: s.1, s.2) else none

namespace Re

/-- The ways to match at a position with `before` to the left of it, the preferred first. -/
def run : Re → List Char → List Char → List Hit
  | lit ps, _, cs => ((takeLit ps cs).map fun s => ⟨s.1, s.2, []⟩).toList
  | star p, _, cs => (splits p cs).map fun s => ⟨s.1, s.2, []⟩
  | opt r, before, cs => r.run before cs ++ [⟨[], cs, []⟩]
  | seq r₁ r₂, before, cs =>
    (r₁.run before cs).flatMap fun h => (r₂.run (before ++ h.taken) h.rest).map h.append
  | group n r, before, cs => (r.run before cs).map fun h => { h with groups := (n, h.taken) :: h.groups }
  | bos, before, cs => if before = [] then [⟨[], cs, []⟩] else []
  | eos, before, cs => if atEnd before cs then [⟨[], cs, []⟩] else []

/-- The expression without its groups `n`. -/
def ungroup (n : ℕ) : Re → Re
  | opt r => opt (r.ungroup n)
  | seq r₁ r₂ => seq (r₁.ungroup n) (r₂.ungroup n)
  | group m r => if m = n then r.ungroup n else group m (r.ungroup n)
  | lit ps => lit ps
  | star p => star p
  | bos => bos
  | eos => eos

/-- The leftmost match : what is skipped, and the match. -/
def find (r : Re) : List Char → List Char → Option (List Char × Hit)
  | before, [] => (r.run before []).head?.map fun h => ([], h)
  | before, c :: cs =>
    match (r.run before (c :: cs)).head? with
    | some h => some ([], h)
    | none => (r.find (before ++ [c]) cs).map fun s => (c :: s.1, s.2)

/-- The text with the leftmost match replaced. -/
def replaceFirst (r : Re) (new : Hit → List Char) (cs : List Char) : List Char :=
  match r.find [] cs with
  | some (skipped, h) => skipped ++ new h ++ h.rest
  | none => cs

/-- The rest of the text with all matches replaced; after an empty match the search goes on
one character later. -/
def replaceFrom (r : Re) (new : Hit → List Char) : ℕ → List Char → List Char → List Char
  | 0, _, cs => cs
  | fuel + 1, before, cs =>
    match r.find before cs with
    | none => cs
    | some (skipped, h) =>
      skipped ++ new h ++
        match h.taken, h.rest with
        | [], [] => []
        | [], c :: rest => c :: r.replaceFrom new fuel (before ++ skipped ++ [c]) rest
        | taken, rest => r.replaceFrom new fuel (before ++ skipped ++ taken) rest

/-- The text with all matches replaced. -/
def replaceAll (r : Re) (new : Hit → List Char) (cs : List Char) : List Char :=
  r.replaceFrom new (cs.length + 1) [] cs

end Re

/-! ## Which ways there are -/

section

variable {p : Char → Bool} {ps : List (Char → Bool)} {r r₁ r₂ : Re} {before cs t u : List Char}
  {h h₁ h₂ : Hit} {n : ℕ}

/-- `t` is a word of the classes `ps`. -/
abbrev Spells (ps : List (Char → Bool)) (t : List Char) : Prop :=
  List.Forall₂ (fun p c => p c = true) ps t

theorem mem_splits : (t, u) ∈ splits p cs ↔ cs = t ++ u ∧ ∀ c ∈ t, p c = true := by
  induction cs generalizing t with
  | nil =>
    simp only [splits, List.mem_singleton, Prod.mk.injEq]
    constructor
    · rintro ⟨rfl, rfl⟩
      exact ⟨rfl, fun c hc => absurd hc List.not_mem_nil⟩
    · rintro ⟨h, -⟩
      exact ⟨(List.append_eq_nil_iff.mp h.symm).1, (List.append_eq_nil_iff.mp h.symm).2⟩
  | cons c cs ih =>
    cases t with
    | nil =>
      have hu : u = c :: cs ↔ c :: cs = u := eq_comm
      by_cases hc : p c = true <;> simp [splits, hc, hu]
    | cons d t =>
      by_cases hc : p c = true
      · simp only [splits, hc, if_true, List.mem_append, List.mem_map, Prod.exists, Prod.mk.injEq,
          List.cons.injEq, List.mem_singleton, reduceCtorEq, false_and, or_false]
        constructor
        · rintro ⟨t', u', hmem, ⟨rfl, rfl⟩, rfl⟩
          obtain ⟨rfl, ht⟩ := ih.mp hmem
          exact ⟨rfl, List.forall_mem_cons.mpr ⟨hc, ht⟩⟩
        · rintro ⟨h, ht⟩
          obtain ⟨rfl, rfl⟩ := List.cons_eq_cons.mp h
          exact ⟨t, u, ih.mpr ⟨rfl, (List.forall_mem_cons.mp ht).2⟩, ⟨rfl, rfl⟩, rfl⟩
      · simp only [splits, hc, Bool.false_eq_true, if_false, List.mem_singleton, Prod.mk.injEq,
          reduceCtorEq, false_and, false_iff]
        rintro ⟨h, ht⟩
        obtain ⟨rfl, -⟩ := List.cons_eq_cons.mp h
        exact hc (ht c List.mem_cons_self)

theorem takeLit_eq_some : takeLit ps cs = some (t, u) ↔ cs = t ++ u ∧ Spells ps t := by
  induction ps generalizing cs t with
  | nil =>
    simp only [takeLit, Option.some.injEq, Prod.mk.injEq, Spells, List.forall₂_nil_left_iff]
    constructor
    · rintro ⟨rfl, rfl⟩
      exact ⟨rfl, rfl⟩
    · rintro ⟨rfl, rfl⟩
      exact ⟨rfl, rfl⟩
  | cons p ps ih =>
    cases cs with
    | nil =>
      simp only [takeLit, Spells, List.forall₂_cons_left_iff, reduceCtorEq, false_iff]
      rintro ⟨h, c, t', -, -, rfl⟩
      simp at h
    | cons c cs =>
      by_cases hc : p c = true
      · simp only [takeLit, hc, if_true, Option.map_eq_some_iff, Prod.exists, Prod.mk.injEq]
        constructor
        · rintro ⟨t', u', hlit, rfl, rfl⟩
          obtain ⟨rfl, ht⟩ := ih.mp hlit
          exact ⟨rfl, .cons hc ht⟩
        · rintro ⟨h, ht⟩
          cases ht with
          | cons hd ht =>
            obtain ⟨rfl, rfl⟩ := List.cons_eq_cons.mp h
            exact ⟨_, u, ih.mpr ⟨rfl, ht⟩, rfl, rfl⟩
      · simp only [takeLit, hc, Bool.false_eq_true, if_false, reduceCtorEq, false_iff]
        rintro ⟨h, ht⟩
        cases ht with
        | cons hd ht =>
          obtain ⟨rfl, -⟩ := List.cons_eq_cons.mp h
          exact hc hd

-- The equations of `atEnd` that Lean would make are not at hand with all of Mathlib.
set_option linter.auxLemma false in
theorem atEnd_cons_of_ne {c : Char} (hn : c ≠ '\n') (hr : c ≠ '\r') (before cs : List Char) :
    atEnd before (c :: cs) = (cs.isEmpty && isTerminator c) := by
  delta atEnd atEnd.match_1
  cases cs with
  | nil => exact (dif_neg hn).trans (dif_neg hr)
  | cons d cs => exact (dif_neg hn).trans (dif_neg hr)

set_option linter.auxLemma false in
theorem atEnd_return_cons_of_ne {d : Char} (hd : d ≠ '\n') (before cs : List Char) :
    atEnd before ('\r' :: d :: cs) = false := by
  delta atEnd atEnd.match_1
  exact dif_neg hd

/-- What is left at the end are line terminators. -/
theorem terminator_of_atEnd (hend : atEnd before cs = true) :
    ∀ c ∈ cs, isTerminator c = true := by
  match cs with
  | [] => exact List.forall_mem_nil _
  | c :: cs =>
    by_cases hn : c = '\n'
    · subst hn
      cases cs with
      | nil => exact List.forall_mem_singleton.mpr rfl
      | cons d cs => exact absurd hend Bool.false_ne_true
    by_cases hr : c = '\r'
    · subst hr
      match cs with
      | [] => exact List.forall_mem_singleton.mpr rfl
      | d :: cs =>
        by_cases hd : d = '\n'
        · subst hd
          cases cs with
          | nil => exact List.forall_mem_cons.mpr ⟨rfl, List.forall_mem_singleton.mpr rfl⟩
          | cons e cs => exact absurd hend Bool.false_ne_true
        · rw [atEnd_return_cons_of_ne hd] at hend
          cases hend
    rw [atEnd_cons_of_ne hn hr, Bool.and_eq_true, List.isEmpty_iff] at hend
    obtain ⟨rfl, hc⟩ := hend
    exact List.forall_mem_singleton.mpr hc
namespace Re

attribute [local simp] run

theorem mem_run_lit : h ∈ (lit ps).run before cs ↔
    ∃ t u, cs = t ++ u ∧ Spells ps t ∧ h = ⟨t, u, []⟩ := by
  simp only [run, Option.mem_toList, Option.map_eq_some_iff, Prod.exists, takeLit_eq_some]
  constructor
  · rintro ⟨t, u, ⟨hcs, ht⟩, rfl⟩
    exact ⟨t, u, hcs, ht, rfl⟩
  · rintro ⟨t, u, hcs, ht, rfl⟩
    exact ⟨t, u, ⟨hcs, ht⟩, rfl⟩

theorem mem_run_star : h ∈ (star p).run before cs ↔
    ∃ t u, cs = t ++ u ∧ (∀ c ∈ t, p c = true) ∧ h = ⟨t, u, []⟩ := by
  simp only [run, List.mem_map, Prod.exists, mem_splits]
  constructor
  · rintro ⟨t, u, ⟨hcs, ht⟩, rfl⟩
    exact ⟨t, u, hcs, ht, rfl⟩
  · rintro ⟨t, u, hcs, ht, rfl⟩
    exact ⟨t, u, ⟨hcs, ht⟩, rfl⟩

theorem mem_run_opt : h ∈ (opt r).run before cs ↔ h ∈ r.run before cs ∨ h = ⟨[], cs, []⟩ := by
  simp only [run, List.mem_append, List.mem_singleton]

theorem mem_run_seq : h ∈ (seq r₁ r₂).run before cs ↔
    ∃ h₁ ∈ r₁.run before cs, ∃ h₂ ∈ r₂.run (before ++ h₁.taken) h₁.rest, h = h₁.append h₂ := by
  simp only [run, List.mem_flatMap, List.mem_map, eq_comm]

theorem mem_run_group : h ∈ (group n r).run before cs ↔
    ∃ h₁ ∈ r.run before cs, h = { h₁ with groups := (n, h₁.taken) :: h₁.groups } := by
  simp only [run, List.mem_map, eq_comm]

theorem mem_run_eos : h ∈ eos.run before cs ↔ atEnd before cs = true ∧ h = ⟨[], cs, []⟩ := by
  simp

/-! ## Which way comes first -/

theorem head_splits (ht : ∀ c ∈ t, p c = true) (hu : ∀ c ∈ u.head?, p c = false) :
    (splits p (t ++ u)).head? = some (t, u) := by
  induction t with
  | nil =>
    cases u with
    | nil => rfl
    | cons c u =>
      have hc : p c = false := hu c rfl
      simp [splits, hc]
  | cons c t ih =>
    obtain ⟨hc, ht⟩ := List.forall_mem_cons.mp ht
    simp [splits, hc, ih ht]

/-- A repetition takes all it can. -/
theorem head_run_star (before : List Char) (ht : ∀ c ∈ t, p c = true) (hu : ∀ c ∈ u.head?, p c = false) :
    ((star p).run before (t ++ u)).head? = some ⟨t, u, []⟩ := by
  simp [head_splits ht hu]

theorem head_run_lit (before : List Char) (ht : Spells ps t) :
    ((lit ps).run before (t ++ u)).head? = some ⟨t, u, []⟩ := by
  simp [takeLit_eq_some.mpr ⟨rfl, ht⟩]

theorem head_run_opt (hr : (r.run before cs).head? = some h) :
    ((opt r).run before cs).head? = some h := by
  simp [List.head?_append, hr]

theorem head_run_opt_none (hr : r.run before cs = []) :
    ((opt r).run before cs).head? = some ⟨[], cs, []⟩ := by
  simp [hr]

theorem head_run_group (hr : (r.run before cs).head? = some h) :
    ((group n r).run before cs).head? = some { h with groups := (n, h.taken) :: h.groups } := by
  simp [hr]

/-- The first way through the first part, if the second goes on from there. -/
theorem head_run_seq (hr₁ : (r₁.run before cs).head? = some h₁)
    (hr₂ : (r₂.run (before ++ h₁.taken) h₁.rest).head? = some h₂) :
    ((seq r₁ r₂).run before cs).head? = some (h₁.append h₂) := by
  obtain ⟨l₁, hl₁⟩ := List.head?_eq_some_iff.mp hr₁
  obtain ⟨l₂, hl₂⟩ := List.head?_eq_some_iff.mp hr₂
  simp [hl₁, hl₂]

/-- The first way is some way through the first part, and the first one on from there. -/
theorem exists_of_head_run_seq (hr : ((seq r₁ r₂).run before cs).head? = some h) :
    ∃ h₁ ∈ r₁.run before cs, ∃ h₂,
      (r₂.run (before ++ h₁.taken) h₁.rest).head? = some h₂ ∧ h = h₁.append h₂ := by
  rw [run] at hr
  generalize r₁.run before cs = l at hr ⊢
  induction l with
  | nil => simp at hr
  | cons h₁ l ih =>
    rw [List.flatMap_cons, List.head?_append] at hr
    cases hh : (r₂.run (before ++ h₁.taken) h₁.rest).head? with
    | some h₂ =>
      simp only [List.head?_map, hh, Option.map_some, Option.some_or, Option.some.injEq] at hr
      exact ⟨h₁, List.mem_cons_self, h₂, hh, hr.symm⟩
    | none =>
      simp only [List.head?_map, hh, Option.map_none, Option.none_or] at hr
      obtain ⟨h', hmem, hrest⟩ := ih hr
      exact ⟨h', List.mem_cons_of_mem _ hmem, hrest⟩

/-- Nothing taken before. -/
theorem map_append_nil (cs : List Char) (l : List Hit) : l.map (Hit.append ⟨[], cs, []⟩) = l :=
  List.map_id l

/-- Behind a repetition, the ways that take one more character come first. -/
theorem run_star_seq_cons {c : Char} (hc : p c = true) (before cs : List Char) :
    (seq (star p) r).run before (c :: cs) =
      ((seq (star p) r).run (before ++ [c]) cs).map (Hit.append ⟨[c], [], []⟩) ++
        r.run before (c :: cs) := by
  simp only [run, splits, hc, if_true, List.map_append, List.map_map, List.flatMap_append,
    List.flatMap_map, List.map_flatMap, List.map_cons, List.map_nil, List.flatMap_singleton,
    map_append_nil, List.append_nil]
  congr 1
  refine List.flatMap_congr fun s _ => ?_
  simp [Hit.append]

theorem run_star_seq_of_not (hc : ∀ c ∈ cs.head?, p c = false) (before : List Char) :
    (seq (star p) r).run before cs = r.run before cs := by
  cases cs with
  | nil => simp [splits, map_append_nil]
  | cons c cs =>
    have hc : p c = false := hc c rfl
    simp [splits, hc, map_append_nil]

/-- Before what follows it, a repetition takes as much as it can. -/
theorem exists_of_head_run_star_seq (hr : ((seq (star p) r).run before cs).head? = some h) :
    ∃ t u h', cs = t ++ u ∧ (∀ c ∈ t, p c = true) ∧ (r.run (before ++ t) u).head? = some h' ∧
      h = ⟨t ++ h'.taken, h'.rest, h'.groups⟩ ∧
      ∀ t' u', cs = t' ++ u' → (∀ c ∈ t', p c = true) → r.run (before ++ t') u' ≠ [] →
        t'.length ≤ t.length := by
  induction cs generalizing before h with
  | nil =>
    rw [run_star_seq_of_not (by simp)] at hr
    refine ⟨[], [], h, rfl, by simp, by simpa using hr, rfl, fun t' u' hcs _ _ => ?_⟩
    exact Nat.le_of_eq (congrArg List.length (List.append_eq_nil_iff.mp hcs.symm).1)
  | cons c cs ih =>
    by_cases hc : p c = true
    · rw [run_star_seq_cons hc, List.head?_append, List.head?_map] at hr
      cases hmore : ((seq (star p) r).run (before ++ [c]) cs).head? with
      | some h₁ =>
        obtain ⟨t, u, h', rfl, ht, hr', rfl, hlongest⟩ := ih hmore
        rw [hmore, Option.map_some, Option.some_or, Option.some.injEq] at hr
        refine ⟨c :: t, u, h', rfl, List.forall_mem_cons.mpr ⟨hc, ht⟩, ?_, hr.symm,
          fun t' u' hcs ht' hrun => ?_⟩
        · rwa [List.append_cons]
        · cases t' with
          | nil => exact Nat.zero_le _
          | cons d t' =>
            obtain ⟨rfl, htail⟩ := List.cons_eq_cons.mp (hcs.trans (List.cons_append ..))
            rw [List.append_cons] at hrun
            exact Nat.succ_le_succ (hlongest t' u' htail (List.forall_mem_cons.mp ht').2 hrun)
      | none =>
        rw [hmore, Option.map_none, Option.none_or] at hr
        refine ⟨[], c :: cs, h, rfl, by simp, by simpa using hr, rfl, fun t' u' hcs ht' hrun => ?_⟩
        cases t' with
        | nil => exact Nat.le_refl _
        | cons d t' =>
          -- a longer way would have been among the first ones
          obtain ⟨rfl, rfl⟩ := List.cons_eq_cons.mp (hcs.trans (List.cons_append ..))
          obtain ⟨h₂, hmem⟩ := List.exists_mem_of_ne_nil _ hrun
          have hstar : (⟨t', u', []⟩ : Hit) ∈ (star p).run (before ++ [c]) (t' ++ u') :=
            mem_run_star.mpr ⟨t', u', rfl, (List.forall_mem_cons.mp ht').2, rfl⟩
          have hway := mem_run_seq.mpr ⟨_, hstar, h₂, by simpa using hmem, rfl⟩
          rw [List.head?_eq_none_iff.mp hmore] at hway
          cases hway
    · rw [run_star_seq_of_not (by simpa using hc)] at hr
      refine ⟨[], c :: cs, h, rfl, by simp, by simpa using hr, rfl, fun t' u' hcs ht' _ => ?_⟩
      cases t' with
      | nil => exact Nat.le_refl _
      | cons d t' =>
        obtain ⟨rfl, -⟩ := List.cons_eq_cons.mp hcs
        exact absurd (ht' _ List.mem_cons_self) hc

/-- A match is where it says. -/
theorem append_of_mem_run : ∀ {r : Re} {before cs : List Char} {h : Hit},
    h ∈ r.run before cs → cs = h.taken ++ h.rest
  | lit ps, _, _, _, hr => by
    obtain ⟨t, u, hcs, -, rfl⟩ := mem_run_lit.mp hr
    exact hcs
  | star p, _, _, _, hr => by
    obtain ⟨t, u, hcs, -, rfl⟩ := mem_run_star.mp hr
    exact hcs
  | opt r, _, _, _, hr => by
    rcases mem_run_opt.mp hr with hr | rfl
    · exact append_of_mem_run hr
    · rfl
  | seq r₁ r₂, _, _, _, hr => by
    obtain ⟨h₁, hr₁, h₂, hr₂, rfl⟩ := mem_run_seq.mp hr
    rw [append_of_mem_run hr₁, append_of_mem_run hr₂, Hit.append, List.append_assoc]
  | group n r, _, _, _, hr => by
    obtain ⟨h₁, hr₁, rfl⟩ := mem_run_group.mp hr
    exact append_of_mem_run (h := h₁) hr₁
  | bos, before, _, _, hr => by
    by_cases hb : before = [] <;> simp [hb] at hr
    rw [hr, List.nil_append]
  | eos, _, _, _, hr => by
    obtain ⟨-, rfl⟩ := mem_run_eos.mp hr
    rfl

/-! ## Without a group -/

theorem get_ungroup {m n : ℕ} (hmn : m ≠ n) (h : Hit) : (h.ungroup n).get m = h.get m := by
  obtain ⟨taken, rest, groups⟩ := h
  simp only [Hit.ungroup, Hit.get]
  congr 1
  induction groups with
  | nil => rfl
  | cons g groups ih =>
    obtain ⟨i, t⟩ := g
    by_cases hi : i = n
    · simpa [hi, List.lookup_cons, beq_eq_false_iff_ne.mpr hmn] using ih
    · rw [List.filter_cons_of_pos (by simpa using hi), List.lookup_cons, List.lookup_cons, ih]

theorem ungroup_append (n : ℕ) (h₁ h₂ : Hit) :
    (h₁.append h₂).ungroup n = (h₁.ungroup n).append (h₂.ungroup n) := by
  simp [Hit.append, Hit.ungroup]

/-- A group changes nothing but what it holds. -/
theorem run_ungroup (n : ℕ) : ∀ (r : Re) (before cs : List Char),
    (r.ungroup n).run before cs = (r.run before cs).map (Hit.ungroup n)
  | lit ps, before, cs => by
    simp [ungroup, run, Hit.ungroup, Option.toList_map]
  | star p, before, cs => by
    simp [ungroup, run, Hit.ungroup]
  | opt r, before, cs => by
    simp [ungroup, run, Hit.ungroup, run_ungroup n r]
  | seq r₁ r₂, before, cs => by
    simp only [ungroup, run, run_ungroup n r₁, List.flatMap_map, List.map_flatMap, List.map_map]
    refine List.flatMap_congr fun h _ => ?_
    simp only [Hit.ungroup, run_ungroup n r₂, List.map_map]
    refine List.map_congr_left fun h' _ => ?_
    exact (ungroup_append n h h').symm
  | group m r, before, cs => by
    by_cases hm : m = n
    · simp [ungroup, hm, run, run_ungroup n r, Hit.ungroup, Function.comp_def]
    · simp [ungroup, hm, run, run_ungroup n r, Hit.ungroup, Function.comp_def]
  | bos, before, cs => by
    by_cases hb : before = [] <;> simp [ungroup, run, hb, Hit.ungroup]
  | eos, before, cs => by
    by_cases hb : atEnd before cs = true <;> simp [ungroup, run, hb, Hit.ungroup]

/-! ## Finding and replacing -/

variable {skipped : List Char}

theorem find_eq_some (hf : r.find before cs = some (skipped, h)) :
    cs = skipped ++ h.taken ++ h.rest ∧
      (r.run (before ++ skipped) (h.taken ++ h.rest)).head? = some h := by
  induction cs generalizing before skipped with
  | nil =>
    obtain ⟨h', hr, heq⟩ := Option.map_eq_some_iff.mp hf
    obtain ⟨rfl, rfl⟩ := Prod.mk.inj heq
    have hcs := append_of_mem_run (List.mem_of_head? hr)
    rw [← hcs, List.append_nil]
    exact ⟨by simpa using hcs, hr⟩
  | cons c cs ih =>
    unfold find at hf
    cases hr : (r.run before (c :: cs)).head? with
    | some h' =>
      simp only [hr, Option.some.injEq, Prod.mk.injEq] at hf
      obtain ⟨rfl, rfl⟩ := hf
      have hcs := append_of_mem_run (List.mem_of_head? hr)
      rw [← hcs, List.append_nil]
      exact ⟨by simpa using hcs, hr⟩
    | none =>
      simp only [hr] at hf
      obtain ⟨⟨skipped', h'⟩, hf', heq⟩ := Option.map_eq_some_iff.mp hf
      obtain ⟨rfl, rfl⟩ := Prod.mk.inj heq
      obtain ⟨hcs, hrun⟩ := ih hf'
      exact ⟨by simpa using hcs, by simpa using hrun⟩

/-- There is a match if there is a way through from some position. -/
theorem find_ne_none (hr : r.run (before ++ t) u ≠ []) : r.find before (t ++ u) ≠ none := by
  induction t generalizing before with
  | nil =>
    obtain ⟨h, l, hl⟩ := List.exists_cons_of_ne_nil hr
    rw [List.append_nil] at hl
    cases u <;> simp [find, hl]
  | cons c t ih =>
    rw [List.cons_append]
    unfold find
    cases (r.run before (c :: (t ++ u))).head? with
    | some h' => simp
    | none =>
      have hrun : r.run (before ++ [c] ++ t) u ≠ [] := by simpa using hr
      simpa using ih hrun

theorem find_of_head_run (hr : (r.run before cs).head? = some h) :
    r.find before cs = some ([], h) := by
  cases cs <;> simp [find, hr]

/-- Where nothing matches, the search goes on behind it. -/
theorem find_append (h : ∀ x c y, t = x ++ c :: y → r.run (before ++ x) (c :: y ++ u) = []) :
    r.find before (t ++ u) = (r.find (before ++ t) u).map fun s => (t ++ s.1, s.2) := by
  induction t generalizing before with
  | nil => simp
  | cons c t ih =>
    have hnone : r.run before (c :: (t ++ u)) = [] := by simpa using h [] c t rfl
    have hrest : r.find (before ++ [c]) (t ++ u) =
        (r.find (before ++ [c] ++ t) u).map fun s => (t ++ s.1, s.2) :=
      ih fun x d y ht => by simpa using h (c :: x) d y (by rw [ht, List.cons_append])
    rw [List.cons_append, find, hnone]
    simp only [List.head?_nil, hrest, Option.map_map]
    simp [Function.comp_def]

theorem find_ungroup (n : ℕ) (r : Re) (before cs : List Char) :
    (r.ungroup n).find before cs = (r.find before cs).map fun s => (s.1, s.2.ungroup n) := by
  induction cs generalizing before with
  | nil => simp [find, run_ungroup, Function.comp_def]
  | cons c cs ih =>
    simp only [find, run_ungroup, List.head?_map, ih]
    cases (r.run before (c :: cs)).head? with
    | some h => rfl
    | none => simp [Function.comp_def]

/-- Nothing is found before the match. -/
theorem find_leftmost (hf : r.find before cs = some (skipped, h)) :
    ∀ x y, cs = x ++ y → r.run (before ++ x) y ≠ [] → skipped.length ≤ x.length := by
  induction cs generalizing before skipped with
  | nil =>
    obtain ⟨h', -, heq⟩ := Option.map_eq_some_iff.mp hf
    obtain ⟨rfl, -⟩ := Prod.mk.inj heq
    exact fun x _ _ _ => Nat.zero_le _
  | cons c cs ih =>
    intro x y hcs hrun
    unfold find at hf
    cases hr : (r.run before (c :: cs)).head? with
    | some h' =>
      simp only [hr, Option.some.injEq, Prod.mk.injEq] at hf
      rw [← hf.1]
      exact Nat.zero_le _
    | none =>
      simp only [hr] at hf
      obtain ⟨⟨skipped', h'⟩, hf', heq⟩ := Option.map_eq_some_iff.mp hf
      obtain ⟨rfl, rfl⟩ := Prod.mk.inj heq
      cases x with
      | nil =>
        rw [List.nil_append] at hcs
        rw [List.append_nil, ← hcs] at hrun
        exact absurd (List.head?_eq_none_iff.mp hr) hrun
      | cons d x =>
        obtain ⟨rfl, htail⟩ := List.cons_eq_cons.mp hcs
        rw [List.append_cons] at hrun
        exact Nat.succ_le_succ (ih hf' x y htail hrun)

variable {new : Hit → List Char}

theorem replaceFirst_of_head_run (hr : (r.run [] cs).head? = some h) :
    r.replaceFirst new cs = new h ++ h.rest := by
  rw [replaceFirst, find_of_head_run hr]
  rfl

/-- A match that leaves nothing to find is the last one. -/
theorem replaceAll_of_find_none (hf : r.find [] cs = some (skipped, h)) (ht : h.taken ≠ [])
    (hrest : r.find (skipped ++ h.taken) h.rest = none) :
    r.replaceAll new cs = skipped ++ new h ++ h.rest := by
  obtain ⟨c, t, ht'⟩ := List.exists_cons_of_ne_nil ht
  have hlast : ∀ fuel, r.replaceFrom new fuel (skipped ++ h.taken) h.rest = h.rest := fun fuel => by
    cases fuel with
    | zero => rfl
    | succ fuel => rw [replaceFrom, hrest]
  have hlast' := hlast cs.length
  rw [ht'] at hlast'
  simp only [replaceAll, replaceFrom, hf, ht', List.nil_append, hlast']

/-- A match up to the end of the text is the last one. -/
theorem replaceAll_of_find (hf : r.find [] cs = some (skipped, h)) (ht : h.taken ≠ [])
    (hrest : h.rest = []) (hnil : ∀ before, r.run before [] = []) :
    r.replaceAll new cs = skipped ++ new h := by
  rw [replaceAll_of_find_none hf ht (by simp [hrest, find, hnil]), hrest, List.append_nil]

end Re

end

end MySocket
