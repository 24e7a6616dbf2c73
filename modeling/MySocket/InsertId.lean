import Mathlib.Data.List.Nodup
import Mathlib.Logic.Function.Basic
import MySocket.Connections
import MySocket.Trace

/-!
# The id of an inserted row

`DBEngine.insertFetchId` executes an `INSERT` and then asks for `last_insert_id()`, which the
database keeps for each connection : the id of the last row inserted on it. Calls through
engines that keep their connection, and through one such engine by several callers, run on
one connection, and their steps can interleave.

A call returns the id of its own row if and only if no other `INSERT` was executed on its
connection in between (`ownId_iff_undisturbed`). Calls that do not share connections return
their own ids (`ownId_of_unshared`).
-/

set_option linter.unusedSectionVars false

namespace MySocket

open Jdbc

/-- Where a call of `insertFetchId` stands. -/
inductive InsertPhase
  /-- Before it has a connection. -/
  | called
  /-- Before its `INSERT`. -/
  | connected (conn : Connection)
  /-- Its row has the id `own`; before `select last_insert_id()`. -/
  | inserted (conn : Connection) (own : ℕ)
  | returned (own result : ℕ)
  | thrown

/-- An executed `INSERT` : its connection, the call and the id of the row. -/
structure Inserted (ι : Type*) where
  conn : Connection
  call : ι
  id : ℕ
  deriving DecidableEq

/-- The calls, what `last_insert_id()` is on each connection, and the `INSERT`s so far, the
last one first. -/
structure Inserts (ι : Type*) where
  phase : ι → InsertPhase
  lastInsertId : Connection → ℕ
  inserts : List (Inserted ι)

/-- A step of a call. The pool gives it `conn`, the database gives its row `id`. -/
inductive InsertEvent (ι : Type*)
  | connect (i : ι) (conn : Connection)
  | insert (i : ι) (id : ℕ)
  | select (i : ι)
  | throw (i : ι)

namespace Inserts

variable {ι : Type*} [DecidableEq ι] (engine : ι → DBEngine)

def setPhase (s : Inserts ι) (i : ι) (p : InsertPhase) : Inserts ι :=
  { s with phase := Function.update s.phase i p }

/-- One step of `insertFetchId`. An engine that keeps its connection gives it to every call. -/
def step (s : Inserts ι) : InsertEvent ι → Option (Inserts ι)
  | .connect i conn =>
    match s.phase i with
    | .called =>
      if (engine i).isKeepConn = true → (engine i).connection = some conn then
        some (s.setPhase i (.connected conn))
      else none
    | _ => none
  | .insert i id =>
    match s.phase i with
    | .connected conn =>
      if ∀ e ∈ s.inserts, e.id ≠ id then
        some
          { phase := Function.update s.phase i (.inserted conn id)
            lastInsertId := Function.update s.lastInsertId conn id
            inserts := ⟨conn, i, id⟩ :: s.inserts }
      else none
    | _ => none
  | .select i =>
    match s.phase i with
    | .inserted conn own => some (s.setPhase i (.returned own (s.lastInsertId conn)))
    | _ => none
  | .throw i =>
    match s.phase i with
    | .returned _ _ | .thrown => none
    | _ => some (s.setPhase i .thrown)

/-- No call has started. -/
def start (lastInsertId : Connection → ℕ) : Inserts ι :=
  ⟨fun _ => .called, lastInsertId, []⟩

/-- The calls that have returned returned the ids of their own rows. -/
def OwnIds (s : Inserts ι) : Prop :=
  ∀ i own result, s.phase i = .returned own result → result = own

/-- The call whose `INSERT` was the last on a connection. -/
def lastCall (s : Inserts ι) (conn : Connection) : Option ι :=
  (s.inserts.find? fun e => e.conn = conn).map Inserted.call

/-- A call asks for the last id when the last `INSERT` on its connection is its own. -/
def Undisturbed (s : Inserts ι) : InsertEvent ι → Prop
  | .select i => ∀ conn own, s.phase i = .inserted conn own → s.lastCall conn = some i
  | _ => True

/-- The `INSERT`s explain the phases and the last ids. -/
structure Explained (s : Inserts ι) : Prop where
  last : ∀ conn e, s.inserts.find? (fun e => e.conn = conn) = some e → s.lastInsertId conn = e.id
  own : ∀ i conn own, s.phase i = .inserted conn own → ⟨conn, i, own⟩ ∈ s.inserts
  ids : (s.inserts.map Inserted.id).Nodup
  calls : (s.inserts.map Inserted.call).Nodup
  later : ∀ e ∈ s.inserts, s.phase e.call ≠ .called ∧ ∀ conn, s.phase e.call ≠ .connected conn

variable {engine} {s s' : Inserts ι} {i : ι} {e : InsertEvent ι}

theorem setPhase_phase (p : InsertPhase) (j : ι) :
    (s.setPhase i p).phase j = if j = i then p else s.phase j := by
  simp [setPhase, Function.update_apply]

theorem step_cases (h : step engine s e = some s') :
    (∃ i conn, e = .connect i conn ∧ s.phase i = .called ∧
      ((engine i).isKeepConn = true → (engine i).connection = some conn) ∧
      s' = s.setPhase i (.connected conn)) ∨
    (∃ i conn id, e = .insert i id ∧ s.phase i = .connected conn ∧
      (∀ e ∈ s.inserts, e.id ≠ id) ∧
      s' = { phase := Function.update s.phase i (.inserted conn id)
             lastInsertId := Function.update s.lastInsertId conn id
             inserts := ⟨conn, i, id⟩ :: s.inserts }) ∨
    (∃ i conn own, e = .select i ∧ s.phase i = .inserted conn own ∧
      s' = s.setPhase i (.returned own (s.lastInsertId conn))) ∨
    (∃ i, e = .throw i ∧ s' = s.setPhase i .thrown) := by
  cases e with
  | connect i conn =>
    simp only [step] at h
    split at h
    · split at h
      · exact .inl ⟨i, conn, rfl, ‹_›, ‹_›, (Option.some.inj h).symm⟩
      · cases h
    · cases h
  | insert i id =>
    simp only [step] at h
    split at h
    · split at h
      · exact .inr (.inl ⟨i, _, id, rfl, ‹_›, ‹_›, (Option.some.inj h).symm⟩)
      · cases h
    · cases h
  | select i =>
    simp only [step] at h
    split at h
    · exact .inr (.inr (.inl ⟨i, _, _, rfl, ‹_›, (Option.some.inj h).symm⟩))
    · cases h
  | throw i =>
    simp only [step] at h
    split at h
    · cases h
    · cases h
    · exact .inr (.inr (.inr ⟨i, rfl, (Option.some.inj h).symm⟩))

/-- A call that goes on to a phase before which it has inserted, or leaves alone. -/
theorem Explained.setPhase {p : InsertPhase} (h : s.Explained)
    (hp : ∀ conn own, p ≠ .inserted conn own) (hcalled : p ≠ .called)
    (hconn : ∀ conn, p = .connected conn → s.phase i = .called) : (s.setPhase i p).Explained where
  last := h.last
  own := fun j conn own hj => by
    rw [setPhase_phase] at hj
    split at hj
    · exact absurd hj (hp conn own)
    · exact h.own j conn own hj
  ids := h.ids
  calls := h.calls
  later := fun e he => by
    obtain ⟨hne, hne'⟩ := h.later e he
    rw [setPhase_phase]
    split
    · rename_i hi
      rw [hi] at hne
      exact ⟨hcalled, fun conn hc => hne (hconn conn hc)⟩
    · exact ⟨hne, hne'⟩

theorem Explained.step (h : s.Explained) (hstep : step engine s e = some s') : s'.Explained := by
  rcases step_cases hstep with ⟨i, conn, -, hi, -, rfl⟩ | ⟨i, conn, id, -, hi, hid, rfl⟩ |
    ⟨i, conn, own, -, -, rfl⟩ | ⟨i, -, rfl⟩
  · exact h.setPhase (fun _ _ => by simp) (by simp) fun _ _ => hi
  · have hnew : ∀ e ∈ s.inserts, e.call ≠ i := fun e he hcall => by
      subst hcall
      exact (h.later e he).2 conn hi
    refine ⟨fun c e he => ?_, fun j c own hj => ?_, ?_, ?_, fun e he => ?_⟩
    · dsimp only at he ⊢
      rw [Function.update_apply]
      by_cases hc : c = conn
      · subst hc
        rw [List.find?_cons_of_pos (by simp)] at he
        rw [if_pos rfl, ← Option.some.inj he]
      · rw [List.find?_cons_of_neg (by simpa using Ne.symm hc)] at he
        rw [if_neg hc]
        exact h.last c e he
    · dsimp only at hj ⊢
      rw [Function.update_apply] at hj
      split at hj
      · rename_i hji
        obtain ⟨rfl, rfl⟩ := InsertPhase.inserted.inj hj
        rw [hji]
        exact List.mem_cons_self
      · exact List.mem_cons_of_mem _ (h.own j c own hj)
    · rw [List.map_cons, List.nodup_cons]
      refine ⟨fun hmem => ?_, h.ids⟩
      obtain ⟨e, he, heq⟩ := List.mem_map.mp hmem
      exact hid e he heq
    · rw [List.map_cons, List.nodup_cons]
      refine ⟨fun hmem => ?_, h.calls⟩
      obtain ⟨e, he, heq⟩ := List.mem_map.mp hmem
      exact hnew e he heq
    · dsimp only at he ⊢
      rw [Function.update_apply]
      rcases List.mem_cons.mp he with rfl | he
      · rw [if_pos rfl]
        exact ⟨by simp, by simp⟩
      · rw [if_neg (hnew e he)]
        exact h.later e he
  · exact h.setPhase (fun _ _ => by simp) (by simp) (by simp)
  · exact h.setPhase (fun _ _ => by simp) (by simp) (by simp)

theorem start_explained (lastInsertId : Connection → ℕ) :
    (start lastInsertId : Inserts ι).Explained where
  last := fun conn e he => by simp [start] at he
  own := fun i conn own hi => by simp [start] at hi
  ids := by simp [start]
  calls := by simp [start]
  later := fun e he => by simp [start] at he

theorem start_ownIds (lastInsertId : Connection → ℕ) : (start lastInsertId : Inserts ι).OwnIds :=
  fun _ _ _ hi => by simp [start] at hi

/-- What a call is told is its own id exactly when the last `INSERT` on its connection is its
own. -/
theorem Explained.lastInsertId_eq_iff {conn : Connection} {own : ℕ} (h : s.Explained)
    (hi : s.phase i = .inserted conn own) : s.lastInsertId conn = own ↔ s.lastCall conn = some i := by
  have hmem := h.own i conn own hi
  obtain ⟨e, he⟩ : ∃ e, s.inserts.find? (fun e => e.conn = conn) = some e :=
    Option.isSome_iff_exists.mp (List.find?_isSome.mpr ⟨_, hmem, by simp⟩)
  have hein := List.mem_of_find?_eq_some he
  rw [h.last conn e he, lastCall, he, Option.map_some, Option.some.injEq]
  constructor
  · intro hid
    rw [List.inj_on_of_nodup_map h.ids hein hmem hid]
  · intro hcall
    rw [List.inj_on_of_nodup_map h.calls hein hmem hcall]

theorem OwnIds.setPhase {p : InsertPhase} (h : s.OwnIds)
    (hp : ∀ own result, p = .returned own result → result = own) : (s.setPhase i p).OwnIds :=
  fun j own result hj => by
    rw [setPhase_phase] at hj
    split at hj
    · exact hp own result hj
    · exact h j own result hj

theorem OwnIds.step (h : s.OwnIds) (hex : s.Explained) (hok : s.Undisturbed e)
    (hstep : step engine s e = some s') : s'.OwnIds := by
  rcases step_cases hstep with ⟨i, conn, -, -, -, rfl⟩ | ⟨i, conn, id, -, -, -, rfl⟩ |
    ⟨i, conn, own, rfl, hi, rfl⟩ | ⟨i, -, rfl⟩
  · exact h.setPhase (by simp)
  · exact h.setPhase (p := .inserted conn id) (by simp)
  · refine h.setPhase fun own' result heq => ?_
    obtain ⟨rfl, rfl⟩ := InsertPhase.returned.inj heq
    exact (hex.lastInsertId_eq_iff hi).mpr (hok conn _ hi)
  · exact h.setPhase (by simp)

/-- A call that has returned its own id was not disturbed. -/
theorem undisturbed_of_ownIds (hex : s.Explained) (hstep : step engine s e = some s')
    (h : s'.OwnIds) : s.Undisturbed e := by
  cases e with
  | select i =>
    intro conn own hi
    obtain rfl : s.setPhase i (.returned own (s.lastInsertId conn)) = s' := by
      simpa [step, hi] using hstep
    exact (hex.lastInsertId_eq_iff hi).mp (h i own _ (by rw [setPhase_phase, if_pos rfl]))
  | _ => trivial

/-- In every interleaving of calls through any engines, all calls return the ids of their own
rows if and only if each asks for the last id when the last `INSERT` on its connection is
its own. -/
theorem ownIds_iff_undisturbed (engine : ι → DBEngine) (lastInsertId : Connection → ℕ)
    (es : List (InsertEvent ι)) :
    Always (step engine) OwnIds (start lastInsertId) es ↔
      Each (step engine) Undisturbed (start lastInsertId) es :=
  always_iff_each (I := fun s : Inserts ι => s.Explained ∧ s.OwnIds)
    (fun _ _ _ hI hok hstep => ⟨hI.1.step hstep, hI.2.step hI.1 hok hstep⟩)
    (fun _ hI => hI.2) (fun _ _ _ hI hstep h => undisturbed_of_ownIds hI.1 hstep h)
    ⟨start_explained lastInsertId, start_ownIds lastInsertId⟩

/-! ## Calls that share no connection -/

/-- The call has the connection. -/
def Holds (s : Inserts ι) (i : ι) (conn : Connection) : Prop :=
  s.phase i = .connected conn ∨ ∃ own, s.phase i = .inserted conn own

/-- A connection is given to a call while no other has it, as a pool does. -/
def Unshared (s : Inserts ι) : InsertEvent ι → Prop
  | .connect _ conn => ∀ j, ¬s.Holds j conn
  | _ => True

/-- A connection has one call at most, and the last `INSERT` on it is that of the call. -/
structure Apart (s : Inserts ι) : Prop where
  holds : ∀ i j conn, s.Holds i conn → s.Holds j conn → i = j
  last : ∀ i conn own, s.phase i = .inserted conn own → s.lastCall conn = some i

theorem holds_setPhase {p : InsertPhase} {j : ι} {conn : Connection} :
    (s.setPhase i p).Holds j conn ↔
      j = i ∧ (p = .connected conn ∨ ∃ own, p = .inserted conn own) ∨ j ≠ i ∧ s.Holds j conn := by
  simp only [Holds, setPhase_phase]
  by_cases hj : j = i
  · simp [hj]
  · simp [hj]

/-- A call that gives its connection back. -/
theorem Apart.leave {p : InsertPhase} (h : s.Apart) (hc : ∀ conn, p ≠ .connected conn)
    (hi : ∀ conn own, p ≠ .inserted conn own) : (s.setPhase i p).Apart := by
  have hold : ∀ j conn, (s.setPhase i p).Holds j conn → s.Holds j conn := fun j conn hj => by
    rcases holds_setPhase.mp hj with ⟨-, hp | ⟨own, hp⟩⟩ | ⟨-, hj⟩
    · exact absurd hp (hc conn)
    · exact absurd hp (hi conn own)
    · exact hj
  refine ⟨fun j k conn hj hk => h.holds j k conn (hold j conn hj) (hold k conn hk), ?_⟩
  intro j conn own hj
  rw [setPhase_phase] at hj
  split at hj
  · exact absurd hj (hi conn own)
  · exact h.last j conn own hj

theorem Apart.step (h : s.Apart) (hok : s.Unshared e) (hstep : step engine s e = some s') :
    s'.Apart := by
  rcases step_cases hstep with ⟨i, conn, rfl, -, -, rfl⟩ | ⟨i, conn, id, -, hi, -, rfl⟩ |
    ⟨i, conn, own, -, -, rfl⟩ | ⟨i, -, rfl⟩
  · refine ⟨fun j k c hj hk => ?_, fun j c own hj => ?_⟩
    · rcases holds_setPhase.mp hj with ⟨rfl, hjc⟩ | ⟨-, hjc⟩ <;>
        rcases holds_setPhase.mp hk with ⟨rfl, hkc⟩ | ⟨-, hkc⟩
      · rfl
      · obtain rfl : conn = c := by simpa using hjc
        exact absurd hkc (hok k)
      · obtain rfl : conn = c := by simpa using hkc
        exact absurd hjc (hok j)
      · exact h.holds j k c hjc hkc
    · rw [setPhase_phase] at hj
      split at hj
      · cases hj
      · exact h.last j c own hj
  · -- the `INSERT` : every call still has the connection it had
    have hold : ∀ j c, Holds
        { phase := Function.update s.phase i (.inserted conn id)
          lastInsertId := Function.update s.lastInsertId conn id
          inserts := ⟨conn, i, id⟩ :: s.inserts : Inserts ι } j c → s.Holds j c := fun j c hj => by
      rcases holds_setPhase (p := .inserted conn id).mp hj with ⟨rfl, hjc⟩ | ⟨-, hjc⟩
      · obtain rfl : conn = c := by simpa using hjc
        exact .inl hi
      · exact hjc
    refine ⟨fun j k c hj hk => h.holds j k c (hold j c hj) (hold k c hk), fun j c own hj => ?_⟩
    have hhold := hold j c (.inr ⟨own, hj⟩)
    dsimp only [lastCall] at hj ⊢
    by_cases hc : c = conn
    · subst hc
      rw [List.find?_cons_of_pos (by simp)]
      rw [h.holds j i c hhold (.inl hi)]
      rfl
    · rw [List.find?_cons_of_neg (by simpa using Ne.symm hc)]
      rw [Function.update_apply] at hj
      split at hj
      · exact absurd (InsertPhase.inserted.inj hj).1.symm hc
      · exact h.last j c own hj
  · exact h.leave (by simp) (by simp)
  · exact h.leave (by simp) (by simp)

theorem Apart.undisturbed (h : s.Apart) : s.Undisturbed e := by
  cases e with
  | select i => exact fun conn own hi => h.last i conn own hi
  | _ => trivial

theorem start_apart (lastInsertId : Connection → ℕ) : (start lastInsertId : Inserts ι).Apart :=
  ⟨fun i j conn hi _ => by simp [Holds, start] at hi, fun i conn own hi => by simp [start] at hi⟩

/-- Engines that take a connection of their own for every call return the callers' own ids. -/
theorem ownIds_of_unshared (lastInsertId : Connection → ℕ) {es : List (InsertEvent ι)}
    (h : Each (step engine) Unshared (start lastInsertId) es) :
    Always (step engine) OwnIds (start lastInsertId) es := by
  have hI : Always (step engine) (fun s => s.Explained ∧ s.OwnIds ∧ s.Apart) (start lastInsertId)
      es :=
    Each.always
      (fun _ _ _ ⟨hex, hown, hap⟩ hok hstep =>
        ⟨hex.step hstep, hown.step hex hap.undisturbed hstep, hap.step hok hstep⟩)
      ⟨start_explained lastInsertId, start_ownIds lastInsertId, start_apart lastInsertId⟩ h
  exact hI.mono fun _ ⟨_, hown, _⟩ => hown

end Inserts

/-! ## Two callers of one engine -/

/-- Two calls through an engine that keeps the connection `1`. -/
def sharedEngine : Fin 2 → DBEngine :=
  fun _ => ⟨"efan", true, some 1⟩

/-- Both rows are inserted before the first call asks for the last id. -/
def crossed {ι : Type} (a b : ι) : List (InsertEvent ι) :=
  [.connect a 1, .connect b 1, .insert a 10, .insert b 11, .select a]

/-- The first call returns the id of the second one's row. -/
theorem stranger_id :
    (∃ s, run (Inserts.step sharedEngine) (Inserts.start fun _ => 0) (crossed 0 1) = some s ∧
      s.phase 0 = .returned 10 11) ∧
      ¬Always (Inserts.step sharedEngine) Inserts.OwnIds (Inserts.start fun _ => 0) (crossed 0 1) := by
  have hrun : ∃ s, run (Inserts.step sharedEngine) (Inserts.start fun _ => 0) (crossed 0 1) = some s ∧
      s.phase 0 = .returned 10 11 := ⟨_, rfl, rfl⟩
  obtain ⟨s, hs, h0⟩ := hrun
  exact ⟨⟨s, hs, h0⟩, fun h => absurd (h.last hs 0 10 11 h0) (by decide)⟩

end MySocket
