import MySocket.Search

/-!
# Waiting for a delimiter

The socket programs `Server` and `Client` read what the other side sends in chunks of up to
64 characters, until one of the chunks contains "eof". What is sent may be cut anywhere.

`receiveFrom` is that loop for any delimiter. It finds the delimiter in the text if and only
if the first occurrence was not cut (`detected_receiveFrom_iff`).
-/

namespace MySocket

variable {α : Type*} [DecidableEq α]

/-- The text received and the number of calls of `read`, the one that ends the stream
included. -/
structure Received (α : Type*) where
  sb : List α
  reads : ℕ
  deriving DecidableEq

/-- The receive loop, with the text so far and the chunks still to come. -/
def receiveFrom (d : List α) : List α → List (List α) → Received α
  | sb, [] => ⟨sb, 1⟩
  | sb, temp :: chunks =>
    match indexOf d temp with
    | some index => ⟨sb ++ temp.take index, 1⟩
    | none =>
      let r := receiveFrom d (sb ++ temp) chunks
      ⟨r.sb, r.reads + 1⟩

/-- The text before the first delimiter. -/
def upTo (d xs : List α) : List α :=
  match indexOf d xs with
  | some i => xs.take i
  | none => xs

/-- The text before the delimiter was received, and no chunk was asked for once the chunks
read contained the delimiter. -/
def Detected (d : List α) (chunks : List (List α)) (r : Received α) : Prop :=
  r.sb = upTo d chunks.flatten ∧ ∀ m < r.reads, ∀ i, ¬OccursAt d (chunks.take m).flatten i

/-- The first delimiter, if there is one, lies in one of the chunks. -/
def Uncut (d : List α) (chunks : List (List α)) : Prop :=
  ∀ i, indexOf d chunks.flatten = some i → ∃ before chunk after,
    chunks = before ++ chunk :: after ∧ before.flatten.length ≤ i ∧
      i + d.length ≤ before.flatten.length + chunk.length

/-! ## The loop -/

section

variable {d : List α} {chunks before after : List (List α)} {chunk sb : List α} {i j : ℕ}

/-- Chunks without a delimiter are collected. -/
theorem receiveFrom_append (h : ∀ c ∈ before, indexOf d c = none) (rest : List (List α)) :
    receiveFrom d sb (before ++ rest) =
      ⟨(receiveFrom d (sb ++ before.flatten) rest).sb,
        (receiveFrom d (sb ++ before.flatten) rest).reads + before.length⟩ := by
  induction before generalizing sb with
  | nil => simp
  | cons c before ih =>
    rw [List.forall_mem_cons] at h
    simp only [List.cons_append, receiveFrom, h.1, ih h.2, List.flatten_cons, List.append_assoc,
      List.length_cons]
    congr 1

theorem receiveFrom_none (h : ∀ c ∈ chunks, indexOf d c = none) :
    receiveFrom d [] chunks = ⟨chunks.flatten, chunks.length + 1⟩ := by
  have hall : receiveFrom d [] (chunks ++ []) = _ := receiveFrom_append h []
  rw [List.append_nil] at hall
  rw [hall]
  simp [receiveFrom, Nat.add_comm]

theorem receiveFrom_some (h : ∀ c ∈ before, indexOf d c = none) (hi : indexOf d chunk = some i) :
    receiveFrom d [] (before ++ chunk :: after) =
      ⟨before.flatten ++ chunk.take i, before.length + 1⟩ := by
  rw [receiveFrom_append h]
  simp [receiveFrom, hi, Nat.add_comm]

/-- Either no chunk contains the delimiter, or there is a first one that does. -/
theorem exists_first_chunk (d : List α) (chunks : List (List α)) :
    (∀ c ∈ chunks, indexOf d c = none) ∨ ∃ before chunk after i,
      chunks = before ++ chunk :: after ∧ (∀ c ∈ before, indexOf d c = none) ∧
        indexOf d chunk = some i := by
  induction chunks with
  | nil => exact .inl (by simp)
  | cons c chunks ih =>
    rcases hc : indexOf d c with _ | i
    · rcases ih with h | ⟨before, chunk, after, i, rfl, h, hi⟩
      · exact .inl (List.forall_mem_cons.mpr ⟨hc, h⟩)
      · exact .inr ⟨c :: before, chunk, after, i, rfl, List.forall_mem_cons.mpr ⟨hc, h⟩, hi⟩
    · exact .inr ⟨[], c, chunks, i, rfl, by simp, hc⟩

/-! ## The text -/

/-- A chunk in which the delimiter is found holds the first delimiter of the text if and only
if that one is uncut. -/
theorem uncut_append_iff (hd : d ≠ []) (h : ∀ c ∈ before, indexOf d c = none)
    (hi : indexOf d chunk = some i) (hj : indexOf d (before ++ chunk :: after).flatten = some j) :
    Uncut d (before ++ chunk :: after) ↔ j = before.flatten.length + i := by
  obtain ⟨hocc, hfirst⟩ := indexOf_eq_some.mp hi
  obtain ⟨hoccj, hfirstj⟩ := indexOf_eq_some.mp hj
  have hpos := List.length_pos_of_ne_nil hd
  have hlen := hocc.le_length hd
  have hle : j ≤ before.flatten.length + i := not_lt.mp fun hlt =>
    hfirstj _ hlt (hocc.flatten hd)
  constructor
  · intro hun
    obtain ⟨before', chunk', after', heq, hlow, hhigh⟩ := hun j hj
    rw [heq] at hoccj
    have hocc' := occursAt_chunk hoccj hlow hhigh
    rcases List.append_eq_append_iff.mp heq with ⟨l, rfl, hl⟩ | ⟨l, rfl, hl⟩
    · cases l with
      | nil =>
        obtain ⟨rfl, -⟩ := List.cons_eq_cons.mp hl
        rw [List.append_nil] at hlow hocc'
        by_contra hne
        exact hfirst _ (by omega) hocc'
      | cons c l =>
        -- the chunk would come after the one that ends the loop
        obtain ⟨rfl, -⟩ := List.cons_eq_cons.mp hl
        simp only [List.flatten_append, List.flatten_cons, List.length_append] at hlow
        omega
    · cases l with
      | nil =>
        obtain ⟨rfl, -⟩ := List.cons_eq_cons.mp hl
        rw [List.append_nil] at hle ⊢
        by_contra hne
        exact hfirst _ (by omega) hocc'
      | cons c l =>
        -- it would come before it, where no delimiter was found
        obtain ⟨rfl, -⟩ := List.cons_eq_cons.mp hl
        exact absurd hocc' (indexOf_eq_none.mp (h _ (by simp)) _)
  · rintro rfl k hk
    obtain rfl := Option.some.inj (hj.symm.trans hk)
    exact ⟨before, chunk, after, rfl, by omega, by omega⟩

/-- The loop finds the delimiter if and only if the first one is not cut. -/
theorem detected_receiveFrom_iff (hd : d ≠ []) (chunks : List (List α)) :
    Detected d chunks (receiveFrom d [] chunks) ↔ Uncut d chunks := by
  rcases exists_first_chunk d chunks with h | ⟨before, chunk, after, i, rfl, h, hi⟩
  · -- nothing is found : then there has to be nothing
    rw [receiveFrom_none h]
    constructor
    · rintro ⟨-, hreads⟩ i hi
      have := hreads chunks.length (by simp) i
      rw [List.take_length] at this
      exact absurd (indexOf_eq_some.mp hi).1 this
    · intro hun
      have hnone : indexOf d chunks.flatten = none := by
        rcases hi : indexOf d chunks.flatten with _ | i
        · rfl
        · obtain ⟨before, chunk, after, rfl, hlow, hhigh⟩ := hun i hi
          have hocc := occursAt_chunk (indexOf_eq_some.mp hi).1 hlow hhigh
          exact absurd hocc (indexOf_eq_none.mp (h chunk (by simp)) _)
      refine ⟨by simp only [upTo, hnone], fun m _ i hocc => ?_⟩
      exact indexOf_eq_none.mp hnone i (hocc.of_take hd)
  · obtain ⟨hocc, -⟩ := indexOf_eq_some.mp hi
    obtain ⟨j, hj⟩ : ∃ j, indexOf d (before ++ chunk :: after).flatten = some j := by
      rcases hj : indexOf d (before ++ chunk :: after).flatten with _ | j
      · exact absurd (hocc.flatten hd) (indexOf_eq_none.mp hj _)
      · exact ⟨j, rfl⟩
    obtain ⟨hoccj, hfirstj⟩ := indexOf_eq_some.mp hj
    have hpos := List.length_pos_of_ne_nil hd
    rw [receiveFrom_some h hi, uncut_append_iff hd h hi hj]
    constructor
    · rintro ⟨hsb, -⟩
      have hlen := congrArg List.length hsb
      have hi' := hocc.le_length hd
      have hj' := hoccj.le_length hd
      simp only [upTo, hj, List.length_append, List.length_take] at hlen
      omega
    · rintro rfl
      constructor
      · have hlen := hocc.le_length hd
        simp only [upTo, hj]
        rw [List.flatten_append, List.flatten_cons, List.take_length_add_append,
          List.take_append_of_le_length (by omega)]
      · intro m hm k hk
        have hlen := hk.le_length hd
        have hbefore := length_flatten_take_le (chunk :: after)
          (show m ≤ before.length by dsimp only at hm; omega)
        exact hfirstj k (by omega) (hk.of_take hd)

end

/-! ## The two programs -/

/-- "eof" in UTF-16. -/
def eof : List UInt16 :=
  [101, 111, 102]

/-- The loop of `Server.main` : the chunks the client's text arrives in. -/
def Server.receive (chunks : List (List UInt16)) : Received UInt16 :=
  receiveFrom eof [] chunks

/-- The loop of `Client.main`. -/
def Client.receive (chunks : List (List UInt16)) : Received UInt16 :=
  receiveFrom eof [] chunks

/-- Both programs receive the text before "eof", and read no further, if and only if the
first "eof" is not cut. -/
theorem detected_iff_uncut (chunks : List (List UInt16)) :
    (Detected eof chunks (Server.receive chunks) ↔ Uncut eof chunks) ∧
      (Detected eof chunks (Client.receive chunks) ↔ Uncut eof chunks) :=
  ⟨detected_receiveFrom_iff (by decide) chunks, detected_receiveFrom_iff (by decide) chunks⟩

/-- "eof" that arrives as "eo" and "f" : it becomes part of the text, and the loop waits for
the end of the stream. -/
theorem eof_cut :
    Server.receive [[101, 111], [102]] = ⟨[101, 111, 102], 3⟩ ∧
      Client.receive [[101, 111], [102]] = ⟨[101, 111, 102], 3⟩ ∧
      upTo eof [101, 111, 102] = [] ∧
      ¬Detected eof [[101, 111], [102]] (Server.receive [[101, 111], [102]]) ∧
      ¬Detected eof [[101, 111], [102]] (Client.receive [[101, 111], [102]]) :=
  ⟨by decide, by decide, by decide, fun h => absurd h.1 (by decide), fun h => absurd h.1 (by decide)⟩

end MySocket
