import Mathlib.Algebra.Order.Group.Int
import Mathlib.Data.Int.Order.Basic
import Mathlib.Data.List.Basic
import Mathlib.Tactic.Linarith

/-!
# Memory around a pointer

A `Mem` has the bytes at the addresses relative to some pointer, before it and behind it.
`load m a n` is the `n` bytes from address `a` on, and `store m a bs` has `bs` there instead.

* `load_store` : what is stored is loaded.
* `load_store_of_disjoint` : the bytes elsewhere are what they were.
* `load_three` : three stores side by side.
* `load_add` : neighbouring bytes are loaded together.
* `store_over` : what strings become of which each one begins at the end of the one before.
-/

namespace MySocket

abbrev Mem := ℤ → UInt8

/-- The `n` bytes from `a` on. -/
def load (m : Mem) (a : ℤ) : ℕ → List UInt8
  | 0 => []
  | n + 1 => m a :: load m (a + 1) n

/-- `bs` from `a` on, and `m` elsewhere. -/
def store (m : Mem) (a : ℤ) : List UInt8 → Mem
  | [] => m
  | b :: bs => store (Function.update m a b) (a + 1) bs

variable {m m' : Mem} {a b : ℤ} {n k : ℕ} {bs : List UInt8}

@[simp] theorem length_load : ∀ (n : ℕ) (a : ℤ), (load m a n).length = n
  | 0, _ => rfl
  | n + 1, a => congrArg (· + 1) (length_load n (a + 1))

theorem load_add : ∀ (n k : ℕ) (a : ℤ), load m a (n + k) = load m a n ++ load m (a + n) k
  | 0, k, a => by simp [load]
  | n + 1, k, a => by
    rw [Nat.succ_add, load, load, load_add n k (a + 1), List.cons_append, Nat.cast_succ,
      add_assoc, add_comm (1 : ℤ)]

theorem drop_load {k n : ℕ} (h : k ≤ n) (a : ℤ) : (load m a n).drop k = load m (a + k) (n - k) := by
  obtain ⟨j, rfl⟩ := Nat.exists_eq_add_of_le h
  rw [load_add, List.drop_append_of_le_length (by simp), Nat.add_sub_cancel_left]
  simp

theorem getElem?_load : ∀ {n i : ℕ} {a : ℤ}, i < n → (load m a n)[i]? = some (m (a + i))
  | n + 1, 0, a, _ => by simp [load]
  | n + 1, i + 1, a, h => by
    rw [load, List.getElem?_cons_succ, getElem?_load (Nat.lt_of_succ_lt_succ h), Nat.cast_succ,
      add_assoc, add_comm (1 : ℤ)]

/-- The memory around the pointer that is `a` further on. -/
def shift (m : Mem) (a : ℤ) : Mem := fun i => m (a + i)

@[simp] theorem load_shift : ∀ (n : ℕ) (a b : ℤ), load (shift m a) b n = load m (a + b) n
  | 0, _, _ => rfl
  | n + 1, a, b => by rw [load, load, load_shift n a (b + 1), shift, add_assoc]

theorem load_congr : ∀ {n : ℕ} {a : ℤ}, (∀ i, a ≤ i → i < a + n → m i = m' i) →
    load m a n = load m' a n
  | 0, _, _ => rfl
  | n + 1, a, h => by
    rw [load, load, h a le_rfl (by omega), load_congr fun i hai hin => h i (by omega) (by omega)]

theorem store_of_lt : ∀ {bs : List UInt8} {m : Mem} {a i : ℤ}, i < a → store m a bs i = m i
  | [], _, _, _, _ => rfl
  | b :: bs, m, a, i, h => by
    rw [store, store_of_lt (by omega), Function.update_of_ne (by omega)]

theorem store_of_ge : ∀ {bs : List UInt8} {m : Mem} {a i : ℤ}, a + bs.length ≤ i →
    store m a bs i = m i
  | [], _, _, _, _ => rfl
  | b :: bs, m, a, i, h => by
    have hlen : ((b :: bs).length : ℤ) = bs.length + 1 := by simp
    rw [store, store_of_ge (by omega), Function.update_of_ne (by omega)]

/-- What has been stored. -/
theorem load_store : ∀ {bs : List UInt8} {m : Mem} {a : ℤ}, load (store m a bs) a bs.length = bs
  | [], _, _ => rfl
  | b :: bs, m, a => by
    rw [store, List.length_cons, load, load_store, store_of_lt (by omega), Function.update_self]

/-- What has been left as it was. -/
theorem load_store_of_disjoint (h : b + n ≤ a ∨ a + bs.length ≤ b) :
    load (store m a bs) b n = load m b n :=
  load_congr fun i hbi hin => by
    rcases h with h | h
    · exact store_of_lt (by omega)
    · exact store_of_ge (by omega)

theorem store_append : ∀ {bs cs : List UInt8} {m : Mem} {a : ℤ},
    store m a (bs ++ cs) = store (store m a bs) (a + bs.length) cs
  | [], _, _, _ => by simp [store]
  | b :: bs, cs, m, a => by
    rw [List.cons_append, store, store_append, store, List.length_cons, Nat.cast_succ, add_assoc,
      add_comm (1 : ℤ)]

/-- A string that begins at the end of another one. -/
theorem store_over {b c : UInt8} {cs : List UInt8} :
    store (store m a (bs ++ [b])) (a + bs.length) (c :: cs) = store m a (bs ++ c :: cs) := by
  rw [store_append, store_append, store, store, store, store, Function.update_idem]

theorem load_store_append {cs : List UInt8} : load (store m a (bs ++ cs)) a bs.length = bs := by
  rw [store_append, load_store_of_disjoint (Or.inl le_rfl), load_store]

theorem shift_store : ∀ {bs : List UInt8} {m : Mem} {a b : ℤ},
    shift (store m a bs) b = store (shift m b) (a - b) bs
  | [], _, _, _ => rfl
  | c :: bs, m, a, b => by
    rw [store, shift_store, store, sub_add_eq_add_sub]
    congr 1
    funext i
    rcases em (i = a - b) with rfl | hi
    · rw [Function.update_self, shift, add_sub_cancel, Function.update_self]
    · rw [Function.update_of_ne hi, shift, Function.update_of_ne (by omega), shift]

/-- What is stored through another pointer. -/
theorem shift_store_shift (m : Mem) (a : ℤ) (bs : List UInt8) :
    shift (store (shift m a) 0 bs) (-a) = store m a bs := by
  rw [shift_store, zero_sub, neg_neg]
  congr 1
  funext i
  rw [shift, shift, add_neg_cancel_left]

/-- Three stores side by side, the first one first and the second one last. -/
theorem load_three {xs ys zs : List UInt8} {k : ℤ} (hx : a + xs.length = b) (hy : b + ys.length = k)
    (hn : n = xs.length + (ys.length + zs.length)) :
    load (store (store (store m a xs) k zs) b ys) a n = xs ++ (ys ++ zs) := by
  rw [hn, load_add, load_store_of_disjoint (Or.inl (by omega)),
    load_store_of_disjoint (Or.inl (by omega)), load_store, load_add, hx, load_store, hy,
    load_store_of_disjoint (Or.inr (by omega)), load_store]

end MySocket
