import Mathlib.Data.Fin.Basic
import Mathlib.Data.List.Basic
import Mathlib.Data.Nat.Bitwise

/-!
# Frames of the websocket protocol

A frame is its first byte with FIN, RSV and the opcode, the length of the payload in one of three
fields, the masking key if there is one, and the payload, masked with the key.

* `xorKey_xorKey` : masking twice changes nothing.
* `orBytes_bigEndian` : a number put together from its bytes, the most significant first, with
  shifts and disjunctions is the number.
-/

namespace MySocket

namespace WebSocket

/-! ## Masking -/

abbrev MaskingKey := Fin 4 → UInt8

instance instNeZeroFour : NeZero 4 := ⟨Nat.succ_ne_zero 3⟩

/-- The bytes masked with the key, the first of them with byte `i` of the key. -/
def xorKey (key : MaskingKey) : ℕ → List UInt8 → List UInt8
  | _, [] => []
  | i, b :: bs => (b ^^^ key (Fin.ofNat 4 i)) :: xorKey key (i + 1) bs

@[simp] theorem length_xorKey (key : MaskingKey) : ∀ (i : ℕ) (bs : List UInt8),
    (xorKey key i bs).length = bs.length
  | _, [] => rfl
  | i, _ :: bs => congrArg (· + 1) (length_xorKey key (i + 1) bs)

@[simp] theorem xorKey_xorKey (key : MaskingKey) : ∀ (i : ℕ) (bs : List UInt8),
    xorKey key i (xorKey key i bs) = bs
  | _, [] => rfl
  | i, b :: bs => by
    rw [xorKey, xorKey, UInt8.xor_assoc, UInt8.xor_self, UInt8.xor_zero, xorKey_xorKey]

/-- A key of zeros does not mask. -/
theorem xorKey_zero {key : MaskingKey} (hkey : ∀ j, key j = 0) : ∀ (i : ℕ) (bs : List UInt8),
    xorKey key i bs = bs
  | _, [] => rfl
  | i, b :: bs => by rw [xorKey, hkey, UInt8.xor_zero, xorKey_zero hkey]

/-- Only the place in the key matters. -/
theorem xorKey_mod (key : MaskingKey) : ∀ {i j : ℕ} (bs : List UInt8), i % 4 = j % 4 →
    xorKey key i bs = xorKey key j bs
  | _, _, [], _ => rfl
  | i, j, b :: bs, h => by
    have hplace : Fin.ofNat 4 i = Fin.ofNat 4 j := Fin.ext h
    rw [xorKey, xorKey, hplace, xorKey_mod key bs (by omega : (i + 1) % 4 = (j + 1) % 4)]

theorem xorKey_append (key : MaskingKey) : ∀ (i : ℕ) (as bs : List UInt8),
    xorKey key i (as ++ bs) = xorKey key i as ++ xorKey key (i + as.length) bs
  | _, [], _ => rfl
  | i, a :: as, bs => by
    rw [List.cons_append, xorKey, xorKey_append key (i + 1) as bs, List.length_cons,
      Nat.add_comm as.length, ← Nat.add_assoc]
    rfl

/-! ## Numbers as bytes -/

/-- `k` bytes of `n`, the most significant first. -/
def bigEndian : ℕ → ℕ → List UInt8
  | 0, _ => []
  | k + 1, n => UInt8.ofNat (n >>> (8 * k)) :: bigEndian k n

@[simp] theorem length_bigEndian : ∀ k n : ℕ, (bigEndian k n).length = k
  | 0, _ => rfl
  | k + 1, n => congrArg (· + 1) (length_bigEndian k n)

/-- The bytes shifted into place and put into `acc`. -/
def orBytes : ℕ → List UInt8 → ℕ
  | acc, [] => acc
  | acc, b :: bs => orBytes (acc ||| b.toNat <<< (8 * bs.length)) bs

theorem or_byte (n k : ℕ) :
    (n >>> (8 * (k + 1))) <<< (8 * (k + 1)) ||| (n >>> (8 * k) % 256) <<< (8 * k) =
      (n >>> (8 * k)) <<< (8 * k) := by
  refine Nat.eq_of_testBit_eq fun i => ?_
  rw [show 256 = 2 ^ 8 from rfl]
  simp only [Nat.testBit_or, Nat.testBit_shiftLeft, Nat.testBit_shiftRight, Nat.testBit_mod_two_pow]
  rcases Nat.lt_or_ge i (8 * k) with hlow | hlow
  · simp [Nat.not_le.mpr hlow, show ¬ 8 * (k + 1) ≤ i by omega]
  · rcases Nat.lt_or_ge i (8 * (k + 1)) with hin | hin
    · simp [hlow, Nat.not_le.mpr hin, show i - 8 * k < 8 by omega]
    · simp [hlow, hin, show ¬ i - 8 * k < 8 by omega]

theorem orBytes_bigEndian_of : ∀ k n : ℕ,
    orBytes ((n >>> (8 * k)) <<< (8 * k)) (bigEndian k n) = n
  | 0, n => by simp [orBytes, bigEndian]
  | k + 1, n => by
    rw [bigEndian, orBytes, length_bigEndian, UInt8.toNat_ofNat', show 2 ^ 8 = 256 from rfl,
      or_byte, orBytes_bigEndian_of k n]

theorem orBytes_bigEndian {k n : ℕ} (h : n < 2 ^ (8 * k)) : orBytes 0 (bigEndian k n) = n := by
  have hzero : (n >>> (8 * k)) <<< (8 * k) = 0 := by
    rw [Nat.shiftRight_eq_div_pow, Nat.div_eq_of_lt h, Nat.zero_shiftLeft]
  simpa [hzero] using orBytes_bigEndian_of k n

/-! ## Frames -/

/-- The fields a length may be in : seven bits, 16 bits or 64 bits of which the first is zero. -/
inductive LengthField
  | short
  | medium
  | long
  deriving DecidableEq

/-- What the field can hold. -/
def LengthField.max : LengthField → ℕ
  | .short => 125
  | .medium => 2 ^ 16 - 1
  | .long => 2 ^ 63 - 1

structure Frame where
  first : UInt8
  field : LengthField
  key : Option MaskingKey
  payload : List UInt8
  fits : payload.length ≤ field.max

namespace Frame

def opcode (f : Frame) : UInt8 := f.first &&& 0xf

def fin (f : Frame) : Bool := (f.first >>> 7) &&& 1 = 1

/-- The seven bits. -/
def len7 (f : Frame) : UInt8 :=
  match f.field with
  | .short => UInt8.ofNat f.payload.length
  | .medium => 126
  | .long => 127

def extendedLength (f : Frame) : List UInt8 :=
  match f.field with
  | .short => []
  | .medium => bigEndian 2 f.payload.length
  | .long => bigEndian 8 f.payload.length

def second (f : Frame) : UInt8 :=
  f.len7 ||| if f.key.isSome then 0x80 else 0

def keyBytes (f : Frame) : List UInt8 :=
  match f.key with
  | none => []
  | some key => List.ofFn key

/-- The payload as it is sent. -/
def body (f : Frame) : List UInt8 :=
  match f.key with
  | none => f.payload
  | some key => xorKey key 0 f.payload

def header (f : Frame) : List UInt8 :=
  f.first :: f.second :: (f.extendedLength ++ f.keyBytes)

def bytes (f : Frame) : List UInt8 :=
  f.header ++ f.body

theorem keyBytes_none {f : Frame} (h : f.key = none) : f.keyBytes = [] := by
  simp only [keyBytes, h]

theorem keyBytes_some {f : Frame} {key : MaskingKey} (h : f.key = some key) :
    f.keyBytes = List.ofFn key := by
  simp only [keyBytes, h]

theorem body_none {f : Frame} (h : f.key = none) : f.body = f.payload := by
  simp only [body, h]

theorem body_some {f : Frame} {key : MaskingKey} (h : f.key = some key) :
    f.body = xorKey key 0 f.payload := by
  simp only [body, h]

theorem length_body (f : Frame) : f.body.length = f.payload.length := by
  rcases h : f.key with _ | key <;> simp [body, h]

theorem len7_lt (f : Frame) : f.len7.toNat < 128 := by
  rcases f with ⟨first, _ | _ | _, key, payload, fits⟩
  · have h : payload.length ≤ 125 := fits
    simp only [len7, UInt8.toNat_ofNat']
    omega
  · simp [len7]
  · simp [len7]

theorem second_and_of_lt {v : UInt8} (h : v.toNat < 128) (masked : Bool) :
    (v ||| if masked then 0x80 else 0) &&& 0x7f = v ∧
      ((v ||| if masked then 0x80 else 0) &&& 0x80 ≠ 0 ↔ masked = true) := by
  have hall : ∀ n < 128, ∀ m : Bool,
      (UInt8.ofNat n ||| if m then 0x80 else 0) &&& 0x7f = UInt8.ofNat n ∧
        ((UInt8.ofNat n ||| if m then 0x80 else 0) &&& 0x80 ≠ 0 ↔ m = true) := by
    decide +kernel
  simpa using hall v.toNat h masked

theorem and_high_of_lt {v : UInt8} (h : v.toNat < 128) : v &&& 0x80 = 0 := by
  simpa using (second_and_of_lt h false).2

/-- The seven bits are read back from the second byte. -/
theorem second_and_len (f : Frame) : f.second &&& 0x7f = f.len7 :=
  (second_and_of_lt f.len7_lt f.key.isSome).1

theorem second_and_mask (f : Frame) : f.second &&& 0x80 ≠ 0 ↔ f.key.isSome = true :=
  (second_and_of_lt f.len7_lt f.key.isSome).2

/-- The shortest field for a length. -/
def shortest (n : ℕ) : LengthField :=
  if n < 126 then .short else if n < 65536 then .medium else .long

theorem le_shortest_max {n : ℕ} (h : n < 2 ^ 63) : n ≤ (shortest n).max := by
  rw [shortest]
  split_ifs <;> simp only [LengthField.max] <;> omega

/-- A frame with its length in the shortest field. -/
def minimal (first : UInt8) (key : Option MaskingKey) (payload : List UInt8)
    (h : payload.length < 2 ^ 63) : Frame :=
  ⟨first, shortest payload.length, key, payload, le_shortest_max h⟩

end Frame

end WebSocket

end MySocket
