import Mathlib.Data.Fin.VecNotation
import Mathlib.Data.Fintype.Basic
import Mathlib.Data.List.Basic
import Mathlib.Tactic.FinCases
import Mathlib.Tactic.IntervalCases

/-!
# Base64 of libwebsockets

`lws_b64_encode_string` writes three bytes as four signs, and `=` in place of the signs of bytes
that are not there. `lws_b64_decode_string` reads four signs at a time. It looks at the sign
behind the one it has read to see whether the text ends, so the last sign of a text is never
counted.

* `lwsB64EncodeString_eq` : a buffer with one byte to spare behind the signs and the zero byte is
  what the writer needs.
* `decode_encode` : a text of `n` bytes is read back whole if `n` leaves 2 by three, without its
  last byte if it leaves 0, and with a zero byte behind it if it leaves 1.
* `decode_encode_iff` : so it is read back exactly if it is empty or `n` leaves 2 by three. The
  text of `lws_b64_selftest` has 20 bytes, and so has a SHA-1 hash.
* `encode_inBounds`, `decode_inBounds` : neither writes past the end of its buffer, and the counters
  of the reader do not overflow on a text that an `int` can count.
-/

namespace MySocket

namespace Lws

/-- The bytes of a string literal. -/
def ascii (s : String) : List UInt8 :=
  s.toList.map fun c => UInt8.ofNat c.toNat

/-- `encode` -/
def encodeTable : List UInt8 :=
  ascii "ABCDEFGHIJKLMNOPQRSTUVWXYZabcdefghijklmnopqrstuvwxyz0123456789+/"

/-- `decode` -/
def decodeTable : List UInt8 :=
  ascii "|$$$\x7drstuvwxyz\x7b$$$$$$$>?@ABCDEFGHIJKLMNOPQRSTUVW$$$$$$XYZ[\\]^_\x60abcdefghijklmnopq"

/-- The sign of a value below 64. -/
def sign (v : UInt8) : UInt8 :=
  encodeTable.getD v.toNat 0

/-- The value of a sign plus one, and `0` for what is no sign. -/
def signValue (c : UInt8) : UInt8 :=
  let v := if c < 43 ∨ 122 < c then 0 else decodeTable.getD (c.toNat - 43) 0
  if v = 0 then 0 else if v = 36 then 0 else v - 61

/-! ## Encoding -/

/-- The four signs of `triple`, of which `len` bytes are there. -/
def encodeTriple (len : ℕ) (t₀ t₁ t₂ : UInt8) : List UInt8 :=
  [sign (t₀ >>> 2), sign (((t₀ &&& 0x03) <<< 4) ||| ((t₁ &&& 0xf0) >>> 4)),
    if 1 < len then sign (((t₁ &&& 0x0f) <<< 2) ||| ((t₂ &&& 0xc0) >>> 6)) else 61,
    if 2 < len then sign (t₂ &&& 0x3f) else 61]

/-- The loop of `lws_b64_encode_string` with `done` signs written : the bytes it writes, and the
length it returns unless that is -1. -/
def encodeFrom (outSize : ℕ) : ℕ → List UInt8 → List UInt8 × Option ℕ
  | done, [] => if outSize ≤ done + 1 then ([], none) else ([0], some done)
  | done, [a] =>
    if outSize ≤ done + 4 then ([], none)
    else (encodeFrom outSize (done + 4) []).map (encodeTriple 1 a 0 0 ++ ·) id
  | done, [a, b] =>
    if outSize ≤ done + 4 then ([], none)
    else (encodeFrom outSize (done + 4) []).map (encodeTriple 2 a b 0 ++ ·) id
  | done, a :: b :: c :: rest =>
    if outSize ≤ done + 4 then ([], none)
    else (encodeFrom outSize (done + 4) rest).map (encodeTriple 3 a b c ++ ·) id

/-- `lws_b64_encode_string` -/
def lwsB64EncodeString (text : List UInt8) (outSize : ℕ) : List UInt8 × Option ℕ :=
  encodeFrom outSize 0 text

/-! ## Decoding -/

/-- Where `lws_b64_decode_string` stands in a group : the text left up to its zero byte, `quad` and
`len`, which is an `int`. -/
structure Group where
  text : List UInt8
  quad : Fin 4 → UInt8
  len : ℕ

/-- The innermost loop : it reads up to a sign or up to the end of the text. -/
def nextSign (i : Fin 4) : List UInt8 → (Fin 4 → UInt8) → ℕ → Group
  | [], quad, len => ⟨[], quad, len⟩
  -- `*in` is the end of the text already, so this character does not count
  | [_], quad, len => ⟨[], Function.update quad i 0, len⟩
  | c :: d :: rest, quad, len =>
    if signValue c = 0 then nextSign i (d :: rest) quad (len + 1)
    else ⟨d :: rest, Function.update quad i (signValue c - 1), len + 1⟩

/-- One turn of the loop over `i`. -/
def Group.next (g : Group) (i : Fin 4) : Group :=
  if g.text = [] then g else nextSign i g.text g.quad g.len

/-- The loop over `i`. -/
def nextGroup (text : List UInt8) (quad : Fin 4 → UInt8) : Group :=
  ((((Group.mk text quad 0).next 0).next 1).next 2).next 3

/-- What is written for a group. -/
def Group.bytes (g : Group) : List UInt8 :=
  (if 2 ≤ g.len then [(g.quad 0 <<< 2) ||| (g.quad 1 >>> 4)] else []) ++
    (if 3 ≤ g.len then [(g.quad 1 <<< 4) ||| (g.quad 2 >>> 2)] else []) ++
    if 4 ≤ g.len then [((g.quad 2 <<< 6) &&& 0xc0) ||| g.quad 3] else []

/-- The loop of `lws_b64_decode_string` with `done` counted, for at most `fuel` turns : the bytes
it writes, and the length it returns unless that is -1. Like `len`, `done` is an `int`, so this is
the loop only as long as the numbers in `countersFrom` are numbers of an `int`. -/
def decodeFrom (outSize : ℕ) : ℕ → ℕ → List UInt8 → (Fin 4 → UInt8) → List UInt8 × Option ℕ
  | _, done, [], _ => if outSize ≤ done + 1 then ([], none) else ([0], some done)
  | 0, _, _ :: _, _ => ([], none)
  | fuel + 1, done, c :: text, quad =>
    let g := nextGroup (c :: text) quad
    if g.len = 0 then decodeFrom outSize fuel done g.text g.quad
    else if outSize < done + g.len - 1 then ([], none)
    else (decodeFrom outSize fuel (done + g.len - 1) g.text g.quad).map (g.bytes ++ ·) id

/-- What `len`, `done + len` and `done + 1` come to in the loop. -/
def countersFrom (outSize : ℕ) : ℕ → ℕ → List UInt8 → (Fin 4 → UInt8) → List ℕ
  | _, done, [], _ => [done + 1]
  | 0, _, _ :: _, _ => []
  | fuel + 1, done, c :: text, quad =>
    let g := nextGroup (c :: text) quad
    if g.len = 0 then g.len :: countersFrom outSize fuel done g.text g.quad
    else if outSize < done + g.len - 1 then [g.len, done + g.len]
    else g.len :: (done + g.len) :: countersFrom outSize fuel (done + g.len - 1) g.text g.quad

/-- `lws_b64_decode_string`; `quad` is on the stack and holds anything. Each turn reads a
character, so there are no more turns than characters. -/
def lwsB64DecodeString (text : List UInt8) (outSize : ℕ) (quad : Fin 4 → UInt8) :
    List UInt8 × Option ℕ :=
  decodeFrom outSize text.length 0 text quad

def decodeCounters (text : List UInt8) (outSize : ℕ) (quad : Fin 4 → UInt8) : List ℕ :=
  countersFrom outSize text.length 0 text quad

/-! ## Signs -/

section

variable {a b c : UInt8}

theorem signValue_sign (h : a.toNat < 64) : signValue (sign a) = a + 1 := by
  have hall : ∀ n < 64, signValue (sign (UInt8.ofNat n)) = UInt8.ofNat n + 1 := by
    decide +kernel
  simpa using hall a.toNat h

theorem signValue_sign_ne (h : a.toNat < 64) : signValue (sign a) ≠ 0 := by
  have hall : ∀ n < 64, signValue (sign (UInt8.ofNat n)) ≠ 0 := by decide +kernel
  simpa using hall a.toNat h

theorem signValue_sign_pred (h : a.toNat < 64) : signValue (sign a) - 1 = a := by
  rw [signValue_sign h, UInt8.add_sub_cancel]

theorem eq_of_bits (h : ∀ i < 8, a.toBitVec.getLsbD i = b.toBitVec.getLsbD i) : a = b :=
  UInt8.eq_of_toBitVec_eq (BitVec.eq_of_getLsbD_eq fun i hi => h i hi)

/-- The values of the four signs. -/
def value₀ (a : UInt8) : UInt8 := a >>> 2

def value₁ (a b : UInt8) : UInt8 := ((a &&& 0x03) <<< 4) ||| ((b &&& 0xf0) >>> 4)

def value₂ (b c : UInt8) : UInt8 := ((b &&& 0x0f) <<< 2) ||| ((c &&& 0xc0) >>> 6)

def value₃ (c : UInt8) : UInt8 := c &&& 0x3f

theorem lt_of_high_bits (h : a >>> 6 = 0) : a.toNat < 64 := by
  have hall : ∀ n < 256, UInt8.ofNat n >>> 6 = 0 → n < 64 := by decide +kernel
  exact hall a.toNat a.toNat_lt (by simpa using h)

theorem value₀_lt (a : UInt8) : (value₀ a).toNat < 64 :=
  lt_of_high_bits (eq_of_bits fun i hi => by interval_cases i <;> simp [value₀])

theorem value₁_lt (a b : UInt8) : (value₁ a b).toNat < 64 :=
  lt_of_high_bits (eq_of_bits fun i hi => by interval_cases i <;> simp [value₁])

theorem value₂_lt (b c : UInt8) : (value₂ b c).toNat < 64 :=
  lt_of_high_bits (eq_of_bits fun i hi => by interval_cases i <;> simp [value₂])

theorem value₃_lt (c : UInt8) : (value₃ c).toNat < 64 :=
  lt_of_high_bits (eq_of_bits fun i hi => by interval_cases i <;> simp [value₃])

/-- The first byte is put together from the first two values. -/
theorem byte₀ (a b : UInt8) : (value₀ a <<< 2) ||| (value₁ a b >>> 4) = a :=
  eq_of_bits fun i hi => by interval_cases i <;> simp [value₀, value₁]

theorem byte₁ (a b c : UInt8) : (value₁ a b <<< 4) ||| (value₂ b c >>> 2) = b :=
  eq_of_bits fun i hi => by interval_cases i <;> simp [value₁, value₂]

theorem byte₂ (b c : UInt8) : ((value₂ b c <<< 6) &&& 0xc0) ||| value₃ c = c :=
  eq_of_bits fun i hi => by interval_cases i <;> simp [value₂, value₃]

/-- The second value of a byte that stands alone has nothing of a second byte. -/
theorem byte_alone (a : UInt8) : (value₁ a 0 <<< 4) ||| ((0 : UInt8) >>> 2) = 0 :=
  eq_of_bits fun i hi => by interval_cases i <;> simp [value₁]

end

/-! ## What the writer writes -/

/-- The signs of a text. -/
def signs : List UInt8 → List UInt8
  | [] => []
  | [a] => encodeTriple 1 a 0 0
  | [a, b] => encodeTriple 2 a b 0
  | a :: b :: c :: rest => encodeTriple 3 a b c ++ signs rest

@[simp] theorem length_encodeTriple (len : ℕ) (a b c : UInt8) :
    (encodeTriple len a b c).length = 4 :=
  rfl

theorem length_signs : ∀ text : List UInt8, (signs text).length = 4 * ((text.length + 2) / 3)
  | [] => rfl
  | [_] => by simp [signs]
  | [_, _] => by simp [signs]
  | a :: b :: c :: rest => by
    simp only [signs, List.length_append, length_encodeTriple, length_signs rest, List.length_cons]
    omega

section

variable {outSize : ℕ}

theorem encodeFrom_of_lt : ∀ {done : ℕ} {text : List UInt8},
    done + (signs text).length + 1 < outSize →
    encodeFrom outSize done text = (signs text ++ [0], some (done + (signs text).length))
  | done, [], h => by simpa [encodeFrom, signs] using h
  | done, [a], h => by
    simp only [signs, length_encodeTriple] at h
    rw [encodeFrom, if_neg (by omega), encodeFrom, if_neg (by omega)]
    simp [signs]
  | done, [a, b], h => by
    simp only [signs, length_encodeTriple] at h
    rw [encodeFrom, if_neg (by omega), encodeFrom, if_neg (by omega)]
    simp [signs]
  | done, a :: b :: c :: rest, h => by
    simp only [signs, List.length_append, length_encodeTriple] at h
    rw [encodeFrom, if_neg (by omega), encodeFrom_of_lt (by omega)]
    simp [signs, Nat.add_assoc]

theorem encodeFrom_of_le : ∀ {done : ℕ} {text : List UInt8},
    outSize ≤ done + (signs text).length + 1 → (encodeFrom outSize done text).2 = none
  | done, [], h => by
    have h' : outSize ≤ done + 1 := by simpa [signs] using h
    simp [encodeFrom, h']
  | done, [a], h => by
    simp only [signs, length_encodeTriple] at h
    rw [encodeFrom, encodeFrom, if_pos (by omega : outSize ≤ done + 4 + 1)]
    split_ifs <;> rfl
  | done, [a, b], h => by
    simp only [signs, length_encodeTriple] at h
    rw [encodeFrom, encodeFrom, if_pos (by omega : outSize ≤ done + 4 + 1)]
    split_ifs <;> rfl
  | done, a :: b :: c :: rest, h => by
    simp only [signs, List.length_append, length_encodeTriple] at h
    rw [encodeFrom]
    split_ifs with hfull
    · rfl
    · simpa using @encodeFrom_of_le (done + 4) rest (by omega)

/-- The writer needs one byte more than it writes. -/
theorem lwsB64EncodeString_eq (text : List UInt8) (n : ℕ) :
    (lwsB64EncodeString text outSize).2 = some n ↔
      n = 4 * ((text.length + 2) / 3) ∧ n + 1 < outSize ∧
        lwsB64EncodeString text outSize = (signs text ++ [0], some n) := by
  rw [lwsB64EncodeString, ← length_signs]
  rcases Nat.lt_or_ge ((signs text).length + 1) outSize with h | h
  · rw [encodeFrom_of_lt (by omega)]
    simp only [Nat.zero_add, Option.some.injEq, Prod.mk.injEq, true_and]
    refine ⟨fun hn => ⟨hn.symm, by omega, hn⟩, fun hn => hn.2.2⟩
  · rw [encodeFrom_of_le (by omega)]
    refine ⟨fun hn => by simp at hn, fun hn => by omega⟩

end

/-! ## What the reader writes -/

section

variable {i : Fin 4} {c d : UInt8} {rest : List UInt8} {quad : Fin 4 → UInt8} {len outSize : ℕ}

theorem nextSign_sign {v : UInt8} (hv : v.toNat < 64) :
    nextSign i (sign v :: d :: rest) quad len =
      ⟨d :: rest, Function.update quad i v, len + 1⟩ := by
  rw [nextSign, if_neg (signValue_sign_ne hv), signValue_sign_pred hv]

theorem nextSign_noSign (h : signValue c = 0) :
    nextSign i (c :: d :: rest) quad len = nextSign i (d :: rest) quad (len + 1) := by
  rw [nextSign, if_pos h]

theorem nextSign_last : nextSign i [c] quad len = ⟨[], Function.update quad i 0, len⟩ :=
  rfl

/-- A group with more signs behind it. -/
theorem nextGroup_signs {v₀ v₁ v₂ v₃ : UInt8} (h₀ : v₀.toNat < 64) (h₁ : v₁.toNat < 64)
    (h₂ : v₂.toNat < 64) (h₃ : v₃.toNat < 64) :
    nextGroup (sign v₀ :: sign v₁ :: sign v₂ :: sign v₃ :: d :: rest) quad =
      ⟨d :: rest, ![v₀, v₁, v₂, v₃], 4⟩ := by
  simp only [nextGroup, Group.next, reduceCtorEq, if_false, nextSign_sign h₀, nextSign_sign h₁,
    nextSign_sign h₂, nextSign_sign h₃, Group.mk.injEq, true_and, and_true]
  funext j
  fin_cases j <;> rfl

/-- The last group, which ends with one sign that is not counted. -/
theorem nextGroup_last {v₀ v₁ v₂ : UInt8} (h₀ : v₀.toNat < 64) (h₁ : v₁.toNat < 64)
    (h₂ : v₂.toNat < 64) :
    nextGroup [sign v₀, sign v₁, sign v₂, c] quad = ⟨[], ![v₀, v₁, v₂, 0], 3⟩ := by
  simp only [nextGroup, Group.next, reduceCtorEq, if_false, nextSign_sign h₀, nextSign_sign h₁,
    nextSign_sign h₂, nextSign_last, Group.mk.injEq, true_and, and_true]
  funext j
  fin_cases j <;> rfl

/-- The first `=` of two is counted, though it has no value. -/
theorem nextGroup_padded {v₀ v₁ : UInt8} (h₀ : v₀.toNat < 64) (h₁ : v₁.toNat < 64) :
    nextGroup [sign v₀, sign v₁, 61, 61] quad = ⟨[], ![v₀, v₁, 0, quad 3], 3⟩ := by
  have hpad : signValue 61 = 0 := by decide
  simp only [nextGroup, Group.next, reduceCtorEq, if_false, if_true, nextSign_sign h₀,
    nextSign_sign h₁, nextSign_noSign hpad, nextSign_last, Group.mk.injEq, true_and, and_true]
  funext j
  fin_cases j <;> rfl

/-- What is read back of a text : one byte too few, one too many, or the text. -/
def readBack : List UInt8 → List UInt8
  | [] => []
  | [a] => [a, 0]
  | [a, b] => [a, b]
  | [a, b, _] => [a, b]
  | a :: b :: c :: d :: rest => a :: b :: c :: readBack (d :: rest)

theorem signs_ne_nil : ∀ {text : List UInt8}, text ≠ [] → ∃ e es, signs text = e :: es
  | [], h => absurd rfl h
  | [_], _ => ⟨_, _, rfl⟩
  | [_, _], _ => ⟨_, _, rfl⟩
  | _ :: _ :: _ :: _, _ => ⟨_, _, rfl⟩

theorem decodeFrom_last {fuel done : ℕ} {text : List UInt8} {a b : UInt8} {q : Fin 4 → UInt8}
    (hgroup : nextGroup (c :: text) quad = ⟨[], q, 3⟩)
    (ha : (q 0 <<< 2) ||| (q 1 >>> 4) = a) (hb : (q 1 <<< 4) ||| (q 2 >>> 2) = b)
    (h : done + 3 < outSize) :
    decodeFrom outSize (fuel + 1) done (c :: text) quad = ([a, b, 0], some (done + 2)) := by
  rw [decodeFrom]
  simp only [hgroup, Group.bytes, ha, hb]
  rw [if_neg (by decide), if_neg (by omega)]
  cases fuel <;> simp [decodeFrom, show ¬ outSize ≤ done + 2 + 1 by omega]

theorem decodeFrom_signs : ∀ {text : List UInt8} {fuel done : ℕ} {quad : Fin 4 → UInt8},
    (signs text).length ≤ fuel → done + (readBack text).length + 1 < outSize →
    decodeFrom outSize fuel done (signs text) quad =
      (readBack text ++ [0], some (done + (readBack text).length))
  | [], fuel, done, quad, _, h => by
    have h' : ¬ outSize ≤ done + 1 := by simpa [readBack] using h
    cases fuel <;> simp [signs, decodeFrom, h', readBack]
  | [a], fuel + 1, done, quad, _, h => by
    exact decodeFrom_last (nextGroup_padded (value₀_lt a) (value₁_lt a 0)) (byte₀ a 0)
      (byte_alone a) h
  | [a, b], fuel + 1, done, quad, _, h => by
    exact decodeFrom_last (nextGroup_last (value₀_lt a) (value₁_lt a b) (value₂_lt b 0))
      (byte₀ a b) (byte₁ a b 0) h
  | [a, b, c], fuel + 1, done, quad, _, h => by
    exact decodeFrom_last (nextGroup_last (value₀_lt a) (value₁_lt a b) (value₂_lt b c))
      (byte₀ a b) (byte₁ a b c) h
  | a :: b :: c :: d :: rest, fuel + 1, done, quad, hfuel, h => by
    obtain ⟨e, es, hes⟩ := signs_ne_nil (List.cons_ne_nil d rest)
    have hgroup := @nextGroup_signs e es quad _ _ _ _ (value₀_lt a) (value₁_lt a b)
      (value₂_lt b c) (value₃_lt c)
    have hsplit : signs (a :: b :: c :: d :: rest) =
        sign (value₀ a) :: sign (value₁ a b) :: sign (value₂ b c) :: sign (value₃ c) ::
          e :: es := by
      rw [signs, hes]
      rfl
    simp only [readBack, List.length_cons] at h
    have hrest := @decodeFrom_signs (d :: rest) fuel (done + 3)
      ![value₀ a, value₁ a b, value₂ b c, value₃ c]
      (by simp only [hsplit, List.length_cons] at hfuel; simp only [hes, List.length_cons]; omega)
      (by omega)
    rw [hsplit, decodeFrom]
    simp only [hgroup]
    rw [if_neg (by decide), if_neg (by omega), ← hes, show done + 4 - 1 = done + 3 by omega, hrest]
    have hbytes : Group.bytes ⟨signs (d :: rest), ![value₀ a, value₁ a b, value₂ b c, value₃ c], 4⟩ =
        [a, b, c] := by
      simpa [Group.bytes] using ⟨byte₀ a b, byte₁ a b c, byte₂ b c⟩
    rw [hbytes]
    simp only [readBack, Prod.map, List.length_cons, id, List.cons_append, List.nil_append,
      Nat.add_assoc, Nat.add_comm 3]

theorem length_readBack_le : ∀ text : List UInt8, (readBack text).length ≤ text.length + 1
  | [] => Nat.zero_le _
  | [_] => Nat.le_refl 2
  | [_, _] => Nat.le_succ 2
  | [_, _, _] => Nat.le_add_right 2 2
  | a :: b :: c :: d :: rest => by
    simpa [readBack] using length_readBack_le (d :: rest)

/-- What the reader makes of a text that the writer has written. -/
theorem decode_encode {text out : List UInt8} {size n : ℕ} {quad : Fin 4 → UInt8}
    (hencode : lwsB64EncodeString text size = (out ++ [0], some n))
    (hsize : text.length + 2 < outSize) :
    lwsB64DecodeString out outSize quad = (readBack text ++ [0], some (readBack text).length) := by
  have hout : out = signs text := by
    have h := (lwsB64EncodeString_eq text n).mp (by rw [hencode])
    simpa using (congrArg Prod.fst (hencode.symm.trans h.2.2))
  have hread := length_readBack_le text
  rw [lwsB64DecodeString, hout, decodeFrom_signs (Nat.le_refl _) (by omega), Nat.zero_add]

theorem readBack_eq_iff : ∀ text : List UInt8,
    readBack text = text ↔ text = [] ∨ text.length % 3 = 2
  | [] => by simp [readBack]
  | [_] => by simp [readBack]
  | [_, _] => by simp [readBack]
  | [_, _, _] => by simp [readBack]
  | a :: b :: c :: d :: rest => by
    have h := readBack_eq_iff (d :: rest)
    simp only [reduceCtorEq, false_or] at h ⊢
    simp [readBack, h]
    omega

/-- The texts that are read back as they were written. -/
theorem decode_encode_iff {text out : List UInt8} {size n : ℕ} {quad : Fin 4 → UInt8}
    (hencode : lwsB64EncodeString text size = (out ++ [0], some n))
    (hsize : text.length + 2 < outSize) :
    lwsB64DecodeString out outSize quad = (text ++ [0], some text.length) ↔
      text = [] ∨ text.length % 3 = 2 := by
  rw [decode_encode hencode hsize, ← readBack_eq_iff]
  refine ⟨fun h => by simpa using congrArg Prod.fst h, fun h => by rw [h]⟩

theorem decode_encode_iff_selftest :
    lwsB64DecodeString (ascii "c2FuaXR5IGNoZWNrIGJhc2UgNjQ=") 64 (fun _ => 0) =
      (ascii "sanity check base 64" ++ [0], some (ascii "sanity check base 64").length) ↔
    ascii "sanity check base 64" = [] ∨ (ascii "sanity check base 64").length % 3 = 2 :=
  @decode_encode_iff 64 _ _ 64 28 _ (by decide +kernel) (by decide +kernel)

/-- `lws_b64_selftest` -/
example : lwsB64EncodeString (ascii "sanity check base 64") 64 =
      (ascii "c2FuaXR5IGNoZWNrIGJhc2UgNjQ=" ++ [0], some 28) ∧
    lwsB64DecodeString (ascii "c2FuaXR5IGNoZWNrIGJhc2UgNjQ=") 64 (fun _ => 0) =
      (ascii "sanity check base 64" ++ [0], some 20) := by
  decide +kernel

end

/-! ## Bounds -/

section

variable {outSize : ℕ}

theorem encodeFrom_inBounds : ∀ {done : ℕ} {text : List UInt8}, done ≤ outSize →
    done + (encodeFrom outSize done text).1.length ≤ outSize
  | done, [], h => by
    rw [encodeFrom]
    split_ifs with hfull
    · exact h
    · exact (Nat.lt_of_not_le hfull).le
  | done, [a], h => by
    rw [encodeFrom]
    split_ifs with hfull
    · exact h
    · have hrest := @encodeFrom_inBounds (done + 4) [] (by omega)
      simpa [Nat.add_assoc] using hrest
  | done, [a, b], h => by
    rw [encodeFrom]
    split_ifs with hfull
    · exact h
    · have hrest := @encodeFrom_inBounds (done + 4) [] (by omega)
      simpa [Nat.add_assoc] using hrest
  | done, a :: b :: c :: rest, h => by
    rw [encodeFrom]
    split_ifs with hfull
    · exact h
    · have hrest := @encodeFrom_inBounds (done + 4) rest (by omega)
      simpa [Nat.add_assoc] using hrest

/-- The writer stays in its buffer, also when it gives up. -/
theorem encode_inBounds (text : List UInt8) (outSize : ℕ) :
    (lwsB64EncodeString text outSize).1.length ≤ outSize := by
  simpa [lwsB64EncodeString] using @encodeFrom_inBounds outSize 0 text (Nat.zero_le outSize)

theorem length_nextSign_text (i : Fin 4) : ∀ (c : UInt8) (text : List UInt8)
    (quad : Fin 4 → UInt8) (len : ℕ), (nextSign i (c :: text) quad len).text.length ≤ text.length
  | _, [], _, _ => Nat.le_refl 0
  | c, d :: rest, quad, len => by
    rw [nextSign]
    split_ifs
    · exact (length_nextSign_text i d rest quad (len + 1)).trans (Nat.le_succ _)
    · exact Nat.le_refl _

theorem Group.length_next_text (g : Group) (i : Fin 4) :
    (g.next i).text.length ≤ g.text.length := by
  rw [Group.next]
  split_ifs with h
  · exact Nat.le_refl _
  · obtain ⟨c, text, htext⟩ := List.exists_cons_of_ne_nil h
    rw [htext]
    exact (length_nextSign_text i c text g.quad g.len).trans (Nat.le_succ _)

/-- A turn reads a character at least. -/
theorem length_nextGroup_text (c : UInt8) (text : List UInt8) (quad : Fin 4 → UInt8) :
    (nextGroup (c :: text) quad).text.length ≤ text.length :=
  calc (nextGroup (c :: text) quad).text.length
    _ ≤ ((Group.mk (c :: text) quad 0).next 0).text.length :=
      ((Group.length_next_text _ 3).trans (Group.length_next_text _ 2)).trans
        (Group.length_next_text _ 1)
    _ ≤ text.length := length_nextSign_text 0 c text quad 0

/-- The turns allowed are enough, so that more of them change nothing. -/
theorem decodeFrom_fuel : ∀ {fuel done : ℕ} {text : List UInt8} {quad : Fin 4 → UInt8},
    text.length ≤ fuel →
    decodeFrom outSize (fuel + 1) done text quad = decodeFrom outSize fuel done text quad
  | 0, _, [], _, _ => rfl
  | _ + 1, _, [], _, _ => rfl
  | fuel + 1, done, c :: text, quad, h => by
    have hgroup : (nextGroup (c :: text) quad).text.length ≤ fuel :=
      (length_nextGroup_text c text quad).trans (by simpa using h)
    rw [decodeFrom, decodeFrom]
    simp only [decodeFrom_fuel hgroup]

theorem Group.length_bytes (g : Group) : g.bytes.length ≤ g.len - 1 := by
  rw [Group.bytes]
  split_ifs <;> simp <;> omega

theorem decodeFrom_inBounds : ∀ {fuel done : ℕ} {text : List UInt8} {quad : Fin 4 → UInt8},
    done ≤ outSize → done + (decodeFrom outSize fuel done text quad).1.length ≤ outSize ∧
      ∀ n, (decodeFrom outSize fuel done text quad).2 = some n →
        done + (decodeFrom outSize fuel done text quad).1.length ≤ n + 1 ∧ n + 1 < outSize
  | 0, done, [], _, h => by
    rw [decodeFrom]
    split_ifs with hfull
    · simpa using h
    · simp
      omega
  | fuel + 1, done, [], _, h => by
    rw [decodeFrom]
    split_ifs with hfull
    · simpa using h
    · simp
      omega
  | 0, done, _ :: _, _, h => by simpa [decodeFrom] using h
  | fuel + 1, done, c :: text, quad, h => by
    have hbytes := Group.length_bytes (nextGroup (c :: text) quad)
    rw [decodeFrom]
    split_ifs with hlen hfull
    · exact decodeFrom_inBounds h
    · simpa using h
    · obtain ⟨hin, hret⟩ := @decodeFrom_inBounds fuel
        (done + (nextGroup (c :: text) quad).len - 1) (nextGroup (c :: text) quad).text
        (nextGroup (c :: text) quad).quad (by omega)
      refine ⟨?_, fun n hn => ?_⟩
      · simp only [Prod.map, List.length_append]
        omega
      · obtain ⟨hle, hlt⟩ := hret n (by simpa using hn)
        simp only [Prod.map, List.length_append]
        omega

/-- The last character of a text is not counted. -/
theorem len_nextSign_le (i : Fin 4) : ∀ (c : UInt8) (text : List UInt8) (quad : Fin 4 → UInt8)
    (len : ℕ), (nextSign i (c :: text) quad len).len +
      max 1 (nextSign i (c :: text) quad len).text.length ≤ len + (text.length + 1)
  | _, [], _, _ => Nat.le_refl _
  | c, d :: rest, quad, len => by
    rw [nextSign]
    split_ifs
    · have hrest := len_nextSign_le i d rest quad (len + 1)
      rw [List.length_cons]
      omega
    · simp only [List.length_cons]
      omega

theorem Group.len_next_le (g : Group) (i : Fin 4) :
    (g.next i).len + max 1 (g.next i).text.length ≤ g.len + max 1 g.text.length := by
  rw [Group.next]
  split_ifs with h
  · exact Nat.le_refl _
  · obtain ⟨c, text, htext⟩ := List.exists_cons_of_ne_nil h
    rw [htext]
    exact (len_nextSign_le i c text g.quad g.len).trans
      (Nat.add_le_add_left (Nat.le_max_right ..) _)

/-- A group counts no more characters than it reads. -/
theorem len_nextGroup_le (text : List UInt8) (quad : Fin 4 → UInt8) :
    (nextGroup text quad).len + max 1 (nextGroup text quad).text.length ≤ max 1 text.length :=
  calc (nextGroup text quad).len + max 1 (nextGroup text quad).text.length
    _ ≤ (Group.mk text quad 0).len + max 1 (Group.mk text quad 0).text.length :=
      (Group.len_next_le _ 3).trans ((Group.len_next_le _ 2).trans
        ((Group.len_next_le _ 1).trans (Group.len_next_le _ 0)))
    _ = max 1 text.length := Nat.zero_add _

theorem countersFrom_le {n : ℕ} : ∀ {fuel done : ℕ} {text : List UInt8} {quad : Fin 4 → UInt8},
    done + max 1 text.length ≤ n → ∀ k ∈ countersFrom outSize fuel done text quad, k ≤ n
  | 0, done, [], _, h => by
    rw [countersFrom]
    exact List.forall_mem_singleton.mpr h
  | fuel + 1, done, [], _, h => by
    rw [countersFrom]
    exact List.forall_mem_singleton.mpr h
  | 0, done, _ :: _, _, _ => List.forall_mem_nil _
  | fuel + 1, done, c :: text, quad, h => by
    have hgroup := len_nextGroup_le (c :: text) quad
    rw [countersFrom]
    split_ifs with hlen hfull
    · refine List.forall_mem_cons.mpr ⟨by omega, countersFrom_le (by omega)⟩
    · simp only [List.forall_mem_cons]
      exact ⟨by omega, by omega, List.forall_mem_nil _⟩
    · simp only [List.forall_mem_cons]
      exact ⟨by omega, by omega, countersFrom_le (by omega)⟩

/-- For a text that an `int` can count, no `int` overflows, the reader stays in its buffer whatever
the text is, also when it gives up, and it counts every byte it has written. -/
theorem decode_inBounds {text : List UInt8} (htext : text.length < 2 ^ 31) (outSize : ℕ)
    (quad : Fin 4 → UInt8) :
    (∀ k ∈ decodeCounters text outSize quad, k < 2 ^ 31) ∧
      (lwsB64DecodeString text outSize quad).1.length ≤ outSize ∧
      ∀ n, (lwsB64DecodeString text outSize quad).2 = some n →
        (lwsB64DecodeString text outSize quad).1.length ≤ n + 1 ∧ n + 1 < outSize := by
  constructor
  · intro k hk
    have hle := countersFrom_le (Nat.le_refl (0 + max 1 text.length)) k hk
    omega
  · simpa [lwsB64DecodeString] using
      @decodeFrom_inBounds outSize text.length 0 text quad (Nat.zero_le outSize)

/-- Signs with others between them, and a buffer that is too small. -/
theorem decode_inBounds_foreign :
    (∀ k ∈ decodeCounters (ascii "Y*W==J!jZ") 3 (fun _ => 0), k < 2 ^ 31) ∧
      (lwsB64DecodeString (ascii "Y*W==J!jZ") 3 (fun _ => 0)).1.length ≤ 3 ∧
      ∀ n, (lwsB64DecodeString (ascii "Y*W==J!jZ") 3 (fun _ => 0)).2 = some n →
        (lwsB64DecodeString (ascii "Y*W==J!jZ") 3 (fun _ => 0)).1.length ≤ n + 1 ∧ n + 1 < 3 :=
  decode_inBounds (by decide +kernel) 3 _

end

end Lws

end MySocket
