import Mathlib.Data.List.Basic
import Mathlib.Order.Basic

/-!
# `encodeURIComponent` and `decodeURIComponent`

Percent-encoding as ECMAScript has it : a character stands for itself or for the bytes of its
UTF-8, each written as `%` and two digits. Decoding fails where a `%` does not begin the UTF-8
of a character.

`decodeURIComponent_encodeURIComponent` : what is encoded is decoded.
-/

namespace MySocket

/-! ## Bytes -/

/-- The value of a digit in base 16. -/
def hexVal (c : Char) : Option ℕ :=
  if '0' ≤ c ∧ c ≤ '9' then some (c.toNat - 48)
  else if 'A' ≤ c ∧ c ≤ 'F' then some (c.toNat - 55)
  else if 'a' ≤ c ∧ c ≤ 'f' then some (c.toNat - 87)
  else none

/-- The digit of a value below 16. -/
def hexDigit (n : ℕ) : Char :=
  Char.ofNat (if n < 10 then 48 + n else 55 + n)

/-- `%XX` -/
def percentEncode (b : UInt8) : List Char :=
  ['%', hexDigit (b.toNat / 16), hexDigit (b.toNat % 16)]

/-- The byte that is written first, and what follows. -/
def octet : List Char → Option (UInt8 × List Char)
  | p :: h :: l :: cs =>
    if p = '%' then
      (hexVal h).bind fun a => (hexVal l).map fun b => (UInt8.ofNat (16 * a + b), cs)
    else none
  | _ => none

/-- The first `n` bytes, and what follows. -/
def octets : ℕ → List Char → Option (List UInt8 × List Char)
  | 0, cs => some ([], cs)
  | n + 1, cs =>
    (octet cs).bind fun first => (octets n first.2).map fun more => (first.1 :: more.1, more.2)

/-- How many bytes the UTF-8 has that begins with a byte. -/
def sequenceLength (b : UInt8) : Option ℕ :=
  if b &&& 0x80 = 0 then some 1
  else if b &&& 0xE0 = 0xC0 then some 2
  else if b &&& 0xF0 = 0xE0 then some 3
  else if b &&& 0xF8 = 0xF0 then some 4
  else none

/-! ## Texts -/

/-- The characters that stand for themselves. -/
def isUnescaped (c : Char) : Bool :=
  c.isAlphanum || c = '-' || c = '_' || c = '.' || c = '!' || c = '~' || c = '*' ||
    c = Char.ofNat 39 || c = '(' || c = ')'

def encodeChar (c : Char) : List Char :=
  if isUnescaped c then [c] else (String.utf8EncodeChar c).flatMap percentEncode

def encodeURIComponent (cs : List Char) : List Char :=
  cs.flatMap encodeChar

/-- The character that is written first, and what follows. -/
def decodeChar (cs : List Char) : Option (Char × List Char) :=
  (octet cs).bind fun first =>
    (sequenceLength first.1).bind fun n =>
      (octets n cs).bind fun all =>
        (all.1.toByteArray.utf8DecodeChar? 0).map fun c => (c, all.2)

/-- Decode, for at most as many characters as `fuel` says. -/
def decodeFrom : ℕ → List Char → Option (List Char)
  | _, [] => some []
  | 0, _ :: _ => none
  | fuel + 1, c :: cs =>
    if c = '%' then
      (decodeChar (c :: cs)).bind fun first => (decodeFrom fuel first.2).map (first.1 :: ·)
    else (decodeFrom fuel cs).map (c :: ·)

/-- There are no more characters than there are in the text. -/
def decodeURIComponent (cs : List Char) : Option (List Char) :=
  decodeFrom cs.length cs

/-! ## What is encoded is decoded -/

section

variable {c : Char} {b : UInt8} {cs rest : List Char}

theorem hexVal_hexDigit : ∀ n < 16, hexVal (hexDigit n) = some n := by
  decide

theorem octet_percentEncode (b : UInt8) (rest : List Char) :
    octet (percentEncode b ++ rest) = some (b, rest) := by
  have hhigh := hexVal_hexDigit (b.toNat / 16) (by have := b.toNat_lt; omega)
  have hlow := hexVal_hexDigit (b.toNat % 16) (by omega)
  have hbyte : UInt8.ofNat (16 * (b.toNat / 16) + b.toNat % 16) = b := by
    rw [Nat.div_add_mod, UInt8.ofNat_toNat]
  simp only [percentEncode, List.cons_append, List.nil_append, octet, if_pos, hhigh, hlow,
    Option.bind_some, Option.map_some, hbyte]

theorem octets_percentEncode (bs : List UInt8) (rest : List Char) :
    octets bs.length (bs.flatMap percentEncode ++ rest) = some (bs, rest) := by
  induction bs with
  | nil => rfl
  | cons b bs ih =>
    rw [List.flatMap_cons, List.append_assoc, List.length_cons, octets, octet_percentEncode]
    simp [ih]

theorem sequenceLength_ascii (h : b.toNat < 128) : sequenceLength b = some 1 := by
  have hall : ∀ n < 128, sequenceLength (UInt8.ofNat n) = some 1 := by decide
  rw [← UInt8.ofNat_toNat (x := b)]
  exact hall b.toNat h

theorem sequenceLength_lead (b : UInt8) :
    sequenceLength (b &&& 0x1F ||| 0xC0) = some 2 ∧
      sequenceLength (b &&& 0x0F ||| 0xE0) = some 3 ∧
      sequenceLength (b &&& 0x07 ||| 0xF0) = some 4 := by
  have hall : ∀ n < 256, sequenceLength (UInt8.ofNat n &&& 0x1F ||| 0xC0) = some 2 ∧
      sequenceLength (UInt8.ofNat n &&& 0x0F ||| 0xE0) = some 3 ∧
      sequenceLength (UInt8.ofNat n &&& 0x07 ||| 0xF0) = some 4 := by decide +kernel
  rw [← UInt8.ofNat_toNat (x := b)]
  exact hall b.toNat b.toNat_lt

/-- The first byte of a character tells how many there are. -/
theorem sequenceLength_utf8EncodeChar (c : Char) :
    ∃ b bs, String.utf8EncodeChar c = b :: bs ∧ sequenceLength b = some (bs.length + 1) := by
  rcases c.utf8Size_eq with h | h | h | h
  · refine ⟨_, _, String.utf8EncodeChar_eq_singleton h, sequenceLength_ascii ?_⟩
    have hle : c.val.toNat ≤ 127 := UInt32.le_iff_toNat_le.mp (Char.utf8Size_eq_one_iff.mp h)
    rw [UInt32.toNat_toUInt8]
    omega
  · exact ⟨_, _, String.utf8EncodeChar_eq_cons_cons h, (sequenceLength_lead _).1⟩
  · exact ⟨_, _, String.utf8EncodeChar_eq_cons_cons_cons h, (sequenceLength_lead _).2.1⟩
  · exact ⟨_, _, String.utf8EncodeChar_eq_cons_cons_cons_cons h, (sequenceLength_lead _).2.2⟩

theorem decodeChar_encode (c : Char) (rest : List Char) :
    decodeChar ((String.utf8EncodeChar c).flatMap percentEncode ++ rest) = some (c, rest) := by
  obtain ⟨b, bs, hbytes, hlength⟩ := sequenceLength_utf8EncodeChar c
  have hfirst : octet ((b :: bs).flatMap percentEncode ++ rest) =
      some (b, bs.flatMap percentEncode ++ rest) := by
    rw [List.flatMap_cons, List.append_assoc, octet_percentEncode]
  have hall := octets_percentEncode (b :: bs) rest
  have hchar : (b :: bs).toByteArray.utf8DecodeChar? 0 = some c := by
    have := ByteArray.utf8DecodeChar?_utf8EncodeChar_append (b := ByteArray.empty) (c := c)
    rwa [ByteArray.append_empty, hbytes] at this
  rw [List.length_cons] at hall
  rw [hbytes, decodeChar, hfirst, Option.bind_some, hlength, Option.bind_some, hall,
    Option.bind_some, hchar, Option.map_some]

theorem exists_percent (c : Char) :
    ∃ cs, (String.utf8EncodeChar c).flatMap percentEncode = '%' :: cs := by
  obtain ⟨b, bs, hbytes, -⟩ := sequenceLength_utf8EncodeChar c
  exact ⟨_, by rw [hbytes, List.flatMap_cons]; rfl⟩

theorem decodeFrom_encodeURIComponent {fuel : ℕ} (h : (encodeURIComponent cs).length ≤ fuel) :
    decodeFrom fuel (encodeURIComponent cs) = some cs := by
  induction cs generalizing fuel with
  | nil => cases fuel <;> rfl
  | cons c cs ih =>
    have hcons : encodeURIComponent (c :: cs) = encodeChar c ++ encodeURIComponent cs :=
      List.flatMap_cons
    rw [hcons, encodeChar] at h ⊢
    split_ifs at h ⊢ with hc
    · have hne : c ≠ '%' := by
        rintro rfl
        exact absurd hc (by decide)
      rw [List.singleton_append, List.length_cons] at h
      obtain ⟨fuel, rfl⟩ := Nat.exists_eq_add_of_le' (Nat.one_le_of_lt h)
      rw [List.singleton_append, decodeFrom, if_neg hne, ih (by omega), Option.map_some]
    · -- the bytes of the character are read together
      obtain ⟨text, htext⟩ := exists_percent c
      have hchar := decodeChar_encode c (encodeURIComponent cs)
      rw [htext, List.cons_append] at h hchar ⊢
      rw [List.length_cons, List.length_append] at h
      obtain ⟨fuel, rfl⟩ := Nat.exists_eq_add_of_le' (Nat.one_le_of_lt h)
      rw [decodeFrom, if_pos rfl, hchar, Option.bind_some, ih (by omega), Option.map_some]

/-- What is encoded is decoded. -/
theorem decodeURIComponent_encodeURIComponent (cs : List Char) :
    decodeURIComponent (encodeURIComponent cs) = some cs :=
  decodeFrom_encodeURIComponent (Nat.le_refl _)

/-- An encoded text has no character that means something in a query. -/
theorem notMem_encodeURIComponent {d : Char} (hescaped : isUnescaped d = false) (hpercent : d ≠ '%')
    (hdigit : ∀ n < 16, hexDigit n ≠ d) : d ∉ encodeURIComponent cs := by
  intro hd
  obtain ⟨c, -, hd⟩ := List.mem_flatMap.mp hd
  unfold encodeChar at hd
  split_ifs at hd with hc
  · rw [List.mem_singleton.mp hd, hc] at hescaped
    cases hescaped
  · obtain ⟨b, -, hd⟩ := List.mem_flatMap.mp hd
    have hlt := b.toNat_lt
    rcases List.mem_cons.mp hd with rfl | hd
    · exact hpercent rfl
    rcases List.mem_cons.mp hd with rfl | hd
    · exact hdigit _ (by omega) rfl
    · exact hdigit _ (by omega) (List.mem_singleton.mp hd).symm

end

end MySocket
