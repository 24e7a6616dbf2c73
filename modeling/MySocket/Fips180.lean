import Mathlib.Data.Nat.Basic
import MySocket.Blockwise

/-!
# SHA-1

The Secure Hash Algorithm of FIPS 180-1 on messages of bytes, with a schedule of 80 words for each
block.
-/

namespace MySocket

namespace Fips180

/-- `S^n(X)` -/
def rotate (n x : UInt32) : UInt32 :=
  (x <<< n) ||| (x >>> (32 - n))

/-- `f(t; B, C, D)` -/
def logical (t : ℕ) (b c d : UInt32) : UInt32 :=
  if t < 20 then (b &&& c) ||| (~~~b &&& d)
  else if t < 40 then b ^^^ c ^^^ d
  else if t < 60 then (b &&& c) ||| (b &&& d) ||| (c &&& d)
  else b ^^^ c ^^^ d

/-- `K(t)` -/
def constant (t : ℕ) : UInt32 :=
  if t < 20 then 0x5a827999
  else if t < 40 then 0x6ed9eba1
  else if t < 60 then 0x8f1bbcdc
  else 0xca62c1d6

/-- Five words. -/
structure Words where
  a : UInt32
  b : UInt32
  c : UInt32
  d : UInt32
  e : UInt32
  deriving DecidableEq

def Words.add (h w : Words) : Words :=
  ⟨h.a + w.a, h.b + w.b, h.c + w.c, h.d + w.d, h.e + w.e⟩

/-- A turn with the word `w`. -/
def turn (t : ℕ) (w : UInt32) (s : Words) : Words :=
  ⟨rotate 5 s.a + logical t s.b s.c s.d + s.e + w + constant t, s.a, rotate 30 s.b, s.c, s.d⟩

/-- The words of a block, and those that follow from them. -/
def schedule (m : ℕ → UInt32) (t : ℕ) : UInt32 :=
  if t < 16 then m t
  else rotate 1 (schedule m (t - 3) ^^^ schedule m (t - 8) ^^^ schedule m (t - 14) ^^^
    schedule m (t - 16))

/-- Word `i` of a block, its most significant byte first. -/
def word (block : List UInt8) (i : ℕ) : UInt32 :=
  ((block.getD (4 * i) 0).toUInt32 <<< 24) ||| ((block.getD (4 * i + 1) 0).toUInt32 <<< 16) |||
    ((block.getD (4 * i + 2) 0).toUInt32 <<< 8) ||| (block.getD (4 * i + 3) 0).toUInt32

def compress (h : Words) (block : List UInt8) : Words :=
  h.add ((List.range 80).foldl (fun s t => turn t (schedule (word block) t) s) h)

def initial : Words :=
  ⟨0x67452301, 0xefcdab89, 0x98badcfe, 0x10325476, 0xc3d2e1f0⟩

/-- The bytes of a word, the most significant first. -/
def wordBytes (x : UInt32) : List UInt8 :=
  [(x >>> 24).toUInt8, (x >>> 16).toUInt8, (x >>> 8).toUInt8, x.toUInt8]

def Words.bytes (h : Words) : List UInt8 :=
  wordBytes h.a ++ wordBytes h.b ++ wordBytes h.c ++ wordBytes h.d ++ wordBytes h.e

/-- The length of a message in bits, in eight bytes. -/
def lengthBytes (n : ℕ) : List UInt8 :=
  let bits := UInt64.ofNat (8 * n)
  [(bits >>> 56).toUInt8, (bits >>> 48).toUInt8, (bits >>> 40).toUInt8, (bits >>> 32).toUInt8,
    (bits >>> 24).toUInt8, (bits >>> 16).toUInt8, (bits >>> 8).toUInt8, bits.toUInt8]

/-- The zeros between the bit after the message and its length. -/
def padding (n : ℕ) : ℕ :=
  (55 + 63 * n) % 64

def pad (message : List UInt8) : List UInt8 :=
  message ++ [0x80] ++ List.replicate (padding message.length) 0 ++ lengthBytes message.length

def sha1 (message : List UInt8) : List UInt8 :=
  (foldBlocks 64 compress initial (pad message)).bytes

/-- The padded message is made of whole blocks. -/
theorem length_pad (message : List UInt8) :
    (pad message).length = 64 * ((message.length + 8) / 64 + 1) := by
  simp only [pad, lengthBytes, padding, List.length_append, List.length_cons, List.length_nil,
    List.length_replicate]
  omega

theorem schedule_of_lt (m : ℕ → UInt32) {t : ℕ} (h : t < 16) : schedule m t = m t := by
  rw [schedule, if_pos h]

theorem schedule_of_le (m : ℕ → UInt32) {t : ℕ} (h : 16 ≤ t) :
    schedule m t = rotate 1 (schedule m (t - 3) ^^^ schedule m (t - 8) ^^^ schedule m (t - 14) ^^^
      schedule m (t - 16)) := by
  rw [schedule, if_neg (Nat.not_lt.mpr h)]

end Fips180

end MySocket
