import Mathlib.Data.List.GetD
import Mathlib.Logic.Function.Basic
import MySocket.Fips180

/-!
# SHA-1 in libwebsockets

`sha1_loop`, `sha1_pad` and `sha1_step`, on a machine that has the least significant byte of a word
first. `sha1_step` keeps 16 words of the schedule and writes each new one in place of the oldest.

* `result_loops` : whatever pieces a message comes in, the digest is that of FIPS 180-1.
-/

namespace MySocket

namespace Lws

open Fips180 (Words)

/-! ## The code -/

/-- `struct sha1_ctxt` -/
structure Sha1Ctxt where
  h : Words
  /-- The number of bits. -/
  c : UInt64
  m : List UInt8
  count : ℕ

/-- The bytes of each word the other way round. -/
def swapBytes : List UInt8 → List UInt8
  | b₀ :: b₁ :: b₂ :: b₃ :: bs => b₃ :: b₂ :: b₁ :: b₀ :: swapBytes bs
  | bs => bs

/-- `m.b32[i]` -/
def b32 (m : List UInt8) (i : ℕ) : UInt32 :=
  (m.getD (4 * i) 0).toUInt32 ||| ((m.getD (4 * i + 1) 0).toUInt32 <<< 8) |||
    ((m.getD (4 * i + 2) 0).toUInt32 <<< 16) ||| ((m.getD (4 * i + 3) 0).toUInt32 <<< 24)

/-- `S(n, x)` -/
def S (n x : UInt32) : UInt32 := (x <<< n) ||| (x >>> (32 - n))

/-- `F0` to `F3` -/
def F0 (b c d : UInt32) : UInt32 := (b &&& c) ||| (~~~b &&& d)
def F1 (b c d : UInt32) : UInt32 := (b ^^^ c) ^^^ d
def F2 (b c d : UInt32) : UInt32 := (b &&& c) ||| (b &&& d) ||| (c &&& d)
def F3 (b c d : UInt32) : UInt32 := (b ^^^ c) ^^^ d

/-- `K(t)` -/
def K (t : ℕ) : UInt32 :=
  [0x5a827999, 0x6ed9eba1, 0x8f1bbcdc, 0xca62c1d6].getD (t / 20) 0

/-- The word that is put in place `s`. -/
def nextW (W : ℕ → UInt32) (s : ℕ) : UInt32 :=
  S 1 (W ((s + 13) &&& 0x0f) ^^^ W ((s + 8) &&& 0x0f) ^^^ W ((s + 2) &&& 0x0f) ^^^ W s)

/-- One turn of a loop, with `F` for the function of the loop. The first loop makes no new word in
its first 16 turns. -/
def sha1Turn (F : UInt32 → UInt32 → UInt32 → UInt32) (r : Words × (ℕ → UInt32)) (t : ℕ) :
    Words × (ℕ → UInt32) :=
  let s := t &&& 0x0f
  let W := if 16 ≤ t then Function.update r.2 s (nextW r.2 s) else r.2
  let v := r.1
  (⟨S 5 v.a + F v.b v.c v.d + v.e + W s + K t, v.a, S 30 v.b, v.c, v.d⟩, W)

/-- `sha1_step` -/
def sha1Step (ctxt : Sha1Ctxt) : Sha1Ctxt :=
  let r := (List.range' 0 20).foldl (sha1Turn F0) (ctxt.h, b32 (swapBytes ctxt.m))
  let r := (List.range' 20 20).foldl (sha1Turn F1) r
  let r := (List.range' 40 20).foldl (sha1Turn F2) r
  let r := (List.range' 60 20).foldl (sha1Turn F3) r
  { ctxt with h := ctxt.h.add r.1, m := List.replicate 64 0 }

/-- `sha1_init` -/
def sha1Init : Sha1Ctxt :=
  ⟨⟨0x67452301, 0xefcdab89, 0x98badcfe, 0x10325476, 0xc3d2e1f0⟩, 0, List.replicate 64 0, 0⟩

/-- `memcpy` to place `i` of a buffer. -/
def memcpy (m : List UInt8) (i : ℕ) (bytes : List UInt8) : List UInt8 :=
  m.take i ++ bytes ++ m.drop (i + bytes.length)

/-- `PUTPAD` -/
def putPad (ctxt : Sha1Ctxt) (x : UInt8) : Sha1Ctxt :=
  let ctxt := { ctxt with m := memcpy ctxt.m (ctxt.count % 64) [x], count := (ctxt.count + 1) % 64 }
  if ctxt.count % 64 = 0 then sha1Step ctxt else ctxt

/-- `sha1_pad`, from the byte after the first on. -/
def sha1PadFrom (ctxt : Sha1Ctxt) : Sha1Ctxt :=
  let padlen := 64 - ctxt.count % 64
  let ctxt :=
    if padlen < 8 then
      sha1Step { ctxt with
        m := memcpy ctxt.m (ctxt.count % 64) (List.replicate padlen 0)
        count := (ctxt.count + padlen) % 64 }
    else ctxt
  let padlen := 64 - ctxt.count % 64
  { ctxt with
    m := memcpy ctxt.m (ctxt.count % 64) (List.replicate (padlen - 8) 0)
    count := (ctxt.count + (padlen - 8)) % 64 }

/-- `c.b8[i]` -/
def b8 (c : UInt64) (i : UInt64) : UInt8 :=
  (c >>> (8 * i)).toUInt8

/-- `sha1_pad` -/
def sha1Pad (ctxt : Sha1Ctxt) : Sha1Ctxt :=
  let ctxt := sha1PadFrom (putPad ctxt 0x80)
  [7, 6, 5, 4, 3, 2, 1, 0].foldl (fun s i => putPad s (b8 s.c i)) ctxt

/-- One turn of `sha1_loop`, with the bytes that are copied. -/
def sha1Copy (ctxt : Sha1Ctxt) (bytes : List UInt8) : Sha1Ctxt :=
  let ctxt := { ctxt with
    m := memcpy ctxt.m (ctxt.count % 64) bytes
    count := (ctxt.count + bytes.length) % 64
    c := ctxt.c + 8 * UInt64.ofNat bytes.length }
  if ctxt.count % 64 = 0 then sha1Step ctxt else ctxt

/-- `sha1_loop`. As many turns as there are bytes are enough. -/
def sha1LoopFrom : ℕ → Sha1Ctxt → List UInt8 → Sha1Ctxt
  | 0, ctxt, _ => ctxt
  | k + 1, ctxt, input =>
    if input = [] then ctxt
    else
      let copysiz := min (64 - ctxt.count % 64) input.length
      sha1LoopFrom k (sha1Copy ctxt (input.take copysiz)) (input.drop copysiz)

def sha1Loop (ctxt : Sha1Ctxt) (input : List UInt8) : Sha1Ctxt :=
  sha1LoopFrom input.length ctxt input

/-- The bytes of a word of `h` as `sha1_result` takes them from `h.b8`. -/
def hBytes (x : UInt32) : List UInt8 :=
  ([3, 2, 1, 0] : List UInt32).map fun i => (x >>> (8 * i)).toUInt8

/-- `sha1_result` -/
def sha1Result (ctxt : Sha1Ctxt) : List UInt8 :=
  let h := (sha1Pad ctxt).h
  hBytes h.a ++ hBytes h.b ++ hBytes h.c ++ hBytes h.d ++ hBytes h.e

/-- `libwebsockets_SHA1` -/
def libwebsocketsSHA1 (d : List UInt8) : List UInt8 :=
  sha1Result (sha1Loop sha1Init d)

/-! ## A block -/

theorem getD_swapBytes : ∀ (m : List UInt8) (i j : ℕ), j < 4 → 4 * i + 3 < m.length →
    (swapBytes m).getD (4 * i + j) 0 = m.getD (4 * i + (3 - j)) 0
  | [], _, _, _, h => absurd h (by simp)
  | [_], _, _, _, h => absurd h (by simp)
  | [_, _], _, _, _, h => absurd h (by simp)
  | [_, _, _], i, _, _, h => absurd h (by simp)
  | b₀ :: b₁ :: b₂ :: b₃ :: bs, 0, j, hj, _ => by
    obtain rfl | rfl | rfl | rfl : j = 0 ∨ j = 1 ∨ j = 2 ∨ j = 3 := by omega
    all_goals rfl
  | b₀ :: b₁ :: b₂ :: b₃ :: bs, i + 1, j, hj, h => by
    have hrest := getD_swapBytes bs i j hj (by simp only [List.length_cons] at h; omega)
    have hleft : 4 * (i + 1) + j = 4 * i + j + 1 + 1 + 1 + 1 := by omega
    have hright : 4 * (i + 1) + (3 - j) = 4 * i + (3 - j) + 1 + 1 + 1 + 1 := by omega
    rw [hleft, hright, swapBytes]
    simpa only [List.getD_cons_succ] using hrest

theorem or_reverse (a b c d : UInt32) : a ||| b ||| c ||| d = d ||| c ||| b ||| a := by
  ac_rfl

theorem b32_swapBytes {m : List UInt8} {i : ℕ} (h : 4 * i + 3 < m.length) :
    b32 (swapBytes m) i = Fips180.word m i := by
  have h₀ : (swapBytes m).getD (4 * i) 0 = m.getD (4 * i + 3) 0 :=
    getD_swapBytes m i 0 (by omega) h
  have h₁ : (swapBytes m).getD (4 * i + 1) 0 = m.getD (4 * i + 2) 0 :=
    getD_swapBytes m i 1 (by omega) h
  have h₂ : (swapBytes m).getD (4 * i + 2) 0 = m.getD (4 * i + 1) 0 :=
    getD_swapBytes m i 2 (by omega) h
  have h₃ : (swapBytes m).getD (4 * i + 3) 0 = m.getD (4 * i) 0 :=
    getD_swapBytes m i 3 (by omega) h
  rw [b32, h₀, h₁, h₂, h₃, Fips180.word]
  exact or_reverse _ _ _ _

/-- The last 16 words of the schedule before turn `t`. -/
def Window (m : ℕ → UInt32) (t : ℕ) (W : ℕ → UInt32) : Prop :=
  ∀ i, i < max 16 t → max 16 t ≤ i + 16 → W (i % 16) = Fips180.schedule m i

theorem and_15 (n : ℕ) : n &&& 0x0f = n % 16 :=
  Nat.and_two_pow_sub_one_eq_mod n 4

theorem nextW_eq {m : ℕ → UInt32} {t : ℕ} {W : ℕ → UInt32} (hW : Window m t W) (ht : 16 ≤ t) :
    nextW W (t % 16) = Fips180.schedule m t := by
  have hplace : ∀ k, k ≤ 16 → 0 < k → W ((t - k) % 16) = Fips180.schedule m (t - k) :=
    fun k hk hpos => hW (t - k) (by omega) (by omega)
  have h3 : (t % 16 + 13) % 16 = (t - 3) % 16 := by omega
  have h8 : (t % 16 + 8) % 16 = (t - 8) % 16 := by omega
  have h14 : (t % 16 + 2) % 16 = (t - 14) % 16 := by omega
  have h16 : t % 16 = (t - 16) % 16 := by omega
  rw [nextW, and_15, and_15, and_15, h3, h8, h14, hplace 3 (by omega) (by omega),
    hplace 8 (by omega) (by omega), hplace 14 (by omega) (by omega), Fips180.schedule_of_le m ht,
    ← hplace 16 le_rfl (by omega), ← h16]
  rfl

/-- The new word takes the place of the oldest. -/
theorem Window.succ {m : ℕ → UInt32} {t : ℕ} {W : ℕ → UInt32} (hW : Window m t W) (ht : 16 ≤ t) :
    Window m (t + 1) (Function.update W (t % 16) (Fips180.schedule m t)) := by
  intro i hi hle
  rcases Nat.lt_or_ge i t with hlt | hge
  · rw [Function.update_of_ne (by omega)]
    exact hW i (by omega) (by omega)
  · obtain rfl : i = t := by omega
    rw [Function.update_self]

theorem K_eq {u : ℕ} (h : u < 80) : K u = Fips180.constant u := by
  rw [K, Fips180.constant]
  split_ifs with h₂₀ h₄₀ h₆₀
  · have hdiv : u / 20 = 0 := by omega
    rw [hdiv]
    rfl
  · have hdiv : u / 20 = 1 := by omega
    rw [hdiv]
    rfl
  · have hdiv : u / 20 = 2 := by omega
    rw [hdiv]
    rfl
  · have hdiv : u / 20 = 3 := by omega
    rw [hdiv]
    rfl

theorem F0_eq {u : ℕ} (h : u < 20) : F0 = Fips180.logical u := by
  ext b c d : 3
  rw [Fips180.logical, if_pos h, F0]

theorem F1_eq {u : ℕ} (h : 20 ≤ u) (hlt : u < 40) : F1 = Fips180.logical u := by
  ext b c d : 3
  rw [Fips180.logical, if_neg (by omega), if_pos hlt, F1]

theorem F2_eq {u : ℕ} (h : 40 ≤ u) (hlt : u < 60) : F2 = Fips180.logical u := by
  ext b c d : 3
  rw [Fips180.logical, if_neg (by omega), if_neg (by omega), if_pos hlt, F2]

theorem F3_eq {u : ℕ} (h : 60 ≤ u) : F3 = Fips180.logical u := by
  ext b c d : 3
  rw [Fips180.logical, if_neg (by omega), if_neg (by omega), if_neg (by omega), F3]

/-- A loop computes what the turns of the standard do. -/
theorem foldl_sha1Turn {m : ℕ → UInt32} {F : UInt32 → UInt32 → UInt32 → UInt32} :
    ∀ (n t : ℕ) {v : Words} {W : ℕ → UInt32}, Window m t W →
      (∀ u, t ≤ u → u < t + n → F = Fips180.logical u ∧ K u = Fips180.constant u) →
      ∃ W', Window m (t + n) W' ∧ (List.range' t n).foldl (sha1Turn F) (v, W) =
        ((List.range' t n).foldl (fun s u => Fips180.turn u (Fips180.schedule m u) s) v, W')
  | 0, _, _, W, hW, _ => ⟨W, hW, rfl⟩
  | n + 1, t, v, W, hW, hF => by
    obtain ⟨hlogical, hconstant⟩ := hF t le_rfl (by omega)
    obtain ⟨W', hW', hturn⟩ : ∃ W', Window m (t + 1) W' ∧
        sha1Turn F (v, W) t = (Fips180.turn t (Fips180.schedule m t) v, W') := by
      rcases Nat.lt_or_ge t 16 with ht | ht
      · refine ⟨W, fun i hi hle => hW i (by omega) (by omega), ?_⟩
        simp only [sha1Turn, if_neg (not_le.mpr ht), and_15, hW t (by omega) (by omega), hlogical,
          hconstant]
        rfl
      · refine ⟨_, hW.succ ht, ?_⟩
        simp only [sha1Turn, if_pos ht, and_15, nextW_eq hW ht, Function.update_self, hlogical,
          hconstant]
        rfl
    obtain ⟨W'', hW'', hrest⟩ := foldl_sha1Turn n (t + 1) hW' fun u hu hlt =>
      hF u (by omega) (by omega)
    refine ⟨W'', ?_, ?_⟩
    · rwa [Nat.add_right_comm] at hW''
    · rw [List.range'_succ, List.foldl_cons, List.foldl_cons, hturn, hrest]

/-- `sha1_step` compresses the block. -/
theorem sha1Step_eq {ctxt : Sha1Ctxt} (h : ctxt.m.length = 64) :
    sha1Step ctxt =
      { ctxt with h := Fips180.compress ctxt.h ctxt.m, m := List.replicate 64 0 } := by
  have hW : Window (Fips180.word ctxt.m) 0 (b32 (swapBytes ctxt.m)) := fun i hi _ => by
    have hi : i < 16 := hi
    rw [Nat.mod_eq_of_lt hi, Fips180.schedule_of_lt _ hi, b32_swapBytes (by omega)]
  obtain ⟨W₁, hW₁, h₁⟩ := foldl_sha1Turn (F := F0) 20 0 (v := ctxt.h) hW fun u _ hlt =>
    ⟨F0_eq hlt, K_eq (by omega)⟩
  obtain ⟨W₂, hW₂, h₂⟩ := foldl_sha1Turn 20 20 hW₁ fun u hu hlt => ⟨F1_eq hu hlt, K_eq (by omega)⟩
  obtain ⟨W₃, hW₃, h₃⟩ := foldl_sha1Turn 20 40 hW₂ fun u hu hlt => ⟨F2_eq hu hlt, K_eq (by omega)⟩
  obtain ⟨W₄, hW₄, h₄⟩ := foldl_sha1Turn 20 60 hW₃ fun u hu hlt => ⟨F3_eq hu, K_eq (by omega)⟩
  have hrange : List.range 80 =
      List.range' 0 20 ++ List.range' 20 20 ++ List.range' 40 20 ++ List.range' 60 20 := rfl
  rw [sha1Step, h₁, h₂, h₃, h₄, Fips180.compress, hrange, List.foldl_append, List.foldl_append,
    List.foldl_append]

/-! ## Messages -/

/-- The machine has taken in the bytes `l`. -/
structure Holds (l : List UInt8) (ctxt : Sha1Ctxt) : Prop where
  length : ctxt.m.length = 64
  count : ctxt.count < 64
  absorbs : Absorbs 64 Fips180.compress Fips180.initial l (ctxt.h, ctxt.m.take ctxt.count)

namespace Holds

variable {l : List UInt8} {x : Sha1Ctxt}

theorem length_take (hx : Holds l x) : (x.m.take x.count).length = x.count := by
  rw [List.length_take, hx.length]
  exact Nat.min_eq_left (Nat.le_of_lt hx.count)

theorem count_eq (hx : Holds l x) : x.count = l.length % 64 := by
  obtain ⟨k, whole, rfl, hk, -, -⟩ := hx.absorbs
  rw [List.length_append, hk, hx.length_take, Nat.mul_add_mod, Nat.mod_eq_of_lt hx.count]

theorem length_memcpy (hx : Holds l x) {p : List UInt8} (hp : x.count + p.length ≤ 64) :
    (memcpy x.m (x.count % 64) p).length = 64 := by
  simp only [memcpy, Nat.mod_eq_of_lt hx.count, List.length_append, List.length_take,
    List.length_drop, hx.length]
  omega

theorem take_memcpy (hx : Holds l x) (p : List UInt8) :
    (memcpy x.m (x.count % 64) p).take (x.count + p.length) = x.m.take x.count ++ p := by
  rw [memcpy, Nat.mod_eq_of_lt hx.count]
  refine List.take_left' ?_
  rw [List.length_append, hx.length_take]

/-- Bytes that leave room in the block. -/
theorem keep (hx : Holds l x) {p : List UInt8} (hp : x.count + p.length < 64) (c : UInt64) :
    Holds (l ++ p)
      { x with
        m := memcpy x.m (x.count % 64) p, count := (x.count + p.length) % 64, c := c } := by
  refine ⟨hx.length_memcpy (Nat.le_of_lt hp), Nat.mod_lt _ (by omega), ?_⟩
  simp only [Nat.mod_eq_of_lt hp, hx.take_memcpy p]
  exact hx.absorbs.keep (by simpa only [hx.length_take] using hp)

/-- Bytes that fill it. -/
theorem fill (hx : Holds l x) {p : List UInt8} (hp : x.count + p.length = 64) (c : UInt64) :
    Holds (l ++ p)
      (sha1Step { x with
        m := memcpy x.m (x.count % 64) p, count := (x.count + p.length) % 64, c := c }) := by
  have htake : memcpy x.m (x.count % 64) p = x.m.take x.count ++ p := by
    have hall := hx.take_memcpy p
    rwa [hp, List.take_of_length_le (Nat.le_of_eq (hx.length_memcpy (Nat.le_of_eq hp)))] at hall
  rw [sha1Step_eq (hx.length_memcpy (Nat.le_of_eq hp))]
  refine ⟨List.length_replicate, Nat.mod_lt _ (by omega), ?_⟩
  simp only [hp, Nat.mod_self, List.take_zero, htake]
  exact hx.absorbs.fill (by simpa only [hx.length_take] using hp)

theorem putPad (hx : Holds l x) (b : UInt8) :
    Holds (l ++ [b]) (Lws.putPad x b) ∧ (Lws.putPad x b).c = x.c := by
  rw [Lws.putPad]
  split_ifs with h
  · have hfull : x.count + [b].length = 64 := by
      have := hx.count
      simp only [Nat.mod_mod] at h
      rw [List.length_singleton]
      omega
    refine ⟨hx.fill hfull x.c, ?_⟩
    rw [sha1Step_eq (hx.length_memcpy (Nat.le_of_eq hfull))]
  · have hroom : x.count + [b].length < 64 := by
      have := hx.count
      simp only [Nat.mod_mod] at h
      rw [List.length_singleton]
      omega
    exact ⟨hx.keep hroom x.c, rfl⟩

theorem putPads (f : UInt64 → UInt64 → UInt8) : ∀ (is : List UInt64) {l : List UInt8} {x : Sha1Ctxt},
    Holds l x → Holds (l ++ is.map (f x.c)) (is.foldl (fun s i => Lws.putPad s (f s.c i)) x)
  | [], l, x, hx => by simpa using hx
  | i :: is, l, x, hx => by
    obtain ⟨hput, hc⟩ := hx.putPad (f x.c i)
    have hrest := putPads f is hput
    rw [hc] at hrest
    simpa using hrest

theorem sha1Copy (hx : Holds l x) {p : List UInt8} (hp : x.count + p.length ≤ 64) (hne : p ≠ []) :
    Holds (l ++ p) (Lws.sha1Copy x p) ∧
      (Lws.sha1Copy x p).c = x.c + 8 * UInt64.ofNat p.length := by
  have hpos := List.length_pos_of_ne_nil hne
  rw [Lws.sha1Copy]
  split_ifs with h
  · have hfull : x.count + p.length = 64 := by
      simp only [Nat.mod_mod] at h
      omega
    refine ⟨hx.fill hfull _, ?_⟩
    rw [sha1Step_eq (hx.length_memcpy (Nat.le_of_eq hfull))]
  · have hroom : x.count + p.length < 64 := by
      simp only [Nat.mod_mod] at h
      omega
    exact ⟨hx.keep hroom _, rfl⟩

theorem sha1LoopFrom : ∀ (k : ℕ) {l input : List UInt8} {x : Sha1Ctxt}, Holds l x →
    input.length ≤ k → Holds (l ++ input) (Lws.sha1LoopFrom k x input) ∧
      (Lws.sha1LoopFrom k x input).c = x.c + 8 * UInt64.ofNat input.length
  | 0, l, input, x, hx, hk => by
    obtain rfl := List.eq_nil_of_length_eq_zero (Nat.le_zero.mp hk)
    rw [List.append_nil]
    exact ⟨hx, by simp [Lws.sha1LoopFrom]⟩
  | k + 1, l, input, x, hx, hk => by
    rw [Lws.sha1LoopFrom]
    split_ifs with hnil
    · rw [hnil, List.append_nil]
      exact ⟨hx, by simp⟩
    have hpos := List.length_pos_of_ne_nil hnil
    have hcount := hx.count
    have hlen : (input.take (min (64 - x.count % 64) input.length)).length =
        min (64 - x.count % 64) input.length := by
      rw [List.length_take]
      omega
    obtain ⟨hcopy, hc⟩ := hx.sha1Copy (p := input.take (min (64 - x.count % 64) input.length))
      (by omega) (List.ne_nil_of_length_pos (by omega))
    obtain ⟨hrest, hc'⟩ := @sha1LoopFrom k _
      (input.drop (min (64 - x.count % 64) input.length)) _ hcopy
      (by rw [List.length_drop]; omega)
    rw [List.append_assoc, List.take_append_drop] at hrest
    refine ⟨hrest, ?_⟩
    simp only
    rw [hc', hc, hlen, List.length_drop, UInt64.add_assoc, ← UInt64.mul_add, ← UInt64.ofNat_add]
    congr 3
    omega

/-- The zeros of `sha1_pad` are those of the standard. -/
theorem sha1PadFrom {message : List UInt8} (hx : Holds (message ++ [0x80]) x) :
    Holds (message ++ [0x80] ++ List.replicate (Fips180.padding message.length) 0)
      (Lws.sha1PadFrom x) ∧ (Lws.sha1PadFrom x).c = x.c := by
  have hcount := hx.count_eq
  have hlt := hx.count
  rw [List.length_append, List.length_singleton] at hcount
  rw [Lws.sha1PadFrom]
  split_ifs with h
  · have hfull : x.count + (List.replicate (64 - x.count % 64) (0 : UInt8)).length = 64 := by
      rw [List.length_replicate]
      omega
    have hfill := hx.fill hfull x.c
    rw [List.length_replicate, sha1Step_eq (hx.length_memcpy (Nat.le_of_eq hfull))] at hfill
    rw [sha1Step_eq (hx.length_memcpy (Nat.le_of_eq hfull))]
    have hzero : (x.count + (64 - x.count % 64)) % 64 = 0 := by omega
    simp only [hzero] at hfill ⊢
    have hzeros : Fips180.padding message.length = 64 - x.count % 64 + 56 := by
      rw [Fips180.padding]
      omega
    have hkeep := hfill.keep (p := List.replicate 56 0) (by simp) x.c
    rw [hzeros, List.replicate_add, ← List.append_assoc]
    exact ⟨hkeep, trivial⟩
  · have hroom : x.count + (List.replicate (64 - x.count % 64 - 8) (0 : UInt8)).length < 64 := by
      rw [List.length_replicate]
      omega
    have hzeros : Fips180.padding message.length = 64 - x.count % 64 - 8 := by
      rw [Fips180.padding]
      omega
    have hkeep := hx.keep hroom x.c
    rw [List.length_replicate] at hkeep
    rw [hzeros]
    exact ⟨hkeep, rfl⟩

end Holds

theorem holds_init : Holds [] sha1Init :=
  ⟨rfl, Nat.zero_lt_succ _, .nil (Nat.zero_lt_succ _) _⟩

theorem holds_loops : ∀ (pieces : List (List UInt8)) {l : List UInt8} {x : Sha1Ctxt}, Holds l x →
    x.c = 8 * UInt64.ofNat l.length → Holds (l ++ pieces.flatten) (pieces.foldl sha1Loop x) ∧
      (pieces.foldl sha1Loop x).c = 8 * UInt64.ofNat (l ++ pieces.flatten).length
  | [], l, x, hx, hc => by simpa using ⟨hx, hc⟩
  | piece :: pieces, l, x, hx, hc => by
    obtain ⟨hloop, hbits⟩ := hx.sha1LoopFrom piece.length le_rfl
    rw [hc, ← UInt64.mul_add, ← UInt64.ofNat_add, ← List.length_append] at hbits
    have hrest := holds_loops pieces hloop hbits
    rwa [List.append_assoc] at hrest

theorem hBytes_eq (x : UInt32) : hBytes x = Fips180.wordBytes x := by
  simp [hBytes, Fips180.wordBytes]

/-- Whatever pieces a message comes in, the digest is that of the standard. -/
theorem result_loops (pieces : List (List UInt8)) :
    sha1Result (pieces.foldl sha1Loop sha1Init) = Fips180.sha1 pieces.flatten := by
  obtain ⟨hx, hc⟩ := holds_loops pieces holds_init rfl
  rw [List.nil_append] at hx hc
  obtain ⟨hone, hbits⟩ := hx.putPad 0x80
  obtain ⟨hpadded, hbits'⟩ := hone.sha1PadFrom
  have hall := hpadded.putPads b8 [7, 6, 5, 4, 3, 2, 1, 0]
  have hlength : ([7, 6, 5, 4, 3, 2, 1, 0] : List UInt64).map
      (b8 (sha1PadFrom (putPad (pieces.foldl sha1Loop sha1Init) 0x80)).c) =
      Fips180.lengthBytes pieces.flatten.length := by
    rw [hbits', hbits, hc, Fips180.lengthBytes, UInt64.ofNat_mul]
    simp [b8]
  have hpad : sha1Pad (pieces.foldl sha1Loop sha1Init) =
      [7, 6, 5, 4, 3, 2, 1, 0].foldl (fun s i => putPad s (b8 s.c i))
        (sha1PadFrom (putPad (pieces.foldl sha1Loop sha1Init) 0x80)) := rfl
  rw [hlength, ← hpad, ← Fips180.pad] at hall
  obtain ⟨hh, -⟩ := Prod.mk.inj (hall.absorbs.eq_foldBlocks (Fips180.length_pad pieces.flatten))
  rw [sha1Result, Fips180.sha1, Words.bytes, hh]
  simp only [hBytes_eq]

example : libwebsocketsSHA1 [0x61, 0x62, 0x63] =
    [0xa9, 0x99, 0x3e, 0x36, 0x47, 0x06, 0x81, 0x6a, 0xba, 0x3e, 0x25, 0x71, 0x78, 0x50, 0xc2, 0x6c,
      0x9c, 0xd0, 0xd8, 0x9d] := by
  decide +kernel

end Lws

end MySocket
