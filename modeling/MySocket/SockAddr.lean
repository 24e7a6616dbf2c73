import Mathlib.Algebra.Group.Int.Defs
import Mathlib.Data.Int.Cast.Basic
import Mathlib.Data.List.Basic
import Mathlib.Logic.Function.Basic
import Mathlib.Order.Basic

/-!
# Socket addresses

`SockAddrsEqual` compares two socket addresses, and `PrintSocketAddress` writes one as text : the
address, and the port after a dash unless it is zero.

* `sockAddrsEqual_iff_print` : for addresses of IPv4 and IPv6 it is the same to be equal and to be
  written in the same way.

`inet_ntop` is a parameter (`InetNtop`), with `numericNtop` as an example of it. The fields of `sockaddr_in6` that neither function reads
are left out.
-/

namespace MySocket

namespace Sockets

/-! ## The code -/

/-- A port in network byte order, as it is in memory. -/
structure InPort where
  high : UInt8
  low : UInt8
  deriving DecidableEq

def InPort.ntohs (port : InPort) : ℕ :=
  256 * port.high.toNat + port.low.toNat

/-- A `sockaddr` by its family, with the bytes in memory. -/
inductive SockAddr
  | inet (sinAddr : Vector UInt8 4) (sinPort : InPort)
  | inet6 (sin6Addr : Vector UInt8 16) (sin6Port : InPort)
  /-- Neither `AF_INET` nor `AF_INET6`. -/
  | other (saFamily : ℕ)

/-- `sa_family` -/
inductive Family
  | inet
  | inet6
  | other (saFamily : ℕ)
  deriving DecidableEq

def SockAddr.saFamily : SockAddr → Family
  | inet _ _ => .inet
  | inet6 _ _ => .inet6
  | other saFamily => .other saFamily

/-- `inet_ntop` for the two families, `none` where it fails. -/
structure InetNtop where
  inet : Vector UInt8 4 → Option (List Char)
  inet6 : Vector UInt8 16 → Option (List Char)

def invalidAddress : List Char :=
  "[invalid address]".toList

def unknownType : List Char :=
  "[unknown type]".toList

/-- What is written after the call of `inet_ntop`. -/
def printNumeric (addrBuffer : Option (List Char)) (port : ℕ) : List Char :=
  match addrBuffer with
  | none => invalidAddress
  | some text => if port ≠ 0 then text ++ '-' :: Nat.toDigits 10 port else text

/-- What `PrintSocketAddress` writes of an address. -/
def SockAddr.text (ntop : InetNtop) : SockAddr → List Char
  | inet sinAddr sinPort => printNumeric (ntop.inet sinAddr) sinPort.ntohs
  | inet6 sin6Addr sin6Port => printNumeric (ntop.inet6 sin6Addr) sin6Port.ntohs
  | other _ => unknownType

/-- `PrintSocketAddress`, with what has been written to the stream. -/
def printSocketAddress (ntop : InetNtop) (address : Option SockAddr)
    (stream : Option (List Char)) : Option (List Char) :=
  match address, stream with
  | some address, some written => some (written ++ address.text ntop)
  | _, stream => stream

/-- `memcmp` of as many bytes as there are. -/
def memcmp : List UInt8 → List UInt8 → ℤ
  | a :: as, b :: bs => if a = b then memcmp as bs else (a.toNat : ℤ) - b.toNat
  | _, _ => 0

/-- `SockAddrsEqual` -/
def sockAddrsEqual (addr1 addr2 : Option SockAddr) : Bool :=
  match addr1, addr2 with
  | some addr1, some addr2 =>
    if addr1.saFamily ≠ addr2.saFamily then false
    else
      match addr1, addr2 with
      | .inet sinAddr1 sinPort1, .inet sinAddr2 sinPort2 =>
        sinAddr1 = sinAddr2 && sinPort1 = sinPort2
      | .inet6 sin6Addr1 sin6Port1, .inet6 sin6Addr2 sin6Port2 =>
        memcmp sin6Addr1.toList sin6Addr2.toList = 0 && sin6Port1 = sin6Port2
      | _, _ => false
  | none, none => true
  | _, _ => false

/-! ## The property -/

/-- What is known of `inet_ntop`. -/
structure InetNtop.Lawful (ntop : InetNtop) : Prop where
  inet_injective : Function.Injective ntop.inet
  inet6_injective : Function.Injective ntop.inet6
  inet_text : ∀ a, ∃ text, ntop.inet a = some text ∧ '-' ∉ text ∧ ':' ∉ text
  inet6_text : ∀ a, ∃ text, ntop.inet6 a = some text ∧ '-' ∉ text ∧ ':' ∈ text

/-- Of the family `AF_INET` or `AF_INET6`. -/
def SockAddr.IsInet (address : SockAddr) : Prop :=
  address.saFamily = .inet ∨ address.saFamily = .inet6

/-- Both are written in the same way. -/
def SameText (ntop : InetNtop) (x y : SockAddr) : Prop :=
  ∀ stream, printSocketAddress ntop (some x) stream = printSocketAddress ntop (some y) stream

/-! ## Equal addresses -/

variable {ntop : InetNtop} {x y : SockAddr}

theorem memcmp_eq_zero_iff : ∀ {as bs : List UInt8}, as.length = bs.length →
    (memcmp as bs = 0 ↔ as = bs)
  | [], [], _ => iff_of_true rfl rfl
  | a :: as, b :: bs, h => by
    rw [memcmp]
    split_ifs with hab
    · rw [memcmp_eq_zero_iff (Nat.succ.inj h), hab, List.cons_inj_right]
    · refine iff_of_false (fun hsub => hab ?_) fun heq => hab (List.cons.inj heq).1
      exact UInt8.toNat_inj.mp (by omega)

theorem sockAddrsEqual_inet {a b : Vector UInt8 4} {p q : InPort} :
    sockAddrsEqual (some (.inet a p)) (some (.inet b q)) = true ↔ a = b ∧ p = q := by
  simp [sockAddrsEqual, SockAddr.saFamily]

theorem sockAddrsEqual_inet6 {a b : Vector UInt8 16} {p q : InPort} :
    sockAddrsEqual (some (.inet6 a p)) (some (.inet6 b q)) = true ↔ a = b ∧ p = q := by
  simp [sockAddrsEqual, SockAddr.saFamily, memcmp_eq_zero_iff, Vector.toList_inj]

theorem sockAddrsEqual_of_family_ne (h : x.saFamily ≠ y.saFamily) :
    ¬sockAddrsEqual (some x) (some y) = true := by
  simp [sockAddrsEqual, h]

/-- Equal addresses are the same in all that is read of them. -/
theorem sockAddrsEqual_iff (hx : x.IsInet) : sockAddrsEqual (some x) (some y) = true ↔ x = y := by
  by_cases hfamily : x.saFamily = y.saFamily
  · cases x with
    | inet a p =>
      cases y with
      | inet b q => rw [sockAddrsEqual_inet, SockAddr.inet.injEq]
      | inet6 b q => cases hfamily
      | other n => cases hfamily
    | inet6 a p =>
      cases y with
      | inet b q => cases hfamily
      | inet6 b q => rw [sockAddrsEqual_inet6, SockAddr.inet6.injEq]
      | other n => cases hfamily
    | other n => rcases hx with hx | hx <;> cases hx
  · exact iff_of_false (sockAddrsEqual_of_family_ne hfamily) fun h => hfamily (h ▸ rfl)

/-! ## What is written -/

theorem InPort.ntohs_inj {p q : InPort} (h : p.ntohs = q.ntohs) : p = q := by
  obtain ⟨a, b⟩ := p
  obtain ⟨c, d⟩ := q
  have hb := b.toNat_lt
  have hd := d.toNat_lt
  simp only [InPort.ntohs] at h
  rw [InPort.mk.injEq, ← UInt8.toNat_inj, ← UInt8.toNat_inj]
  omega

theorem notMem_toDigits {c : Char} (hc : c.isDigit = false) (n : ℕ) : c ∉ Nat.toDigits 10 n := by
  intro h
  rw [Nat.isDigit_of_mem_toDigits (by decide) (by decide) h] at hc
  cases hc

theorem toDigits_inj {m n : ℕ} (h : Nat.toDigits 10 m = Nat.toDigits 10 n) : m = n := by
  have hvalue := congrArg (Nat.ofDigitChars 10 · 0) h
  simpa only [Nat.ofDigitChars_ten_toDigits] using hvalue

theorem printNumeric_zero (text : List Char) : printNumeric (some text) 0 = text := by
  simp [printNumeric]

theorem printNumeric_of_ne_zero (text : List Char) {port : ℕ} (h : port ≠ 0) :
    printNumeric (some text) port = text ++ '-' :: Nat.toDigits 10 port := by
  simp [printNumeric, h]

theorem dash_mem_printNumeric (text : List Char) {port : ℕ} (h : port ≠ 0) :
    '-' ∈ printNumeric (some text) port := by
  rw [printNumeric_of_ne_zero text h]
  exact List.mem_append_right _ List.mem_cons_self

/-- The address and the port can be read off what is written. -/
theorem printNumeric_inj {text text' : List Char} {port port' : ℕ} (hdash : '-' ∉ text)
    (hdash' : '-' ∉ text') (h : printNumeric (some text) port = printNumeric (some text') port') :
    text = text' ∧ port = port' := by
  by_cases hport : port = 0
  · subst hport
    rw [printNumeric_zero] at h
    have hport' : port' = 0 := by
      by_contra hne
      exact hdash (h ▸ dash_mem_printNumeric text' hne)
    rw [hport', printNumeric_zero] at h
    exact ⟨h, hport'.symm⟩
  · have hport' : port' ≠ 0 := by
      rintro rfl
      rw [printNumeric_zero] at h
      exact hdash' (h ▸ dash_mem_printNumeric text hport)
    rw [printNumeric_of_ne_zero text hport, printNumeric_of_ne_zero text' hport',
      List.append_cons_inj_of_notMem hdash (notMem_toDigits rfl port)] at h
    exact ⟨h.1, toDigits_inj h.2.2⟩

theorem colon_mem_printNumeric {text : List Char} (port : ℕ) :
    ':' ∈ printNumeric (some text) port ↔ ':' ∈ text := by
  by_cases hport : port = 0
  · rw [hport, printNumeric_zero]
  · rw [printNumeric_of_ne_zero text hport, List.mem_append, List.mem_cons]
    refine or_iff_left fun h => ?_
    exact h.elim (fun h => by cases h) (notMem_toDigits rfl port)

/-- An IPv4 address is never written like an IPv6 address. -/
theorem InetNtop.Lawful.text_ne (h : ntop.Lawful) (a : Vector UInt8 4) (b : Vector UInt8 16)
    (p q : InPort) : (SockAddr.inet a p).text ntop ≠ (SockAddr.inet6 b q).text ntop := by
  obtain ⟨s, hs, -, hcolon⟩ := h.inet_text a
  obtain ⟨t, ht, -, hcolon'⟩ := h.inet6_text b
  intro heq
  rw [SockAddr.text, SockAddr.text, hs, ht] at heq
  rw [← colon_mem_printNumeric q.ntohs, ← heq, colon_mem_printNumeric] at hcolon'
  exact hcolon hcolon'

theorem InetNtop.Lawful.text_inj (h : ntop.Lawful) (hx : x.IsInet) (hy : y.IsInet)
    (htext : x.text ntop = y.text ntop) : x = y := by
  cases x with
  | other n => rcases hx with hx | hx <;> cases hx
  | inet a p =>
    cases y with
    | other n => rcases hy with hy | hy <;> cases hy
    | inet6 b q => exact absurd htext (h.text_ne a b p q)
    | inet b q =>
      obtain ⟨s, hs, hdash, -⟩ := h.inet_text a
      obtain ⟨t, ht, hdash', -⟩ := h.inet_text b
      rw [SockAddr.text, SockAddr.text, hs, ht] at htext
      obtain ⟨rfl, hport⟩ := printNumeric_inj hdash hdash' htext
      rw [h.inet_injective (hs.trans ht.symm), InPort.ntohs_inj hport]
  | inet6 a p =>
    cases y with
    | other n => rcases hy with hy | hy <;> cases hy
    | inet b q => exact absurd htext.symm (h.text_ne b a q p)
    | inet6 b q =>
      obtain ⟨s, hs, hdash, -⟩ := h.inet6_text a
      obtain ⟨t, ht, hdash', -⟩ := h.inet6_text b
      rw [SockAddr.text, SockAddr.text, hs, ht] at htext
      obtain ⟨rfl, hport⟩ := printNumeric_inj hdash hdash' htext
      rw [h.inet6_injective (hs.trans ht.symm), InPort.ntohs_inj hport]

theorem sameText_iff : SameText ntop x y ↔ x.text ntop = y.text ntop := by
  constructor
  · intro h
    simpa [printSocketAddress] using h (some [])
  · intro h stream
    cases stream <;> simp [printSocketAddress, h]

/-! ## The numeric form

`inet_ntop` without the abbreviation `::` of groups that are zero.
-/

def inetText (a : Vector UInt8 4) : List Char :=
  ['.'].intercalate (a.toList.map fun byte => Nat.toDigits 10 byte.toNat)

/-- Two bytes a group, in hexadecimal. -/
def hexGroups : List UInt8 → List (List Char)
  | high :: low :: rest => Nat.toDigits 16 (256 * high.toNat + low.toNat) :: hexGroups rest
  | _ => []

def inet6Text (a : Vector UInt8 16) : List Char :=
  [':'].intercalate (hexGroups a.toList)

def numericNtop : InetNtop where
  inet a := some (inetText a)
  inet6 a := some (inet6Text a)

theorem digitChar_inj : ∀ m < 16, ∀ n < 16, Nat.digitChar m = Nat.digitChar n → m = n := by
  decide

theorem toDigits_sixteen_inj (m n : ℕ) (h : Nat.toDigits 16 m = Nat.toDigits 16 n) : m = n := by
  induction m using Nat.strong_induction_on generalizing n with
  | _ m ih =>
    rw [Nat.toDigits_eq_if (by decide), Nat.toDigits_eq_if (n := n) (by decide)] at h
    split_ifs at h with hm hn hn
    · exact digitChar_inj m hm n hn (List.cons.inj h).1
    · exact absurd (List.append_eq_singleton_iff.mp h.symm) (by simp)
    · exact absurd (List.append_eq_singleton_iff.mp h) (by simp)
    · obtain ⟨hinit, hlast⟩ := List.append_inj' h rfl
      have hdiv := ih (m / 16) (by omega) (n / 16) hinit
      have hmod := digitChar_inj _ (m.mod_lt (by decide)) _ (n.mod_lt (by decide))
        (List.cons.inj hlast).1
      omega

theorem notMem_toDigits_sixteen {c : Char} (hc : ∀ k < 16, c ≠ Nat.digitChar k) (n : ℕ) :
    c ∉ Nat.toDigits 16 n := by
  induction n using Nat.strong_induction_on with
  | _ n ih =>
    rw [Nat.toDigits_eq_if (by decide)]
    split_ifs with hn
    · exact fun h => hc n hn (List.mem_singleton.mp h)
    · rw [List.mem_append, List.mem_singleton, not_or]
      exact ⟨ih (n / 16) (by omega), hc _ (n.mod_lt (by decide))⟩

theorem notMem_hexGroups {c : Char} (hc : ∀ k < 16, c ≠ Nat.digitChar k) :
    ∀ bytes : List UInt8, ∀ group ∈ hexGroups bytes, c ∉ group
  | high :: low :: rest => by
    rw [hexGroups, List.forall_mem_cons]
    exact ⟨notMem_toDigits_sixteen hc _, notMem_hexGroups hc rest⟩
  | [_] => List.forall_mem_nil _
  | [] => List.forall_mem_nil _

theorem hexGroups_inj : ∀ {as bs : List UInt8}, as.length = bs.length → as.length % 2 = 0 →
    hexGroups as = hexGroups bs → as = bs
  | [], [], _, _, _ => rfl
  | a :: a' :: as, b :: b' :: bs, hlength, heven, h => by
    rw [hexGroups, hexGroups, List.cons.injEq] at h
    have hgroup := toDigits_sixteen_inj _ _ h.1
    have ha' := a'.toNat_lt
    have hb' := b'.toNat_lt
    simp only [List.length_cons] at hlength heven
    rw [hexGroups_inj (by omega) (by omega) h.2, UInt8.toNat_inj.mp (by omega : a.toNat = b.toNat),
      UInt8.toNat_inj.mp (by omega : a'.toNat = b'.toNat)]

/-- Texts joined with a sign that is in none of them can be taken apart. -/
theorem intercalate_inj {c : Char} {us vs : List (List Char)} (hu : ∀ u ∈ us, c ∉ u)
    (hv : ∀ v ∈ vs, c ∉ v) (hu0 : us ≠ []) (hv0 : vs ≠ [])
    (h : [c].intercalate us = [c].intercalate vs) : us = vs := by
  rw [← List.splitOn_intercalate c hu hu0, h, List.splitOn_intercalate c hv hv0]

theorem notMem_intercalate {c d : Char} (hcd : c ≠ d) {us : List (List Char)}
    (hu : ∀ u ∈ us, c ∉ u) : c ∉ [d].intercalate us := by
  induction us with
  | nil => exact List.not_mem_nil
  | cons u us ih =>
    rw [List.forall_mem_cons] at hu
    cases us with
    | nil => simpa using hu.1
    | cons v us =>
      rw [List.intercalate_cons_cons, List.mem_append, List.mem_append, List.mem_singleton]
      exact not_or.mpr ⟨not_or.mpr ⟨hu.1, hcd⟩, ih hu.2⟩

theorem notMem_inetParts {c : Char} (hc : c.isDigit = false) (a : Vector UInt8 4) :
    ∀ part ∈ a.toList.map fun byte => Nat.toDigits 10 byte.toNat, c ∉ part := by
  rw [List.forall_mem_map]
  exact fun byte _ => notMem_toDigits hc byte.toNat

theorem inetText_injective : Function.Injective inetText := by
  intro a b h
  have hne : ∀ c : Vector UInt8 4, (c.toList.map fun byte => Nat.toDigits 10 byte.toNat) ≠ [] := by
    intro c hnil
    have hlength := congrArg List.length hnil
    simp at hlength
  have hparts := intercalate_inj (notMem_inetParts rfl a) (notMem_inetParts rfl b) (hne a) (hne b) h
  have hbyte : Function.Injective fun byte : UInt8 => Nat.toDigits 10 byte.toNat :=
    fun _ _ hbyte => UInt8.toNat_inj.mp (toDigits_inj hbyte)
  exact Vector.toList_inj.mp (hbyte.list_map hparts)

theorem hexGroups_eq (a : Vector UInt8 16) :
    ∃ group group' groups, hexGroups a.toList = group :: group' :: groups := by
  have hlength : a.toList.length = 16 := by simp
  match h : a.toList, hlength with
  | b₁ :: b₂ :: b₃ :: b₄ :: rest, _ => exact ⟨_, _, _, rfl⟩

theorem inet6Text_injective : Function.Injective inet6Text := by
  intro a b h
  obtain ⟨_, _, _, ha⟩ := hexGroups_eq a
  obtain ⟨_, _, _, hb⟩ := hexGroups_eq b
  have hcolon : ∀ k < 16, ':' ≠ Nat.digitChar k := by decide
  have hgroups := intercalate_inj (notMem_hexGroups hcolon _) (notMem_hexGroups hcolon _)
    (ha ▸ List.cons_ne_nil _ _) (hb ▸ List.cons_ne_nil _ _) h
  exact Vector.toList_inj.mp (hexGroups_inj (by simp) (by simp) hgroups)

theorem colon_mem_inet6Text (a : Vector UInt8 16) : ':' ∈ inet6Text a := by
  obtain ⟨_, _, _, ha⟩ := hexGroups_eq a
  rw [inet6Text, ha, List.intercalate_cons_cons]
  exact List.mem_append_left _ (List.mem_append_right _ List.mem_cons_self)

theorem numericNtop_lawful : numericNtop.Lawful where
  inet_injective _ _ h := inetText_injective (Option.some.inj h)
  inet6_injective _ _ h := inet6Text_injective (Option.some.inj h)
  inet_text a := by
    refine ⟨inetText a, rfl, ?_, ?_⟩
    · exact notMem_intercalate (by decide) (notMem_inetParts rfl a)
    · exact notMem_intercalate (by decide) (notMem_inetParts rfl a)
  inet6_text a := by
    refine ⟨inet6Text a, rfl, ?_, colon_mem_inet6Text a⟩
    exact notMem_intercalate (by decide) (notMem_hexGroups (by decide) _)

/-- 127.0.0.1 -/
def loopbackAddr : Vector UInt8 4 :=
  #v[127, 0, 0, 1]

/-- 127.0.0.1, port 80 -/
def loopback : SockAddr :=
  .inet loopbackAddr ⟨0, 80⟩

/-- 2001:db8:1:2:3:4:5:6, port 443 -/
def documentation : SockAddr :=
  .inet6 #v[0x20, 0x01, 0x0d, 0xb8, 0, 1, 0, 2, 0, 3, 0, 4, 0, 5, 0, 6] ⟨1, 187⟩

/-! ## The results -/

/-- Addresses of the two families are equal exactly if they are written in the same way, and so
`SockAddrsEqual` is an equivalence on them. -/
theorem sockAddrsEqual_iff_print (h : ntop.Lawful) :
    (∀ x y : SockAddr, x.IsInet → y.IsInet →
      (sockAddrsEqual (some x) (some y) = true ↔ SameText ntop x y)) ∧
    Equivalence fun x y : {address : SockAddr // address.IsInet} =>
      sockAddrsEqual (some x.1) (some y.1) = true := by
  have hiff : ∀ x y : SockAddr, x.IsInet → y.IsInet →
      (sockAddrsEqual (some x) (some y) = true ↔ SameText ntop x y) := by
    intro x y hx hy
    rw [sockAddrsEqual_iff hx, sameText_iff]
    exact ⟨fun heq => heq ▸ rfl, h.text_inj hx hy⟩
  refine ⟨hiff, fun x => ?_, fun {x y} hxy => ?_, fun {x y z} hxy hyz => ?_⟩
  · exact (hiff x x x.2 x.2).mpr fun _ => rfl
  · rw [hiff x y x.2 y.2] at hxy
    exact (hiff y x y.2 x.2).mpr fun stream => (hxy stream).symm
  · rw [hiff x y x.2 y.2] at hxy
    rw [hiff y z y.2 z.2] at hyz
    exact (hiff x z x.2 z.2).mpr fun stream => (hxy stream).trans (hyz stream)

theorem loopback_ne_documentation :
    loopback.text numericNtop = "127.0.0.1-80".toList ∧
    documentation.text numericNtop = "2001:db8:1:2:3:4:5:6-443".toList ∧
    (sockAddrsEqual (some loopback) (some documentation) = true ↔
      SameText numericNtop loopback documentation) :=
  ⟨by decide +kernel, by decide +kernel,
    (sockAddrsEqual_iff_print numericNtop_lawful).1 loopback documentation (.inl rfl) (.inr rfl)⟩

end Sockets

end MySocket
