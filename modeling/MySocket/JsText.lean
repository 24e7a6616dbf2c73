import MySocket.JsToNumber

/-!
# Texts in JavaScript

The code units of a text, `join`, and the decimal text of a number (`natText`, `intText`) with the
facts that tell it from other texts.
-/

namespace MySocket

namespace Js

/-- The code unit of a character of the basic multilingual plane. -/
def unit (c : Char) : UInt16 :=
  c.toNat.toUInt16

/-- The code units of such characters. -/
def text (s : String) : JsString :=
  s.toList.map unit

/-- What a natural number is as a string. -/
def natText (n : ℕ) : JsString :=
  (Nat.toDigits 10 n).map unit

/-- What an integer is as a string. -/
def intText (n : ℤ) : JsString :=
  if n < 0 then unit '-' :: natText n.natAbs else natText n.natAbs

/-- `join` -/
def join (separator : JsString) (parts : List JsString) : JsString :=
  separator.intercalate parts

/-! ## Decimal digits -/

section

variable {m n k d : ℕ} {c : UInt16}

/-- The code unit of a digit. -/
def digitUnit (d : ℕ) : UInt16 :=
  unit (Nat.digitChar d)

theorem digitVal_digitUnit : ∀ d < 10, digitVal (digitUnit d) = some d := by
  decide

theorem isDigit_digitUnit (h : d < 10) : isDigit 10 (digitUnit d) = true := by
  rw [isDigit, digitVal_digitUnit d h, Option.any_some]
  exact decide_eq_true h

theorem digitUnit_inj (hm : m < 10) (hn : n < 10) (h : digitUnit m = digitUnit n) : m = n := by
  have hval := digitVal_digitUnit m hm
  rw [h, digitVal_digitUnit n hn] at hval
  exact (Option.some.inj hval).symm

theorem natText_of_lt (h : n < 10) : natText n = [digitUnit n] := by
  rw [natText, Nat.toDigits_of_lt_base h]
  rfl

theorem natText_of_le (h : 10 ≤ n) : natText n = natText (n / 10) ++ [digitUnit (n % 10)] := by
  rw [natText, Nat.toDigits_of_base_le (by decide) h, List.map_append]
  rfl

/-- A number ends with its last digit. -/
theorem natText_cases (n : ℕ) : (n < 10 ∧ natText n = [digitUnit n]) ∨
    (10 ≤ n ∧ natText n = natText (n / 10) ++ [digitUnit (n % 10)]) := by
  rcases Nat.lt_or_ge n 10 with h | h
  · exact .inl ⟨h, natText_of_lt h⟩
  · exact .inr ⟨h, natText_of_le h⟩

theorem natText_ne_nil (n : ℕ) : natText n ≠ [] := by
  rcases natText_cases n with ⟨-, h⟩ | ⟨-, h⟩
  · rw [h]
    exact List.cons_ne_nil _ _
  · rw [h]
    exact List.append_ne_nil_of_right_ne_nil _ (List.cons_ne_nil _ _)

theorem isDigit_of_mem_natText (h : c ∈ natText n) : isDigit 10 c = true := by
  induction n using Nat.strong_induction_on with
  | _ n ih =>
    rcases natText_cases n with ⟨hn, heq⟩ | ⟨hn, heq⟩
    · rw [heq, List.mem_singleton] at h
      exact h ▸ isDigit_digitUnit hn
    · rw [heq, List.mem_append, List.mem_singleton] at h
      rcases h with h | rfl
      · exact ih (n / 10) (by omega) h
      · exact isDigit_digitUnit (n.mod_lt (by decide))

theorem areDigits_natText (n : ℕ) : areDigits 10 (natText n) = true :=
  areDigits_iff.mpr ⟨natText_ne_nil n, fun _ => isDigit_of_mem_natText⟩

theorem digitsVal_concat (s : JsString) (c : UInt16) :
    digitsVal 10 (s ++ [c]) = 10 * digitsVal 10 s + (digitVal c).getD 0 := by
  rw [digitsVal, List.foldl_append]
  rfl

theorem digitsVal_append (s t : JsString) :
    digitsVal 10 (s ++ t) = digitsVal 10 s * 10 ^ t.length + digitsVal 10 t := by
  induction t using List.reverseRecOn with
  | nil => simp [digitsVal]
  | append_singleton t c ih =>
    rw [← List.append_assoc, digitsVal_concat, ih, digitsVal_concat, List.length_append,
      List.length_singleton, pow_succ]
    ring

@[simp] theorem digitsVal_natText (n : ℕ) : digitsVal 10 (natText n) = n := by
  induction n using Nat.strong_induction_on with
  | _ n ih =>
    rcases natText_cases n with ⟨hn, heq⟩ | ⟨hn, heq⟩
    · rw [heq, ← List.nil_append [digitUnit n], digitsVal_concat, digitVal_digitUnit n hn]
      exact Nat.zero_add n
    · rw [heq, digitsVal_concat, ih (n / 10) (by omega),
        digitVal_digitUnit _ (n.mod_lt (by decide)), Option.getD_some]
      omega

theorem natText_injective : Function.Injective natText := by
  intro m n h
  rw [← digitsVal_natText m, h, digitsVal_natText]

theorem length_natText_le_iff (hk : 0 < k) : (natText n).length ≤ k ↔ n < 10 ^ k := by
  rw [natText, List.length_map, Nat.length_toDigits_le_iff (by decide) hk]

/-- A number that is not zero has no zero in front. -/
theorem head_natText (hn : n ≠ 0) : (natText n).head (natText_ne_nil n) ≠ digitUnit 0 := by
  induction n using Nat.strong_induction_on with
  | _ n ih =>
    rcases natText_cases n with ⟨hlt, heq⟩ | ⟨hle, heq⟩
    · simp only [heq, List.head_cons]
      exact fun h => hn (digitUnit_inj hlt (by decide) h)
    · simp only [heq, List.head_append_of_ne_nil (natText_ne_nil (n / 10))]
      exact ih (n / 10) (by omega) (by omega)

/-- A number is told from what is behind it, if that does not begin with a digit. -/
theorem natText_append_inj {c' : UInt16} {s s' : JsString} (hc : isDigit 10 c = false)
    (hc' : isDigit 10 c' = false) (h : natText m ++ c :: s = natText n ++ c' :: s') :
    m = n ∧ c :: s = c' :: s' := by
  have hfront : ∀ {k : ℕ} {c : UInt16} {s : JsString}, isDigit 10 c = false →
      (natText k ++ c :: s).takeWhile (isDigit 10) = natText k := by
    intro k c s hc
    rw [List.takeWhile_append_of_pos fun _ => isDigit_of_mem_natText,
      List.takeWhile_cons_of_neg (by simp [hc]), List.append_nil]
  have htake := congrArg (List.takeWhile (isDigit 10)) h
  rw [hfront hc, hfront hc'] at htake
  rw [htake] at h
  exact ⟨natText_injective htake, List.append_cancel_left h⟩

theorem notMem_natText (hc : isDigit 10 c = false) (n : ℕ) : c ∉ natText n := by
  intro h
  rw [isDigit_of_mem_natText h] at hc
  cases hc

theorem intText_injective : Function.Injective intText := by
  intro m n h
  have hminus : ∀ k : ℕ, unit '-' ∉ natText k := fun k => notMem_natText (by decide) k
  unfold intText at h
  split_ifs at h with hm hn hn
  · have habs := natText_injective (List.cons.inj h).2
    omega
  · exact absurd (h ▸ List.mem_cons_self) (hminus n.natAbs)
  · exact absurd (h ▸ List.mem_cons_self) (hminus m.natAbs)
  · have habs := natText_injective h
    omega

end

/-! ## Separators -/

section

variable {sep : UInt16} {s t u v : JsString} {parts parts' : List JsString}

/-- What comes before the first separator is determined. -/
theorem append_cons_inj (hs : sep ∉ s) (ht : sep ∉ t) (h : s ++ sep :: u = t ++ sep :: v) :
    s = t ∧ u = v := by
  induction s generalizing t with
  | nil =>
    cases t with
    | nil => exact ⟨rfl, (List.cons.inj h).2⟩
    | cons c t => exact absurd ((List.cons.inj h).1 ▸ List.mem_cons_self) ht
  | cons c s ih =>
    cases t with
    | nil => exact absurd ((List.cons.inj h).1 ▸ List.mem_cons_self) hs
    | cons c' t =>
      obtain ⟨rfl, htail⟩ := List.cons.inj h
      rw [List.mem_cons, not_or] at hs ht
      obtain ⟨rfl, huv⟩ := ih hs.2 ht.2 htail
      exact ⟨rfl, huv⟩

theorem join_singleton (sep part : JsString) : join sep [part] = part := by
  simp [join]

theorem join_cons_cons (sep part next : JsString) (parts : List JsString) :
    join sep (part :: next :: parts) = part ++ (sep ++ join sep (next :: parts)) := by
  rw [join, List.intercalate_cons_cons, List.append_assoc]
  rfl

theorem length_le_join_of_mem {part : JsString} (h : part ∈ parts) :
    part.length ≤ (join [sep] parts).length := by
  induction parts with
  | nil => cases h
  | cons first parts ih =>
    cases parts with
    | nil => rw [List.mem_singleton.mp h, join_singleton]
    | cons next parts =>
      rw [join_cons_cons, List.length_append, List.length_append]
      rcases List.mem_cons.mp h with rfl | h
      · omega
      · have := ih h
        omega

theorem length_le_join (h : ∀ part ∈ parts, part ≠ []) :
    parts.length ≤ (join [sep] parts).length := by
  induction parts with
  | nil => exact Nat.zero_le _
  | cons part parts ih =>
    rw [List.forall_mem_cons] at h
    have hpos : 0 < part.length := List.length_pos_iff.mpr h.1
    cases parts with
    | nil =>
      rw [join_singleton]
      exact hpos
    | cons next parts =>
      have hrest := ih h.2
      rw [join_cons_cons, List.length_append, List.length_append]
      simp only [List.length_cons] at hrest ⊢
      omega

theorem join_concat (sep : JsString) (parts : List JsString) (last : JsString) :
    join sep (parts ++ [last]) = (parts.flatMap fun part => part ++ sep) ++ last := by
  induction parts with
  | nil => simp [join]
  | cons part parts ih =>
    obtain ⟨q, qs, hq⟩ := List.exists_cons_of_ne_nil
      (List.append_ne_nil_of_right_ne_nil parts (List.cons_ne_nil last []))
    rw [List.cons_append, join, hq, List.intercalate_cons_cons, ← hq]
    rw [join] at ih
    rw [ih, List.flatMap_cons, List.append_assoc, List.append_assoc, List.append_assoc]

/-- Parts without the separator can be read off the text with the separator behind each. -/
theorem flatMap_concat_inj (h : ∀ part ∈ parts, sep ∉ part) (h' : ∀ part ∈ parts', sep ∉ part)
    (heq : (parts.flatMap fun part => part ++ [sep]) = parts'.flatMap fun part => part ++ [sep]) :
    parts = parts' := by
  induction parts generalizing parts' with
  | nil =>
    cases parts' with
    | nil => rfl
    | cons part' parts' => simp at heq
  | cons part parts ih =>
    cases parts' with
    | nil => simp at heq
    | cons part' parts' =>
      rw [List.forall_mem_cons] at h h'
      simp only [List.flatMap_cons, List.append_assoc, List.singleton_append] at heq
      obtain ⟨rfl, htail⟩ := append_cons_inj h.1 h'.1 heq
      rw [ih h.2 h'.2 htail]

end

end Js

end MySocket
