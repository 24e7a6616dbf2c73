import MySocket.Paging
import Mathlib.Data.Int.ConditionallyCompleteOrder
import Mathlib.Order.Interval.Set.Basic

/-!
# The page in 32-bit numbers

`DBEngine.queryPage` finds the rows of a page with sums and products of `int`s, any of which
can wrap. With `a` and `b` the numbers of the LIMIT, page `k` of `s` rows is to be the part
of the rows `a + (k - 1) * s` up to `a + k * s` that the LIMIT leaves (`Windowed`).

* `exists_limits` : the numbers that any text gives are `a` and the wrapped `a + b`.
* `windowed_iff` : the page is right exactly if the LIMIT ends below `2 ^ 31`, and a page past
  its end wraps to one past its end (`WrapsPast`).
-/

namespace MySocket

namespace DBEngine

variable {a b s k : ℕ}

/-! ## The page and the rows -/

/-- The rows of page `k` if all rows from `a` on are paged. -/
def pageRows (a s k : ℕ) : Set ℤ :=
  Set.Ico ((a + (k - 1) * s : ℕ) : ℤ) (a + k * s : ℕ)

/-- The rows of `LIMIT a, b`. -/
def limitRows (a b : ℕ) : Set ℤ :=
  Set.Ico (a : ℤ) (a + b : ℕ)

/-- The rows asked for as page `k` of `LIMIT a, b` are those of the page that the LIMIT leaves. -/
structure Windowed (a b s k : ℕ) : Prop where
  past : pageRows a s k ∩ limitRows a b = ∅ → pageOffset a (toInt (a + b)) s k = 0
  rows : (pageRows a s k ∩ limitRows a b).Nonempty →
    Set.Ico (pageBegin a (toInt (a + b)) s k)
      (pageBegin a (toInt (a + b)) s k + pageOffset a (toInt (a + b)) s k) =
        pageRows a s k ∩ limitRows a b
  begin_nonneg : 0 ≤ pageBegin a (toInt (a + b)) s k
  offset_nonneg : 0 ≤ pageOffset a (toInt (a + b)) s k

/-- The first row of the page is past the LIMIT also after it wrapped, and what is left of the
LIMIT after the page is negative also after it wrapped. -/
def WrapsPast (a b s k : ℕ) : Prop :=
  (a + b ≤ (a + (k - 1) * s) % 2 ^ 32 ∧ (a + (k - 1) * s) % 2 ^ 32 < 2 ^ 31) ∧
    0 < (k * s - b) % 2 ^ 32 ∧ (k * s - b) % 2 ^ 32 ≤ 2 ^ 31

/-! ## The numbers of a text -/

theorem parseInt_eq_ok {digits : List Char} {n : ℤ} (h : parseInt digits = .ok n) :
    decimalValue digits ≤ maxInt ∧ n = decimalValue digits := by
  unfold parseInt at h
  split_ifs at h with hle
  exact ⟨hle, (Except.ok.inj h).symm⟩

/-- Whatever the text is, `oEnd` is the wrapped sum of `oBegin` and a number of rows. -/
theorem exists_limits {sql : List Char} {lim : Option (ℤ × ℤ)} (h : limits sql = .ok lim) :
    ∃ a b : ℕ, a ≤ maxInt ∧ b ≤ maxInt ∧
      lim.getD (0, (maxInt : ℤ)) = ((a : ℤ), toInt ((a : ℤ) + b)) := by
  have hzero : ∀ {n : ℕ}, n ≤ maxInt → toInt (((0 : ℕ) : ℤ) + n) = n := fun hn => by
    rw [Nat.cast_zero, zero_add, toInt_natCast hn]
  unfold limits at h
  split at h
  · obtain rfl := Except.ok.inj h
    exact ⟨0, maxInt, Nat.zero_le _, le_rfl, by rw [hzero le_rfl]; rfl⟩
  · rename_i mc hf
    split_ifs at h with hsnd
    · cases hfst : parseInt (mc.get 1) with
      | error t => simp [hfst, bind, Except.bind] at h
      | ok m =>
        cases hcount : parseInt (mc.get 2) with
        | error t => simp [hfst, hcount, bind, Except.bind] at h
        | ok n =>
          obtain ⟨hm, rfl⟩ := parseInt_eq_ok hfst
          obtain ⟨hn, rfl⟩ := parseInt_eq_ok hcount
          simp only [hfst, hcount, bind, Except.bind, pure, Except.pure, Except.ok.injEq] at h
          exact ⟨_, _, hm, hn, by rw [← h]; rfl⟩
    · cases hfst : parseInt (mc.get 1) with
      | error t => simp [hfst, bind, Except.bind] at h
      | ok n =>
        obtain ⟨hn, rfl⟩ := parseInt_eq_ok hfst
        simp only [hfst, bind, Except.bind, pure, Except.pure, Except.ok.injEq] at h
        exact ⟨0, _, Nat.zero_le _, hn, by rw [hzero hn, ← h]; rfl⟩

/-! ## Wrapping -/

theorem toInt_eq_emod (n : ℤ) :
    toInt n = n % 2 ^ 32 - if n % 2 ^ 32 ≥ 2 ^ 31 then 2 ^ 32 else 0 := by
  have hcast : ((2 ^ 32 : ℕ) : ℤ) = 2 ^ 32 := by norm_num
  rw [toInt, Int.bmod_eq_emod, hcast]
  split_ifs <;> omega

/-- Only the last of the sums and products is wrapped. -/
theorem pageBegin_eq_min (a b : ℕ) (s : ℕ) (hk : 0 < k) :
    pageBegin a (toInt (a + b)) s k =
      min (toInt ((a : ℤ) + ((k - 1) * s : ℕ))) (toInt ((a : ℤ) + b)) := by
  have hpred : (k : ℤ) - 1 = (k - 1 : ℕ) := by omega
  have hfirst : toInt (a + toInt (toInt ((k : ℤ) - 1) * s)) =
      toInt ((a : ℤ) + ((k - 1) * s : ℕ)) := by
    rw [hpred]
    simp only [toInt, Int.add_bmod_bmod, Int.bmod_mul_bmod, Nat.cast_mul]
  simp only [pageBegin, hfirst]
  split_ifs with h <;> omega

/-- What is left of the LIMIT after the page. -/
theorem distinct_eq (a b s k : ℕ) :
    toInt (toInt (a + b) - toInt (a + toInt (k * s))) = toInt ((b : ℤ) - (k * s : ℕ)) := by
  simp only [toInt, Int.add_bmod_bmod, Int.bmod_sub_bmod, Int.sub_bmod_bmod, Nat.cast_mul]
  rw [add_sub_add_left_eq_sub]

theorem pageOffset_eq_ite (a b s k : ℕ) :
    pageOffset a (toInt (a + b)) s k =
      if 0 ≤ toInt ((b : ℤ) - (k * s : ℕ)) then (s : ℤ)
      else toInt (toInt (a + b) - pageBegin a (toInt (a + b)) s k) := by
  simp only [pageOffset, distinct_eq, ge_iff_le]

/-! ## The window -/

theorem pageRows_inter (a b s k : ℕ) :
    pageRows a s k ∩ limitRows a b =
      Set.Ico ((a + (k - 1) * s : ℕ) : ℤ) (min (a + k * s) (a + b) : ℕ) := by
  have hleft : max ((a + (k - 1) * s : ℕ) : ℤ) a = (a + (k - 1) * s : ℕ) := by omega
  rw [pageRows, limitRows, Set.Ico_inter_Ico, hleft, Nat.cast_min]

theorem pred_mul_add (hk : 0 < k) (s : ℕ) : k * s = (k - 1) * s + s := by
  rw [← Nat.succ_mul, Nat.succ_eq_add_one, Nat.sub_add_cancel hk]

/-- The page and the LIMIT have rows in common if the page starts before the end. -/
theorem inter_nonempty_iff (hs : 0 < s) (hk : 0 < k) :
    (pageRows a s k ∩ limitRows a b).Nonempty ↔ (k - 1) * s < b := by
  rw [pageRows_inter, Set.nonempty_Ico, Nat.cast_lt, pred_mul_add hk]
  omega

/-- A page that starts before the end of the LIMIT is right. -/
theorem windowed_of_lt (hs : 0 < s) (hs' : s ≤ maxInt) (hk : 0 < k) (hend : a + b < 2 ^ 31)
    (hlt : (k - 1) * s < b) : Windowed a b s k := by
  simp only [maxInt] at hs'
  have hpage := pred_mul_add hk s
  have hbegin : pageBegin a (toInt (a + b)) s k = (a + (k - 1) * s : ℕ) := by
    rw [pageBegin_eq_min a b s hk, toInt_eq_emod, toInt_eq_emod]
    omega
  have hoffset : pageOffset a (toInt (a + b)) s k = (min s (b - (k - 1) * s) : ℕ) := by
    rw [pageOffset_eq_ite, hbegin, toInt_eq_emod, toInt_eq_emod, toInt_eq_emod, hpage]
    split_ifs <;> omega
  refine ⟨fun hempty => ?_, fun _ => ?_, by omega, by omega⟩
  · exact absurd ((inter_nonempty_iff hs hk).mpr hlt) (Set.not_nonempty_iff_eq_empty.mpr hempty)
  · have hlast : ((a + (k - 1) * s : ℕ) : ℤ) + (min s (b - (k - 1) * s) : ℕ) =
        (min (a + k * s) (a + b) : ℕ) := by
      rw [hpage]
      omega
    rw [hbegin, hoffset, pageRows_inter, hlast]

/-- A page past the end of the LIMIT is right if it is past it also after it wrapped. -/
theorem windowed_iff_wrapsPast (hs : 0 < s) (hs' : s ≤ maxInt) (hk : 0 < k)
    (hend : a + b < 2 ^ 31) (hge : b ≤ (k - 1) * s) :
    Windowed a b s k ↔ WrapsPast a b s k := by
  simp only [maxInt] at hs'
  have hpage := pred_mul_add hk s
  have hbegin := pageBegin_eq_min a b s hk
  have hoffset := pageOffset_eq_ite a b s k
  have hempty : pageRows a s k ∩ limitRows a b = ∅ := by
    rw [← Set.not_nonempty_iff_eq_empty, inter_nonempty_iff hs hk]
    omega
  have hzero : pageOffset a (toInt (a + b)) s k = 0 ↔ WrapsPast a b s k := by
    rw [hoffset, hbegin, toInt_eq_emod, toInt_eq_emod, toInt_eq_emod, toInt_eq_emod, WrapsPast, hpage]
    split_ifs <;> omega
  rw [← hzero]
  refine ⟨fun h => h.past hempty, fun h => ⟨fun _ => h, fun hrows => ?_, ?_, h.ge⟩⟩
  · exact absurd hempty hrows.ne_empty
  · have hwraps := hzero.mp h
    rw [WrapsPast] at hwraps
    rw [hbegin, toInt_eq_emod, toInt_eq_emod]
    omega

/-- A LIMIT whose end wraps has no page that is right. -/
theorem not_windowed (ha : a ≤ maxInt) (hb : b ≤ maxInt) (hk : 0 < k) (hend : 2 ^ 31 ≤ a + b) :
    ¬Windowed a b s k := by
  simp only [maxInt] at ha hb
  intro h
  have hbegin := h.begin_nonneg
  rw [pageBegin_eq_min a b s hk, toInt_eq_emod ((a : ℤ) + b)] at hbegin
  omega

/-- The window of page `k` is right exactly if the LIMIT ends within the `int`s, and the page
starts before that end or wraps to one past it. -/
theorem windowed_iff (ha : a ≤ maxInt) (hb : b ≤ maxInt) (hs : 0 < s) (hs' : s ≤ maxInt)
    (hk : 0 < k) :
    Windowed a b s k ↔ a + b < 2 ^ 31 ∧ ((k - 1) * s < b ∨ WrapsPast a b s k) := by
  constructor
  · intro h
    by_cases hend : a + b < 2 ^ 31
    · refine ⟨hend, or_iff_not_imp_left.mpr fun hge => ?_⟩
      exact (windowed_iff_wrapsPast hs hs' hk hend (not_lt.mp hge)).mp h
    · exact absurd h (not_windowed ha hb hk (not_lt.mp hend))
  · rintro ⟨hend, hpage⟩
    rcases lt_or_ge ((k - 1) * s) b with hlt | hge
    · exact windowed_of_lt hs hs' hk hend hlt
    · refine (windowed_iff_wrapsPast hs hs' hk hend hge).mpr (hpage.resolve_left ?_)
      omega

/-- Pages of ten rows of `limit 5,100`. -/
theorem windowed_tenth : Windowed 5 100 10 10 :=
  (windowed_iff (by decide) (by decide) (by decide) (by decide) (by decide)).mpr
    ⟨by decide, .inl (by decide)⟩

/-- With pages of `2 ^ 16` rows, page `2 ^ 16 + 1` of a select without LIMIT is page 1 again. -/
theorem page_wraps :
    plain.text = "select a from t".toList ∧ limits plain.text = .ok none ∧
      toInt ((0 : ℕ) + (maxInt : ℕ)) = maxInt ∧
      pageBegin 0 maxInt 65536 65537 = pageBegin 0 maxInt 65536 1 ∧
      pageOffset 0 maxInt 65536 65537 = 65536 ∧
      pageRows 0 65536 65537 ∩ limitRows 0 maxInt = ∅ ∧ ¬Windowed 0 maxInt 65536 65537 := by
  have hlimits := limits_eq plain (.none [] blanks_nil) (by decide)
  rw [Clause.text, List.append_nil] at hlimits
  have hempty : pageRows 0 65536 65537 ∩ limitRows 0 maxInt = ∅ := by
    rw [← Set.not_nonempty_iff_eq_empty, inter_nonempty_iff (by decide) (by decide)]
    decide
  refine ⟨by decide, hlimits, by decide, by decide, by decide, hempty, fun h => ?_⟩
  exact absurd (h.past hempty) (by decide)

end DBEngine

end MySocket
