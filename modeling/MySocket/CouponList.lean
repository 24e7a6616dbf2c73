import Mathlib.Algebra.Order.Group.Int
import Mathlib.Data.List.Perm.Basic
import MySocket.Redemption

/-!
# Coupon balances and the coupon list

`setCoupon` takes a unit off `app_weight` in each row of `ott_channel_app_rel` that its
`WHERE` clause selects, whatever the balance is. `swip.jsp` lists the published coupons of
a user whose balance is not `0`.

* `readRows_eq` : the page lists the rows with a positive balance, as long as no balance is
  negative and each fits a Java `int`. `readable_of_listed` : a balance that does not fit
  cuts the list short.
* `nonneg_execute_iff` : an `UPDATE` leaves no negative balance exactly if each row that it
  selects has a unit left.

The database enters by three functions : `selects` for the rows that an `UPDATE` selects,
`select` for the answer to a query, and `eq` for its comparison of texts.
-/

set_option linter.unusedSectionVars false

namespace MySocket

/-! ## The tables -/

/-- A row of `ott_app`. -/
structure App where
  id : String
  name : Option String
  posterUrl : Option String
  pubStatus : String

/-- A row of `ott_channel_app_rel`. -/
structure Rel where
  appId : String
  channelId : String
  appWeight : ℤ

structure Tables where
  apps : List App
  rels : List Rel

/-- The columns of a joined row that the page reads, and the entries of its `sub_map`. -/
structure Coupon where
  id : String
  name : Option String
  posterUrl : Option String
  appWeight : ℤ
  deriving DecidableEq

/-- An `UPDATE` with the assignment of `setCoupon` : a unit less in each row it selects. -/
def executeTables (selects : String → Tables → ℕ → Bool) (sql : String) (t : Tables) :
    ℕ × Tables :=
  (((List.range t.rels.length).filter (selects sql t)).length,
    { t with rels := t.rels.mapIdx fun k r =>
        if selects sql t k then { r with appWeight := r.appWeight - 1 } else r })

/-- The coupons of the user `u` that are published, with their balances. -/
def published (eq : String → String → Bool) (u : String) (t : Tables) : List Coupon :=
  t.apps.flatMap fun a =>
    (t.rels.filter fun r => eq a.pubStatus "P" && eq a.id r.appId && eq r.channelId u).map
      fun r => ⟨a.id, a.name, a.posterUrl, r.appWeight⟩

theorem mem_published {eq : String → String → Bool} {u : String} {t : Tables} {c : Coupon} :
    c ∈ published eq u t ↔ ∃ a ∈ t.apps, ∃ r ∈ t.rels,
      (eq a.pubStatus "P" && eq a.id r.appId && eq r.channelId u) = true ∧
        c = ⟨a.id, a.name, a.posterUrl, r.appWeight⟩ := by
  simp only [published, List.mem_flatMap, List.mem_map, List.mem_filter]
  constructor
  · rintro ⟨a, ha, r, ⟨hr, hjoin⟩, rfl⟩
    exact ⟨a, ha, r, hr, hjoin, rfl⟩
  · rintro ⟨a, ha, r, hr, hjoin, rfl⟩
    exact ⟨a, ha, r, ⟨hr, hjoin⟩, rfl⟩

/-! ## The page -/

/-- The query of `swip.jsp` up to the user id. -/
def couponListHead : String :=
  "select ott_app.*,ott_channel_app_rel.app_weight " ++ "from ott_app ,ott_channel_app_rel " ++
    "where " ++ " ott_app.pub_status = 'P' " ++ "  and ott_app.id = ott_channel_app_rel.app_id" ++
    " and ott_channel_app_rel.channel_id = '"

/-- The query of `swip.jsp`. -/
def couponListSql (userId : Option String) : String :=
  couponListHead ++ operand userId ++ "'"

/-- `Integer.valueOf` of a number written in decimal. -/
def integerValueOf (n : ℤ) : Option ℤ :=
  if -2 ^ 31 ≤ n ∧ n < 2 ^ 31 then some n else none

/-- The loop of `swip.jsp` over the rows of the result. -/
def readRows : List Coupon → List Coupon
  | [] => []
  | row :: rows =>
    match integerValueOf row.appWeight with
    -- the exception is caught outside the loop : the rest is not read
    | none => []
    | some count =>
      if count ≠ 0 then { row with appWeight := count } :: readRows rows else readRows rows

/-- The list that `swip.jsp` renders, from the result of `executeQuery`, if it returns one. -/
def couponList : Option (List Coupon) → List Coupon
  | none => []
  | some rows => readRows rows

/-- A text with no quote and no backslash, which the quotes around it in a statement end. -/
def Plain (text : String) : Prop :=
  ∀ c ∈ text.toList, c ≠ Char.ofNat 39 ∧ c ≠ Char.ofNat 92

theorem integerValueOf_eq {n m : ℤ} (h : integerValueOf n = some m) : n = m ∧ n < 2 ^ 31 := by
  simp only [integerValueOf, Option.ite_none_right_eq_some, Option.some.injEq] at h
  exact ⟨h.2, h.1.2⟩

theorem readRows_eq : ∀ {rows : List Coupon},
    (∀ c ∈ rows, 0 ≤ c.appWeight ∧ c.appWeight < 2 ^ 31) →
      readRows rows = rows.filter fun c => 0 < c.appWeight
  | [], _ => rfl
  | row :: rows, h => by
    obtain ⟨h0, hmax⟩ := h row List.mem_cons_self
    have hvalue : integerValueOf row.appWeight = some row.appWeight := if_pos ⟨by omega, hmax⟩
    have hrest := readRows_eq fun c hc => h c (List.mem_cons_of_mem _ hc)
    rw [readRows, hvalue, List.filter_cons]
    dsimp only
    by_cases hzero : row.appWeight = 0
    · rw [if_neg (by omega), if_neg (by simp [hzero]), hrest]
    · rw [if_pos hzero, if_pos (by simp; omega), hrest]

/-- What the page lists has a balance that fits a Java `int`. -/
theorem readable_of_listed {c : Coupon} :
    ∀ {rows : List Coupon}, c ∈ readRows rows → c.appWeight < 2 ^ 31
  | [], h => absurd h List.not_mem_nil
  | row :: rows, h => by
    rw [readRows] at h
    cases hvalue : integerValueOf row.appWeight with
    | none => simp [hvalue] at h
    | some count =>
      obtain ⟨rfl, hmax⟩ := integerValueOf_eq hvalue
      simp only [hvalue] at h
      split_ifs at h with hcount
      · rcases List.mem_cons.mp h with rfl | h
        · exact hmax
        · exact readable_of_listed h
      · exact readable_of_listed h

/-! ## One `UPDATE` -/

section

variable {selects : String → Tables → ℕ → Bool} {sql : String} {t : Tables}

/-- A row after the `UPDATE` is a row before it, with the unit taken off or not. -/
theorem mem_execute {r' : Rel} :
    r' ∈ (executeTables selects sql t).2.rels ↔ ∃ k, ∃ hk : k < t.rels.length,
      r' = if selects sql t k then { t.rels[k] with appWeight := t.rels[k].appWeight - 1 }
        else t.rels[k] := by
  simp only [executeTables, List.mem_mapIdx, eq_comm]

theorem nonneg_execute_iff (h : ∀ r ∈ t.rels, 0 ≤ r.appWeight) :
    (∀ r ∈ (executeTables selects sql t).2.rels, 0 ≤ r.appWeight) ↔
      ∀ k (hk : k < t.rels.length), selects sql t k = true → 1 ≤ t.rels[k].appWeight := by
  constructor
  · intro h' k hk hsel
    have := h' _ (mem_execute.mpr ⟨k, hk, rfl⟩)
    rw [if_pos hsel] at this
    dsimp only at this
    omega
  · intro hstock r hr
    obtain ⟨k, hk, rfl⟩ := mem_execute.mp hr
    have h0 := h _ (List.getElem_mem hk)
    split_ifs with hsel
    · have := hstock k hk hsel
      dsimp only
      omega
    · exact h0

/-- The `UPDATE` keeps the columns that the join reads, and raises no balance. -/
theorem published_execute {eq : String → String → Bool} {u : String} {c : Coupon}
    (hc : c ∈ published eq u (executeTables selects sql t).2) :
    ∃ c' ∈ published eq u t, c.appWeight ≤ c'.appWeight := by
  obtain ⟨a, ha, r, hr, hjoin, rfl⟩ := mem_published.mp hc
  obtain ⟨k, hk, rfl⟩ := mem_execute.mp hr
  refine ⟨⟨a.id, a.name, a.posterUrl, t.rels[k].appWeight⟩,
    mem_published.mpr ⟨a, ha, t.rels[k], List.getElem_mem hk, ?_, rfl⟩, ?_⟩
  · split_ifs at hjoin <;> exact hjoin
  · split_ifs
    · dsimp only
      omega
    · exact le_rfl

end

/-! ## Runs -/

section

variable {ι : Type*} [DecidableEq ι]
variable (selects : String → Tables → ℕ → Bool) (select : String → Tables → List Coupon)
variable (eq : String → String → Bool) (req : ι → Request)

/-- No balance is negative, and the page lists for each user the published coupons of the
user that have a positive balance. -/
structure Shop.Balanced (s : Shop ι Tables) : Prop where
  nonneg : ∀ r ∈ s.db.rels, 0 ≤ r.appWeight
  listed : ∀ u, Plain (operand u) →
    (couponList (some (select (couponListSql u) s.db))).Perm
      ((published eq (operand u) s.db).filter fun c => 0 < c.appWeight)

/-- Every balance that the page reads fits a Java `int`. -/
def Readable (t : Tables) : Prop :=
  ∀ u, Plain (operand u) → ∀ c ∈ published eq (operand u) t, c.appWeight < 2 ^ 31

/-- An `UPDATE` that is executed selects only rows with a unit left. -/
def Shop.Stocked (s : Shop ι Tables) : ShopEvent ι → Prop
  | .update i fault => JdbcFault.executed fault = true → ∀ k (hk : k < s.db.rels.length),
      selects (setCouponSql (req i).couponId (req i).userId) s.db k = true →
        1 ≤ s.db.rels[k].appWeight
  | _ => True

variable {selects select eq req} {s s' : Shop ι Tables} {e : ShopEvent ι}

/-- A step executes one `UPDATE` on the tables, or leaves them alone. -/
theorem Shop.step_db (h : s.step (executeTables selects) req e = some s') :
    (∃ i fault, e = .update i fault ∧ JdbcFault.executed fault = true ∧
      s'.db =
        (executeTables selects (setCouponSql (req i).couponId (req i).userId) s.db).2) ∨
    (∀ i fault, e = .update i fault → JdbcFault.executed fault = false) ∧ s'.db = s.db := by
  rcases step_cases h with ⟨i, rfl, -, rfl⟩ | ⟨i, m, rfl, -, -, rfl⟩ |
    ⟨i, fault, r, rfl, -, rfl⟩ | ⟨m, rfl, rfl⟩
  · exact .inr ⟨fun _ _ h => (by cases h), rfl⟩
  · exact .inr ⟨fun _ _ h => (by cases h), rfl⟩
  · have hdb := setCoupon_fst (executeTables selects) (req i).couponId (req i).userId fault s.db
    cases hx : JdbcFault.executed fault with
    | true => exact .inl ⟨i, fault, rfl, hx, by rw [hx] at hdb; exact hdb⟩
    | false =>
      refine .inr ⟨fun j fault' h => ?_, by rw [hx] at hdb; exact hdb⟩
      obtain ⟨-, rfl⟩ := ShopEvent.update.inj h
      exact hx
  · exact .inr ⟨fun _ _ h => (by cases h), rfl⟩

theorem Readable.step (h : Readable eq s.db)
    (hstep : s.step (executeTables selects) req e = some s') : Readable eq s'.db := by
  rcases Shop.step_db hstep with ⟨i, fault, -, -, hdb⟩ | ⟨-, hdb⟩
  · intro u hu c hc
    rw [hdb] at hc
    obtain ⟨c', hc', hle⟩ := published_execute hc
    exact hle.trans_lt (h u hu c' hc')
  · rw [hdb]
    exact h

/-- A step leaves no negative balance exactly if it met the condition. -/
theorem Shop.nonneg_step_iff (h : ∀ r ∈ s.db.rels, 0 ≤ r.appWeight)
    (hstep : s.step (executeTables selects) req e = some s') :
    (∀ r ∈ s'.db.rels, 0 ≤ r.appWeight) ↔ s.Stocked selects req e := by
  rcases Shop.step_db hstep with ⟨i, fault, rfl, hx, hdb⟩ | ⟨hnot, hdb⟩
  · rw [hdb, nonneg_execute_iff h]
    exact ⟨fun hstock _ => hstock, fun hstock => hstock hx⟩
  · rw [hdb]
    refine iff_of_true h ?_
    cases e with
    | update i fault => exact fun hx => absurd hx (by rw [hnot i fault rfl]; decide)
    | get i | set i | check m => trivial

/-- With readable balances, none of them negative, the page lists what it should. -/
theorem Shop.Balanced.of_nonneg
    (hselect : ∀ u t, Plain (operand u) →
      (select (couponListSql u) t).Perm (published eq (operand u) t))
    (h : ∀ r ∈ s.db.rels, 0 ≤ r.appWeight) (hread : Readable eq s.db) :
    s.Balanced select eq := by
  refine ⟨h, fun u hu => ?_⟩
  have hperm := hselect u s.db hu
  have hrows : ∀ c ∈ select (couponListSql u) s.db, 0 ≤ c.appWeight ∧ c.appWeight < 2 ^ 31 := by
    intro c hc
    have hmem := hperm.mem_iff.mp hc
    refine ⟨?_, hread u hu c hmem⟩
    obtain ⟨a, -, r, hr, -, rfl⟩ := mem_published.mp hmem
    exact h r hr
  rw [couponList, readRows_eq hrows]
  exact hperm.filter _

/-- A balance that the page cannot read is missing from its list. -/
theorem Shop.Balanced.readable (h : s.Balanced select eq) : Readable eq s.db := by
  intro u hu c hc
  by_contra hmax
  have hlisted : c ∈ (published eq (operand u) s.db).filter fun c => 0 < c.appWeight :=
    List.mem_filter.mpr ⟨hc, by simp; omega⟩
  exact hmax (readable_of_listed ((h.listed u hu).mem_iff.mpr hlisted))

/-- From balances that are not negative, no balance becomes negative and every list of the
page is right, in every state of a run of redemptions, if and only if the balances that the
page reads fit a Java `int` at the start, and every `UPDATE` that is executed selects only
rows with a unit left. The lists are those for user ids without a quote or backslash. -/
theorem Shop.balanced_iff_stocked
    (hselect : ∀ u t, Plain (operand u) →
      (select (couponListSql u) t).Perm (published eq (operand u) t))
    (h0 : ∀ r ∈ s.db.rels, 0 ≤ r.appWeight) (es : List (ShopEvent ι)) :
    Always (Shop.step (executeTables selects) req) (Shop.Balanced select eq) s es ↔
      Readable eq s.db ∧
        Each (Shop.step (executeTables selects) req) (Shop.Stocked selects req) s es := by
  have hiff : Readable eq s.db →
      (Always (Shop.step (executeTables selects) req) (Shop.Balanced select eq) s es ↔
        Each (Shop.step (executeTables selects) req) (Shop.Stocked selects req) s es) :=
    fun hread => always_iff_each
      (I := fun s => (∀ r ∈ s.db.rels, 0 ≤ r.appWeight) ∧ Readable eq s.db)
      (fun _ _ _ h hok hstep => ⟨(nonneg_step_iff h.1 hstep).mpr hok, h.2.step hstep⟩)
      (fun _ h => .of_nonneg hselect h.1 h.2)
      (fun _ _ _ h hstep h' => (nonneg_step_iff h.1 hstep).mp h'.nonneg) ⟨h0, hread⟩
  constructor
  · intro h
    have hread := h.head.readable
    exact ⟨hread, (hiff hread).mp h⟩
  · rintro ⟨hread, h⟩
    exact (hiff hread).mpr h

end

/-! ### The last unit -/

/-- The rows that the `UPDATE` of `setCoupon` selects for plain ids. -/
def selectsIds (sql : String) (t : Tables) (k : ℕ) : Bool :=
  match t.rels[k]? with
  | some r => sql == setCouponSql (some r.appId) (some r.channelId)
  | none => false

/-- The answer to the query of the page for plain ids. -/
def selectIds (sql : String) (t : Tables) : List Coupon :=
  t.apps.flatMap fun a =>
    (t.rels.filter fun r =>
      a.pubStatus == "P" && a.id == r.appId && sql == couponListSql (some r.channelId)).map
        fun r => ⟨a.id, a.name, a.posterUrl, r.appWeight⟩

theorem couponListSql_inj {u v : Option String} :
    couponListSql u = couponListSql v ↔ operand u = operand v := by
  rw [couponListSql, couponListSql, String.append_left_inj, String.append_right_inj]

theorem selectIds_perm (u : Option String) (t : Tables) :
    (selectIds (couponListSql u) t).Perm (published (· == ·) (operand u) t) := by
  have hid (r : Rel) :
      (couponListSql u == couponListSql (some r.channelId)) = (r.channelId == operand u) := by
    rw [Bool.eq_iff_iff, beq_iff_eq, beq_iff_eq, couponListSql_inj, eq_comm]
    rfl
  simp only [selectIds, published, hid]
  exact .refl _

/-- One published coupon, app `31` of channel `2`. -/
def oneRow (units : ℤ) : Tables :=
  ⟨[⟨"31", some "tea", none, "P"⟩], [⟨"31", "2", units⟩]⟩

theorem execute_oneRow (units : ℤ) :
    executeTables selectsIds (setCouponSql (some "31") (some "2")) (oneRow units) =
      (1, oneRow (units - 1)) := by
  simp [executeTables, selectsIds, oneRow]

theorem setCoupon_oneRow (units : ℤ) :
    (setCoupon (executeTables selectsIds) (some "31") (some "2") none (oneRow units)).1 =
      oneRow (units - 1) := by
  rw [setCoupon_fst, if_pos (by rfl), execute_oneRow]

/-- Two machines, both asked for the coupon that the list showed. -/
def twoMachines : Fin 2 → Request
  | 0 => ⟨some "7", some "2", some "31"⟩
  | 1 => ⟨some "8", some "2", some "31"⟩

def openStore : Shop (Fin 2) Tables :=
  ⟨fun _ => none, oneRow 1, fun _ => .arrived, [], []⟩

/-- The second redemption takes the balance to `-1`, and the page goes on listing it. -/
theorem balance_overdrawn :
    ∃ t, run (Shop.step (executeTables selectsIds) twoMachines) openStore
        [.get 0, .set 0, .update 0 none, .get 1, .set 1, .update 1 none] = some t ∧
      t.db = oneRow (-1) ∧
      couponList (some (selectIds (couponListSql (some "2")) t.db)) =
        [⟨"31", some "tea", none, -1⟩] ∧
      ¬t.Balanced selectIds (· == ·) := by
  have hcharge : (setCoupon (executeTables selectsIds) (some "31") (some "2") none
      (setCoupon (executeTables selectsIds) (some "31") (some "2") none (oneRow 1)).1).1 =
        oneRow (-1) := by
    rw [setCoupon_oneRow, setCoupon_oneRow]
    rfl
  obtain ⟨t, ht, hdb⟩ : ∃ t, run (Shop.step (executeTables selectsIds) twoMachines) openStore
      [.get 0, .set 0, .update 0 none, .get 1, .set 1, .update 1 none] = some t ∧
        t.db = oneRow (-1) := ⟨_, rfl, hcharge⟩
  refine ⟨t, ht, hdb, ?_, fun h => ?_⟩
  · rw [hdb]
    simp [couponList, selectIds, oneRow, readRows, integerValueOf]
  · have hneg := h.nonneg ⟨"31", "2", -1⟩ (by rw [hdb]; exact List.mem_singleton_self _)
    exact absurd hneg (by decide)

/-- The first redemption alone. -/
theorem balance_kept :
    Always (Shop.step (executeTables selectsIds) twoMachines)
      (Shop.Balanced selectIds (· == ·)) openStore [.get 0, .set 0, .update 0 none] :=
  (Shop.balanced_iff_stocked (fun u t _ => selectIds_perm u t) (by decide) _).mpr
    ⟨fun u hu c hc => by
      obtain ⟨a, -, r, hr, -, rfl⟩ := mem_published.mp hc
      obtain rfl := List.mem_singleton.mp hr
      exact (by decide : (1 : ℤ) < 2 ^ 31),
    .cons rfl trivial (.cons rfl trivial (.cons rfl
      (fun _ k hk _ => by
        obtain rfl : k = 0 := Nat.lt_one_iff.mp hk
        exact le_rfl) trivial))⟩

end MySocket
