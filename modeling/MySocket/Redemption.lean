import Mathlib.Logic.Function.Basic
import Mathlib.Data.List.Nodup
import MySocket.Trace

/-!
# Coupon redemption

`CouponRedisSet` redeems a coupon at a vending machine : it looks the machine id up in
Redis (`GET`), answers `-2` if the id is marked there, and otherwise marks it (`SET`)
and runs one `UPDATE` that takes a unit off the coupon. `CouponRedis` reads the mark.
A request is three atomic steps on two stores, and any number of requests run at once.

* `atMostOnce_of_apart` : if no `GET` of an unmarked id falls between another request's
  `GET` and `SET`, at most one request is answered `OK` and at most one `UPDATE` runs.
  `apart_of_atMostOnce` : in a run that answers every request nothing less will do.
* `GrantsCharged.step`, `GrantsCharged.covered` : a step keeps every grant backed by an
  `UPDATE` that matched a row exactly if its own `UPDATE` matches one, and its check does
  not read a mark whose redemption is still short of its `UPDATE`.

The database is any type with an `execute` function from statements to the number of
rows matched and the new contents; the results here use nothing else about it.
-/

set_option linter.unusedSectionVars false

namespace MySocket

/-! ## Redis -/

/-- The keys of the Redis server and their values. -/
abbrev Redis := String → Option String

/-- `jedis.get` : the last value set, `none` for a missing key. -/
def Redis.get (r : Redis) (key : String) : Option String :=
  r key

/-- `jedis.set` : the store with the value, and the reply. -/
def Redis.set (r : Redis) (key value : String) : Redis × String :=
  (Function.update r key (some value), "OK")

theorem Redis.get_set (r : Redis) (key value k : String) :
    (r.set key value).1.get k = if k = key then some value else r.get k := by
  simp [Redis.get, Redis.set, Function.update_apply]

/-! ## The database part -/

/-- The request parameters; `none` is a parameter that was not sent. -/
structure Request where
  machineProductId : Option String
  userId : Option String
  couponId : Option String

/-- A `String` operand of Java's `+`, which writes `null` for a null reference. -/
def operand : Option String → String
  | some s => s
  | none => "null"

/-- The statement that `setCoupon` builds. -/
def setCouponSql (couponId userId : Option String) : String :=
  "update ott_channel_app_rel set app_weight = (app_weight - 1) where app_id='" ++
    operand couponId ++ "' and channel_id ='" ++ operand userId ++ "'"

/-- The ways the JDBC calls of `DBEngine.executeUpdate` can fail. -/
inductive JdbcFault
  /-- `getConnection` throws. -/
  | noConnection
  /-- `getConnection` returns null, and `conn.createStatement()` throws. -/
  | nullConnection
  /-- `createStatement` or the statement itself throws. -/
  | statement
  /-- The statement ran, and closing it or the connection throws. -/
  | close
  deriving DecidableEq

/-- Whether the database executed the statement although the call failed this way. -/
def JdbcFault.executed : Option JdbcFault → Bool
  | none | some .close => true
  | some .noConnection | some .nullConnection | some .statement => false

/-- `DBEngine.executeUpdate` : the database afterwards, and the row count or exception. -/
def executeUpdate {D : Type*} (execute : String → D → ℕ × D) (sql : String)
    (fault : Option JdbcFault) (db : D) : D × Except JdbcFault ℕ :=
  match fault with
  | none => ((execute sql db).2, .ok (execute sql db).1)
  | some f => (if JdbcFault.executed (some f) then (execute sql db).2 else db, .error f)

/-- `CouponRedisSet.setCoupon` : it catches every exception and returns `-1` instead. -/
def setCoupon {D : Type*} (execute : String → D → ℕ × D) (couponId userId : Option String)
    (fault : Option JdbcFault) (db : D) : D × ℤ :=
  match executeUpdate execute (setCouponSql couponId userId) fault db with
  | (db', .ok result) => (db', result)
  | (db', .error _) => (db', -1)

theorem setCoupon_fst {D : Type*} (execute : String → D → ℕ × D)
    (couponId userId : Option String) (fault : Option JdbcFault) (db : D) :
    (setCoupon execute couponId userId fault db).1 =
      if JdbcFault.executed fault then (execute (setCouponSql couponId userId) db).2 else db := by
  rcases fault with _ | f
  · simp [setCoupon, executeUpdate, JdbcFault.executed]
  · simp [setCoupon, executeUpdate]

/-! ## The servlets -/

/-- Where a request stands in `CouponRedisSet.doGet`. -/
inductive Phase
  /-- Before the `GET`. -/
  | arrived
  /-- The `GET` did not answer `1`; before the `SET`. -/
  | checked
  /-- The `SET` replied `result`; before `setCoupon`. -/
  | marked (result : String)
  /-- `result` was written to the response. -/
  | answered (result : String)
  deriving DecidableEq

/-- `CouponRedisSet.doGet` up to the reply of `jedis.get`. -/
def afterGet (r : Redis) : Option String → Phase
  | none => .answered "0"
  | some m => if r.get m = some "1" then .answered "-2" else .checked

/-- `CouponRedis.doGet` : the stored value, `0` for a missing id or key. -/
def couponRedis (r : Redis) : Option String → String
  | none => "0"
  | some m => (r.get m).getD "0"

theorem couponRedis_eq_one {r : Redis} {m : String} :
    couponRedis r (some m) = "1" ↔ r.get m = some "1" := by
  cases h : r.get m <;> simp [couponRedis, h]

/-- The shared stores, where each request stands, and what has happened so far. -/
structure Shop (ι D : Type*) where
  redis : Redis
  db : D
  phase : ι → Phase
  /-- The `UPDATE`s executed so far : the request and the number of rows matched. -/
  updates : List (ι × ℕ)
  /-- The answers of `CouponRedis` so far : the machine id and the answer. -/
  checks : List (String × String)

/-- One atomic step of a request on one of the stores. -/
inductive ShopEvent (ι : Type*)
  | get (i : ι)
  | set (i : ι)
  | update (i : ι) (fault : Option JdbcFault)
  | check (m : String)

section

variable {ι D : Type*} [DecidableEq ι]
variable (execute : String → D → ℕ × D) (req : ι → Request)

namespace Shop

/-- The shop with request `i` at `p`. -/
def setPhase (s : Shop ι D) (i : ι) (p : Phase) : Shop ι D :=
  { s with phase := Function.update s.phase i p }

@[simp] theorem setPhase_updates (s : Shop ι D) (i : ι) (p : Phase) :
    (s.setPhase i p).updates = s.updates :=
  rfl

theorem setPhase_phase (s : Shop ι D) (i j : ι) (p : Phase) :
    (s.setPhase i p).phase j = if j = i then p else s.phase j := by
  simp [setPhase, Function.update_apply]

/-- The `UPDATE` of request `i`, and the rows it matched if it was executed. -/
def charge (s : Shop ι D) (i : ι) (fault : Option JdbcFault) : Shop ι D :=
  { s with
    db := (setCoupon execute (req i).couponId (req i).userId fault s.db).1
    updates :=
      if JdbcFault.executed fault then
        (i, (execute (setCouponSql (req i).couponId (req i).userId) s.db).1) :: s.updates
      else s.updates }

@[simp] theorem charge_phase (s : Shop ι D) (i : ι) (fault : Option JdbcFault) :
    (s.charge execute req i fault).phase = s.phase :=
  rfl

/-- The rows that the `UPDATE` of request `i` matches in `s`. -/
def matched (s : Shop ι D) (i : ι) : ℕ :=
  (execute (setCouponSql (req i).couponId (req i).userId) s.db).1

/-- One step of the servlets. -/
def step (s : Shop ι D) : ShopEvent ι → Option (Shop ι D)
  | .get i =>
    match s.phase i with
    | .arrived => some (s.setPhase i (afterGet s.redis (req i).machineProductId))
    | _ => none
  | .set i =>
    match s.phase i, (req i).machineProductId with
    | .checked, some m =>
      some { s.setPhase i (.marked (s.redis.set m "1").2) with redis := (s.redis.set m "1").1 }
    | _, _ => none
  | .update i fault =>
    match s.phase i with
    -- the answer is the reply of the SET, whatever setCoupon returned
    | .marked result => some ((s.charge execute req i fault).setPhase i (.answered result))
    | _ => none
  | .check m => some { s with checks := (m, couponRedis s.redis (some m)) :: s.checks }

variable {execute req}

/-- What one step can do. -/
theorem step_cases {s s' : Shop ι D} {e : ShopEvent ι} (h : s.step execute req e = some s') :
    (∃ i, e = .get i ∧ s.phase i = .arrived ∧
      s' = s.setPhase i (afterGet s.redis (req i).machineProductId)) ∨
    (∃ i m, e = .set i ∧ s.phase i = .checked ∧ (req i).machineProductId = some m ∧
      s' = { s.setPhase i (.marked "OK") with redis := (s.redis.set m "1").1 }) ∨
    (∃ i fault result, e = .update i fault ∧ s.phase i = .marked result ∧
      s' = (s.charge execute req i fault).setPhase i (.answered result)) ∨
    (∃ m, e = .check m ∧
      s' = { s with checks := (m, couponRedis s.redis (some m)) :: s.checks }) := by
  cases e with
  | get i =>
    cases hp : s.phase i <;> simp [step, hp] at h
    exact .inl ⟨i, rfl, hp, h.symm⟩
  | set i =>
    cases hp : s.phase i <;> cases hm : (req i).machineProductId <;> simp [step, hp, hm] at h
    exact .inr (.inl ⟨i, _, rfl, hp, hm, h.symm⟩)
  | update i fault =>
    cases hp : s.phase i <;> simp [step, hp] at h
    exact .inr (.inr (.inl ⟨i, fault, _, rfl, hp, h.symm⟩))
  | check m => exact .inr (.inr (.inr ⟨m, rfl, by simpa [step] using h.symm⟩))

/-- No request has run yet; the stores hold anything. -/
structure Fresh (s : Shop ι D) : Prop where
  arrived : ∀ i, s.phase i = .arrived
  updates : s.updates = []
  checks : s.checks = []

/-! ## The books

What every run keeps, whatever the order of the steps. -/

/-- The `SET` replied `OK`, and each executed `UPDATE` belongs to one request answered `OK`. -/
structure Booked (s : Shop ι D) : Prop where
  reply : ∀ i r, s.phase i = .marked r → r = "OK"
  answered : ∀ u ∈ s.updates, s.phase u.1 = .answered "OK"
  nodup : (s.updates.map Prod.fst).Nodup

theorem Fresh.booked {s : Shop ι D} (h : s.Fresh) : s.Booked where
  reply i r hi := by simp [h.arrived i] at hi
  answered u hu := by simp [h.updates] at hu
  nodup := by simp [h.updates]

/-- A request that has not been answered has no `UPDATE` in the books. -/
theorem Booked.notMem {s : Shop ι D} (h : s.Booked) {i : ι} (hi : s.phase i ≠ .answered "OK") :
    i ∉ s.updates.map Prod.fst := by
  intro hmem
  obtain ⟨u, hu, rfl⟩ := List.mem_map.mp hmem
  exact hi (h.answered u hu)

/-- Moving a request that is not answered yet leaves the others' `UPDATE`s booked. -/
theorem Booked.setPhase {s : Shop ι D} (h : s.Booked) {i : ι} {p : Phase}
    (hi : s.phase i ≠ .answered "OK") (hp : ∀ r, p = .marked r → r = "OK") :
    (s.setPhase i p).Booked where
  reply j r hj := by
    rw [setPhase_phase] at hj
    split_ifs at hj with hji
    · exact hp r hj
    · exact h.reply j r hj
  answered u hu := by
    have hne : u.1 ≠ i := fun hui => h.notMem hi (List.mem_map.mpr ⟨u, hu, hui⟩)
    rw [setPhase_phase, if_neg hne]
    exact h.answered u hu
  nodup := h.nodup

theorem afterGet_ne_marked (r : Redis) (m : Option String) (x : String) :
    afterGet r m ≠ .marked x := by
  cases m with
  | none => simp [afterGet]
  | some m => by_cases h : r.get m = some "1" <;> simp [afterGet, h]

theorem afterGet_ne_ok (r : Redis) (m : Option String) : afterGet r m ≠ .answered "OK" := by
  cases m with
  | none => simp [afterGet]
  | some m => by_cases h : r.get m = some "1" <;> simp [afterGet, h]

theorem Booked.step {s s' : Shop ι D} {e : ShopEvent ι} (h : s.Booked)
    (hstep : s.step execute req e = some s') : s'.Booked := by
  rcases step_cases hstep with ⟨i, rfl, hi, rfl⟩ | ⟨i, m, rfl, hi, -, rfl⟩ |
    ⟨i, fault, r, rfl, hi, rfl⟩ | ⟨m, rfl, rfl⟩
  · exact h.setPhase (by simp [hi]) fun r hr => absurd hr (afterGet_ne_marked _ _ r)
  · obtain ⟨hr, ha, hn⟩ := h.setPhase (i := i) (p := .marked "OK") (by simp [hi])
      fun r hr => (Phase.marked.inj hr).symm
    exact ⟨hr, ha, hn⟩
  · obtain rfl := h.reply i r hi
    have hne : s.phase i ≠ .answered "OK" := by simp [hi]
    obtain ⟨hr, ha, hn⟩ := h.setPhase (p := .answered "OK") hne fun r hr => by simp at hr
    refine ⟨hr, fun u hu => ?_, ?_⟩
    · simp only [setPhase_updates, charge] at hu
      split_ifs at hu with hx
      · rcases List.mem_cons.mp hu with rfl | hu
        · simp [setPhase_phase]
        · exact ha u hu
      · exact ha u hu
    · simp only [setPhase_updates, charge]
      split_ifs with hx
      · exact List.nodup_cons.mpr ⟨h.notMem hne, h.nodup⟩
      · exact h.nodup
  · exact ⟨h.reply, h.answered, h.nodup⟩

/-! ## At most once -/

/-- At most one request has been answered `OK`, and at most one `UPDATE` was executed. -/
structure AtMostOnce (s : Shop ι D) : Prop where
  granted : ∀ i j, s.phase i = .answered "OK" → s.phase j = .answered "OK" → i = j
  charged : s.updates.length ≤ 1

/-- A `GET` of the unmarked id `m` finds no request between its own `GET` and `SET`. -/
def Apart (m : String) (s : Shop ι D) : ShopEvent ι → Prop
  | .get _ => s.redis.get m ≠ some "1" → ∀ j, s.phase j ≠ .checked
  | _ => True

/-- The request is past the guard : it will be answered `OK`, or it was. -/
def Passed (s : Shop ι D) (i : ι) : Prop :=
  s.phase i = .checked ∨ (∃ r, s.phase i = .marked r) ∨ s.phase i = .answered "OK"

/-- One request at most is past the guard, and the id is marked once it has done its `SET`. -/
structure Exclusive (m : String) (s : Shop ι D) : Prop extends s.Booked where
  unique : ∀ i j, s.Passed i → s.Passed j → i = j
  marked : ∀ i, s.Passed i → s.phase i ≠ .checked → s.redis.get m = some "1"

theorem Exclusive.atMostOnce {m : String} {s : Shop ι D} (h : s.Exclusive m) :
    s.AtMostOnce where
  granted i j hi hj := h.unique i j (.inr (.inr hi)) (.inr (.inr hj))
  charged := by
    have hall : ∀ a ∈ s.updates.map Prod.fst, ∀ b ∈ s.updates.map Prod.fst, a = b := by
      simp only [List.forall_mem_map]
      exact fun u hu v hv =>
        h.unique _ _ (.inr (.inr (h.answered u hu))) (.inr (.inr (h.answered v hv)))
    rw [← List.length_map (f := Prod.fst)]
    match hl : s.updates.map Prod.fst, h.nodup, hall with
    | [], _, _ => simp
    | [_], _, _ => simp
    | a :: b :: l, hn, hall =>
      obtain rfl := hall a (by simp) b (by simp)
      simp at hn

theorem passed_setPhase_of_ne {s : Shop ι D} {i j : ι} {p : Phase} (h : j ≠ i) :
    (s.setPhase i p).Passed j ↔ s.Passed j := by
  simp [Passed, setPhase_phase, h]

theorem passed_setPhase_self {s : Shop ι D} {i : ι} {p : Phase} :
    (s.setPhase i p).Passed i ↔ p = .checked ∨ (∃ r, p = .marked r) ∨ p = .answered "OK" := by
  simp [Passed, setPhase_phase]

/-- A request past the guard stays past it. -/
theorem Passed.step {s s' : Shop ι D} {e : ShopEvent ι} {j : ι} (hb : s.Booked)
    (h : s.Passed j) (hstep : s.step execute req e = some s') : s'.Passed j := by
  rcases step_cases hstep with ⟨i, rfl, hi, rfl⟩ | ⟨i, m, rfl, hi, -, rfl⟩ |
    ⟨i, fault, r, rfl, hi, rfl⟩ | ⟨m, rfl, rfl⟩
  · have hne : j ≠ i := by
      rintro rfl
      simp [Passed, hi] at h
    exact (passed_setPhase_of_ne hne).mpr h
  · by_cases hji : j = i
    · exact hji ▸ passed_setPhase_self.mpr (.inr (.inl ⟨"OK", rfl⟩))
    · exact (passed_setPhase_of_ne hji).mpr h
  · by_cases hji : j = i
    · obtain rfl := hb.reply i r hi
      exact hji ▸ passed_setPhase_self.mpr (.inr (.inr rfl))
    · exact (passed_setPhase_of_ne hji).mpr h
  · exact h

/-- Only a `GET` of an unmarked id takes a request past the guard. -/
theorem passed_of_step {s s' : Shop ι D} {e : ShopEvent ι} {j : ι}
    (hstep : s.step execute req e = some s') (h : s'.Passed j) :
    s.Passed j ∨ e = .get j ∧ ∀ m, (req j).machineProductId = some m → s.redis.get m ≠ some "1" := by
  rcases step_cases hstep with ⟨i, rfl, hi, rfl⟩ | ⟨i, m, rfl, hi, -, rfl⟩ |
    ⟨i, fault, r, rfl, hi, rfl⟩ | ⟨m, rfl, rfl⟩
  · by_cases hji : j = i
    · subst hji
      refine .inr ⟨rfl, fun m hm hmark => ?_⟩
      simp [passed_setPhase_self, afterGet, hm, hmark] at h
    · exact .inl ((passed_setPhase_of_ne hji).mp h)
  · by_cases hji : j = i
    · exact .inl (hji ▸ .inl hi)
    · exact .inl ((passed_setPhase_of_ne hji).mp h)
  · by_cases hji : j = i
    · exact .inl (hji ▸ .inr (.inl ⟨r, hi⟩))
    · exact .inl ((passed_setPhase_of_ne hji).mp h)
  · exact .inl h

theorem Exclusive.step {m : String} (hreq : ∀ i, (req i).machineProductId = some m)
    {s s' : Shop ι D} {e : ShopEvent ι} (h : s.Exclusive m) (hok : s.Apart m e)
    (hstep : s.step execute req e = some s') : s'.Exclusive m := by
  have hbooked := h.toBooked.step hstep
  refine ⟨hbooked, fun i j hi hj => ?_, ?_⟩
  · -- two requests past the guard were both there before, or one has just done its GET
    have hnew : ∀ k, e = .get k → s.redis.get m ≠ some "1" → ∀ l, ¬s.Passed l := by
      rintro k rfl hm l hl
      exact hm (h.marked l hl (hok hm l))
    rcases passed_of_step hstep hi with hi' | ⟨hei, hmi⟩ <;>
      rcases passed_of_step hstep hj with hj' | ⟨hej, hmj⟩
    · exact h.unique i j hi' hj'
    · exact (hnew j hej (hmj m (hreq j)) i hi').elim
    · exact (hnew i hei (hmi m (hreq i)) j hj').elim
    · exact ShopEvent.get.inj (hei.symm.trans hej)
  · rcases step_cases hstep with ⟨i, rfl, hi, rfl⟩ | ⟨i, m', rfl, hi, hm', rfl⟩ |
      ⟨i, fault, r, rfl, hi, rfl⟩ | ⟨m', rfl, rfl⟩
    · intro k hk hne
      by_cases hki : k = i
      · subst hki
        by_cases hm : s.redis.get m = some "1" <;>
          simp [Passed, setPhase_phase, afterGet, hreq, hm] at hk hne
      · exact h.marked k ((passed_setPhase_of_ne hki).mp hk)
          (by simpa [setPhase_phase, hki] using hne)
    · obtain rfl : m = m' := Option.some.inj ((hreq i).symm.trans hm')
      intro k hk hne
      simp [Redis.get_set]
    · intro k hk hne
      by_cases hki : k = i
      · exact h.marked i (.inr (.inl ⟨r, hi⟩)) (by simp [hi])
      · exact h.marked k ((passed_setPhase_of_ne hki).mp hk)
          (by simpa [setPhase_phase, hki] using hne)
    · exact h.marked

theorem Fresh.exclusive {m : String} {s : Shop ι D} (h : s.Fresh) : s.Exclusive m where
  toBooked := h.booked
  unique i j hi := by simp [Passed, h.arrived i] at hi
  marked i hi := by simp [Passed, h.arrived i] at hi

/-- Runs of requests for one machine id, each `GET` apart from the others' check and mark,
grant and charge at most once. -/
theorem atMostOnce_of_apart {m : String} (hreq : ∀ i, (req i).machineProductId = some m)
    {s : Shop ι D} {es : List (ShopEvent ι)} (hs : s.Fresh)
    (hes : Each (step execute req) (Apart m) s es) :
    Always (step execute req) AtMostOnce s es :=
  (hes.always (fun _ _ _ h hok hstep => h.step hreq hok hstep) hs.exclusive).mono
    fun _ h => h.atMostOnce

/-- Every request has been answered. -/
def Complete (s : Shop ι D) : Prop :=
  ∀ i, ∃ r, s.phase i = .answered r

theorem Passed.granted {s : Shop ι D} {i : ι} (h : s.Passed i) (hs : s.Complete) :
    s.phase i = .answered "OK" := by
  obtain ⟨r, hr⟩ := hs i
  rcases h with h | ⟨x, h⟩ | h
  · simp [hr] at h
  · simp [hr] at h
  · exact h

/-- In a run that answers every request the condition is exact : a `GET` between another
request's `GET` and `SET` makes both of them answer `OK`. -/
theorem apart_of_atMostOnce {m : String} (hreq : ∀ i, (req i).machineProductId = some m)
    {t : Shop ι D} (ht : t.Complete) (honce : t.AtMostOnce) :
    ∀ {s : Shop ι D} {es : List (ShopEvent ι)}, s.Booked → run (step execute req) s es = some t →
      Each (step execute req) (Apart m) s es
  | _, [], _, _ => trivial
  | s, e :: es, hs, hrun => fun s' hstep => by
    have hrun' : run (step execute req) s' es = some t := by
      simpa [run_cons, hstep] using hrun
    refine ⟨?_, apart_of_atMostOnce hreq ht honce (hs.step hstep) hrun'⟩
    cases e with
    | set i | update i fault | check m => trivial
    | get i =>
      intro hm j hj
      have hkeep : ∀ k, s'.Passed k → t.phase k = .answered "OK" := fun k hk =>
        ((always_of_step (I := fun s : Shop ι D => s.Booked ∧ s.Passed k)
          (fun _ _ _ h hst => ⟨h.1.step hst, h.2.step h.1 hst⟩) ⟨hs.step hstep, hk⟩ es).last
          hrun').2.granted ht
      have hi : s'.Passed i := by
        rcases step_cases hstep with ⟨k, hk, -, rfl⟩ | ⟨k, _, hk, _⟩ | ⟨k, _, _, hk, _⟩ | ⟨_, hk, _⟩
        · obtain rfl := ShopEvent.get.inj hk
          simp [passed_setPhase_self, afterGet, hreq, hm]
        all_goals cases hk
      have hji := honce.granted j i (hkeep j (Passed.step hs (.inl hj) hstep)) (hkeep i hi)
      subst hji
      simp [step, hj] at hstep

/-- Redemptions of one machine id are granted and charged at most once in every state of a
run, if no request looks the unmarked id up between another's `GET` and `SET`. In a run
that answers every request the condition is also necessary. -/
theorem redeemed_once_iff_apart {m : String} (hreq : ∀ i, (req i).machineProductId = some m)
    {s : Shop ι D} (hs : s.Fresh) (es : List (ShopEvent ι)) :
    (Each (step execute req) (Apart m) s es → Always (step execute req) AtMostOnce s es) ∧
      ∀ t, run (step execute req) s es = some t → t.Complete → t.AtMostOnce →
        Each (step execute req) (Apart m) s es :=
  ⟨fun hes => atMostOnce_of_apart hreq hs hes,
    fun _ hrun ht honce => apart_of_atMostOnce hreq ht honce hs.booked hrun⟩

end Shop

end

/-! ### Two requests for one machine -/

/-- A database with one coupon row, of app `31` for channel `2`. -/
def oneCoupon (sql : String) (appWeight : ℤ) : ℕ × ℤ :=
  if sql = setCouponSql (some "31") (some "2") then (1, appWeight - 1) else (0, appWeight)

/-- Two requests for machine `7`, before either has run. -/
def twoRequests : Fin 2 → Request :=
  fun _ => ⟨some "7", some "2", some "31"⟩

/-- Nothing is marked, and the coupon has five units. -/
def openShop : Shop (Fin 2) ℤ :=
  ⟨fun _ => none, 5, fun _ => .arrived, [], []⟩

theorem openShop_fresh : openShop.Fresh :=
  ⟨fun _ => rfl, rfl, rfl⟩

/-- Two `GET`s before the first `SET` : both requests are granted, and two units go. -/
theorem redeemed_twice :
    ∃ t, run (Shop.step oneCoupon twoRequests) openShop
        [.get 0, .get 1, .set 0, .set 1, .update 0 none, .update 1 none] = some t ∧
      t.db = 3 ∧ ¬t.AtMostOnce :=
  ⟨_, rfl, by decide, fun h => absurd (h.granted 0 1 rfl rfl) (by decide)⟩

/-- One request after the other : the second is refused, and one unit goes. -/
theorem redeemed_once_in_turn :
    Always (Shop.step oneCoupon twoRequests) Shop.AtMostOnce openShop
      [.get 0, .set 0, .update 0 none, .get 1] :=
  (Shop.redeemed_once_iff_apart (m := "7") (fun _ => rfl) openShop_fresh _).1
    (.cons rfl (fun _ j => by simp [openShop])
      (.cons rfl trivial (.cons rfl trivial
        (.cons rfl (fun h => absurd rfl h) trivial))))

/-! ## Granted implies charged -/

section

variable {ι D : Type*} [DecidableEq ι]
variable {execute : String → D → ℕ × D} {req : ι → Request}

namespace Shop

/-- An `UPDATE` that matched a row was executed for request `i`. -/
def Charged (s : Shop ι D) (i : ι) : Prop :=
  ∃ n, 1 ≤ n ∧ (i, n) ∈ s.updates

/-- Every `OK` of `CouponRedisSet` and every `1` of `CouponRedis` is backed by a charge. -/
structure GrantsCharged (req : ι → Request) (s : Shop ι D) : Prop where
  granted : ∀ i, s.phase i = .answered "OK" → s.Charged i
  checked : ∀ m, (m, "1") ∈ s.checks → ∃ i, (req i).machineProductId = some m ∧ s.Charged i

/-- The `UPDATE` is executed and matches a row; a check that finds the id marked comes
after the answer to a redemption of it. -/
def Covered (execute : String → D → ℕ × D) (req : ι → Request) (s : Shop ι D) :
    ShopEvent ι → Prop
  | .update i fault => JdbcFault.executed fault = true ∧ 1 ≤ s.matched execute req i
  | .check m => s.redis.get m = some "1" →
      ∃ i, (req i).machineProductId = some m ∧ s.phase i = .answered "OK"
  | _ => True

theorem Charged.answered {s : Shop ι D} (hs : s.Booked) {i : ι} (h : s.Charged i) :
    s.phase i = .answered "OK" := by
  obtain ⟨n, -, hmem⟩ := h
  exact hs.answered _ hmem

theorem Charged.charge {s : Shop ι D} {i j : ι} {fault : Option JdbcFault} (h : s.Charged j) :
    (s.charge execute req i fault).Charged j := by
  obtain ⟨n, hn, hmem⟩ := h
  refine ⟨n, hn, ?_⟩
  simp only [Shop.charge]
  split_ifs
  · exact List.mem_cons_of_mem _ hmem
  · exact hmem

/-- The request whose `UPDATE` is executed is charged by it exactly if a row matches. -/
theorem charged_charge_self {s : Shop ι D} (hs : s.Booked) {i : ι} {fault : Option JdbcFault}
    (hi : s.phase i ≠ .answered "OK") : (s.charge execute req i fault).Charged i ↔
      JdbcFault.executed fault = true ∧ 1 ≤ s.matched execute req i := by
  have hnot : ∀ n, (i, n) ∉ s.updates := fun n hmem => hi (hs.answered _ hmem)
  by_cases hx : JdbcFault.executed fault = true <;>
    simp [Charged, Shop.charge, matched, hx, hnot]

theorem Fresh.grantsCharged {s : Shop ι D} (h : s.Fresh) : s.GrantsCharged req where
  granted i hi := by simp [h.arrived i] at hi
  checked m hm := by simp [h.checks] at hm

theorem GrantsCharged.step {s s' : Shop ι D} {e : ShopEvent ι} (hb : s.Booked)
    (h : s.GrantsCharged req) (hok : s.Covered execute req e)
    (hstep : s.step execute req e = some s') : s'.GrantsCharged req := by
  rcases step_cases hstep with ⟨i, rfl, hi, rfl⟩ | ⟨i, m, rfl, hi, -, rfl⟩ |
    ⟨i, fault, r, rfl, hi, rfl⟩ | ⟨m, rfl, rfl⟩
  · refine ⟨fun j hj => h.granted j ?_, h.checked⟩
    rw [setPhase_phase] at hj
    split_ifs at hj with hji
    · exact absurd hj (afterGet_ne_ok _ _)
    · exact hj
  · refine ⟨fun j hj => h.granted j ?_, h.checked⟩
    simp only [setPhase_phase] at hj
    split_ifs at hj with hji
    exact hj
  · refine ⟨fun j hj => ?_, fun m hm => ?_⟩
    · by_cases hji : j = i
      · subst hji
        exact (charged_charge_self hb (by simp [hi])).mpr hok
      · refine Charged.charge (h.granted j ?_)
        simpa [setPhase_phase, hji] using hj
    · obtain ⟨j, hj, hc⟩ := h.checked m hm
      exact ⟨j, hj, Charged.charge hc⟩
  · refine ⟨h.granted, fun m' hm' => ?_⟩
    rcases List.mem_cons.mp hm' with heq | hmem
    · obtain ⟨rfl, hone⟩ := Prod.mk.inj heq
      obtain ⟨i, hi, hans⟩ := hok (couponRedis_eq_one.mp hone.symm)
      exact ⟨i, hi, h.granted i hans⟩
    · exact h.checked m' hmem

/-- A step that leaves every grant charged met the condition. -/
theorem GrantsCharged.covered {s s' : Shop ι D} {e : ShopEvent ι} (hb : s.Booked)
    (hstep : s.step execute req e = some s') (h : s'.GrantsCharged req) :
    s.Covered execute req e := by
  have hb' := hb.step hstep
  rcases step_cases hstep with ⟨i, rfl, -, -⟩ | ⟨i, m, rfl, -, -, -⟩ |
    ⟨i, fault, r, rfl, hi, rfl⟩ | ⟨m, rfl, rfl⟩
  · trivial
  · trivial
  · obtain rfl := hb.reply i r hi
    exact (charged_charge_self hb (by simp [hi])).mp (h.granted i (by simp [setPhase_phase]))
  · intro hm
    obtain ⟨i, hi, hc⟩ := h.checked m (List.mem_cons.mpr (.inl (by rw [couponRedis_eq_one.mpr hm])))
    exact ⟨i, hi, hc.answered hb'⟩

/-- Every grant of a run is charged, in every state reached, exactly when each `UPDATE` is
executed and matches a row and no check reads a mark before its redemption has answered. -/
theorem granted_charged_iff_covered {s : Shop ι D} (hs : s.Fresh) (es : List (ShopEvent ι)) :
    Always (step execute req) (GrantsCharged req) s es ↔
      Each (step execute req) (Covered execute req) s es :=
  always_iff_each (I := fun s : Shop ι D => s.Booked ∧ s.GrantsCharged req)
    (fun _ _ _ h hok hstep => ⟨h.1.step hstep, h.2.step h.1 hok hstep⟩) (fun _ h => h.2)
    (fun _ _ _ h hstep h' => h'.covered h.1 hstep) ⟨hs.booked, hs.grantsCharged⟩

end Shop

end

/-- The connection cannot be obtained, the answer is `OK` and the check says `1` : a grant
with all five units still there. -/
theorem granted_uncharged :
    ∃ t, run (Shop.step oneCoupon twoRequests) openShop
        [.get 0, .set 0, .update 0 (some .noConnection), .check "7"] = some t ∧
      t.phase 0 = .answered "OK" ∧ ("7", "1") ∈ t.checks ∧ t.db = 5 ∧
      ¬t.GrantsCharged twoRequests :=
  ⟨_, rfl, rfl, by decide, rfl, fun h => by
    obtain ⟨n, -, hmem⟩ := h.granted 0 rfl
    exact absurd hmem List.not_mem_nil⟩

/-- A redemption whose `UPDATE` matches the row, and a check after it. -/
theorem granted_charged :
    Always (Shop.step oneCoupon twoRequests) (Shop.GrantsCharged twoRequests) openShop
      [.get 0, .set 0, .update 0 none, .check "7"] :=
  (Shop.granted_charged_iff_covered openShop_fresh _).mpr
    (.cons rfl trivial (.cons rfl trivial (.cons rfl ⟨rfl, by decide⟩
      (.cons rfl (fun _ => ⟨0, rfl, rfl⟩) trivial))))

end MySocket
