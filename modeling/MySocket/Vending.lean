import MySocket.Redemption

/-!
# The vending page

`efan.html` draws a machine id from `0` to `1000`, shows it as a code to scan, and asks
`CouponRedis` about it every two seconds. When the answer is `1` it goes on to
`success.html`, where the goods are delivered. The ids are meant never to repeat; they are
random, and a mark in Redis outlives the page that it was made for.

* `Stall.Served` : the pages that have reached `success.html` had their id redeemed since they
  were opened.
* `Stall.Tracked` : the invariant behind it. An id with no value in Redis when a page draws
  it has no redemption past its `SET`, so each later `OK` falls after the page was opened.
-/

set_option linter.unusedSectionVars false

namespace MySocket

/-- Where a page stands; `id` is its `mechine_id`. -/
inductive Page
  /-- Not opened yet. -/
  | closed
  /-- `checkpay` has posted the id, or will when the timer runs out. -/
  | polling (id : Fin 1001)
  /-- The answer of `CouponRedis` is on its way back. -/
  | replied (id : Fin 1001) (data : String)
  /-- At `success.html`. -/
  | success (id : Fin 1001)
  deriving DecidableEq

/-- Page `p` was opened with `id`. -/
def Page.Shows (p : Page) (id : Fin 1001) : Prop :=
  p = .polling id ∨ (∃ data, p = .replied id data) ∨ p = .success id

/-- The id as the page posts it, and as the code names it. -/
def mechineId (id : Fin 1001) : String :=
  toString id.val

/-- The servlets and the pages. -/
structure Stall (ι κ D : Type*) where
  shop : Shop ι D
  page : κ → Page
  /-- The requests that `CouponRedisSet` has answered `OK` since the page was opened. -/
  since : κ → List ι

inductive StallEvent (ι κ : Type*)
  | shop (e : ShopEvent ι)
  /-- A page is loaded and draws an id. -/
  | draw (k : κ) (id : Fin 1001)
  /-- `CouponRedis` answers the page's post. -/
  | check (k : κ)
  /-- The answer arrives at the page. -/
  | receive (k : κ)

section

variable {ι κ D : Type*} [DecidableEq ι] [DecidableEq κ]
variable (execute : String → D → ℕ × D) (req : ι → Request) (eqOne : String → Bool)

namespace Stall

/-- The stall with page `k` at `p`. -/
def setPage (s : Stall ι κ D) (k : κ) (p : Page) : Stall ι κ D :=
  { s with page := Function.update s.page k p }

theorem setPage_page (s : Stall ι κ D) (k j : κ) (p : Page) :
    (s.setPage k p).page j = if j = k then p else s.page j := by
  simp [setPage, Function.update_apply]

/-- The request that the event answers with `OK`, if it does. -/
def granted (shop : Shop ι D) : ShopEvent ι → List ι
  | .update i _ => if shop.phase i = .answered "OK" then [i] else []
  | _ => []

/-- One step of the servlets or of a page; `eqOne` is the page's test `data==1`. -/
def step (s : Stall ι κ D) : StallEvent ι κ → Option (Stall ι κ D)
  | .shop e =>
    (s.shop.step execute req e).map fun shop =>
      { s with shop, since := fun k => granted shop e ++ s.since k }
  | .draw k id =>
    match s.page k with
    | .closed => some { s.setPage k (.polling id) with since := Function.update s.since k [] }
    | _ => none
  | .check k =>
    match s.page k with
    | .polling id =>
      some (s.setPage k (.replied id (couponRedis s.shop.redis (some (mechineId id)))))
    | _ => none
  | .receive k =>
    match s.page k with
    | .replied id data => some (s.setPage k (if eqOne data then .success id else .polling id))
    | _ => none

/-- A page at `success.html` had its id redeemed after it was opened. -/
def Served (s : Stall ι κ D) : Prop :=
  ∀ k id, s.page k = .success id →
    ∃ i ∈ s.since k, (req i).machineProductId = some (mechineId id)

/-- Redis holds no value for an id that is drawn, and a check that finds one there comes
after the answer to a redemption of the id. -/
def Own (s : Stall ι κ D) : StallEvent ι κ → Prop
  | .draw _ id => s.shop.redis.get (mechineId id) = none
  | .check k => ∀ id, s.page k = .polling id → s.shop.redis.get (mechineId id) ≠ none →
      ∃ i, (req i).machineProductId = some (mechineId id) ∧ s.shop.phase i = .answered "OK"
  | _ => True

/-- No request has run and no page is open; Redis holds anything. -/
structure Opening (s : Stall ι κ D) : Prop where
  fresh : s.shop.Fresh
  closed : ∀ k, s.page k = .closed

variable {execute req eqOne} {s s' : Stall ι κ D} {e : StallEvent ι κ}

/-- What one step can do. -/
theorem step_cases (h : s.step execute req eqOne e = some s') :
    (∃ x shop, e = .shop x ∧ s.shop.step execute req x = some shop ∧
      s' = { s with shop, since := fun k => granted shop x ++ s.since k }) ∨
    (∃ k id, e = .draw k id ∧ s.page k = .closed ∧
      s' = { s.setPage k (.polling id) with since := Function.update s.since k [] }) ∨
    (∃ k id, e = .check k ∧ s.page k = .polling id ∧
      s' = s.setPage k (.replied id (couponRedis s.shop.redis (some (mechineId id))))) ∨
    (∃ k id data, e = .receive k ∧ s.page k = .replied id data ∧
      s' = s.setPage k (if eqOne data then .success id else .polling id)) := by
  cases e with
  | shop x =>
    obtain ⟨shop, hshop, rfl⟩ := Option.map_eq_some_iff.mp h
    exact .inl ⟨x, shop, rfl, hshop, rfl⟩
  | draw k id =>
    cases hp : s.page k <;> simp only [step, hp, Option.some.injEq, reduceCtorEq] at h
    exact .inr (.inl ⟨k, id, rfl, hp, h.symm⟩)
  | check k =>
    cases hp : s.page k <;> simp only [step, hp, Option.some.injEq, reduceCtorEq] at h
    exact .inr (.inr (.inl ⟨k, _, rfl, hp, h.symm⟩))
  | receive k =>
    cases hp : s.page k <;> simp only [step, hp, Option.some.injEq, reduceCtorEq] at h
    exact .inr (.inr (.inr ⟨k, _, _, rfl, hp, h.symm⟩))

end Stall

variable {execute req eqOne}

/-! ## The servlets -/

namespace Shop

variable {s s' : Shop ι D} {e : ShopEvent ι} {i : ι}

/-- A request past its `SET` has left a value for its id in Redis. -/
structure Kept (req : ι → Request) (s : Shop ι D) : Prop extends s.Booked where
  stored : ∀ i m, (∃ r, s.phase i = .marked r) ∨ s.phase i = .answered "OK" →
    (req i).machineProductId = some m → s.redis.get m ≠ none

theorem Fresh.kept (h : s.Fresh) : s.Kept req where
  toBooked := h.booked
  stored i m hi := by simp [h.arrived i] at hi

theorem Kept.step (h : s.Kept req) (hstep : s.step execute req e = some s') : s'.Kept req := by
  refine ⟨h.toBooked.step hstep, fun j m hj hm => ?_⟩
  rcases step_cases hstep with ⟨i, rfl, hi, rfl⟩ | ⟨i, m', rfl, hi, hm', rfl⟩ |
    ⟨i, fault, r, rfl, hi, rfl⟩ | ⟨m', rfl, rfl⟩
  · refine h.stored j m ?_ hm
    by_cases hji : j = i
    · simp [hji, setPhase_phase, afterGet_ne_marked, afterGet_ne_ok] at hj
    · simpa [setPhase_phase, hji] using hj
  · rw [Redis.get_set]
    split_ifs with hmm
    · exact Option.some_ne_none _
    · refine h.stored j m ?_ hm
      have hji : j ≠ i := fun hji => hmm (Option.some.inj ((hji ▸ hm).symm.trans hm'))
      simpa [setPhase_phase, hji] using hj
  · refine h.stored j m ?_ hm
    by_cases hji : j = i
    · exact .inl ⟨r, hji ▸ hi⟩
    · simpa [setPhase_phase, hji] using hj
  · exact h.stored j m hj hm

/-- An answer is final. -/
theorem answered_step {r : String} (h : s.phase i = .answered r)
    (hstep : s.step execute req e = some s') : s'.phase i = .answered r := by
  rcases step_cases hstep with ⟨j, rfl, hj, rfl⟩ | ⟨j, m, rfl, hj, -, rfl⟩ |
    ⟨j, fault, r', rfl, hj, rfl⟩ | ⟨m, rfl, rfl⟩
  · have hij : i ≠ j := fun hij => by simp [← hij, h] at hj
    simpa [setPhase_phase, hij] using h
  · have hij : i ≠ j := fun hij => by simp [← hij, h] at hj
    simpa [setPhase_phase, hij] using h
  · have hij : i ≠ j := fun hij => by simp [← hij, h] at hj
    simpa [setPhase_phase, hij] using h
  · exact h

/-- A request answered `OK` was so before the step, or the step answers it. -/
theorem answered_ok_step (h : s'.phase i = .answered "OK")
    (hstep : s.step execute req e = some s') :
    s.phase i = .answered "OK" ∨ i ∈ Stall.granted s' e := by
  rcases step_cases hstep with ⟨j, rfl, hj, rfl⟩ | ⟨j, m, rfl, hj, -, rfl⟩ |
    ⟨j, fault, r', rfl, hj, rfl⟩ | ⟨m, rfl, rfl⟩
  · by_cases hij : i = j
    · simp [hij, setPhase_phase, afterGet_ne_ok] at h
    · exact .inl (by simpa [setPhase_phase, hij] using h)
  · by_cases hij : i = j
    · simp [hij, setPhase_phase] at h
    · exact .inl (by simpa [setPhase_phase, hij] using h)
  · by_cases hij : i = j
    · subst hij
      exact .inr (by rw [Stall.granted, if_pos h]; exact List.mem_singleton_self i)
    · exact .inl (by simpa [setPhase_phase, hij] using h)
  · exact .inl h

end Shop

/-! ## The pages -/

namespace Stall

/-- Each `OK` for the id of an open page was given since it was opened, and a page with the
answer `1`, on its way or acted upon, has had one. -/
structure Tracked (req : ι → Request) (eqOne : String → Bool) (s : Stall ι κ D) : Prop where
  kept : s.shop.Kept req
  since : ∀ k id i, (s.page k).Shows id → (req i).machineProductId = some (mechineId id) →
    s.shop.phase i = .answered "OK" → i ∈ s.since k
  redeemed : ∀ k id, (∃ data, s.page k = .replied id data ∧ eqOne data = true) ∨
      s.page k = .success id →
    ∃ i, (req i).machineProductId = some (mechineId id) ∧ s.shop.phase i = .answered "OK"

variable {s s' : Stall ι κ D} {e : StallEvent ι κ}

theorem Tracked.served (h : s.Tracked req eqOne) : s.Served req := by
  intro k id hk
  obtain ⟨i, hi, hok⟩ := h.redeemed k id (.inr hk)
  exact ⟨i, h.since k id i (.inr (.inr hk)) hi hok, hi⟩

theorem Opening.tracked (h : s.Opening) : s.Tracked req eqOne where
  kept := h.fresh.kept
  since k id i hk := by simp [Page.Shows, h.closed k] at hk
  redeemed k id hk := by simp [h.closed k] at hk

theorem Tracked.step (heq : eqOne "0" = false) (h : s.Tracked req eqOne) (hown : s.Own req e)
    (hstep : s.step execute req eqOne e = some s') : s'.Tracked req eqOne := by
  rcases step_cases hstep with ⟨x, shop, rfl, hx, rfl⟩ | ⟨k, id, rfl, hk, rfl⟩ |
    ⟨k, id, rfl, hk, rfl⟩ | ⟨k, id, data, rfl, hk, rfl⟩
  · refine ⟨h.kept.step hx, fun j id i hj hi hok => ?_, fun j id hj => ?_⟩
    · rcases Shop.answered_ok_step hok hx with hbefore | hnow
      · exact List.mem_append_right _ (h.since j id i hj hi hbefore)
      · exact List.mem_append_left _ hnow
    · obtain ⟨i, hi, hok⟩ := h.redeemed j id hj
      exact ⟨i, hi, Shop.answered_step hok hx⟩
  · -- the id that is drawn has no value, so no redemption of it is past its SET
    refine ⟨h.kept, fun j id' i hj hi hok => ?_, fun j id' hj => ?_⟩
    · by_cases hjk : j = k
      · subst hjk
        obtain rfl : id = id' := by simpa [Page.Shows, setPage_page] using hj
        exact absurd hown (h.kept.stored i _ (.inr hok) hi)
      · have hsince := h.since j id' i (by simpa [setPage_page, hjk] using hj) hi hok
        simpa [Function.update_of_ne hjk] using hsince
    · by_cases hjk : j = k
      · simp [hjk, setPage_page] at hj
      · exact h.redeemed j id' (by simpa [setPage_page, hjk] using hj)
  · refine ⟨h.kept, fun j id' i hj hi hok => ?_, fun j id' hj => ?_⟩
    · by_cases hjk : j = k
      · subst hjk
        obtain rfl : id = id' := by simpa [Page.Shows, setPage_page] using hj
        exact h.since j id i (.inl hk) hi hok
      · exact h.since j id' i (by simpa [setPage_page, hjk] using hj) hi hok
    · by_cases hjk : j = k
      · subst hjk
        obtain ⟨rfl, hone⟩ : id = id' ∧
            eqOne (couponRedis s.shop.redis (some (mechineId id))) = true := by
          simpa [setPage_page] using hj
        refine hown id hk fun hnone => ?_
        simp [couponRedis, hnone, heq] at hone
      · exact h.redeemed j id' (by simpa [setPage_page, hjk] using hj)
  · refine ⟨h.kept, fun j id' i hj hi hok => ?_, fun j id' hj => ?_⟩
    · by_cases hjk : j = k
      · subst hjk
        obtain rfl : id = id' := by
          by_cases hone : eqOne data = true <;> simpa [Page.Shows, setPage_page, hone] using hj
        exact h.since j id i (.inr (.inl ⟨data, hk⟩)) hi hok
      · exact h.since j id' i (by simpa [setPage_page, hjk] using hj) hi hok
    · by_cases hjk : j = k
      · subst hjk
        by_cases hone : eqOne data = true
        · obtain rfl : id = id' := by simpa [setPage_page, hone] using hj
          exact h.redeemed j id (.inl ⟨data, hk, hone⟩)
        · simp [setPage_page, hone] at hj
      · exact h.redeemed j id' (by simpa [setPage_page, hjk] using hj)

/-- In a run where every id drawn has no value in Redis, and every check that finds a value
comes after the answer to a redemption of the id, each page that reaches `success.html` had
its id redeemed after it was opened. -/
theorem served_of_own (heq : eqOne "0" = false) (hs : s.Opening) {es : List (StallEvent ι κ)}
    (hes : Each (step execute req eqOne) (Own req) s es) :
    Always (step execute req eqOne) (Served req) s es :=
  (hes.always (fun _ _ _ h hown hstep => h.step heq hown hstep) hs.tracked).mono
    fun _ h => h.served

end Stall

end

/-! ### Two pages with one id -/

/-- One request, for machine `7`. -/
def oneRequest : Fin 1 → Request :=
  fun _ => ⟨some "7", some "2", some "31"⟩

/-- No page is open, and the coupon has five units. -/
def twoPages : Stall (Fin 1) (Fin 2) ℤ :=
  ⟨⟨fun _ => none, 5, fun _ => .arrived, [], []⟩, fun _ => .closed, fun _ => []⟩

/-- The second page draws the id of the first one, and is served without a redemption. -/
theorem served_twice :
    ∃ t, run (Stall.step oneCoupon oneRequest (· == "1")) twoPages
        [.draw 0 7, .shop (.get 0), .shop (.set 0), .shop (.update 0 none), .check 0, .receive 0,
          .draw 1 7, .check 1, .receive 1] = some t ∧
      t.page 1 = .success 7 ∧ t.since 1 = [] ∧ ¬t.Served oneRequest :=
  ⟨_, rfl, rfl, rfl, fun h => by
    obtain ⟨i, hi, -⟩ := h 1 7 rfl
    exact List.not_mem_nil hi⟩

/-- The first page alone. -/
theorem served_once :
    Always (Stall.step oneCoupon oneRequest (· == "1")) (Stall.Served oneRequest) twoPages
      [.draw 0 7, .shop (.get 0), .shop (.set 0), .shop (.update 0 none), .check 0, .receive 0] :=
  Stall.served_of_own (by decide) ⟨⟨fun _ => rfl, rfl, rfl⟩, fun _ => rfl⟩
    (.cons rfl rfl (.cons rfl trivial (.cons rfl trivial (.cons rfl trivial
      (.cons rfl (fun id hid _ => ⟨0, by cases hid; rfl, rfl⟩) (.cons rfl trivial trivial))))))

end MySocket
