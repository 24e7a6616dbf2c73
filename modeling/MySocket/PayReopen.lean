import MySocket.PayPanel

/-!
# Reopening the payment dialogs

`initDialog` builds a dialog with its method `init` the first time, and calls its method
`show` whenever the dialog has been opened before. Only `good` and `pay` have a `show` that
works : that of `failed` reads a variable that is not there, and `success` and `timeOut`
have none. The list of the dialogs opened lasts as long as the page, so what an attempt
may end in depends on how the earlier ones ended.

* `Sound.step` : what holds of the dialogs opened, built and visible as long as each call of
  `initDialog` has done its work.
* `reopens_iff` : the calls of a run all do, exactly when no outcome comes a second time and
  no call overtakes the reply that an earlier one waits for.
-/

namespace MySocket

namespace PayPanel

/-- What the reply to `check_orderstate` opens. -/
def outcome (totalNo : ℤ) (status : ℕ) : Option Dialog :=
  if status = 300 ∨ status = 400 then if totalNo - 1 < 0 then some .timeOut else none
  else if status = 200 then some .success
  else if status = 500 ∨ status = 600 then some .failed
  else none

/-- The dialog that the event calls `initDialog` for. -/
def called (s : PayPanel) : PayEvent → Option Dialog
  | .payPanel => some .good
  | .press .good idx => if idx = 0 then some .pay else none
  | .press .pay idx | .press .failed idx => if idx = 0 then some .good else none
  | .checked orderId status =>
    match s.chain orderId, status with
    | some (.request totalNo), some status =>
      if s.userCancel then none else outcome totalNo status
    | _, _ => none
  | _ => none

/-- The dialog whose call of `initDialog` has waited for this reply. -/
def replied : PayEvent → Option Dialog
  | .goods status => if status = some 200 then some .good else none
  | .consumed _ status => if status = some 200 then some .pay else none
  | _ => none

/-- A call of `initDialog` for the dialog now sends a request, and waits for the reply. -/
def awaits (s : PayPanel) : Dialog → Prop
  | .good => .good ∉ s.openedDialogArr
  | .pay => True
  | .success | .failed | .timeOut => False

/-- The event raises nothing, and the dialog that it calls `initDialog` for is in the page and
visible afterwards, or once the reply has come. -/
structure Reopens (s : PayPanel) (e : PayEvent) (s' : PayPanel) : Prop where
  raised : s'.raised = false
  shown : ∀ d, s.called e = some d ∧ ¬s.awaits d ∨ replied e = some d →
    s'.rendered d = true ∧ s'.visible d = true

/-- An outcome comes for the first time, `OTT.payPanel` does not overtake the list of goods, and
the reply to `do_consume` finds its dialog current, and built if it only has to be shown. -/
def Reopenable (s : PayPanel) : PayEvent → Prop
  | .payPanel => .good ∈ s.openedDialogArr → s.rendered .good = true
  | .consumed callback status => status = some 200 →
    (s.currentDialog = some .pay ∨ s.visible .pay = true) ∧
      (callback = .shown → s.rendered .pay = true)
  | .checked orderId status => ∀ d, s.called (.checked orderId status) = some d →
    d ∉ s.openedDialogArr
  | _ => True

/-- Whatever is visible is built, and whatever is built has been opened. Until `good` is built
nothing else is, and at most its list of goods is on its way; the first order of the page is
on its way only while `pay` is not built. -/
structure Sound (s : PayPanel) : Prop where
  raised : s.raised = false
  built : ∀ d, s.visible d = true → s.rendered d = true
  opened : ∀ d, s.rendered d = true → d ∈ s.openedDialogArr
  bare : s.rendered .good = false →
    (∀ d, s.rendered d = false) ∧ s.consumes = [] ∧ ∀ o, s.chain o = none
  listing : s.goods ≠ 0 → s.goods = 1 ∧ s.currentDialog = some .good ∧
    s.rendered .good = false ∧ .good ∈ s.openedDialogArr
  ordering : .init ∈ s.consumes → s.rendered .pay = false ∧ .pay ∈ s.openedDialogArr ∧
    .init ∉ s.consumes.erase .init

variable {s s' : PayPanel}

theorem start_sound : start.Sound where
  raised := rfl
  built _ h := h
  opened _ h := absurd h Bool.false_ne_true
  bare _ := ⟨fun _ => rfl, rfl, fun _ => rfl⟩
  listing h := absurd rfl h
  ordering h := absurd h List.not_mem_nil

/-- Of the orders, `Sound` counts only the chains, and these only until `good` is built. -/
theorem Sound.of_orders (h : s.Sound) (orders : Orders)
    (horders : s.rendered .good = true ∨ orders.chain = s.chain) :
    ({ s with toOrders := orders } : PayPanel).Sound where
  raised := h.raised
  built := h.built
  opened := h.opened
  bare hbare := by
    obtain ⟨hblank, hconsumes, hchain⟩ := h.bare hbare
    rcases horders with hbuilt | heq
    · exact absurd (hbuilt.symm.trans hbare) (by decide)
    · exact ⟨hblank, hconsumes, fun o => by rw [heq, hchain o]⟩
  listing := h.listing
  ordering := h.ordering

theorem Sound.closeDialog (h : s.Sound) (b : Bool) : (s.closeDialog b).Sound where
  raised := h.raised
  built d hd := by
    unfold PayPanel.closeDialog at hd
    dsimp only at hd
    split_ifs at hd
    exact h.built d hd
  opened := h.opened
  bare := h.bare
  listing := h.listing
  ordering := h.ordering

/-- Once `good` is built its list has come. -/
theorem Sound.listed (h : s.Sound) (hbuilt : s.rendered .good = true) : s.goods = 0 := by
  by_contra hg
  obtain ⟨-, -, hgood, -⟩ := h.listing hg
  exact absurd (hbuilt.symm.trans hgood) (by decide)

/-- An order or its chain comes after the list of goods. -/
theorem Sound.built_of_order (h : s.Sound) (ho : s.consumes ≠ [] ∨ ∃ o, s.chain o ≠ none) :
    s.rendered .good = true := by
  by_contra hgood
  obtain ⟨-, hconsumes, hchain⟩ := h.bare (by simpa using hgood)
  rcases ho with hc | ⟨o, ho⟩
  · exact hc hconsumes
  · exact ho (hchain o)

theorem Sound.built_of_visible (h : s.Sound) {d : Dialog} (hd : s.visible d = true) :
    s.rendered .good = true := by
  by_contra hgood
  obtain ⟨hblank, -, -⟩ := h.bare (by simpa using hgood)
  exact absurd ((h.built d hd).symm.trans (hblank d)) (by decide)

/-- Build the current dialog. -/
theorem Sound.build (h : s.Sound) {d : Dialog} {opened : List Dialog} (hd : d ∈ opened)
    (hsub : s.openedDialogArr ⊆ opened) (hgood : d = .good ∨ s.rendered .good = true)
    (hgoods : s.goods = 0) (hinit : d = .pay → .init ∉ s.consumes) :
    ({ s with
      currentDialog := some d, openedDialogArr := opened
      rendered := Function.update s.rendered d true
      visible := Function.update s.visible d true } : PayPanel).Sound where
  raised := h.raised
  built d' hd' := by
    by_cases heq : d' = d
    · simp [heq]
    · dsimp only at hd' ⊢
      rw [Function.update_of_ne heq] at hd' ⊢
      exact h.built d' hd'
  opened d' hd' := by
    by_cases heq : d' = d
    · rwa [heq]
    · dsimp only at hd'
      rw [Function.update_of_ne heq] at hd'
      exact hsub (h.opened d' hd')
  bare hbare := by
    by_cases heq : d = .good
    · simp [heq] at hbare
    · simp [Function.update_of_ne (Ne.symm heq), hgood.resolve_left heq] at hbare
  listing hg := absurd hgoods hg
  ordering hc := by
    have hne : Dialog.pay ≠ d := fun heq => hinit heq.symm hc
    obtain ⟨hpay, hopened, hone⟩ := h.ordering hc
    refine ⟨?_, hsub hopened, hone⟩
    dsimp only
    rw [Function.update_of_ne hne, hpay]

/-- Show a dialog again. -/
theorem Sound.display (h : s.Sound) (hbuilt : s.rendered .good = true) (d : Dialog) :
    ({ s with
      currentDialog := some d
      visible := Function.update s.visible d (s.rendered d) } : PayPanel).Sound where
  raised := h.raised
  built d' hd' := by
    by_cases heq : d' = d
    · simpa [heq] using hd'
    · dsimp only at hd'
      rw [Function.update_of_ne heq] at hd'
      exact h.built d' hd'
  opened := h.opened
  bare := h.bare
  listing hg := absurd (h.listed hbuilt) hg
  ordering := h.ordering

/-! ## One call of `initDialog` -/

theorem Sound.initDialog_good (h : s.Sound)
    (hgood : .good ∈ s.openedDialogArr → s.rendered .good = true) :
    (s.initDialog .good).Sound ∧ (.good ∈ s.openedDialogArr →
      (s.initDialog .good).rendered .good = true ∧ (s.initDialog .good).visible .good = true) := by
  unfold initDialog
  dsimp only
  by_cases hopened : .good ∈ s.openedDialogArr
  · have hbuilt := hgood hopened
    rw [if_pos hopened]
    exact ⟨h.display hbuilt .good, fun _ => ⟨hbuilt, by simp [showDialog, commonShow, hbuilt]⟩⟩
  · have hgood' : s.rendered .good = false := by
      by_contra hbuilt
      exact hopened (h.opened .good (by simpa using hbuilt))
    have hgoods : s.goods = 0 := by
      by_contra hg
      exact hopened (h.listing hg).2.2.2
    rw [if_neg hopened]
    refine ⟨⟨h.raised, h.built, fun d hd => ?_, h.bare, fun _ => ?_, fun hc => ?_⟩,
      fun hmem => absurd hmem hopened⟩
    · exact List.mem_append_left _ (h.opened d hd)
    · exact ⟨by simp [initOf, hgoods], rfl, hgood', by simp⟩
    · obtain ⟨hpay, hmem, hone⟩ := h.ordering hc
      exact ⟨hpay, List.mem_append_left _ hmem, hone⟩

theorem Sound.initDialog_pay (h : s.Sound) (hbuilt : s.rendered .good = true) :
    (s.initDialog .pay).Sound := by
  obtain ⟨hraised, hvisible, hopened', -, -, hordering⟩ := id h
  have hgoods := h.listed hbuilt
  unfold initDialog
  dsimp only
  by_cases hopened : .pay ∈ s.openedDialogArr
  · rw [if_pos hopened]
    refine ⟨hraised, hvisible, hopened', fun hg => absurd (hbuilt.symm.trans hg) (by decide),
      fun hg => absurd hgoods hg, fun hc => ?_⟩
    have hc' : Callback.init ∈ s.consumes := by simpa [showDialog] using hc
    simpa [showDialog, hc'] using hordering hc'
  · have hnone : Callback.init ∉ s.consumes := fun hc => hopened (hordering hc).2.1
    have hpay : s.rendered .pay = false := by
      by_contra hpay
      exact hopened (hopened' .pay (by simpa using hpay))
    rw [if_neg hopened]
    exact ⟨hraised, hvisible, fun d hd => List.mem_append_left _ (hopened' d hd),
      fun hg => absurd (hbuilt.symm.trans hg) (by decide), fun hg => absurd hgoods hg,
      fun _ => ⟨hpay, by simp, by simpa [initOf] using hnone⟩⟩

/-- The dialogs that an attempt ends in. -/
theorem outcome_cases {totalNo : ℤ} {status : ℕ} {d : Dialog} (h : outcome totalNo status = some d) :
    d = .success ∨ d = .failed ∨ d = .timeOut := by
  unfold outcome at h
  split_ifs at h <;> simp_all

theorem Sound.initDialog_outcome (h : s.Sound) (hbuilt : s.rendered .good = true) {d : Dialog}
    (hd : d = .success ∨ d = .failed ∨ d = .timeOut) (hnew : d ∉ s.openedDialogArr) :
    (s.initDialog d).Sound ∧ (s.initDialog d).rendered d = true ∧
      (s.initDialog d).visible d = true := by
  have heq : s.initDialog d = { s with
      currentDialog := some d, openedDialogArr := s.openedDialogArr ++ [d]
      rendered := Function.update s.rendered d true
      visible := Function.update s.visible d true } := by
    unfold initDialog
    dsimp only
    rw [if_neg hnew]
    rcases hd with rfl | rfl | rfl <;> rfl
  have hpay : d ≠ .pay := by
    rintro rfl
    simp at hd
  rw [heq]
  refine ⟨h.build (by simp) (List.subset_append_left _ _) (.inr hbuilt) (h.listed hbuilt)
    fun hp => absurd hp hpay, by simp, by simp⟩

/-- A second time there is no `show` that works. -/
theorem raised_of_mem {d : Dialog} (hd : d = .success ∨ d = .failed ∨ d = .timeOut)
    (hmem : d ∈ s.openedDialogArr) : (s.initDialog d).raised = true := by
  unfold initDialog
  dsimp only
  rw [if_pos hmem]
  rcases hd with rfl | rfl | rfl <;> rfl

/-! ## One event -/

/-- A reply that opens nothing leaves the dialogs alone. -/
theorem checked_of_none {o : ℕ} {n : ℤ} {status : ℕ} (ho : s.chain o = some (.request n))
    (hcalled : s.called (.checked o (some status)) = none) :
    ∃ p, s.checked o n status = { s with chain := Function.update s.chain o p } := by
  simp only [called, ho] at hcalled
  unfold checked
  dsimp only
  split_ifs at hcalled with huser
  · exact ⟨none, by rw [if_pos huser]⟩
  · rw [if_neg huser]
    unfold outcome at hcalled
    split_ifs at hcalled ⊢
    · exact ⟨some (.timer (n - 1) 300000), by rw [Function.update_idem]⟩
    · exact ⟨some (.timer (n - 1) 5000), by rw [Function.update_idem]⟩
    · exact ⟨none, rfl⟩

/-- A reply that ends the attempt closes the dialog and opens the outcome. -/
theorem checked_of_some {o : ℕ} {n : ℤ} {status : ℕ} {d : Dialog}
    (ho : s.chain o = some (.request n)) (hcalled : s.called (.checked o (some status)) = some d) :
    (d = .success ∨ d = .failed ∨ d = .timeOut) ∧ ∃ orders : Orders, s.checked o n status =
      ({ s.closeDialog false with toOrders := orders } : PayPanel).initDialog d := by
  simp only [called, ho, Option.ite_none_left_eq_some] at hcalled
  obtain ⟨huser, hd⟩ := hcalled
  refine ⟨outcome_cases hd, ?_⟩
  unfold checked
  dsimp only
  rw [if_neg huser]
  unfold outcome at hd
  split_ifs at hd ⊢
  all_goals first
    | omega
    | obtain rfl := Option.some.inj hd
      exact ⟨_, rfl⟩

theorem Sound.checked (h : s.Sound) {o : ℕ} {n : ℤ} {status : ℕ}
    (ho : s.chain o = some (.request n)) :
    let s' := s.checked o n status
    (s.Reopenable (.checked o (some status)) → s'.Sound) ∧
      (s.Reopens (.checked o (some status)) s' ↔ s.Reopenable (.checked o (some status))) := by
  have hbuilt := h.built_of_order (.inr ⟨o, by simp [ho]⟩)
  cases hcalled : s.called (.checked o (some status)) with
  | none =>
    obtain ⟨p, hp⟩ := checked_of_none ho hcalled
    have hsound := h.of_orders { s.toOrders with chain := Function.update s.chain o p } (.inl hbuilt)
    rw [hp]
    refine ⟨fun _ => hsound, fun _ d hd => ?_, fun _ => ⟨h.raised, fun d hd => ?_⟩⟩
    · simp [hcalled] at hd
    · simp [hcalled, replied] at hd
  | some d =>
    obtain ⟨hd, orders, heq⟩ := checked_of_some ho hcalled
    have hclosed := (h.closeDialog false).of_orders orders (.inl hbuilt)
    rw [heq]
    have hiff : s.Reopenable (.checked o (some status)) ↔ d ∉ s.openedDialogArr := by
      unfold Reopenable
      simp [hcalled]
    rw [hiff]
    refine ⟨fun hnew => (hclosed.initDialog_outcome hbuilt hd hnew).1, fun hre hmem => ?_,
      fun hnew => ?_⟩
    · have hraised := raised_of_mem (s := { s.closeDialog false with toOrders := orders }) hd hmem
      exact absurd (hraised.symm.trans hre.raised) (by decide)
    · obtain ⟨hsound, hshown⟩ := hclosed.initDialog_outcome hbuilt hd hnew
      refine ⟨hsound.raised, fun d' hd' => ?_⟩
      obtain ⟨rfl, -⟩ : d = d' ∧ ¬s.awaits d' := by simpa [hcalled, replied] using hd'
      exact hshown

/-- The list of goods comes to the dialog that asked for it. -/
theorem Sound.goods (h : s.Sound) {status : Option ℕ} (hstep : s.step (.goods status) = some s') :
    s'.Sound ∧ s.Reopens (.goods status) s' := by
  simp only [step, Option.ite_none_right_eq_some, Option.some.injEq] at hstep
  obtain ⟨hg, rfl⟩ := hstep
  obtain ⟨hone, hcur, hgood, hmem⟩ := h.listing (by omega)
  have hsound : ({ s with goods := s.goods - 1 } : PayPanel).Sound :=
    ⟨h.raised, h.built, h.opened, h.bare, fun hg => absurd (by dsimp only; omega) hg, h.ordering⟩
  by_cases hstatus : status = some 200
  · have hbuild := hsound.build hmem (List.Subset.refl _) (.inl rfl) (by dsimp only; omega)
      fun hp => absurd hp (by decide)
    simp only [hstatus, if_true, commonInit, hcur]
    refine ⟨by simpa [hcur] using hbuild, h.raised, fun d hd => ?_⟩
    obtain rfl : Dialog.good = d := by simpa [called, replied] using hd
    simp
  · simp only [hstatus, if_false]
    exact ⟨hsound, h.raised, fun d hd => by simp [called, replied, hstatus] at hd⟩

/-- An event that no call of `initDialog` has waited for. -/
theorem Sound.reopens (h : s'.Sound) {e : PayEvent} (hreplied : replied e = none)
    (hcalled : ∀ d, s.called e = some d → ¬s.awaits d → s'.rendered d = true ∧ s'.visible d = true) :
    s.Reopens e s' where
  raised := h.raised
  shown d hd := by
    rcases hd with ⟨hd, hnow⟩ | hd
    · exact hcalled d hd hnow
    · exact absurd (hreplied.symm.trans hd) (by simp)

/-- Back to `good`, from `pay` or from `failed`. -/
theorem Sound.back (h : s.Sound) (hbuilt : s.rendered .good = true) :
    ((s.closeDialog false).initDialog .good).Sound ∧
      ((s.closeDialog false).initDialog .good).rendered .good = true ∧
      ((s.closeDialog false).initDialog .good).visible .good = true := by
  obtain ⟨hsound, hshown⟩ := (h.closeDialog false).initDialog_good fun _ => hbuilt
  exact ⟨hsound, hshown (h.opened .good hbuilt)⟩

theorem Sound.btn (h : s.Sound) {d : Dialog} (hd : s.visible d = true) (idx : ℕ) :
    (s.btn d idx).Sound ∧ s.Reopens (.press d idx) (s.btn d idx) := by
  have hbuilt := h.built_of_visible hd
  cases d with
  | good =>
    unfold PayPanel.btn
    dsimp only
    split_ifs with hidx
    · have hsound := (h.closeDialog false).initDialog_pay hbuilt
      refine ⟨hsound, hsound.reopens rfl fun d hcalled hnow => ?_⟩
      obtain rfl : Dialog.pay = d := by simpa [called, hidx] using hcalled
      exact absurd trivial hnow
    · have hsound := h.closeDialog true
      exact ⟨hsound, hsound.reopens rfl fun d hcalled => by simp [called, hidx] at hcalled⟩
  | pay =>
    have hcancel := h.of_orders
      { s.toOrders with userCancel := true, cancelled := s.payOrder.toList ++ s.cancelled }
      (.inl hbuilt)
    unfold PayPanel.btn
    dsimp only
    split_ifs with hidx
    · obtain ⟨hsound, hshown⟩ := hcancel.back hbuilt
      refine ⟨hsound, hsound.reopens rfl fun d hcalled _ => ?_⟩
      obtain rfl : Dialog.good = d := by simpa [called, hidx] using hcalled
      exact hshown
    · have hsound := hcancel.closeDialog true
      exact ⟨hsound, hsound.reopens rfl fun d hcalled => by simp [called, hidx] at hcalled⟩
    · exact ⟨hcancel, hcancel.reopens rfl fun d hcalled => by simp [called, hidx] at hcalled⟩
  | success =>
    have hsound := h.closeDialog true
    exact ⟨hsound, hsound.reopens rfl fun d hcalled => by simp [called] at hcalled⟩
  | failed =>
    unfold PayPanel.btn
    dsimp only
    split_ifs with hidx
    · obtain ⟨hsound, hshown⟩ := h.back hbuilt
      refine ⟨hsound, hsound.reopens rfl fun d hcalled _ => ?_⟩
      obtain rfl : Dialog.good = d := by simpa [called, hidx] using hcalled
      exact hshown
    · have hsound := h.closeDialog true
      exact ⟨hsound, hsound.reopens rfl fun d hcalled => by simp [called, hidx] at hcalled⟩
    · exact ⟨h, h.reopens rfl fun d hcalled => by simp [called, hidx] at hcalled⟩
  | timeOut => exact ⟨h, h.reopens rfl fun d hcalled => by simp [called] at hcalled⟩

/-- A request that is over. -/
theorem Sound.erase (h : s.Sound) (c : Callback) :
    ({ s with consumes := s.consumes.erase c } : PayPanel).Sound where
  raised := h.raised
  built := h.built
  opened := h.opened
  bare hbare := by
    obtain ⟨hblank, hconsumes, hchain⟩ := h.bare hbare
    exact ⟨hblank, by simp [hconsumes], hchain⟩
  listing := h.listing
  ordering hc := by
    obtain ⟨hpay, hmem, hone⟩ := h.ordering (List.mem_of_mem_erase hc)
    refine ⟨hpay, hmem, fun hin => hone ?_⟩
    dsimp only at hin
    rw [List.erase_comm] at hin
    exact List.mem_of_mem_erase hin

/-- The first order builds the dialog that is current. -/
theorem Sound.consumed_init (h : s.Sound) (hc : .init ∈ s.consumes) :
    (s.currentDialog = some .pay → (s.consumed .init).Sound ∧
      (s.consumed .init).rendered .pay = true ∧ (s.consumed .init).visible .pay = true) ∧
    (s.currentDialog ≠ some .pay →
      (s.consumed .init).raised = true ∨ (s.consumed .init).rendered .pay = false) := by
  have hbuilt := h.built_of_order (.inl (List.ne_nil_of_mem hc))
  obtain ⟨hpay, hmem, hone⟩ := h.ordering hc
  constructor
  · intro hcur
    have hbuild := (h.erase .init).build hmem (List.Subset.refl _) (.inr hbuilt)
      (h.listed hbuilt) fun _ => hone
    refine ⟨?_, by simp [PayPanel.consumed, commonInit, getPayResult, hcur],
      by simp [PayPanel.consumed, commonInit, getPayResult, hcur]⟩
    have horders := hbuild.of_orders (s.consumed .init).toOrders
      (.inl (by simpa [Function.update] using hbuilt))
    simpa [PayPanel.consumed, commonInit, getPayResult, hcur] using horders
  · intro hcur
    cases hcur' : s.currentDialog with
    | none => exact .inl (by simp [PayPanel.consumed, commonInit, getPayResult, hcur'])
    | some d =>
      have hne : Dialog.pay ≠ d := fun heq => hcur (by rw [hcur', heq])
      exact .inr (by simp [PayPanel.consumed, commonInit, getPayResult, hcur', hne, hpay])

/-- A later order shows the dialog that is current, if `pay` has been built. -/
theorem Sound.consumed_shown (h : s.Sound) (hc : .shown ∈ s.consumes) :
    (s.rendered .pay = true → (s.consumed .shown).Sound ∧ (s.consumed .shown).rendered .pay = true ∧
      ((s.consumed .shown).visible .pay = true ↔
        s.currentDialog = some .pay ∨ s.visible .pay = true)) ∧
    (s.rendered .pay = false → (s.consumed .shown).raised = true) := by
  have hbuilt := h.built_of_order (.inl (List.ne_nil_of_mem hc))
  constructor
  · intro hpay
    have herase := h.erase .shown
    cases hcur : s.currentDialog with
    | none =>
      have horders := herase.of_orders (s.consumed .shown).toOrders (.inl hbuilt)
      refine ⟨?_, ?_, ?_⟩
      · simpa [PayPanel.consumed, commonShow, getPayResult, hcur, hpay] using horders
      · simp [PayPanel.consumed, commonShow, getPayResult, hcur, hpay]
      · simp [PayPanel.consumed, commonShow, getPayResult, hcur, hpay]
    | some d =>
      have hshow := (herase.display hbuilt d).of_orders (s.consumed .shown).toOrders
        (.inl hbuilt)
      refine ⟨?_, ?_, ?_⟩
      · simpa [PayPanel.consumed, commonShow, getPayResult, hcur, hpay] using hshow
      · simp [PayPanel.consumed, commonShow, getPayResult, hcur, hpay]
      · by_cases heq : d = .pay
        · simp [PayPanel.consumed, commonShow, getPayResult, hcur, heq, hpay]
        · simp [PayPanel.consumed, commonShow, getPayResult, hcur, heq, Ne.symm heq, hpay]
  · intro hpay
    simp [PayPanel.consumed, hpay]

theorem Sound.consumed (h : s.Sound) {c : Callback} (hc : c ∈ s.consumes) :
    (s.Reopenable (.consumed c (some 200)) → (s.consumed c).Sound) ∧
      (s.Reopens (.consumed c (some 200)) (s.consumed c) ↔
        s.Reopenable (.consumed c (some 200))) := by
  have hdue : ∀ d, s.called (.consumed c (some 200)) = some d ∧ ¬s.awaits d ∨
      replied (.consumed c (some 200)) = some d → Dialog.pay = d := fun d hd => by
    simpa [called, replied] using hd
  have hpaid : replied (.consumed c (some 200)) = some .pay := by simp [replied]
  cases c with
  | init =>
    obtain ⟨hpay, -, -⟩ := h.ordering hc
    obtain ⟨hbuild, hother⟩ := h.consumed_init hc
    have hblank : s.visible .pay ≠ true := fun hd =>
      absurd ((h.built .pay hd).symm.trans hpay) (by decide)
    have hiff : s.Reopenable (.consumed .init (some 200)) ↔ s.currentDialog = some .pay := by
      simp [Reopenable, hblank]
    rw [hiff]
    refine ⟨fun hcur => (hbuild hcur).1, fun hre => ?_, fun hcur => ?_⟩
    · by_contra hcur
      rcases hother hcur with hraised | hpay'
      · exact absurd (hraised.symm.trans hre.raised) (by decide)
      · exact absurd ((hre.shown .pay (.inr hpaid)).1.symm.trans hpay') (by decide)
    · obtain ⟨hsound, hshown⟩ := hbuild hcur
      refine ⟨hsound.raised, fun d hd => ?_⟩
      obtain rfl := hdue d hd
      exact hshown
  | shown =>
    obtain ⟨hshow, hmissing⟩ := h.consumed_shown hc
    have hiff : s.Reopenable (.consumed .shown (some 200)) ↔
        (s.currentDialog = some .pay ∨ s.visible .pay = true) ∧ s.rendered .pay = true := by
      simp [Reopenable]
    rw [hiff]
    refine ⟨fun hok => (hshow hok.2).1, fun hre => ?_, fun hok => ?_⟩
    · by_cases hpay : s.rendered .pay = true
      · exact ⟨(hshow hpay).2.2.mp (hre.shown .pay (.inr hpaid)).2, hpay⟩
      · exact absurd ((hmissing (by simpa using hpay)).symm.trans hre.raised) (by decide)
    · obtain ⟨hsound, hrendered, hvisible⟩ := hshow hok.2
      refine ⟨hsound.raised, fun d hd => ?_⟩
      obtain rfl := hdue d hd
      exact ⟨hrendered, hvisible.mpr hok.1⟩

/-- `OTT.payPanel` -/
theorem Sound.payPanel (h : s.Sound) :
    let s' := ({ s with hasDialog := true } : PayPanel).initDialog .good
    (s.Reopenable .payPanel → s'.Sound) ∧ (s.Reopens .payPanel s' ↔ s.Reopenable .payPanel) := by
  have hshade : ({ s with hasDialog := true } : PayPanel).Sound :=
    ⟨h.raised, h.built, h.opened, h.bare, h.listing, h.ordering⟩
  refine ⟨fun hok => (hshade.initDialog_good hok).1, fun hre hmem => ?_, fun hok => ?_⟩
  · have hvisible := (hre.shown .good (.inl ⟨rfl, not_not_intro hmem⟩)).2
    simpa [initDialog, hmem, showDialog, commonShow] using hvisible
  · obtain ⟨hsound, hshown⟩ := hshade.initDialog_good hok
    refine hsound.reopens rfl fun d hcalled hnow => ?_
    obtain rfl : Dialog.good = d := by simpa [called] using hcalled
    exact hshown (not_not.mp hnow)

/-- A step that reopens its dialog keeps the invariant, and it is one exactly when its event is
`Reopenable`. -/
theorem Sound.step (h : s.Sound) {e : PayEvent} (hstep : s.step e = some s') :
    (s.Reopenable e → s'.Sound) ∧ (s.Reopens e s' ↔ s.Reopenable e) := by
  cases e with
  | payPanel =>
    obtain rfl := Option.some.inj hstep
    exact h.payPanel
  | goods status =>
    obtain ⟨hsound, hre⟩ := h.goods hstep
    exact ⟨fun _ => hsound, fun _ => trivial, fun _ => hre⟩
  | press d idx =>
    simp only [PayPanel.step, Option.ite_none_right_eq_some, Option.some.injEq] at hstep
    obtain ⟨⟨hd, -⟩, rfl⟩ := hstep
    obtain ⟨hsound, hre⟩ := h.btn hd idx
    exact ⟨fun _ => hsound, fun _ => trivial, fun _ => hre⟩
  | consumed c status =>
    simp only [PayPanel.step, Option.ite_none_right_eq_some, Option.some.injEq] at hstep
    obtain ⟨hc, rfl⟩ := hstep
    by_cases hstatus : status = some 200
    · rw [if_pos hstatus, hstatus]
      exact h.consumed hc
    · rw [if_neg hstatus]
      have hsound := h.erase c
      exact ⟨fun _ => hsound, fun _ hok => absurd hok hstatus,
        fun _ => hsound.reopens (by simp [replied, hstatus]) fun d hd => by simp [called] at hd⟩
  | timer o =>
    obtain ⟨n, ho, rfl⟩ := step_timer hstep
    have hsound := h.of_orders (s.getPayResult o n).toOrders (.inl (h.built_of_order (.inr ⟨o, ho⟩)))
    exact ⟨fun _ => hsound, fun _ => trivial,
      fun _ => hsound.reopens rfl fun d hd => by simp [called] at hd⟩
  | checked o status =>
    obtain ⟨n, ho, ⟨rfl, rfl⟩ | ⟨code, rfl, rfl⟩⟩ := step_checked hstep
    · have hcalled : s.called (.checked o none) = none := by simp [called, ho]
      have hsound := h.of_orders { s.toOrders with chain := Function.update s.chain o none }
        (.inl (h.built_of_order (.inr ⟨o, by simp [ho]⟩)))
      exact ⟨fun _ => hsound, fun _ d hd => by simp [hcalled] at hd,
        fun _ => hsound.reopens rfl fun d hd => by simp [hcalled] at hd⟩
    · exact h.checked ho
  | playauth o status =>
    simp only [PayPanel.step, Option.ite_none_right_eq_some, Option.some.injEq] at hstep
    obtain ⟨-, rfl⟩ := hstep
    have hsound := fun written => h.of_orders
      { s.toOrders with playauth := Function.update s.playauth o false, written } (.inr rfl)
    split_ifs
    · exact ⟨fun _ => hsound _, fun _ => trivial,
        fun _ => (hsound _).reopens rfl fun d hd => by simp [called] at hd⟩
    · exact ⟨fun _ => hsound _, fun _ => trivial,
        fun _ => (hsound _).reopens rfl fun d hd => by simp [called] at hd⟩

/-- In a run, every call of `initDialog` raises nothing and leaves its dialog in the page and
visible, exactly when no outcome comes a second time, `OTT.payPanel` never overtakes the list
of goods, and every order comes to its own dialog. -/
theorem reopens_iff (es : List PayEvent) :
    Steps step Reopens start es ↔ Each step Reopenable start es :=
  steps_iff_each (I := Sound) (fun _ _ _ h hok hstep => (h.step hstep).1 hok)
    (fun _ _ _ h hstep => (h.step hstep).2) start_sound

/-- Two attempts that are both paid : the second time, `success` has no `show`. -/
theorem second_success_raises :
    ∃ t, run step start [.payPanel, .goods (some 200), .press .good 0, .consumed .init (some 200),
        .checked 0 (some 200), .press .success 0,
        .payPanel, .press .good 0, .consumed .shown (some 200)] = some t ∧
      ∃ t', t.step (.checked 1 (some 200)) = some t' ∧
        t.called (.checked 1 (some 200)) = some .success ∧
        t'.raised = true ∧ t'.visible .success = false ∧ ¬Reopens t (.checked 1 (some 200)) t' := by
  refine ⟨_, rfl, _, rfl, by decide, by decide, by decide, fun h => ?_⟩
  exact absurd h.raised (by decide)

end PayPanel

end MySocket
