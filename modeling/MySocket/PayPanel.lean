import Mathlib.Logic.Function.Basic
import Mathlib.Data.List.Basic
import MySocket.Trace

/-!
# The payment dialogs

`payPanel.js` leads through the dialogs of a purchase. The dialog `good` lists the goods,
its button posts an order (`do_consume`), and when the reply comes the dialog `pay` shows
the order while `getPayResult` asks every five seconds how it stands. Back and cancel on
`pay` set the flag `userCancel`, which stops the chain of requests and timers of the order;
the reply to the next order takes the flag back.

* `Calm.step` : as long as no chain of a cancelled order is left when the flag is taken
  back, at most one dialog is visible, at most one chain belongs to an order that is not
  cancelled, and it is the order on the dialog `pay`.
* `Calm.quiet` : then no timer and no reply of a cancelled order changes the dialogs or
  writes the privileges.
-/

namespace MySocket

/-- The keys of `payPanel`. -/
inductive Dialog
  | good
  | pay
  | success
  | failed
  | timeOut
  deriving DecidableEq

/-- What `getOrderInfo` was given to do with the order : `init` or `show` of `payPanel.pay`. -/
inductive Callback
  | init
  | shown
  deriving DecidableEq

/-- Where the chain of `getPayResult` for an order stands, with `getPayResTotalNo`. -/
inductive Poll
  | request (totalNo : ℤ)
  | timer (totalNo : ℤ) (delay : ℕ)
  deriving DecidableEq

/-- The orders : the flag of the script, the chains and the requests in flight. -/
structure Orders where
  userCancel : Bool
  /-- The orders placed so far, numbered from `0`. -/
  orders : ℕ
  /-- The order that the dialog `pay` shows. -/
  payOrder : Option ℕ
  chain : ℕ → Option Poll
  /-- The requests `check_playauth`, by the order that was paid. -/
  playauth : ℕ → Bool
  /-- The orders whose payment has led to a write of `account_info` so far. -/
  written : List ℕ
  /-- The orders cancelled so far. -/
  cancelled : List ℕ

/-- The dialogs in the page, and the requests that lead to one. -/
structure PayPanel extends Orders where
  currentDialog : Option Dialog
  openedDialogArr : List Dialog
  /-- Appended to the page, with its keys bound. -/
  rendered : Dialog → Bool
  visible : Dialog → Bool
  hasDialog : Bool
  /-- The requests for the list of goods. -/
  goods : ℕ
  /-- The requests `do_consume`. -/
  consumes : List Callback
  /-- Whether a handler has raised an exception. -/
  raised : Bool

namespace PayPanel

/-- A page in which no dialog has been opened. -/
def start : PayPanel where
  userCancel := false
  orders := 0
  payOrder := none
  chain _ := none
  playauth _ := false
  written := []
  cancelled := []
  currentDialog := none
  openedDialogArr := []
  rendered _ := false
  visible _ := false
  hasDialog := false
  goods := 0
  consumes := []
  raised := false

/-- `GETPAYRESTOTALNO` -/
def getPayResTotalNo : ℤ :=
  150

/-! ## The functions of the script -/

/-- `closeDialog` -/
def closeDialog (removeShade : Bool) (s : PayPanel) : PayPanel :=
  { s with
    visible := fun d => if s.currentDialog = some d then false else s.visible d
    hasDialog := if removeShade then false else s.hasDialog }

/-- `commonInit` : it appends the dialog that is current now, not the one it was called for. -/
def commonInit (s : PayPanel) : PayPanel :=
  match s.currentDialog with
  | some d =>
    { s with
      rendered := Function.update s.rendered d true
      visible := Function.update s.visible d true }
  | none => { s with raised := true }

/-- `commonShow` -/
def commonShow (s : PayPanel) : PayPanel :=
  match s.currentDialog with
  | some d => { s with visible := Function.update s.visible d (s.rendered d) }
  | none => s

/-- The method `show` of each dialog. -/
def showDialog : Dialog → PayPanel → PayPanel
  | .good, s => s.commonShow
  | .pay, s => { s with consumes := .shown :: s.consumes }
  -- `btnInfo['failed'][idx]` : there is no variable `idx`
  | .failed, s => { s with raised := true }
  -- no such method
  | .success, s | .timeOut, s => { s with raised := true }

/-- The method `init` of each dialog. -/
def initOf : Dialog → PayPanel → PayPanel
  | .good, s => { s with goods := s.goods + 1 }
  | .pay, s => { s with consumes := .init :: s.consumes }
  | .success, s | .failed, s | .timeOut, s => s.commonInit

/-- `initDialog` -/
def initDialog (dialogType : Dialog) (s : PayPanel) : PayPanel :=
  let s := { s with currentDialog := some dialogType }
  if dialogType ∈ s.openedDialogArr then s.showDialog dialogType
  else
    let s := s.initOf dialogType
    { s with openedDialogArr := s.openedDialogArr ++ [dialogType] }

/-- `getPayResult` -/
def getPayResult (orderId : ℕ) (totalNo : ℤ) (s : PayPanel) : PayPanel :=
  { s with chain :=
      Function.update s.chain orderId (if s.userCancel then none else some (.request totalNo)) }

/-- `storageUserPayPrivileges`, for the order that was paid : it sends `check_playauth`. -/
def storageUserPayPrivileges (orderId : ℕ) (s : PayPanel) : PayPanel :=
  { s with playauth := Function.update s.playauth orderId true }

/-- The reply to `check_orderstate`. -/
def checked (orderId : ℕ) (totalNo : ℤ) (status : ℕ) (s : PayPanel) : PayPanel :=
  let s := { s with chain := Function.update s.chain orderId none }
  if s.userCancel then s
  else if status = 300 ∨ status = 400 then
    let totalNo := totalNo - 1
    if totalNo = 0 then
      { s with chain := Function.update s.chain orderId (some (.timer totalNo 300000)) }
    else if totalNo < 0 then (s.closeDialog false).initDialog .timeOut
    else { s with chain := Function.update s.chain orderId (some (.timer totalNo 5000)) }
  else if status = 200 then
    ((s.closeDialog false).storageUserPayPrivileges orderId).initDialog .success
  else if status = 500 ∨ status = 600 then (s.closeDialog false).initDialog .failed
  else s

/-- The reply to `do_consume` with status `200`. -/
def consumed (callback : Callback) (s : PayPanel) : PayPanel :=
  let orderId := s.orders
  let s := { s with consumes := s.consumes.erase callback, orders := s.orders + 1 }
  match callback with
  | .init =>
    let s := { s with payOrder := if s.currentDialog = some Dialog.pay then some orderId else s.payOrder }
    ({ s.commonInit with userCancel := false } : PayPanel).getPayResult orderId getPayResTotalNo
  | .shown =>
    if s.rendered .pay then
      let s := { s with payOrder := some orderId }
      ({ s.commonShow with userCancel := false } : PayPanel).getPayResult orderId getPayResTotalNo
    -- `btnInfo['pay']` is not there yet
    else { s with raised := true }

/-- OK on button `idx` of a dialog, its method `btn`. -/
def btn : Dialog → ℕ → PayPanel → PayPanel
  | .good, idx, s =>
    if idx = 0 then (s.closeDialog false).initDialog .pay else s.closeDialog true
  | .pay, idx, s =>
    let s := { s with userCancel := true, cancelled := s.payOrder.toList ++ s.cancelled }
    if idx = 0 then (s.closeDialog false).initDialog .good
    else if idx = 1 then s.closeDialog true else s
  | .success, _, s => s.closeDialog true
  | .failed, idx, s =>
    if idx = 0 then (s.closeDialog false).initDialog .good
    else if idx = 1 then s.closeDialog true else s
  -- its keys are not bound
  | .timeOut, _, s => s

end PayPanel

inductive PayEvent
  /-- `OTT.payPanel` -/
  | payPanel
  /-- The reply to the request for the list of goods; `none` if the request fails. -/
  | goods (status : Option ℕ)
  /-- OK on button `idx` of the dialog. -/
  | press (dialog : Dialog) (idx : ℕ)
  /-- The reply to `do_consume`. -/
  | consumed (callback : Callback) (status : Option ℕ)
  /-- The timer of the order fires. -/
  | timer (orderId : ℕ)
  /-- The reply to `check_orderstate`. -/
  | checked (orderId : ℕ) (status : Option ℕ)
  /-- The reply to `check_playauth`. -/
  | playauth (orderId : ℕ) (status : Option ℕ)

namespace PayPanel

/-- One event of the page. -/
def step (s : PayPanel) : PayEvent → Option PayPanel
  | .payPanel => some (({ s with hasDialog := true } : PayPanel).initDialog .good)
  | .goods status =>
    if 0 < s.goods then
      let s := { s with goods := s.goods - 1 }
      some (if status = some 200 then s.commonInit else s)
    else none
  | .press dialog idx =>
    if s.visible dialog ∧ s.hasDialog then some (s.btn dialog idx) else none
  | .consumed callback status =>
    if callback ∈ s.consumes then
      some (if status = some 200 then s.consumed callback
        else { s with consumes := s.consumes.erase callback })
    else none
  | .timer orderId =>
    match s.chain orderId with
    | some (.timer totalNo _) => some (s.getPayResult orderId totalNo)
    | _ => none
  | .checked orderId status =>
    match s.chain orderId, status with
    | some (.request totalNo), some status => some (s.checked orderId totalNo status)
    | some (.request _), none => some { s with chain := Function.update s.chain orderId none }
    | _, _ => none
  | .playauth orderId status =>
    if s.playauth orderId then
      let s := { s with playauth := Function.update s.playauth orderId false }
      -- a failed request writes nothing; any reply stores `account_info`
      some (if status.isSome then { s with written := orderId :: s.written } else s)
    else none

end PayPanel

/-- The order that a timer or a reply belongs to. -/
def PayEvent.orderId : PayEvent → Option ℕ
  | .timer orderId | .checked orderId _ | .playauth orderId _ => some orderId
  | _ => none

namespace PayPanel

/-- Nothing that is visible or stored differs. -/
structure Same (s s' : PayPanel) : Prop where
  visible : s'.visible = s.visible
  currentDialog : s'.currentDialog = s.currentDialog
  hasDialog : s'.hasDialog = s.hasDialog
  written : s'.written = s.written

/-- A timer or reply of a cancelled order closes no dialog, opens none and writes nothing. -/
def Quiet (s : PayPanel) (e : PayEvent) (s' : PayPanel) : Prop :=
  ∀ orderId, e.orderId = some orderId → orderId ∈ s.cancelled → Same s s'

/-- `OTT.payPanel` is called while no dialog is open, and when the reply to `do_consume`
takes `userCancel` back, no cancelled order has a timer or a request left. -/
def Settled (s : PayPanel) : PayEvent → Prop
  | .payPanel => s.hasDialog = false
  | .consumed _ status => status = some 200 → ∀ orderId ∈ s.cancelled, s.chain orderId = none
  | _ => True

/-! ## The invariant -/

/-- What holds of the orders, whatever the dialogs. -/
structure Tidy (s : Orders) : Prop where
  dropped : s.userCancel = false → ∀ o ∈ s.cancelled, s.chain o = none
  paid : ∀ o, s.playauth o = true → o ∉ s.cancelled
  placed : ∀ o, s.orders ≤ o →
    s.chain o = none ∧ s.playauth o = false ∧ o ∉ s.cancelled ∧ s.payOrder ≠ some o

/-- No dialog is visible or on its way, and every chain left is of a cancelled order. -/
structure Idle (s : PayPanel) : Prop where
  tidy : Tidy s.toOrders
  blank : ∀ d, s.visible d = false
  goods : s.goods = 0
  consumes : s.consumes = []
  dead : ∀ o, s.chain o ≠ none → o ∈ s.cancelled

/-- At most one dialog is visible, the current one. What is in flight goes with the current
dialog : the list of goods with `good`, the order with `pay`, and with `pay` as well the only
chain of an order that is not cancelled, the order that the dialog shows. -/
structure Calm (s : PayPanel) : Prop where
  tidy : Tidy s.toOrders
  shown : ∀ d, s.visible d = true → s.currentDialog = some d
  closed : s.hasDialog = false → ∀ d, s.visible d = false
  listing : s.goods ≠ 0 → s.goods = 1 ∧ s.currentDialog = some .good ∧ s.hasDialog = true ∧
    ∀ d, s.visible d = false
  ordering : s.consumes ≠ [] → (∃ c, s.consumes = [c]) ∧ s.currentDialog = some .pay ∧
    s.hasDialog = true ∧ ∀ d, s.visible d = false
  live : ∀ o, s.chain o ≠ none → o ∉ s.cancelled → s.payOrder = some o ∧
    s.currentDialog = some .pay ∧ s.hasDialog = true ∧ s.consumes = []
  unpaid : s.visible .pay = true → ∀ o, s.payOrder = some o → s.playauth o = false

variable {s s' : PayPanel}

theorem Idle.calm (h : s.Idle) : s.Calm where
  tidy := h.tidy
  shown d hd := absurd hd (by simp [h.blank d])
  closed _ := h.blank
  listing hg := absurd h.goods hg
  ordering hc := absurd h.consumes hc
  live o ho hn := absurd (h.dead o ho) hn
  unpaid hd := absurd hd (by simp [h.blank])

theorem start_idle : start.Idle where
  tidy := ⟨fun _ _ h => absurd h List.not_mem_nil, fun _ h => absurd h Bool.false_ne_true,
    fun _ _ => ⟨rfl, rfl, List.not_mem_nil, by simp [start]⟩⟩
  blank _ := rfl
  goods := rfl
  consumes := rfl
  dead _ h := absurd rfl h

/-- Display the current dialog, unless it is `pay`. -/
theorem Idle.display (h : s.Idle) (hs : s.hasDialog = true) {d : Dialog} (hd : d ≠ .pay)
    (v : Bool) (opened : List Dialog) (rendered : Dialog → Bool) :
    ({ s with
      currentDialog := some d, openedDialogArr := opened, rendered
      visible := Function.update s.visible d v } : PayPanel).Calm where
  tidy := h.tidy
  shown d' hd' := by
    by_cases hdd : d' = d
    · rw [hdd]
    · simp [Function.update_of_ne hdd, h.blank d'] at hd'
  closed hs' := absurd (hs.symm.trans hs') (by decide)
  listing hg := absurd h.goods hg
  ordering hc := absurd h.consumes hc
  live o ho hn := absurd (h.dead o ho) hn
  unpaid hp := by
    simp [Function.update_of_ne hd.symm, h.blank] at hp

/-- From an idle page, `initDialog` shows its dialog, asks for the goods or posts the order. -/
theorem Idle.initDialog (h : s.Idle) (hs : s.hasDialog = true) (d : Dialog) :
    (s.initDialog d).Calm := by
  have hidle : ∀ opened raised, ({ s with
      currentDialog := some d, openedDialogArr := opened, raised } : PayPanel).Calm :=
    fun opened raised => Idle.calm
      (s := { s with currentDialog := some d, openedDialogArr := opened, raised })
      ⟨h.tidy, h.blank, h.goods, h.consumes, h.dead⟩
  have hpost : ∀ opened c, ({ s with
      currentDialog := some .pay, openedDialogArr := opened
      consumes := c :: s.consumes } : PayPanel).Calm := fun _ c => by
    obtain ⟨htidy, hblank, hgoods, hconsumes, hdead⟩ := h
    refine ⟨htidy, fun d hd => absurd hd (by simp [hblank d]), fun _ => hblank,
      fun hg => absurd hgoods hg, fun _ => ⟨⟨c, by rw [hconsumes]⟩, rfl, hs, hblank⟩,
      fun o ho hn => absurd (hdead o ho) hn, fun hd => absurd hd (by simp [hblank])⟩
  unfold PayPanel.initDialog
  by_cases hopened : d ∈ s.openedDialogArr
  · rw [if_pos hopened]
    cases d with
    | good => exact h.display hs (by decide) _ _ _
    | pay => exact hpost _ _
    | success | failed | timeOut => exact hidle _ _
  · rw [if_neg hopened]
    cases d with
    | good =>
      obtain ⟨htidy, hblank, hgoods, hconsumes, hdead⟩ := h
      exact ⟨htidy, fun d hd => absurd hd (by simp [initOf, hblank d]), fun _ => hblank,
        fun _ => ⟨by simp [initOf, hgoods], rfl, hs, hblank⟩, fun hc => absurd hconsumes hc,
        fun o ho hn => absurd (hdead o ho) hn, fun hd => absurd hd (by simp [initOf, hblank])⟩
    | pay => exact hpost _ _
    | success | failed | timeOut => exact h.display hs (by decide) _ _ _

/-- Closing the current dialog leaves an idle page if nothing is on its way. -/
theorem Calm.closeDialog (h : s.Calm) (hgoods : s.goods = 0) (hconsumes : s.consumes = [])
    (hdead : ∀ o, s.chain o ≠ none → o ∈ s.cancelled) (b : Bool) : (s.closeDialog b).Idle where
  tidy := h.tidy
  blank d := by
    unfold PayPanel.closeDialog
    dsimp only
    by_cases hd : s.visible d = true
    · rw [if_pos (h.shown d hd)]
    · simp [hd]
  goods := hgoods
  consumes := hconsumes
  dead := hdead

/-- The goods are asked for by their own dialog only. -/
theorem Calm.goods_eq_zero (h : s.Calm) (hcur : s.currentDialog ≠ some .good) : s.goods = 0 := by
  by_contra hg
  obtain ⟨-, hgood, -, -⟩ := h.listing hg
  exact hcur hgood

/-- While a dialog is visible nothing is on its way. -/
theorem Calm.still (h : s.Calm) {d : Dialog} (hd : s.visible d = true) :
    s.goods = 0 ∧ s.consumes = [] := by
  constructor
  · by_contra hg
    obtain ⟨-, -, -, hblank⟩ := h.listing hg
    simp [hblank d] at hd
  · by_contra hc
    obtain ⟨-, -, -, hblank⟩ := h.ordering hc
    simp [hblank d] at hd

/-- Back and cancel on `pay` make the order on it a cancelled one. -/
theorem Calm.cancel (h : s.Calm) (hd : s.visible .pay = true) :
    let s' := { s with userCancel := true, cancelled := s.payOrder.toList ++ s.cancelled }
    s'.Calm ∧ ∀ o, s'.chain o ≠ none → o ∈ s'.cancelled := by
  obtain ⟨htidy, hshown, hclosed, hlisting, hordering, hlive, hunpaid⟩ := h
  have hmem : ∀ o, o ∈ s.payOrder.toList ++ s.cancelled ↔ s.payOrder = some o ∨ o ∈ s.cancelled := by
    simp
  have hdead : ∀ o, s.chain o ≠ none → o ∈ s.payOrder.toList ++ s.cancelled := fun o ho => by
    by_cases hn : o ∈ s.cancelled
    · exact (hmem o).mpr (.inr hn)
    · exact (hmem o).mpr (.inl (hlive o ho hn).1)
  refine ⟨⟨⟨fun huser => absurd huser (by simp), fun o ho => ?_, fun o ho => ?_⟩, hshown, hclosed,
    hlisting, hordering, fun o ho hn => absurd (hdead o ho) hn, hunpaid⟩, hdead⟩
  · rw [hmem]
    rintro (hpay | hc)
    · simp [hunpaid hd o hpay] at ho
    · exact htidy.paid o ho hc
  · obtain ⟨hchain, hauth, hc, hpay⟩ := htidy.placed o ho
    exact ⟨hchain, hauth, fun hm => ((hmem o).mp hm).elim hpay hc, hpay⟩

theorem Calm.btn (h : s.Calm) {d : Dialog} (hd : s.visible d = true) (hs : s.hasDialog = true)
    (i : ℕ) : (s.btn d i).Calm := by
  obtain ⟨hgoods, hconsumes⟩ := h.still hd
  by_cases hpay : d = .pay
  · subst hpay
    obtain ⟨hcalm, hdead⟩ := h.cancel hd
    have hidle := hcalm.closeDialog hgoods hconsumes hdead
    unfold PayPanel.btn
    dsimp only
    split_ifs
    · exact (hidle false).initDialog hs _
    · exact (hidle true).calm
    · exact hcalm
  · -- a live chain goes with the dialog `pay`
    have hdead : ∀ o, s.chain o ≠ none → o ∈ s.cancelled := fun o ho => by
      by_contra hn
      obtain ⟨-, hcur, -, -⟩ := h.live o ho hn
      exact hpay (Option.some.inj ((h.shown d hd).symm.trans hcur))
    have hidle := h.closeDialog hgoods hconsumes hdead
    cases d with
    | good =>
      unfold PayPanel.btn
      dsimp only
      split_ifs
      · exact (hidle false).initDialog hs _
      · exact (hidle true).calm
    | pay => exact absurd rfl hpay
    | success => exact (hidle true).calm
    | failed =>
      unfold PayPanel.btn
      dsimp only
      split_ifs
      · exact (hidle false).initDialog hs _
      · exact (hidle true).calm
      · exact h
    | timeOut => exact h

/-- The list of goods is the only thing on its way. -/
theorem Calm.goods (h : s.Calm) (hg : 0 < s.goods) :
    s.currentDialog = some .good ∧ s.hasDialog = true ∧ ({ s with goods := s.goods - 1 } : PayPanel).Idle := by
  obtain ⟨hone, hcur, hs, hblank⟩ := h.listing (by omega)
  have hconsumes : s.consumes = [] := by
    by_contra hc
    obtain ⟨-, hcur', -, -⟩ := h.ordering hc
    exact absurd (hcur.symm.trans hcur') (by decide)
  refine ⟨hcur, hs, h.tidy, hblank, by dsimp only; omega, hconsumes, fun o ho => ?_⟩
  by_contra hn
  obtain ⟨-, hcur', -, -⟩ := h.live o ho hn
  exact absurd (hcur.symm.trans hcur') (by decide)

/-- The order posted is the only thing on its way. -/
theorem Calm.consumes (h : s.Calm) {c : Callback} (hc : c ∈ s.consumes) :
    s.currentDialog = some .pay ∧ s.hasDialog = true ∧
      ({ s with consumes := s.consumes.erase c } : PayPanel).Idle := by
  have hne : s.consumes ≠ [] := List.ne_nil_of_mem hc
  obtain ⟨⟨c', hone⟩, hcur, hs, hblank⟩ := h.ordering hne
  have hgoods := h.goods_eq_zero (by simp [hcur])
  refine ⟨hcur, hs, h.tidy, hblank, hgoods, ?_, fun o ho => ?_⟩
  · obtain rfl : c = c' := by simpa [hone] using hc
    simp [hone]
  · by_contra hn
    exact hne (h.live o ho hn).2.2.2

/-- The chain of a new order, where all others have ended. -/
theorem eq_of_update_ne_none {chain : ℕ → Option Poll} (hnone : ∀ o, chain o = none) {n o : ℕ}
    {p : Option Poll} (ho : Function.update chain n p o ≠ none) : o = n := by
  by_contra hne
  simp [Function.update_of_ne hne, hnone o] at ho

theorem Tidy.place {s : Orders} (h : Tidy s) (hnone : ∀ o, s.chain o = none) (p : Option Poll) :
    Tidy { s with
      userCancel := false, orders := s.orders + 1, payOrder := some s.orders
      chain := Function.update s.chain s.orders p } := by
  refine ⟨fun _ o ho => ?_, h.paid, fun o ho => ?_⟩
  · by_contra hne
    obtain rfl := eq_of_update_ne_none hnone hne
    exact (h.placed _ le_rfl).2.2.1 ho
  · dsimp only at ho
    obtain ⟨-, hauth, hc, -⟩ := h.placed o (by omega)
    refine ⟨?_, hauth, hc, fun heq => ?_⟩
    · by_contra hne
      have := eq_of_update_ne_none hnone hne
      omega
    · have := Option.some.inj heq
      omega

/-- The order goes with the dialog `pay`, and its chain is the only one. -/
theorem Idle.place (h : s.Idle) (hcur : s.currentDialog = some .pay) (hs : s.hasDialog = true)
    (hnone : ∀ o, s.chain o = none) (rendered : Dialog → Bool) (v : Bool) (p : Option Poll) :
    ({ s with
      userCancel := false, orders := s.orders + 1, payOrder := some s.orders
      chain := Function.update s.chain s.orders p, rendered
      visible := Function.update s.visible .pay v } : PayPanel).Calm where
  tidy := h.tidy.place hnone p
  shown d hd := by
    by_cases hd' : d = .pay
    · rw [hd']
      exact hcur
    · simp [Function.update_of_ne hd', h.blank d] at hd
  closed hs' := absurd (hs.symm.trans hs') (by decide)
  listing hg := absurd h.goods hg
  ordering hc := absurd h.consumes hc
  live o ho _ := ⟨by rw [eq_of_update_ne_none hnone ho], hcur, hs, h.consumes⟩
  unpaid _ o ho := by
    obtain rfl := Option.some.inj ho
    exact (h.tidy.placed _ le_rfl).2.1

/-- The reply to `do_consume` shows the order and starts its chain, the only one. -/
theorem Calm.consumed (h : s.Calm) {c : Callback} (hc : c ∈ s.consumes)
    (hset : ∀ o ∈ s.cancelled, s.chain o = none) : (s.consumed c).Calm := by
  obtain ⟨hcur, hs, hidle⟩ := h.consumes hc
  have hnone : ∀ o, s.chain o = none := fun o => by
    by_contra ho
    exact ho (hset o (hidle.dead o ho))
  cases c with
  | init =>
    have := hidle.place hcur hs hnone (Function.update s.rendered .pay true) true
      (some (.request getPayResTotalNo))
    simpa [PayPanel.consumed, commonInit, getPayResult, hcur] using this
  | shown =>
    by_cases hr : s.rendered .pay = true
    · have := hidle.place hcur hs hnone s.rendered true (some (.request getPayResTotalNo))
      simpa [PayPanel.consumed, commonShow, getPayResult, hcur, hr] using this
    · obtain ⟨htidy, hblank, hgoods, hconsumes, hdead⟩ := hidle
      have hidle' : ({ s with
          orders := s.orders + 1, consumes := s.consumes.erase .shown, raised := true } :
            PayPanel).Idle :=
        ⟨⟨htidy.dropped, htidy.paid, fun o ho => htidy.placed o (by dsimp only at ho ⊢; omega)⟩,
          hblank, hgoods, hconsumes, hdead⟩
      simpa [PayPanel.consumed, hr] using hidle'.calm

/-- A chain that is there goes on, or ends. -/
theorem Calm.setChain (h : s.Calm) {o : ℕ} (ho : s.chain o ≠ none) (p : Option Poll) :
    ({ s with chain := Function.update s.chain o p } : PayPanel).Calm := by
  obtain ⟨htidy, hshown, hclosed, hlisting, hordering, hlive, hunpaid⟩ := h
  have hkept : ∀ o', s.chain o' = none → Function.update s.chain o p o' = none := fun o' hnone => by
    have hne : o' ≠ o := fun heq => ho (by rw [← heq, hnone])
    rw [Function.update_of_ne hne, hnone]
  refine ⟨⟨fun huser o' hc => hkept o' (htidy.dropped huser o' hc), htidy.paid, fun o' hp => ?_⟩, hshown,
    hclosed, hlisting, hordering, fun o' ho' hn => ?_, hunpaid⟩
  · obtain ⟨hchain, hrest⟩ := htidy.placed o' hp
    exact ⟨hkept o' hchain, hrest⟩
  · exact hlive o' (fun hnone => ho' (hkept o' hnone)) hn

/-- The last word on the order on the dialog `pay` : the dialog closes, and nothing is left. -/
theorem Calm.close (h : s.Calm) {o : ℕ} (ho : s.chain o ≠ none) (huser : s.userCancel = false) :
    s.hasDialog = true ∧ o ∉ s.cancelled ∧
      (({ s with chain := Function.update s.chain o none } : PayPanel).closeDialog false).Idle := by
  have hn : o ∉ s.cancelled := fun hc => ho (h.tidy.dropped huser o hc)
  obtain ⟨hpay, hcur, hs, hconsumes⟩ := h.live o ho hn
  have hgoods := h.goods_eq_zero (by simp [hcur])
  refine ⟨hs, hn, (h.setChain ho none).closeDialog hgoods hconsumes (fun o' ho' => ?_) false⟩
  by_contra hn'
  have hne : o' ≠ o := fun heq => by simp [heq] at ho'
  dsimp only at ho'
  rw [Function.update_of_ne hne] at ho'
  have hpay' := (h.live o' ho' hn').1
  exact hne (Option.some.inj (hpay'.symm.trans hpay))

theorem Idle.pay (h : s.Idle) {o : ℕ} (hn : o ∉ s.cancelled) (hp : o < s.orders) :
    (s.storageUserPayPrivileges o).Idle := by
  refine ⟨⟨h.tidy.dropped, fun o' hauth => ?_, fun o' hp' => ?_⟩, h.blank, h.goods, h.consumes, h.dead⟩
  · by_cases heq : o' = o
    · rw [heq]
      exact hn
    · unfold storageUserPayPrivileges at hauth
      dsimp only at hauth
      rw [Function.update_of_ne heq] at hauth
      exact h.tidy.paid o' hauth
  · have hne : o' ≠ o := fun heq => by
      have hle : s.orders ≤ o' := hp'
      omega
    obtain ⟨hchain, hauth, hrest⟩ := h.tidy.placed o' hp'
    refine ⟨hchain, ?_, hrest⟩
    unfold storageUserPayPrivileges
    dsimp only
    rw [Function.update_of_ne hne, hauth]

theorem Calm.checked (h : s.Calm) {o : ℕ} (ho : s.chain o ≠ none) (n : ℤ) (status : ℕ) :
    (s.checked o n status).Calm := by
  have hend := h.setChain ho none
  by_cases huser : s.userCancel = true
  · simpa [PayPanel.checked, huser] using hend
  · obtain ⟨hs, hn, hidle⟩ := h.close ho (by simpa using huser)
    unfold PayPanel.checked
    dsimp only
    rw [if_neg huser]
    split_ifs
    · have := h.setChain ho (some (.timer (n - 1) 300000))
      simpa using this
    · exact hidle.initDialog hs _
    · have := h.setChain ho (some (.timer (n - 1) 5000))
      simpa using this
    · have hp : o < s.orders := by
        by_contra hp
        exact ho (h.tidy.placed o (by omega)).1
      exact (hidle.pay hn hp).initDialog hs _
    · exact hidle.initDialog hs _
    · exact hend

theorem Calm.playauth (h : s.Calm) (o : ℕ) (written : List ℕ) :
    ({ s with playauth := Function.update s.playauth o false, written } : PayPanel).Calm := by
  obtain ⟨htidy, hshown, hclosed, hlisting, hordering, hlive, hunpaid⟩ := h
  have hless : ∀ o', Function.update s.playauth o false o' = true → s.playauth o' = true :=
    fun o' hauth => by
      by_cases heq : o' = o
      · simp [heq] at hauth
      · rwa [Function.update_of_ne heq] at hauth
  have hnone : ∀ o', s.playauth o' = false → Function.update s.playauth o false o' = false :=
    fun o' hauth => by
      by_contra hne
      simp [hless o' (by simpa using hne)] at hauth
  refine ⟨⟨htidy.dropped, fun o' hauth => htidy.paid o' (hless o' hauth), fun o' hp => ?_⟩, hshown,
    hclosed, hlisting, hordering, hlive, fun hd o' ho' => hnone o' (hunpaid hd o' ho')⟩
  obtain ⟨hchain, hauth, hrest⟩ := htidy.placed o' hp
  exact ⟨hchain, hnone o' hauth, hrest⟩

theorem step_timer {o : ℕ} (hstep : s.step (.timer o) = some s') :
    ∃ n, s.chain o ≠ none ∧ s' = s.getPayResult o n := by
  cases hchain : s.chain o with
  | none => simp [step, hchain] at hstep
  | some p =>
    cases p with
    | request n => simp [step, hchain] at hstep
    | timer n delay =>
      simp only [step, hchain, Option.some.injEq] at hstep
      exact ⟨n, Option.some_ne_none _, hstep.symm⟩

theorem step_checked {o : ℕ} {status : Option ℕ} (hstep : s.step (.checked o status) = some s') :
    ∃ n, s.chain o = some (.request n) ∧
      (status = none ∧ s' = { s with chain := Function.update s.chain o none } ∨
        ∃ code, status = some code ∧ s' = s.checked o n code) := by
  cases hchain : s.chain o with
  | none => simp [step, hchain] at hstep
  | some p =>
    cases p with
    | timer n delay => simp [step, hchain] at hstep
    | request n =>
      refine ⟨n, rfl, ?_⟩
      cases status with
      | none =>
        simp only [step, hchain, Option.some.injEq] at hstep
        exact .inl ⟨rfl, hstep.symm⟩
      | some code =>
        simp only [step, hchain, Option.some.injEq] at hstep
        exact .inr ⟨code, rfl, hstep.symm⟩

theorem Calm.step (h : s.Calm) {e : PayEvent} (hok : s.Settled e) (hstep : s.step e = some s') :
    s'.Calm := by
  cases e with
  | payPanel =>
    obtain rfl := Option.some.inj hstep
    have hclosed : s.hasDialog = false := hok
    refine Idle.initDialog (s := { s with hasDialog := true })
      ⟨h.tidy, h.closed hclosed, ?_, ?_, fun o ho => ?_⟩ rfl _
    · by_contra hg
      simp [(h.listing hg).2.2.1] at hclosed
    · by_contra hc
      simp [(h.ordering hc).2.2.1] at hclosed
    · by_contra hn
      simp [(h.live o ho hn).2.2.1] at hclosed
  | goods status =>
    simp only [PayPanel.step, Option.ite_none_right_eq_some, Option.some.injEq] at hstep
    obtain ⟨hg, rfl⟩ := hstep
    obtain ⟨hcur, hs, hidle⟩ := h.goods hg
    split_ifs
    · have := hidle.display hs (d := .good) (by decide) true s.openedDialogArr
        (Function.update s.rendered .good true)
      simpa [commonInit, hcur] using this
    · exact hidle.calm
  | press d i =>
    simp only [PayPanel.step, Option.ite_none_right_eq_some, Option.some.injEq] at hstep
    obtain ⟨⟨hd, hs⟩, rfl⟩ := hstep
    exact h.btn hd hs i
  | consumed c status =>
    simp only [PayPanel.step, Option.ite_none_right_eq_some, Option.some.injEq] at hstep
    obtain ⟨hc, rfl⟩ := hstep
    split_ifs with hstatus
    · exact h.consumed hc (hok hstatus)
    · exact (h.consumes hc).2.2.calm
  | timer o =>
    obtain ⟨n, ho, rfl⟩ := step_timer hstep
    exact h.setChain ho _
  | checked o status =>
    obtain ⟨n, hchain, hs'⟩ := step_checked hstep
    have ho : s.chain o ≠ none := by simp [hchain]
    rcases hs' with ⟨-, rfl⟩ | ⟨code, -, rfl⟩
    · exact h.setChain ho _
    · exact h.checked ho n code
  | playauth o status =>
    simp only [PayPanel.step, Option.ite_none_right_eq_some, Option.some.injEq] at hstep
    obtain ⟨-, rfl⟩ := hstep
    split_ifs
    · exact h.playauth o _
    · exact h.playauth o _

/-- What belongs to a cancelled order is quiet : its chain ends at the flag, and no payment
of it is being looked up. -/
theorem Calm.quiet (h : s.Calm) {e : PayEvent} (hstep : s.step e = some s') : s.Quiet e s' := by
  intro o ho hc
  cases e with
  | payPanel | goods status | press d i | consumed c status => cases ho
  | timer o' =>
    cases ho
    obtain ⟨n, -, rfl⟩ := step_timer hstep
    exact ⟨rfl, rfl, rfl, rfl⟩
  | checked o' status =>
    cases ho
    obtain ⟨n, hchain, ⟨-, rfl⟩ | ⟨code, -, rfl⟩⟩ := step_checked hstep
    · exact ⟨rfl, rfl, rfl, rfl⟩
    · have huser : s.userCancel = true := by
        by_contra huser
        simp [h.tidy.dropped (by simpa using huser) o hc] at hchain
      unfold PayPanel.checked
      dsimp only
      rw [if_pos huser]
      exact ⟨rfl, rfl, rfl, rfl⟩
  | playauth o' status =>
    cases ho
    simp only [PayPanel.step, Option.ite_none_right_eq_some, Option.some.injEq] at hstep
    exact absurd hc (h.tidy.paid o hstep.1)

/-- In a run that opens the panel only while no dialog is open, and in which every order is
confirmed after the chains of the cancelled orders have ended, no timer and no reply of a
cancelled order closes a dialog, opens one or writes the privileges. -/
theorem quiet_of_settled {es : List PayEvent} (hes : Each step Settled start es) :
    Steps step Quiet start es :=
  Steps.mono_of_invariant (fun _ _ _ h hstep hok => h.step hok hstep)
    (fun _ _ _ h hstep _ => h.quiet hstep) start_idle.calm hes

/-- Back on the first order, and a second one : the flag is taken back while the timer of the
first is running, and its next reply closes the dialog of the second. -/
theorem cancelled_reply_acts :
    ∃ t, run step start [.payPanel, .goods (some 200), .press .good 0, .consumed .init (some 200),
        .checked 0 (some 300), .press .pay 0, .press .good 0, .consumed .shown (some 200),
        .timer 0] = some t ∧
      0 ∈ t.cancelled ∧ t.visible .pay = true ∧ t.payOrder = some 1 ∧
      ∃ t', t.step (.checked 0 (some 200)) = some t' ∧ t'.visible .pay = false ∧
        t'.visible .success = true ∧ t'.playauth 0 = true ∧ ¬Quiet t (.checked 0 (some 200)) t' := by
  refine ⟨_, rfl, by decide, by decide, by decide, _, rfl, by decide, by decide, by decide, fun h => ?_⟩
  have hsame := (h 0 rfl (by decide)).currentDialog
  exact absurd hsame (by decide)

/-- Cancel while the request is in flight : its reply does nothing. -/
theorem cancelled_reply_dropped :
    Steps step Quiet start [.payPanel, .goods (some 200), .press .good 0, .consumed .init (some 200),
      .press .pay 1, .checked 0 (some 200)] :=
  quiet_of_settled (.cons rfl rfl (.cons rfl trivial (.cons rfl trivial
    (.cons rfl (fun _ _ ho => absurd ho List.not_mem_nil) (.cons rfl trivial
      (.cons rfl trivial trivial))))))

end PayPanel

end MySocket
