import Mathlib.Data.List.Basic
import MySocket.Trace

/-!
# The loading indicator

`sendRequest` of `common.js` shows `#tip_loading` before the request goes out and hides it
when the request has ended, whatever other requests are still out. `hasOverlay`, which the
dialogs ask before they handle a key, looks at what is visible.

* `covered_iff` : the indicator is visible exactly while a request is out, in the runs in
  which no request ends that leaves another one out, its callback's own included.
-/

namespace MySocket

/-- A call of `sendRequest`. -/
structure SendRequest where
  url : String
  /-- `options.showLoading` -/
  showLoading : Option Bool
  deriving DecidableEq

namespace SendRequest

/-- `settings.showLoading` -/
def shows (r : SendRequest) : Bool :=
  r.showLoading.getD true

end SendRequest

structure LoadingPage where
  /-- `#tip_loading` is visible. -/
  tipLoading : Bool
  /-- `#spinner` is visible. -/
  spinner : Bool
  /-- `#download-tips` is visible. -/
  downloadTips : Bool
  /-- The requests that have neither succeeded nor failed. -/
  requests : List SendRequest

inductive LoadingEvent
  | sent (r : SendRequest)
  /-- The request succeeds or fails, the time-out included, and its callback sends `further`. -/
  | ended (r : SendRequest) (further : List SendRequest)

namespace LoadingPage

/-- A page that shows no loading indicator. -/
def start (downloadTips : Bool) : LoadingPage where
  tipLoading := false
  spinner := false
  downloadTips := downloadTips
  requests := []

/-! ## The functions of the script -/

def hasOverlay (s : LoadingPage) : Bool :=
  s.tipLoading || s.spinner || s.downloadTips

def hideLoading (s : LoadingPage) : LoadingPage :=
  { s with tipLoading := false, spinner := false }

def sendRequest (s : LoadingPage) (r : SendRequest) : LoadingPage :=
  { s with tipLoading := if r.shows then true else s.tipLoading, requests := r :: s.requests }

/-- The handlers of `done` and of `fail` : the callback of the settings, then `hideLoading`. -/
def handler (further : List SendRequest) (s : LoadingPage) : LoadingPage :=
  (further.foldl sendRequest s).hideLoading

/-- The handler of `keydown` in `bindKeyEventGood` gets to the key. -/
def bindKeyEventGood (hasDialog : Bool) (s : LoadingPage) : Bool :=
  !(s.hasOverlay || !hasDialog)

def step (s : LoadingPage) : LoadingEvent → Option LoadingPage
  | .sent r => some (s.sendRequest r)
  | .ended r further =>
    if r ∈ s.requests then
      some (({ s with requests := s.requests.erase r } : LoadingPage).handler further)
    else none

/-! ## The property -/

/-- A request is out that asked for the indicator. -/
def Outstanding (s : LoadingPage) : Prop :=
  ∃ r ∈ s.requests, r.shows = true

/-- The indicator covers the requests that are out, and only these. -/
structure Covered (s : LoadingPage) : Prop where
  visible : s.Outstanding → s.tipLoading = true
  overlay : s.Outstanding → s.hasOverlay = true
  blocked : s.Outstanding → ∀ hasDialog, s.bindKeyEventGood hasDialog = false
  hidden : ¬s.Outstanding → s.tipLoading = false

/-- The event does not end a request while another one is out, or is sent by its callback. -/
def LeavesNone (s : LoadingPage) : LoadingEvent → Prop
  | .sent _ => True
  | .ended r further => ∀ q, q ∈ further ∨ q ∈ s.requests.erase r → q.shows = false

/-! ## One step -/

theorem covered_iff_tipLoading {s : LoadingPage} :
    s.Covered ↔ (s.tipLoading = true ↔ s.Outstanding) := by
  constructor
  · intro h
    refine ⟨fun htip => ?_, h.visible⟩
    by_contra hnone
    simp [h.hidden hnone] at htip
  · intro h
    have hoverlay : s.Outstanding → s.hasOverlay = true := fun hout => by
      simp [hasOverlay, h.mpr hout]
    refine ⟨h.mpr, hoverlay, fun hout hasDialog => ?_, fun hnone => ?_⟩
    · simp [bindKeyEventGood, hoverlay hout]
    · exact Bool.eq_false_iff.mpr fun htip => hnone (h.mp htip)

theorem covered_start (downloadTips : Bool) : (start downloadTips).Covered := by
  simp [covered_iff_tipLoading, start, Outstanding]

@[simp] theorem tipLoading_handler (further : List SendRequest) (s : LoadingPage) :
    (s.handler further).tipLoading = false :=
  rfl

theorem mem_requests_foldl {q : SendRequest} (further : List SendRequest) (s : LoadingPage) :
    q ∈ (further.foldl sendRequest s).requests ↔ q ∈ further ∨ q ∈ s.requests := by
  induction further generalizing s with
  | nil => simp
  | cons r further ih =>
    simp only [List.foldl_cons, ih, sendRequest, List.mem_cons]
    tauto

/-- What is out after the handler is what its callback sent and what was out before. -/
theorem outstanding_handler (further : List SendRequest) (s : LoadingPage) :
    (s.handler further).Outstanding ↔ ∃ q, (q ∈ further ∨ q ∈ s.requests) ∧ q.shows = true := by
  simp only [Outstanding, ← mem_requests_foldl further s]
  rfl

theorem outstanding_sendRequest (s : LoadingPage) (r : SendRequest) :
    (s.sendRequest r).Outstanding ↔ r.shows = true ∨ s.Outstanding := by
  simp only [Outstanding, sendRequest, List.exists_mem_cons_iff]

theorem Covered.sendRequest {s : LoadingPage} (h : s.Covered) (r : SendRequest) :
    (s.sendRequest r).Covered := by
  rw [covered_iff_tipLoading] at h ⊢
  rw [outstanding_sendRequest, ← h]
  cases hr : r.shows <;> simp [LoadingPage.sendRequest, hr]

/-- After the handler the indicator is hidden, so it is right if nothing is out. -/
theorem covered_handler_iff (further : List SendRequest) (s : LoadingPage) :
    (s.handler further).Covered ↔ ∀ q, q ∈ further ∨ q ∈ s.requests → q.shows = false := by
  rw [covered_iff_tipLoading, outstanding_handler]
  simp

/-- An event that leaves none out keeps the indicator right, and no other event does. -/
theorem Covered.step_iff {s s' : LoadingPage} {e : LoadingEvent} (h : s.Covered)
    (hstep : s.step e = some s') : s'.Covered ↔ s.LeavesNone e := by
  cases e with
  | sent r =>
    obtain rfl := Option.some.inj hstep
    exact iff_of_true (h.sendRequest r) trivial
  | ended r further =>
    simp only [step] at hstep
    split_ifs at hstep with hr
    obtain rfl := Option.some.inj hstep
    exact covered_handler_iff further _

/-! ## Runs -/

/-- The indicator is right all along a run exactly if each request that ends is the last one
out. -/
theorem covered_iff (downloadTips : Bool) (es : List LoadingEvent) :
    Always step Covered (start downloadTips) es ↔ Each step LeavesNone (start downloadTips) es :=
  always_iff_each (I := Covered) (fun _ _ _ h hok hstep => (h.step_iff hstep).mpr hok)
    (fun _ h => h) (fun _ _ _ h hstep hs' => (h.step_iff hstep).mp hs') (covered_start downloadTips)

/-- The first of two requests ends, and the page takes keys while the second is out. -/
theorem second_uncovered :
    (run step (start false)
        [.sent ⟨"/good", none⟩, .sent ⟨"/price", none⟩, .ended ⟨"/good", none⟩ []]).map
      (fun s => (s.requests, s.tipLoading, s.hasOverlay, s.bindKeyEventGood true)) =
        some ([⟨"/price", none⟩], false, false, true) ∧
      ¬Always step Covered (start false)
        [.sent ⟨"/good", none⟩, .sent ⟨"/price", none⟩, .ended ⟨"/good", none⟩ []] := by
  refine ⟨by decide, fun h => ?_⟩
  have hlast := h.last rfl
  exact absurd (hlast.visible ⟨⟨"/price", none⟩, .head _, rfl⟩) (by decide)

end LoadingPage

end MySocket
