import Mathlib.Logic.Function.Basic
import MySocket.CouponList
import MySocket.Trace

/-!
# The page of coupons

`swip.jsp` lists the coupons of a user. A swipe over one of them opens the popup `#confirm`,
and `#yes` posts the coupon to `/webs/coupon/checkset`. The handler that posts it is bound to
`#yes` by the swipe, and only `#cancel` unbinds what the swipes have bound.

* `redeems_iff` : each press of `#yes` posts the coupon swiped last and no other, exactly if
  there was one swipe since `#cancel` was pressed, and the browser supports the transition.
-/

namespace MySocket

namespace SwipePage

/-- What the page was rendered with, and whether the browser has `$.support.cssTransform3d`. -/
structure Rendered where
  machineProductId : String
  userId : String
  list : List Coupon
  cssTransform3d : Bool

/-- The inputs of the items. The item that stands for an empty list has none. -/
def inputs (list : List Coupon) : List (Option String) :=
  if list.length = 0 then [none] else list.map fun c => some c.id

inductive Direction
  | left
  | right
  deriving DecidableEq

/-- The transition with which an item leaves, if there are transitions. -/
def transition (page : Rendered) (dir : Direction) : Option Direction :=
  if page.cssTransform3d then some dir else none

/-- A request `/webs/coupon/checkset`. -/
structure Post where
  machineProductId : String
  userId : String
  couponId : String
  deriving DecidableEq

/-- The function that a swipe binds to `#yes`, by the variables it has. -/
structure Handler where
  listitem : ℕ
  transition : Option Direction
  couponId : String

structure Page where
  /-- The popup `#confirm` is open. -/
  opened : Bool
  /-- The handlers of `#yes`. -/
  yes : List Handler
  /-- The handlers of `#cancel`, by their items. -/
  cancel : List ℕ
  /-- The items with the class `ui-btn-active`. -/
  active : ℕ → Bool
  /-- The items that are removed at the end of the transition. -/
  moving : ℕ → Bool
  removed : ℕ → Bool
  posts : List Post

def start : Page where
  opened := false
  yes := []
  cancel := []
  active _ := false
  moving _ := false
  removed _ := false
  posts := []

/-! ## The script -/

def confirmAndDelete (listitem : ℕ) (transition : Option Direction) (couponId : String)
    (s : Page) : Page :=
  { s with
    active := Function.update s.active listitem true
    opened := true
    yes := s.yes ++ [⟨listitem, transition, couponId⟩]
    cancel := s.cancel ++ [listitem] }

/-- A handler of `#yes`. -/
def proceed (page : Rendered) (s : Page) (h : Handler) : Page :=
  match h.transition with
  | some _ =>
    { s with
      posts := s.posts ++ [⟨page.machineProductId, page.userId, h.couponId⟩]
      moving := Function.update s.moving h.listitem true
      active := Function.update s.active h.listitem false }
  | none => { s with removed := Function.update s.removed h.listitem true }

/-- A handler of `#cancel`. -/
def unbind (s : Page) (listitem : ℕ) : Page :=
  { s with active := Function.update s.active listitem false, yes := [] }

/-- The popup closes. -/
def close (s : Page) : Page :=
  { s with opened := false }

inductive Event
  | swipe (dir : Direction) (listitem : ℕ)
  | yes
  | cancel
  /-- A tap outside the popup. -/
  | dismiss
  | transitionEnd (listitem : ℕ)
  deriving DecidableEq

/-- The popup has to be open for its buttons, which close it. -/
def handle (page : Rendered) (s : Page) : Event → Option Page
  | .swipe dir listitem =>
    match (inputs page.list)[listitem]? with
    | some input =>
      if s.removed listitem then none
      else match input with
        | some value => some (confirmAndDelete listitem (transition page dir) value s)
        -- without an input the handler fails before anything is done
        | none => some s
    | none => none
  | .yes => if s.opened then some (close (s.yes.foldl (proceed page) s)) else none
  | .cancel => if s.opened then some (close (s.cancel.foldl unbind s)) else none
  | .dismiss => if s.opened then some (close s) else none
  | .transitionEnd listitem =>
    if s.moving listitem then
      some { s with removed := Function.update s.removed listitem true }
    else none

/-! ## The property -/

/-- What the user did : the coupon swiped last, and how many swipes there were since `#cancel`
was pressed. -/
structure History where
  couponId : Option String
  swipes : ℕ

def History.next (page : Rendered) (h : History) : Event → History
  | .swipe _ listitem =>
    match (inputs page.list)[listitem]? with
    | some (some value) => ⟨some value, h.swipes + 1⟩
    | _ => h
  | .cancel => { h with swipes := 0 }
  | .yes | .dismiss | .transitionEnd _ => h

def step (page : Rendered) (s : Page × History) (e : Event) : Option (Page × History) :=
  (handle page s.1 e).map fun t => (t, s.2.next page e)

def loaded : Page × History :=
  (start, ⟨none, 0⟩)

/-- `#yes` posts the coupon swiped last, and nothing else posts one. -/
def Redeems (page : Rendered) (s : Page × History) (e : Event) (t : Page × History) : Prop :=
  match e with
  | .yes => ∃ couponId, s.2.couponId = some couponId ∧
      t.1.posts = s.1.posts ++ [⟨page.machineProductId, page.userId, couponId⟩]
  | _ => t.1.posts = s.1.posts

/-- There is one swipe to confirm, in a browser that supports the transition. -/
def SwipedOnce (page : Rendered) (s : Page × History) (e : Event) : Prop :=
  e = .yes → page.cssTransform3d ∧ s.2.swipes = 1

/-! ## The handlers -/

/-- The handlers of `#yes` are those of the swipes since `#cancel`, the last one the last. -/
structure Bound (page : Rendered) (s : Page × History) : Prop where
  swipes : s.1.yes.length = s.2.swipes
  last : ∀ h, s.1.yes.getLast? = some h → s.2.couponId = some h.couponId
  transition : ∀ h ∈ s.1.yes, h.transition.isSome = page.cssTransform3d
  yes_ne_nil : s.1.opened → s.1.yes ≠ []
  cancel_ne_nil : s.1.yes ≠ [] → s.1.cancel ≠ []

variable {page : Rendered} {s t : Page × History} {e : Event}

theorem isSome_transition (page : Rendered) (dir : Direction) :
    (transition page dir).isSome = page.cssTransform3d := by
  rw [transition]
  cases page.cssTransform3d <;> rfl

theorem foldl_proceed_yes (page : Rendered) (hs : List Handler) (s : Page) :
    (hs.foldl (proceed page) s).yes = s.yes ∧ (hs.foldl (proceed page) s).cancel = s.cancel := by
  induction hs generalizing s with
  | nil => exact ⟨rfl, rfl⟩
  | cons h hs ih =>
    obtain ⟨hyes, hcancel⟩ := ih (proceed page s h)
    rw [List.foldl_cons, hyes, hcancel, proceed]
    cases h.transition <;> exact ⟨rfl, rfl⟩

/-- Each handler posts its own coupon. -/
theorem foldl_proceed_posts (hs : List Handler) (s : Page) :
    (hs.foldl (proceed page) s).posts = s.posts ++
      (hs.filter fun h => h.transition.isSome).map fun h =>
        ⟨page.machineProductId, page.userId, h.couponId⟩ := by
  induction hs generalizing s with
  | nil => exact (List.append_nil _).symm
  | cons h hs ih =>
    rw [List.foldl_cons, ih, proceed]
    cases htransition : h.transition with
    | none => simp [htransition]
    | some dir => simp [htransition]

theorem foldl_unbind (items : List ℕ) (s : Page) (h : s.yes ≠ [] → items ≠ []) :
    (items.foldl unbind s).yes = [] ∧ (items.foldl unbind s).cancel = s.cancel ∧
      (items.foldl unbind s).posts = s.posts := by
  induction items generalizing s with
  | nil => exact ⟨by_contra fun hyes => h hyes rfl, rfl, rfl⟩
  | cons item items ih => exact ih (unbind s item) fun hyes => absurd rfl hyes

/-! ## A step -/

theorem step_cases (h : step page s e = some t) :
    (∃ dir listitem value, e = .swipe dir listitem ∧
      t = (confirmAndDelete listitem (transition page dir) value s.1,
        ⟨some value, s.2.swipes + 1⟩)) ∨
    (∃ dir listitem, e = .swipe dir listitem ∧ t = s) ∨
    (e = .yes ∧ s.1.opened ∧ t = (close (s.1.yes.foldl (proceed page) s.1), s.2)) ∨
    (e = .cancel ∧ s.1.opened ∧
      t = (close (s.1.cancel.foldl unbind s.1), { s.2 with swipes := 0 })) ∨
    (e = .dismiss ∧ t = (close s.1, s.2)) ∨
    ∃ listitem, e = .transitionEnd listitem ∧
      t = ({ s.1 with removed := Function.update s.1.removed listitem true }, s.2) := by
  obtain ⟨u, hu, rfl⟩ := Option.map_eq_some_iff.mp h
  cases e with
  | swipe dir listitem =>
    rw [handle] at hu
    split at hu
    · next input hinput =>
      split_ifs at hu
      cases input with
      | none =>
        obtain rfl := Option.some.inj hu
        exact .inr (.inl ⟨dir, listitem, rfl, by simp [History.next, hinput]⟩)
      | some value =>
        obtain rfl := Option.some.inj hu
        exact .inl ⟨dir, listitem, value, rfl, by simp [History.next, hinput]⟩
    · cases hu
  | yes =>
    obtain ⟨hopened, hu⟩ := Option.ite_none_right_eq_some.mp hu
    obtain rfl := Option.some.inj hu
    exact .inr (.inr (.inl ⟨rfl, hopened, rfl⟩))
  | cancel =>
    obtain ⟨hopened, hu⟩ := Option.ite_none_right_eq_some.mp hu
    obtain rfl := Option.some.inj hu
    exact .inr (.inr (.inr (.inl ⟨rfl, hopened, rfl⟩)))
  | dismiss =>
    obtain ⟨-, hu⟩ := Option.ite_none_right_eq_some.mp hu
    obtain rfl := Option.some.inj hu
    exact .inr (.inr (.inr (.inr (.inl ⟨rfl, rfl⟩))))
  | transitionEnd listitem =>
    obtain ⟨-, hu⟩ := Option.ite_none_right_eq_some.mp hu
    obtain rfl := Option.some.inj hu
    exact .inr (.inr (.inr (.inr (.inr ⟨listitem, rfl, rfl⟩))))

/-- No event loses track of the handlers. -/
theorem Bound.kept (hs : Bound page s) (h : step page s e = some t) : Bound page t := by
  rcases step_cases h with ⟨dir, listitem, value, rfl, rfl⟩ | ⟨dir, listitem, rfl, rfl⟩ |
    ⟨rfl, -, rfl⟩ | ⟨rfl, -, rfl⟩ | ⟨rfl, rfl⟩ | ⟨listitem, rfl, rfl⟩
  · exact {
      swipes := by simp [confirmAndDelete, hs.swipes]
      last := fun h hlast => by
        rw [confirmAndDelete, List.getLast?_concat] at hlast
        rw [← Option.some.inj hlast]
      transition := fun h hmem => by
        rcases List.mem_append.mp hmem with hmem | hmem
        · exact hs.transition h hmem
        · rw [List.mem_singleton.mp hmem, isSome_transition]
      yes_ne_nil := fun _ => List.append_ne_nil_of_right_ne_nil _ nofun
      cancel_ne_nil := fun _ => List.append_ne_nil_of_right_ne_nil _ nofun }
  · exact hs
  · obtain ⟨hyes, hcancel⟩ := foldl_proceed_yes page s.1.yes s.1
    constructor <;> dsimp only [close]
    · rw [hyes, hs.swipes]
    · rw [hyes]
      exact hs.last
    · rw [hyes]
      exact hs.transition
    · nofun
    · rw [hyes, hcancel]
      exact hs.cancel_ne_nil
  · obtain ⟨hyes, -, -⟩ := foldl_unbind s.1.cancel s.1 hs.cancel_ne_nil
    constructor <;> dsimp only [close]
    · rw [hyes]
      rfl
    · rw [hyes]
      nofun
    · rw [hyes]
      nofun
    · nofun
    · exact absurd hyes
  · exact ⟨hs.swipes, hs.last, hs.transition, nofun, hs.cancel_ne_nil⟩
  · exact ⟨hs.swipes, hs.last, hs.transition, hs.yes_ne_nil, hs.cancel_ne_nil⟩

theorem bound_loaded (page : Rendered) : Bound page loaded :=
  ⟨rfl, nofun, nofun, nofun, nofun⟩

/-- The handlers of `#yes` post one coupon if there is one of them, in a browser with the
transition. -/
theorem Bound.redeems_yes_iff (hs : Bound page s) (h : step page s .yes = some t) :
    Redeems page s .yes t ↔ page.cssTransform3d ∧ s.2.swipes = 1 := by
  obtain ⟨u, hu, rfl⟩ := Option.map_eq_some_iff.mp h
  obtain ⟨-, hu⟩ := Option.ite_none_right_eq_some.mp hu
  obtain rfl := Option.some.inj hu
  simp only [Redeems, close, foldl_proceed_posts, List.append_cancel_left_eq]
  cases hcss : page.cssTransform3d with
  | false =>
    have hnone : (s.1.yes.filter fun h => h.transition.isSome) = [] :=
      List.filter_eq_nil_iff.mpr fun h hmem => by rw [hs.transition h hmem, hcss]; nofun
    simp [hnone]
  | true =>
    have hall : (s.1.yes.filter fun h => h.transition.isSome) = s.1.yes :=
      List.filter_eq_self.mpr fun h hmem => by rw [hs.transition h hmem, hcss]
    rw [hall, ← hs.swipes]
    constructor
    · rintro ⟨couponId, -, hposts⟩
      have hlength := congrArg List.length hposts
      rw [List.length_map] at hlength
      exact ⟨rfl, hlength⟩
    · rintro ⟨-, hlength⟩
      obtain ⟨handler, hyes⟩ := List.length_eq_one_iff.mp hlength
      exact ⟨handler.couponId, hs.last handler (by rw [hyes]; rfl), by rw [hyes]; rfl⟩

/-- A step posts what it should exactly if it is not a press of `#yes` or there is one swipe to
confirm. -/
theorem Bound.redeems_step_iff (hs : Bound page s) (h : step page s e = some t) :
    Redeems page s e t ↔ SwipedOnce page s e := by
  by_cases heq : e = .yes
  · subst heq
    rw [hs.redeems_yes_iff h]
    exact ⟨fun hok _ => hok, fun hok => hok rfl⟩
  · refine iff_of_true ?_ fun hyes => absurd hyes heq
    rcases step_cases h with ⟨dir, listitem, value, rfl, rfl⟩ | ⟨dir, listitem, rfl, rfl⟩ |
      ⟨rfl, -, rfl⟩ | ⟨rfl, -, rfl⟩ | ⟨rfl, rfl⟩ | ⟨listitem, rfl, rfl⟩
    · rfl
    · rfl
    · exact absurd rfl heq
    · exact (foldl_unbind s.1.cancel s.1 hs.cancel_ne_nil).2.2
    · rfl
    · rfl

/-! ## The results -/

/-- Whatever the user does, each press of `#yes` posts the coupon swiped last and no other, exactly
if each of them finds one swipe since `#cancel` was pressed, and the browser has the transition. -/
theorem redeems_iff (page : Rendered) (es : List Event) :
    Steps (step page) (Redeems page) loaded es ↔ Each (step page) (SwipedOnce page) loaded es :=
  steps_iff_each (fun _ _ _ hs _ hstep => hs.kept hstep)
    (fun _ _ _ hs hstep => hs.redeems_step_iff hstep) (bound_loaded page)

section

/-- A page with two coupons. -/
def twoCoupons : Rendered where
  machineProductId := "m1"
  userId := "u1"
  list := [⟨"17", none, none, 1⟩, ⟨"18", none, none, 1⟩]
  cssTransform3d := true

/-- The first coupon is swiped and the popup dismissed; then the second one is confirmed. -/
def dismissedSwipe : List Event :=
  [.swipe .left 0, .dismiss, .swipe .left 1, .yes]

/-- One press of `#yes` posts both coupons. -/
theorem dismissed_coupon_posted :
    ((run (step twoCoupons) loaded dismissedSwipe).map fun s => s.1.posts) =
        some [⟨"m1", "u1", "17"⟩, ⟨"m1", "u1", "18"⟩] ∧
      ¬Steps (step twoCoupons) (Redeems twoCoupons) loaded dismissedSwipe := by
  refine ⟨by decide, fun h => ?_⟩
  obtain ⟨couponId, -, hposts⟩ := ((((h _ rfl).2 _ rfl).2 _ rfl).2 _ rfl).1
  have hlength : 2 = 1 := congrArg List.length hposts
  cases hlength

end

end SwipePage

end MySocket
