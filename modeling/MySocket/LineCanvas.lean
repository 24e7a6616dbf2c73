import Mathlib.Data.List.Count
import MySocket.Chat

/-!
# The line drawing page

A page `sline.html` sends where the mouse is as `x,y`, `LineWebSocketServlet` passes the
message on to every registered connection, and a page that gets a message splits it at the
comma and draws a dot. It does so for every message, also for the key of its connection
that the servlet writes when it is opened.

* `canvas_iff` : only points that were sent are drawn exactly in the steps in which no page
  connects; and every connected page draws each point once exactly if all of them are
  registered when it is sent.
* `drawn_or_greeting` : what is drawn beside the points sent is the key of a connection, by
  its own page when it connects.
-/

namespace MySocket

/-- A call of `makedot`, with the texts in the place of `x` and `y`; `none` is undefined. -/
structure Dot where
  x : String
  y : Option String
  deriving DecidableEq

/-- The call that `onmessage` makes. -/
def Dot.ofMessage (data : String) : Dot where
  x := (fields ',' data).headD ""
  y := (fields ',' data)[1]?

/-- A point that a page sent. -/
structure Point where
  x : ℤ
  y : ℤ
  deriving DecidableEq

/-- `x+","+y` -/
def Point.text (p : Point) : String :=
  toString p.x ++ "," ++ toString p.y

/-- The dot that is the point. -/
def Point.dot (p : Point) : Dot where
  x := toString p.x
  y := some (toString p.y)

/-- The point of `catchMouse`. -/
def catchMouse (clientX clientY : ℤ) : Point where
  x := clientX - 50
  y := clientY - 52

/-- The servlet, the points sent, and the dots with the pages that drew them. -/
structure Canvas (γ : Type*) where
  registry : Registry γ
  sent : List Point
  dots : List (γ × Dot)

inductive CanvasEvent (γ : Type*)
  | onOpen (page : γ) (ms : ℕ)
  | onClose (page : γ)
  /-- The mouse is moved on a page, and the servlet visits the map's values in `order`. -/
  | move (page : γ) (clientX clientY : ℤ) (order : List γ)

namespace Canvas

section

variable {γ : Type*} [DecidableEq γ]

def start : Canvas γ where
  registry := .empty
  sent := []
  dots := []

/-- The pages get their messages, and draw. -/
def receive (messages : List (γ × String)) (s : Canvas γ) : Canvas γ :=
  { s with dots := s.dots ++ messages.map fun m => (m.1, .ofMessage m.2) }

def step (s : Canvas γ) : CanvasEvent γ → Option (Canvas γ)
  | .onOpen page ms =>
    (s.registry.step .line (.onOpen page ms)).map fun registry =>
      ({ s with registry } : Canvas γ).receive [(page, (s.registry.onOpen .line page ms).2)]
  | .onClose page =>
    (s.registry.step .line (.onClose page)).map fun registry => { s with registry }
  | .move page clientX clientY order =>
    if s.registry.status page = .live ∧ order.Perm s.registry.values then
      let p := catchMouse clientX clientY
      some (({ s with sent := s.sent ++ [p] } : Canvas γ).receive
        (LineWebSocketServlet.onTextMessage working p.text order).written)
    else none

/-! ## The property -/

/-- Every dot is a point that was sent. -/
def OnlyDrawn (s : Canvas γ) : Prop :=
  ∀ d ∈ s.dots, ∃ p ∈ s.sent, d.2 = p.dot

/-- Every dot that is drawn in the step is a point that was sent. -/
def DrawsSent (s s' : Canvas γ) : Prop :=
  ∀ d ∈ s'.dots.drop s.dots.length, ∃ p ∈ s'.sent, d.2 = p.dot

/-- Every dot that is drawn in the step is a point that was sent, or the key that its page is
greeted with, which connects in this step. -/
def DrawsSentOrKey (s : Canvas γ) (e : CanvasEvent γ) (s' : Canvas γ) : Prop :=
  ∀ d ∈ s'.dots.drop s.dots.length, (∃ p ∈ s'.sent, d.2 = p.dot) ∨
    ∃ ms : ℕ, e = .onOpen d.1 ms ∧ d.2 = ⟨toString ms, none⟩

/-- A point that is sent is drawn once by every page that is connected. -/
def PaintsOnce (s : Canvas γ) (e : CanvasEvent γ) (s' : Canvas γ) : Prop :=
  match e with
  | .move _ clientX clientY _ =>
    ∀ page, s.registry.status page = .live →
      (s'.dots.drop s.dots.length).count (page, (catchMouse clientX clientY).dot) = 1
  | .onOpen _ _ | .onClose _ => True

/-- No page connects. -/
def NotOpened (_ : Canvas γ) : CanvasEvent γ → Prop
  | .onOpen _ _ => False
  | .onClose _ | .move _ _ _ _ => True

/-- All connected pages are registered when a point is sent. -/
def AllRegistered (s : Canvas γ) : CanvasEvent γ → Prop
  | .move _ _ _ _ => ∀ page, s.registry.status page = .live → page ∈ s.registry.values
  | .onOpen _ _ | .onClose _ => True

end

/-! ## Messages -/

theorem comma_notMem_nat (n : ℕ) : ',' ∉ (toString n).toList := fun h => by
  rw [Nat.toString_eq_repr, Nat.repr, String.toList_ofList] at h
  exact absurd (Nat.isDigit_of_mem_toDigits (by decide) (by decide) h) (by decide)

theorem comma_notMem_int (n : ℤ) : ',' ∉ (toString n).toList := by
  cases n with
  | ofNat m => exact comma_notMem_nat m
  | negSucc m =>
    have htext : (toString (Int.negSucc m)).toList = '-' :: (toString (m + 1)).toList := by
      rw [show toString (Int.negSucc m) = "-" ++ toString (m + 1) from rfl, String.toList_append]
      rfl
    rw [htext, List.mem_cons, not_or]
    exact ⟨by decide, comma_notMem_nat (m + 1)⟩

/-- A point is drawn where it was sent from. -/
theorem ofMessage_text (p : Point) : Dot.ofMessage p.text = p.dot := by
  have hfields : fields ',' p.text = [toString p.x, toString p.y] := by
    rw [Point.text, fields_append (comma_notMem_int p.x), fields_eq_singleton (comma_notMem_int p.y)]
  rw [Dot.ofMessage, hfields, Point.dot]
  rfl

/-- The key of a connection has no second field. -/
theorem ofMessage_key (ms : ℕ) : Dot.ofMessage (toString ms) = ⟨toString ms, none⟩ := by
  rw [Dot.ofMessage, fields_eq_singleton (comma_notMem_nat ms)]
  rfl

/-! ## One step -/

section

variable {γ : Type*} [DecidableEq γ] {s s' : Canvas γ} {e : CanvasEvent γ}

/-- What a step can do : a page connects and draws the key, a page disconnects, or a point is
drawn by the registered pages. -/
theorem step_cases (h : s.step e = some s') :
    (∃ page ms registry, e = .onOpen page ms ∧
      s.registry.step .line (.onOpen page ms) = some registry ∧
      s' = { s with registry, dots := s.dots ++ [(page, ⟨toString ms, none⟩)] }) ∨
    (∃ page registry, e = .onClose page ∧ s.registry.step .line (.onClose page) = some registry ∧
      s' = { s with registry }) ∨
    (∃ page clientX clientY order, e = .move page clientX clientY order ∧
      order.Perm s.registry.values ∧
      s' = { s with
        sent := s.sent ++ [catchMouse clientX clientY]
        dots := s.dots ++ order.map fun page => (page, (catchMouse clientX clientY).dot) }) := by
  cases e with
  | onOpen page ms =>
    obtain ⟨registry, hregistry, rfl⟩ := Option.map_eq_some_iff.mp h
    refine .inl ⟨page, ms, registry, rfl, hregistry, ?_⟩
    simp only [receive, Registry.onOpen, Servlet.greeting, List.map_cons, List.map_nil, ofMessage_key]
  | onClose page =>
    obtain ⟨registry, hregistry, rfl⟩ := Option.map_eq_some_iff.mp h
    exact .inr (.inl ⟨page, registry, rfl, hregistry, rfl⟩)
  | move page clientX clientY order =>
    simp only [step, Option.ite_none_right_eq_some, Option.some.injEq] at h
    obtain ⟨⟨-, horder⟩, rfl⟩ := h
    refine .inr (.inr ⟨page, clientX, clientY, order, rfl, horder, ?_⟩)
    simp only [receive, LineWebSocketServlet.onTextMessage, sendAll_working, List.map_map,
      Function.comp_def, ofMessage_text]

theorem drawn_or_greeting (hstep : s.step e = some s') : s.DrawsSentOrKey e s' := by
  rcases step_cases hstep with ⟨page, ms, registry, rfl, -, rfl⟩ | ⟨page, registry, rfl, -, rfl⟩ |
    ⟨page, clientX, clientY, order, rfl, -, rfl⟩
  · intro d hd
    rw [List.drop_left, List.mem_singleton] at hd
    exact .inr ⟨ms, by rw [hd], by rw [hd]⟩
  · intro d hd
    simp at hd
  · intro d hd
    rw [List.drop_left] at hd
    obtain ⟨other, -, rfl⟩ := List.mem_map.mp hd
    exact .inl ⟨catchMouse clientX clientY, by simp, rfl⟩

/-- Only connecting pages draw what was not sent. -/
theorem drawsSent_iff (hstep : s.step e = some s') : s.DrawsSent s' ↔ s.NotOpened e := by
  constructor
  · intro hsent
    rcases step_cases hstep with ⟨page, ms, registry, rfl, -, rfl⟩ | ⟨page, registry, rfl, -, rfl⟩ |
      ⟨page, clientX, clientY, order, rfl, -, rfl⟩
    · obtain ⟨p, -, hp⟩ := hsent (page, ⟨toString ms, none⟩) (by simp)
      cases congrArg Dot.y hp
    · exact trivial
    · exact trivial
  · intro hno d hd
    rcases drawn_or_greeting hstep d hd with hsent | ⟨ms, rfl, -⟩
    · exact hsent
    · exact absurd hno id

theorem grows (hstep : s.step e = some s') : s.dots <+: s'.dots ∧ s.sent <+: s'.sent := by
  rcases step_cases hstep with ⟨page, ms, registry, rfl, -, rfl⟩ | ⟨page, registry, rfl, -, rfl⟩ |
    ⟨page, clientX, clientY, order, rfl, -, rfl⟩
  · exact ⟨List.prefix_append _ _, List.prefix_rfl⟩
  · exact ⟨List.prefix_rfl, List.prefix_rfl⟩
  · exact ⟨List.prefix_append _ _, List.prefix_append _ _⟩

theorem OnlyDrawn.step_iff (h : s.OnlyDrawn) (hstep : s.step e = some s') :
    s'.OnlyDrawn ↔ s.NotOpened e := by
  obtain ⟨⟨drawn, hdots⟩, hsent⟩ := grows hstep
  have hdrop : s'.dots.drop s.dots.length = drawn := by rw [← hdots, List.drop_left]
  rw [← drawsSent_iff hstep, DrawsSent, hdrop, OnlyDrawn, ← hdots, List.forall_mem_append]
  refine and_iff_right fun d hd => ?_
  obtain ⟨p, hp, hdot⟩ := h d hd
  exact ⟨p, hsent.subset hp, hdot⟩

/-- Each registered page draws the point once, and no other page draws it. -/
theorem paintsOnce_iff (hkeyed : s.registry.Keyed) (hstep : s.step e = some s') :
    s.PaintsOnce e s' ↔ s.AllRegistered e := by
  rcases step_cases hstep with ⟨page, ms, registry, rfl, -, rfl⟩ | ⟨page, registry, rfl, -, rfl⟩ |
    ⟨page, clientX, clientY, order, rfl, horder, rfl⟩
  · exact Iff.rfl
  · exact Iff.rfl
  · have hcount : ∀ other : γ,
        (order.map fun page => (page, (catchMouse clientX clientY).dot)).count
          (other, (catchMouse clientX clientY).dot) = s.registry.values.count other := fun other => by
      rw [← horder.count_eq]
      exact List.count_map_of_injective order (fun page => (page, (catchMouse clientX clientY).dot))
        (fun _ _ heq => congrArg Prod.fst heq) other
    refine forall₂_congr fun other _ => ?_
    rw [List.drop_left, hcount, hkeyed.nodup.count]
    simp

theorem keyed_step (h : s.registry.Keyed) (hstep : s.step e = some s') : s'.registry.Keyed := by
  rcases step_cases hstep with ⟨page, ms, registry, rfl, hregistry, rfl⟩ |
    ⟨page, registry, rfl, hregistry, rfl⟩ | ⟨page, clientX, clientY, order, rfl, -, rfl⟩
  · exact h.step hregistry
  · exact h.step hregistry
  · exact h

/-! ## Runs -/

/-- In every run, only points that were sent are drawn exactly in the steps in which no page
connects, and the page that connects draws its key : so the points are all that is drawn in the runs
without such a step. Every page draws a point once exactly if all connected pages are registered
when it is sent. -/
theorem canvas_iff (es : List (CanvasEvent γ)) :
    Steps step (fun s e s' => s.DrawsSentOrKey e s' ∧ (s.DrawsSent s' ↔ s.NotOpened e))
        (start : Canvas γ) es ∧
      (Always step OnlyDrawn (start : Canvas γ) es ↔ Each step NotOpened (start : Canvas γ) es) ∧
      (Steps step PaintsOnce (start : Canvas γ) es ↔
        Each step AllRegistered (start : Canvas γ) es) := by
  refine ⟨?_, ?_, ?_⟩
  · exact steps_of_step (fun _ _ _ hstep => ⟨drawn_or_greeting hstep, drawsSent_iff hstep⟩) _ es
  · exact always_iff_each (fun _ _ _ h hok hstep => (h.step_iff hstep).mpr hok) (fun _ h => h)
      (fun _ _ _ h hstep hdrawn => (h.step_iff hstep).mp hdrawn)
      fun d hd => absurd hd List.not_mem_nil
  · exact steps_iff_each (I := fun s : Canvas γ => s.registry.Keyed)
      (fun _ _ _ h _ hstep => keyed_step h hstep) (fun _ _ _ h hstep => paintsOnce_iff h hstep)
      Registry.empty_keyed

end

/-- The page draws a dot at its key. A second page connects in the same millisecond, and the first
one does not draw the point that it sends itself. -/
theorem key_drawn :
    (run step (start : Canvas (Fin 2)) [.onOpen 0 5]).map dots = some [(0, ⟨"5", none⟩)] ∧
      ¬Always step OnlyDrawn (start : Canvas (Fin 2)) [.onOpen 0 5] ∧
      (run step (start : Canvas (Fin 2)) [.onOpen 0 5, .onOpen 1 5, .move 0 60 60 [1]]).map dots =
        some [(0, ⟨"5", none⟩), (1, ⟨"5", none⟩), (1, ⟨"10", some "8"⟩)] ∧
      ¬Steps step PaintsOnce (start : Canvas (Fin 2))
        [.onOpen 0 5, .onOpen 1 5, .move 0 60 60 [1]] := by
  refine ⟨by decide, fun h => ?_, by decide, fun h => ?_⟩
  · obtain ⟨p, hp, -⟩ := h.last rfl (0, ⟨"5", none⟩) (.head _)
    cases hp
  · have hmove := (((h _ rfl).2 _ rfl).2 _ rfl).1 0 (by decide)
    exact absurd hmove (by decide)

end Canvas

end MySocket
