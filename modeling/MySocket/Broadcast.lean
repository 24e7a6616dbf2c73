import Mathlib.Data.List.Perm.Basic
import MySocket.Registry

/-!
# Broadcasting a text message

`onTextMessage` of each chat servlet writes the message to every registered connection
in turn and flushes it, with no `try` inside the loop : the first `IOException` ends the
loop and leaves the method. The map servlets visit the entries of `mmiList` in the order
of the hash map, which can be any; the servlet of `tomcat7servlet` counts an index
through its `ArrayList`.

`sendAll_delivered_iff` : every connection whose calls succeed gets the message exactly
once if and only if no failing connection is visited before a succeeding one.
-/

set_option linter.unusedSectionVars false

namespace MySocket

/-- Whether `writeTextMessage` and `flush` of a connection return, or throw. -/
structure Outbound where
  writes : Bool
  flushes : Bool

/-- Both calls return. -/
def Outbound.ok (o : Outbound) : Bool :=
  o.writes && o.flushes

/-- What one call of `onTextMessage` did : the messages written, and whether it threw. -/
structure Sent (γ : Type*) where
  written : List (γ × String)
  threw : Bool

section

variable {γ : Type*} [DecidableEq γ]

/-- The body of the broadcast loop over the connections still to visit. -/
def sendAll (myoutbound : γ → Outbound) (message : String) : List γ → Sent γ
  | [] => ⟨[], false⟩
  | mmib :: rest =>
    if (myoutbound mmib).writes then
      if (myoutbound mmib).flushes then
        ⟨(mmib, message) :: (sendAll myoutbound message rest).written,
          (sendAll myoutbound message rest).threw⟩
      else ⟨[(mmib, message)], true⟩
    else ⟨[], true⟩

/-- `onTextMessage` of the servlet of `Test`, visiting the map's values in `order`. -/
def HelloWorldWebSocketServlet.onTextMessage (myoutbound : γ → Outbound) (message : String)
    (order : List γ) : Sent γ :=
  sendAll myoutbound message order

/-- `onTextMessage` of the line drawing servlet, visiting the map's values in `order`. -/
def LineWebSocketServlet.onTextMessage (myoutbound : γ → Outbound) (message : String)
    (order : List γ) : Sent γ :=
  sendAll myoutbound message order

/-- The loop of `tomcat7servlet` from index `i` on. -/
def Tomcat7Servlet.sendFrom (myoutbound : γ → Outbound) (message : String) (mmiList : List γ)
    (i : ℕ) : Sent γ :=
  if h : i < mmiList.length then
    if (myoutbound mmiList[i]).writes then
      if (myoutbound mmiList[i]).flushes then
        ⟨(mmiList[i], message) :: (sendFrom myoutbound message mmiList (i + 1)).written,
          (sendFrom myoutbound message mmiList (i + 1)).threw⟩
      else ⟨[(mmiList[i], message)], true⟩
    else ⟨[], true⟩
  else ⟨[], false⟩
termination_by mmiList.length - i

/-- `onTextMessage` of the servlet of `tomcat7servlet`. -/
def Tomcat7Servlet.onTextMessage (myoutbound : γ → Outbound) (message : String)
    (mmiList : List γ) : Sent γ :=
  sendFrom myoutbound message mmiList 0

variable {myoutbound : γ → Outbound} {message : String} {order : List γ}

theorem sendAll_cons_ok {c : γ} (h : (myoutbound c).ok = true) :
    sendAll myoutbound message (c :: order) =
      ⟨(c, message) :: (sendAll myoutbound message order).written,
        (sendAll myoutbound message order).threw⟩ := by
  obtain ⟨hw, hf⟩ := Bool.and_eq_true_iff.mp h
  simp [sendAll, hw, hf]

/-- A failing connection ends the loop. -/
theorem sendAll_cons_fail {c : γ} (h : (myoutbound c).ok = false) :
    sendAll myoutbound message (c :: order) =
      ⟨if (myoutbound c).writes then [(c, message)] else [], true⟩ := by
  cases hw : (myoutbound c).writes
  · simp [sendAll, hw]
  · have hf : (myoutbound c).flushes = false := by simpa [Outbound.ok, hw] using h
    simp [sendAll, hw, hf]

/-- Connections whose calls return. -/
def working : γ → Outbound :=
  fun _ => ⟨true, true⟩

theorem sendAll_working (message : String) (order : List γ) :
    sendAll working message order = ⟨order.map fun c => (c, message), false⟩ := by
  induction order with
  | nil => rfl
  | cons c order ih =>
    rw [sendAll_cons_ok rfl, ih, List.map_cons]

/-- Counting through the list is looping over it. -/
theorem Tomcat7Servlet.sendFrom_eq (i : ℕ) :
    sendFrom myoutbound message order i = sendAll myoutbound message (order.drop i) := by
  rw [sendFrom]
  split_ifs with h hw hf
  · rw [List.drop_eq_getElem_cons h, sendFrom_eq (i + 1)]
    simp [sendAll, hw, hf]
  · rw [List.drop_eq_getElem_cons h]
    simp [sendAll, hw, hf]
  · rw [List.drop_eq_getElem_cons h]
    simp [sendAll, hw]
  · rw [List.drop_eq_nil_of_le (by omega)]
    rfl
termination_by order.length - i

/-- Only visited connections are written to. -/
theorem mem_of_mem_written {p : γ × String} :
    ∀ {order : List γ}, p ∈ (sendAll myoutbound message order).written → p.1 ∈ order
  | [], h => by simp [sendAll] at h
  | c :: order, h => by
    cases hc : (myoutbound c).ok
    · rw [sendAll_cons_fail hc] at h
      dsimp only at h
      split_ifs at h
      · simp [List.mem_singleton.mp h]
      · simp at h
    · rw [sendAll_cons_ok hc] at h
      rcases List.mem_cons.mp h with rfl | h
      · simp
      · exact List.mem_cons_of_mem _ (mem_of_mem_written h)

/-- Every connection whose write and flush succeed was sent the message exactly once. -/
def Delivered (myoutbound : γ → Outbound) (message : String) (order : List γ)
    (sent : Sent γ) : Prop :=
  ∀ c ∈ order, (myoutbound c).ok = true → sent.written.count (c, message) = 1

/-- No failing connection comes before one whose calls succeed. -/
def FailuresLast (myoutbound : γ → Outbound) (order : List γ) : Prop :=
  order.Pairwise fun a b => (myoutbound b).ok = true → (myoutbound a).ok = true

theorem delivered_cons_ok {c : γ} (hc : (myoutbound c).ok = true) (hnot : c ∉ order) :
    Delivered myoutbound message (c :: order) (sendAll myoutbound message (c :: order)) ↔
      Delivered myoutbound message order (sendAll myoutbound message order) := by
  have hzero : (sendAll myoutbound message order).written.count (c, message) = 0 :=
    List.count_eq_zero.mpr fun hmem => hnot (mem_of_mem_written hmem)
  rw [sendAll_cons_ok hc]
  constructor
  · intro h d hd hok
    have hne : d ≠ c := fun heq => hnot (heq ▸ hd)
    have := h d (List.mem_cons_of_mem _ hd) hok
    rwa [List.count_cons_of_ne (by simpa using hne.symm)] at this
  · intro h d hd hok
    rcases List.mem_cons.mp hd with rfl | hd
    · simp [hzero]
    · have hne : d ≠ c := fun heq => hnot (heq ▸ hd)
      rw [List.count_cons_of_ne (by simpa using hne.symm)]
      exact h d hd hok

theorem delivered_cons_fail {c : γ} (hc : (myoutbound c).ok = false) (hnot : c ∉ order) :
    Delivered myoutbound message (c :: order) (sendAll myoutbound message (c :: order)) ↔
      ∀ d ∈ order, (myoutbound d).ok = false := by
  rw [sendAll_cons_fail hc]
  constructor
  · intro h d hd
    have hne : d ≠ c := fun heq => hnot (heq ▸ hd)
    by_contra hok
    have := h d (List.mem_cons_of_mem _ hd) (by simpa using hok)
    split_ifs at this <;> simp [hne.symm] at this
  · intro h d hd hok
    rcases List.mem_cons.mp hd with rfl | hd
    · simp [hc] at hok
    · simp [h d hd] at hok

/-- The broadcast is complete exactly when the failing connections come last. -/
theorem sendAll_delivered_iff :
    ∀ {order : List γ}, order.Nodup →
      (Delivered myoutbound message order (sendAll myoutbound message order) ↔
        FailuresLast myoutbound order)
  | [], _ => by simp [Delivered, FailuresLast]
  | c :: order, hnodup => by
    obtain ⟨hnot, hnodup⟩ := List.nodup_cons.mp hnodup
    cases hc : (myoutbound c).ok
    · rw [delivered_cons_fail hc hnot, FailuresLast, List.pairwise_cons]
      simp only [hc, Bool.false_eq_true, imp_false, Bool.not_eq_true]
      refine ⟨fun h => ⟨h, ?_⟩, And.left⟩
      exact List.pairwise_of_forall_mem_list fun a ha b hb hok => by simp [h b hb] at hok
    · rw [delivered_cons_ok hc hnot, sendAll_delivered_iff hnodup, FailuresLast, FailuresLast,
        List.pairwise_cons]
      exact ⟨fun h => ⟨fun _ _ _ => hc, h⟩, And.right⟩

/-- One `onTextMessage` call of any of the three servlets delivers the message to every
connection whose calls succeed if and only if the loop visits no failing connection
before a succeeding one, whatever the registry and the order it is visited in. -/
theorem onTextMessage_delivered_iff (myoutbound : γ → Outbound) (message : String) :
    (∀ (r : Registry γ), r.Keyed → ∀ order, order.Perm r.values →
      (Delivered myoutbound message order
          (HelloWorldWebSocketServlet.onTextMessage myoutbound message order) ↔
        FailuresLast myoutbound order) ∧
      (Delivered myoutbound message order
          (LineWebSocketServlet.onTextMessage myoutbound message order) ↔
        FailuresLast myoutbound order)) ∧
    ∀ mmiList : List γ, mmiList.Nodup →
      (Delivered myoutbound message mmiList
          (Tomcat7Servlet.onTextMessage myoutbound message mmiList) ↔
        FailuresLast myoutbound mmiList) := by
  refine ⟨fun r hr order ho => ?_, fun mmiList hnodup => ?_⟩
  · have hnodup : order.Nodup := ho.nodup_iff.mpr hr.nodup
    exact ⟨sendAll_delivered_iff hnodup, sendAll_delivered_iff hnodup⟩
  · rw [Tomcat7Servlet.onTextMessage, Tomcat7Servlet.sendFrom_eq, List.drop_zero]
    exact sendAll_delivered_iff hnodup

end

/-- Two connections, opened one after the other. -/
def twoOpen : Registry (Fin 2) :=
  ((Registry.empty.onOpen .helloWorld 0 1).1.onOpen .helloWorld 1 2).1

theorem twoOpen_keyed : twoOpen.Keyed :=
  (Registry.empty_keyed.step (v := .helloWorld) (e := .onOpen 0 1) rfl).step
    (v := .helloWorld) (e := .onOpen 1 2) rfl

/-- Writing to connection `0` throws; connection `1` works. -/
def zeroFails (c : Fin 2) : Outbound :=
  ⟨c ≠ 0, true⟩

/-- The failing connection is visited first : the working one gets nothing. -/
theorem onTextMessage_undelivered :
    [0, 1].Perm twoOpen.values ∧ (zeroFails 1).ok = true ∧
      (HelloWorldWebSocketServlet.onTextMessage zeroFails "hi" [0, 1]).written = [] ∧
      ¬Delivered zeroFails "hi" [0, 1]
        (HelloWorldWebSocketServlet.onTextMessage zeroFails "hi" [0, 1]) :=
  ⟨by decide, rfl, rfl, fun h => absurd (h 1 (by simp) rfl) (by decide)⟩

/-- The failing connection is visited last : the working one has its message. -/
theorem onTextMessage_delivered :
    Delivered zeroFails "hi" [1, 0]
        (HelloWorldWebSocketServlet.onTextMessage zeroFails "hi" [1, 0]) ∧
      Delivered zeroFails "hi" [1, 0] (Tomcat7Servlet.onTextMessage zeroFails "hi" [1, 0]) :=
  ⟨((onTextMessage_delivered_iff zeroFails "hi").1 twoOpen twoOpen_keyed [1, 0]
      (by decide)).1.mpr (by simp [FailuresLast, zeroFails, Outbound.ok]),
    ((onTextMessage_delivered_iff zeroFails "hi").2 [1, 0] (by decide)).mpr
      (by simp [FailuresLast, zeroFails, Outbound.ok])⟩

end MySocket
