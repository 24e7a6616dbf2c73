import MySocket.JsNumberText

/-!
# Values of JSON

`Json` is a value as JSON has it, and `deepEq` compares two of them, with the members of objects in
any order. `All` is a property of every value that stands in one, at any depth.

`deepEq_refl` : a value in which no object has two members of one key is equal to itself.
-/

namespace MySocket

namespace Js

/-- What corresponds to a member of the first list is in the second. -/
theorem exists_mem_of_forall₂ {α β : Type} {p : α → β → Prop} {as : List α} {bs : List β} {a : α}
    (h : List.Forall₂ p as bs) (ha : a ∈ as) : ∃ b ∈ bs, p a b := by
  induction h with
  | nil => cases ha
  | cons hab _ ih =>
    rcases List.mem_cons.mp ha with rfl | ha
    · exact ⟨_, List.mem_cons_self, hab⟩
    · obtain ⟨b, hb, h⟩ := ih ha
      exact ⟨b, List.mem_cons_of_mem _ hb, h⟩

/-! ## Values -/

/-- A value of JSON. The members of an object are in the order in which `for in` has them. -/
inductive Json
  | null
  | bool (b : Bool)
  | num (d : Double)
  | str (s : JsString)
  | arr (elements : List Json)
  | obj (members : List (JsString × Json))

namespace Json

/-- The value `w` is `v` or stands in it, at any depth. -/
inductive Part (w : Json) : Json → Prop
  | refl : Part w w
  | element {x : Json} {xs : List Json} (hx : x ∈ xs) (h : Part w x) : Part w (arr xs)
  | member {m : JsString × Json} {ms : List (JsString × Json)} (hm : m ∈ ms) (h : Part w m.2) :
      Part w (obj ms)

/-- Every part has the property. -/
def All (p : Json → Prop) (v : Json) : Prop :=
  ∀ w, Part w v → p w

/-- The keys of an object. -/
def keys : Json → List JsString
  | obj ms => ms.map Prod.fst
  | _ => []

/-- No object has two members of one key. -/
def Distinct (v : Json) : Prop :=
  v.All fun w => w.keys.Nodup

mutual

/-- Deep equality. -/
def deepEq : Json → Json → Bool
  | null, null => true
  | bool a, bool b => a = b
  | num a, num b => a = b
  | str s, str t => s = t
  | arr xs, arr ys => elementsEq xs ys
  | obj ms, obj ns => membersEq ms ns && ns.all fun n => (ms.lookup n.1).isSome
  | _, _ => false

/-- The elements are equal one by one. -/
def elementsEq : List Json → List Json → Bool
  | [], [] => true
  | x :: xs, y :: ys => deepEq x y && elementsEq xs ys
  | _, _ => false

/-- The other object has each member. -/
def membersEq : List (JsString × Json) → List (JsString × Json) → Bool
  | [], _ => true
  | (k, v) :: ms, ns =>
    (match ns.lookup k with
      | some w => deepEq v w
      | none => false) && membersEq ms ns

end

/-! ### Parts -/

section

variable {p : Json → Prop} {v w x : Json} {xs ys : List Json} {m : JsString × Json}
  {ms ns : List (JsString × Json)}

/-- What holds of a value if it holds of all elements or members holds of every value. -/
@[elab_as_elim]
theorem induction (null : p null) (bool : ∀ b, p (bool b)) (num : ∀ d, p (num d))
    (str : ∀ s, p (str s)) (arr : ∀ xs, (∀ x ∈ xs, p x) → p (arr xs))
    (obj : ∀ ms : List (JsString × Json), (∀ m ∈ ms, p m.2) → p (obj ms)) (v : Json) : p v :=
  @Json.rec p (fun xs => ∀ x ∈ xs, p x) (fun ms => ∀ m ∈ ms, p m.2) (fun m => p m.2)
    null bool num str arr obj (fun _ h => absurd h List.not_mem_nil)
    (fun _ _ hx hxs => List.forall_mem_cons.mpr ⟨hx, hxs⟩) (fun _ h => absurd h List.not_mem_nil)
    (fun _ _ hm hms => List.forall_mem_cons.mpr ⟨hm, hms⟩) (fun _ _ hv => hv) v

theorem All.self (h : v.All p) : p v :=
  h v .refl

/-- A value without elements and members is its only part. -/
theorem all_leaf (hv : ∀ w, Part w v → w = v) : v.All p ↔ p v :=
  ⟨fun h => h.self, fun h w hw => hv w hw ▸ h⟩

theorem all_null : null.All p ↔ p null :=
  all_leaf fun w hw => by cases hw; rfl

theorem all_bool {b : Bool} : (bool b).All p ↔ p (bool b) :=
  all_leaf fun w hw => by cases hw; rfl

theorem all_num {d : Double} : (num d).All p ↔ p (num d) :=
  all_leaf fun w hw => by cases hw; rfl

theorem all_str {s : JsString} : (str s).All p ↔ p (str s) :=
  all_leaf fun w hw => by cases hw; rfl

theorem all_arr : (arr xs).All p ↔ p (arr xs) ∧ ∀ x ∈ xs, x.All p := by
  constructor
  · exact fun h => ⟨h.self, fun x hx w hw => h w (.element hx hw)⟩
  · rintro ⟨hself, helements⟩ w hw
    cases hw with
    | refl => exact hself
    | element hx hw => exact helements _ hx w hw

theorem all_obj : (obj ms).All p ↔ p (obj ms) ∧ ∀ m ∈ ms, m.2.All p := by
  constructor
  · exact fun h => ⟨h.self, fun m hm w hw => h w (.member hm hw)⟩
  · rintro ⟨hself, hmembers⟩ w hw
    cases hw with
    | refl => exact hself
    | member hm hw => exact hmembers _ hm w hw

/-! ### Equality -/

theorem lookup_of_mem (h : (ms.map Prod.fst).Nodup) (hm : m ∈ ms) : ms.lookup m.1 = some m.2 := by
  induction ms with
  | nil => cases hm
  | cons n ms ih =>
    rw [List.map_cons, List.nodup_cons] at h
    rcases List.mem_cons.mp hm with rfl | hm
    · exact List.lookup_cons_self
    · have hne : m.1 ≠ n.1 := fun heq => h.1 (heq ▸ List.mem_map_of_mem hm)
      rw [List.lookup_cons, beq_false_of_ne hne]
      exact ih h.2 hm

theorem mem_of_lookup {k : JsString} (h : ms.lookup k = some v) : (k, v) ∈ ms := by
  obtain ⟨front, back, rfl, -⟩ := List.lookup_eq_some_iff.mp h
  exact List.mem_append_right _ List.mem_cons_self

theorem elementsEq_iff :
    elementsEq xs ys = true ↔ List.Forall₂ (fun x y => deepEq x y = true) xs ys := by
  induction xs generalizing ys with
  | nil => cases ys <;> simp [elementsEq]
  | cons x xs ih => cases ys <;> simp [elementsEq, ih]

theorem membersEq_iff :
    membersEq ms ns = true ↔ ∀ m ∈ ms, ∃ w, ns.lookup m.1 = some w ∧ deepEq m.2 w = true := by
  induction ms with
  | nil => simp [membersEq]
  | cons m ms ih =>
    obtain ⟨k, v⟩ := m
    rw [membersEq, Bool.and_eq_true, ih, List.forall_mem_cons]
    refine and_congr_left' ?_
    cases ns.lookup k <;> simp

theorem deepEq_refl (h : v.Distinct) : deepEq v v = true := by
  induction v using induction with
  | null => rfl
  | bool b => simp [deepEq]
  | num d => simp [deepEq]
  | str s => simp [deepEq]
  | arr xs ih =>
    rw [deepEq, elementsEq_iff, List.forall₂_same]
    exact fun x hx => ih x hx ((all_arr.mp h).2 x hx)
  | obj ms ih =>
    obtain ⟨hnodup, hmembers⟩ := all_obj.mp h
    have hlookup : ∀ m ∈ ms, ms.lookup m.1 = some m.2 := fun m hm => lookup_of_mem hnodup hm
    rw [deepEq, Bool.and_eq_true, membersEq_iff, List.all_eq_true]
    refine ⟨fun m hm => ⟨m.2, hlookup m hm, ih m hm (hmembers m hm)⟩, fun m hm => ?_⟩
    rw [hlookup m hm]
    rfl

end

end Json

end Js

end MySocket
