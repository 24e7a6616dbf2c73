import MySocket.ArraySort

/-!
# Sorting records in groups

`groupSort` of `common.js` sorts a list by a field in ascending order, cuts it where the field
changes, sorts each group by another field in descending order, and puts the groups together.

`groupSort_ordered` : whatever way the engine sorts, the result is the list in the order of the
two fields, if these are finite in all records, and sorting it again changes no key.
-/

namespace MySocket

open Js

/-- The fields by which `groupSort` groups and sorts. -/
structure GroupSettings where
  group : String
  sort : String

/-- The options of a caller, who can leave out each of them. -/
structure GroupOptions where
  group : Option String
  sort : Option String

/-- `$.extend(settings, options)` with the default settings. -/
def GroupOptions.settings (options : GroupOptions) : GroupSettings where
  group := options.group.getD "start_time"
  sort := options.sort.getD "priority"

variable {α : Type*} (field : α → String → Js.Number)

/-- `array[count] = array[count] || []; array[count].push(tc)`, where `count` is at most the
length of the array. -/
def pushAt (array : List (List α)) (count : ℕ) (tc : α) : List (List α) :=
  match array[count]? with
  | some arr => array.set count (arr ++ [tc])
  | none => array ++ [[tc]]

/-- `!tn || (tc[group] != tn[group])` -/
def endsGroup (group : String) (tc : α) : Option α → Bool
  | none => true
  | some tn => (field tc group).looseNe (field tn group)

/-- The loop that fills `array` with the groups of the list. -/
def groupLoop (group : String) : List α → List (List α) → ℕ → List (List α)
  | [], array, _ => array
  | tc :: list, array, count =>
    groupLoop group list (pushAt array count tc)
      (if endsGroup field group tc list.head? then count + 1 else count)

/-- The list as `groupSort` leaves it for its caller. -/
def sortByGroup (S : ArraySort α) (options : GroupOptions) (list : List α) : List α :=
  S.sort (fun a b => (field a options.settings.group).sub (field b options.settings.group)) list

/-- The sort of a group. -/
def sortInGroup (S : ArraySort α) (options : GroupOptions) (arr : List α) : List α :=
  S.sort (fun a b => (field b options.settings.sort).sub (field a options.settings.sort)) arr

/-- `groupSort` -/
def groupSort (S : ArraySort α) (options : GroupOptions) (list : List α) : List α :=
  let array := groupLoop field options.settings.group (sortByGroup field S options list) [] 0
  array.foldl (fun tmp arr => tmp ++ sortInGroup field S options arr) []

/-! ## The groups -/

section

variable {field} {group : String}

theorem pushAt_length (done : List (List α)) (tc : α) :
    pushAt done done.length tc = done ++ [[tc]] := by
  simp [pushAt]

theorem pushAt_append (done : List (List α)) (arr : List α) (tc : α) :
    pushAt (done ++ [arr]) done.length tc = done ++ [arr ++ [tc]] := by
  simp [pushAt]

/-- What is in a group, by its key. -/
abbrev SameGroup (field : α → String → Js.Number) (group : String) (a b : α) : Bool :=
  (field a group).val = (field b group).val

/-- A group that is open is one that the records read so far are split into. -/
theorem pushAt_splitBy (done : List (List α)) {arr : List α} (tc : α)
    (harr : arr.IsChain fun a b => SameGroup field group a b) :
    pushAt (done ++ arr.splitBy (SameGroup field group)) done.length tc =
      done ++ [arr ++ [tc]] := by
  rcases eq_or_ne arr [] with rfl | hne
  · rw [List.splitBy_nil, List.append_nil, pushAt_length]
    rfl
  · rw [List.splitBy_of_isChain hne harr, pushAt_append]

theorem endsGroup_cons {tc tn : α} {list : List α}
    (hgroup : ∀ r ∈ tc :: tn :: list, (field r group).IsFinite) :
    endsGroup field group tc (tn :: list).head? = !SameGroup field group tc tn := by
  have htc := hgroup tc List.mem_cons_self
  have htn := hgroup tn (List.mem_cons_of_mem _ List.mem_cons_self)
  rw [Bool.eq_iff_iff]
  simp [endsGroup, htc.looseNe_iff htn]

/-- The loop from a group `arr` on that is still open. -/
theorem groupLoop_append (list arr : List α) (done : List (List α))
    (hgroup : ∀ r ∈ list, (field r group).IsFinite)
    (harr : (arr ++ list.take 1).IsChain fun a b => SameGroup field group a b) :
    groupLoop field group list (done ++ arr.splitBy (SameGroup field group)) done.length =
      done ++ (arr ++ list).splitBy (SameGroup field group) := by
  induction list generalizing arr done with
  | nil => rw [groupLoop, List.append_nil]
  | cons tc list ih =>
    have hopen : (arr ++ [tc]).splitBy (SameGroup field group) = [arr ++ [tc]] :=
      List.splitBy_of_isChain (by simp) harr
    rw [groupLoop, pushAt_splitBy done tc harr.left_of_append]
    cases list with
    | nil => rw [groupLoop, hopen]
    | cons tn list =>
      have htail := (List.forall_mem_cons.mp hgroup).2
      have hcons := List.append_cons arr tc (tn :: list)
      rw [endsGroup_cons hgroup, hcons]
      by_cases hsame : SameGroup field group tc tn = true
      · have hchain : (arr ++ [tc] ++ [tn]).IsChain fun a b => SameGroup field group a b := by
          refine List.isChain_append.mpr ⟨harr, List.isChain_singleton tn, ?_⟩
          simpa using hsame
        rw [hsame, if_neg (by simp), ← hopen]
        exact ih (arr ++ [tc]) done htail hchain
      · have hsplit := List.splitBy_append_cons (r := SameGroup field group) (l := arr ++ [tc])
          (a := tn) list (by simpa using hsame)
        have hnext := ih [] (done ++ [arr ++ [tc]]) htail (List.isChain_singleton tn)
        rw [List.splitBy_nil, List.append_nil, List.length_append] at hnext
        rw [hsplit, hopen, if_pos (by simpa using hsame), ← List.append_assoc]
        exact hnext

/-- The loop splits the list where the field changes. -/
theorem groupLoop_eq_splitBy {list : List α} (hgroup : ∀ r ∈ list, (field r group).IsFinite) :
    groupLoop field group list [] 0 = list.splitBy (SameGroup field group) := by
  refine groupLoop_append list [] [] hgroup ?_
  cases list with
  | nil => exact List.isChain_nil
  | cons tc list => exact List.isChain_singleton tc

end

/-! ## The order of the result -/

variable {field} {S : ArraySort α} {options : GroupOptions} {list : List α}

theorem sortByGroup_perm : (sortByGroup field S options list).Perm list :=
  S.perm _ list

theorem sortInGroup_perm (arr : List α) : (sortInGroup field S options arr).Perm arr :=
  S.perm _ arr

theorem groupSort_eq (hgroup : ∀ r ∈ list, (field r options.settings.group).IsFinite) :
    groupSort field S options list =
      ((sortByGroup field S options list).splitBy (SameGroup field options.settings.group)).flatMap
        (sortInGroup field S options) := by
  rw [List.flatMap_eq_foldl, groupSort, groupLoop_eq_splitBy]
  exact fun r hr => hgroup r (sortByGroup_perm.mem_iff.mp hr)

theorem groupSort_perm (hgroup : ∀ r ∈ list, (field r options.settings.group).IsFinite) :
    (groupSort field S options list).Perm list := by
  rw [groupSort_eq hgroup]
  refine (List.Perm.flatMap_left _ fun arr _ => sortInGroup_perm arr).trans ?_
  rw [List.flatMap_id', List.flatten_splitBy]
  exact sortByGroup_perm

/-- The order of two records in the result. -/
def Ordered (field : α → String → Js.Number) (settings : GroupSettings) (a b : α) : Prop :=
  (field a settings.group).val < (field b settings.group).val ∨
    (field a settings.group).val = (field b settings.group).val ∧
      (field b settings.sort).val ≤ (field a settings.sort).val

theorem pairwise_groupSort (hgroup : ∀ r ∈ list, (field r options.settings.group).IsFinite)
    (hsort : ∀ r ∈ list, (field r options.settings.sort).IsFinite) :
    (groupSort field S options list).Pairwise (Ordered field options.settings) := by
  have hmem : ∀ {arr}, arr ∈ (sortByGroup field S options list).splitBy
      (SameGroup field options.settings.group) → ∀ r ∈ arr, r ∈ list := by
    intro arr harr r hr
    have hflatten := List.mem_flatten_of_mem harr hr
    rw [List.flatten_splitBy] at hflatten
    exact sortByGroup_perm.mem_iff.mp hflatten
  rw [groupSort_eq hgroup, List.pairwise_flatMap]
  constructor
  · -- in a group the first field is the same, and the second is sorted
    intro arr harr
    have hin := S.pairwise_sort_sub_flip fun r hr => hsort r (hmem harr r hr)
    refine hin.imp_of_mem fun {a b} ha hb hab => .inr ⟨?_, hab⟩
    exact key_eq_of_mem_splitBy harr a ((sortInGroup_perm arr).mem_iff.mp ha) b
      ((sortInGroup_perm arr).mem_iff.mp hb)
  · refine (pairwise_splitBy (S.pairwise_sort_sub hgroup)).imp fun {arr arr'} hlt a ha b hb => ?_
    have ha' := (sortInGroup_perm arr).mem_iff.mp ha
    have hb' := (sortInGroup_perm arr').mem_iff.mp hb
    exact .inl (hlt a ha' b hb')

/-- The fields that a record is sorted by. -/
def sortKey (field : α → String → Js.Number) (settings : GroupSettings) (r : α) :
    Js.Number × Js.Number :=
  (field r settings.group, field r settings.sort)

/-- The order of the keys in the result. -/
def KeyOrdered (k k' : Js.Number × Js.Number) : Prop :=
  k.1.le k'.1 = true ∧ (k.1 = k'.1 → k'.2.le k.2 = true)

theorem KeyOrdered.antisymm {k k' : Js.Number × Js.Number} (h : KeyOrdered k k')
    (h' : KeyOrdered k' k) : k = k' := by
  have hgroup := Js.Number.eq_of_le_of_le h.1 h'.1
  exact Prod.ext hgroup (Js.Number.eq_of_le_of_le (h'.2 hgroup.symm) (h.2 hgroup))

theorem Ordered.keyOrdered {a b : α} (h : Ordered field options.settings a b)
    (hgroup : ∀ r ∈ list, (field r options.settings.group).IsFinite)
    (hsort : ∀ r ∈ list, (field r options.settings.sort).IsFinite) (ha : a ∈ list) (hb : b ∈ list) :
    KeyOrdered (sortKey field options.settings a) (sortKey field options.settings b) := by
  simp only [KeyOrdered, sortKey, (hgroup a ha).le_iff (hgroup b hb),
    (hgroup a ha).eq_iff (hgroup b hb), (hsort b hb).le_iff (hsort a ha)]
  rcases h with hlt | ⟨heq, hle⟩
  · exact ⟨hlt.le, fun heq => absurd heq hlt.ne⟩
  · exact ⟨heq.le, fun _ => hle⟩

theorem pairwise_keyOrdered (hgroup : ∀ r ∈ list, (field r options.settings.group).IsFinite)
    (hsort : ∀ r ∈ list, (field r options.settings.sort).IsFinite) :
    (groupSort field S options list).Pairwise fun a b =>
      KeyOrdered (sortKey field options.settings a) (sortKey field options.settings b) := by
  have hmem : ∀ {r}, r ∈ groupSort field S options list → r ∈ list :=
    (groupSort_perm hgroup).mem_iff.mp
  exact (pairwise_groupSort hgroup hsort).imp_of_mem fun {a b} ha hb hab =>
    hab.keyOrdered hgroup hsort (hmem ha) (hmem hb)

/-- The result of `groupSort` is the list in the order of the two fields. Another `groupSort` of
it, by whatever way to sort, leaves the fields in the same order. -/
theorem groupSort_ordered (field : α → String → Js.Number) (S S' : ArraySort α)
    (options : GroupOptions) (list : List α)
    (hgroup : ∀ r ∈ list, (field r options.settings.group).IsFinite)
    (hsort : ∀ r ∈ list, (field r options.settings.sort).IsFinite) :
    (groupSort field S options list).Perm list ∧
      (groupSort field S options list).Pairwise (fun a b =>
        (field a options.settings.group).le (field b options.settings.group) = true) ∧
      (groupSort field S options list).Pairwise (fun a b =>
        field a options.settings.group = field b options.settings.group →
          (field b options.settings.sort).le (field a options.settings.sort) = true) ∧
      (groupSort field S' options (groupSort field S options list)).map
          (sortKey field options.settings) =
        (groupSort field S options list).map (sortKey field options.settings) := by
  have hperm := groupSort_perm (S := S) hgroup
  have hordered := pairwise_keyOrdered (S := S) hgroup hsort
  refine ⟨hperm, hordered.imp fun h => h.1, hordered.imp fun h => h.2, ?_⟩
  have hgroup' := fun r hr => hgroup r (hperm.mem_iff.mp hr)
  have hsort' := fun r hr => hsort r (hperm.mem_iff.mp hr)
  refine List.Perm.eq_of_pairwise (fun k k' _ _ => KeyOrdered.antisymm)
    (List.pairwise_map.mpr (pairwise_keyOrdered hgroup' hsort')) (List.pairwise_map.mpr hordered) ?_
  exact (groupSort_perm hgroup').map _

/-- The programmes of a day, by their start and their priority. -/
def programmes : List (ℤ × ℤ) :=
  [(20, 1), (8, 3), (20, 5), (8, 3), (12, 2)]

def programmeField (r : ℤ × ℤ) (name : String) : Js.Number :=
  if name = "start_time" then .round r.1 else if name = "priority" then .round r.2 else .nan

theorem programmes_small : ∀ r ∈ programmes, |r.1| < 2 ^ 53 ∧ |r.2| < 2 ^ 53 := by
  norm_num [programmes]

theorem programmes_ordered :
    (groupSort programmeField (.mergeSort _) ⟨none, none⟩ programmes).Perm programmes ∧
      (groupSort programmeField (.mergeSort _) ⟨none, none⟩ programmes).Pairwise fun a b =>
        (Js.Number.round a.1).le (.round b.1) = true := by
  obtain ⟨hperm, hgroup, -, -⟩ := groupSort_ordered programmeField (.mergeSort _) (.mergeSort _)
    ⟨none, none⟩ programmes (fun r hr => Js.Number.isFinite_round_int (programmes_small r hr).1)
    fun r hr => Js.Number.isFinite_round_int (programmes_small r hr).2
  exact ⟨hperm, hgroup⟩

end MySocket
