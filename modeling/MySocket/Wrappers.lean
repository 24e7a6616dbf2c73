import Mathlib.Data.List.Basic
import MySocket.Favorites

/-!
# Two converters of a result

`FSJsql.js` turns the result of a query into records twice : by `convertToKV`, and by the objects
`wrapFavorite` and `wrapHistory`, each with a table of its own. All of them leave out the titles;
`wrapHistory` does so in the loop of `wrapAll`, and again in `getRecord`.

* `wrapAll_favorite` : `wrapFavorite` agrees with `convertToKV` on every result.
* `agrees_iff_nil` : `wrapHistory` does only for a result without rows.
-/

namespace MySocket

namespace FSJsql

/-- A property of `undefined` was read. -/
inductive JsError
  | typeError
  deriving DecidableEq

variable {V : Type}

/-- An object of `wrapFavorite` or `wrapHistory`. -/
structure Wrapper (V : Type) where
  totalRecords : ℤ
  getRecord : ℕ → Except JsError (Record V)
  wrapAll : Except JsError (List (Record V))

/-! ## The script -/

def favoriteRecordAt (jsonResult : List (List V)) (index : ℕ) : Except JsError (Record V) :=
  match jsonResult[index + 1]? with
  | some record => .ok <| .favorite
    { mediaId := record[0]?
      virtualUser := record[1]?
      userId := record[2]?
      operationTime := record[3]?
      nameCn := record[4]?
      displayType := record[5]?
      ucsStatus := record[6]?
      maxIndex := record[7]? }
  | none => .error .typeError

def historyRecordAt (jsonResult : List (List V)) (index : ℕ) : Except JsError (Record V) :=
  match jsonResult[index + 1]? with
  | some record => .ok <| .history
    { mediaId := record[0]?
      nameCn := record[1]?
      displayType := record[2]?
      maxIndex := record[3]?
      virtualUser := record[4]?
      userId := record[5]?
      serialId := record[6]?
      serialIndex := record[7]?
      serialTitle := record[8]?
      serialClarity := record[9]?
      serialLanguage := record[10]?
      playTimeInSeconds := record[11]?
      operationTime := record[12]? }
  | none => .error .typeError

def wrapFavorite (jsonResult : List (List V)) : Wrapper V :=
  let totalRecords : ℤ := jsonResult.length - 1
  { totalRecords
    getRecord := favoriteRecordAt jsonResult
    wrapAll := (List.range totalRecords.toNat).mapM (favoriteRecordAt jsonResult) }

/-- Here the loop of `wrapAll` begins with `1`, and ends with the length of the result. -/
def wrapHistory (jsonResult : List (List V)) : Wrapper V where
  totalRecords := jsonResult.length - 1
  getRecord := historyRecordAt jsonResult
  wrapAll := (List.range' 1 (jsonResult.length - 1)).mapM (historyRecordAt jsonResult)

/-! ## The property -/

/-- The objects of a result convert it as `convertToKV` does, record by record. -/
structure Agrees (result : List (List V)) : Prop where
  favorite : (wrapFavorite result).wrapAll = .ok (convertToKV .favorite result)
  history : (wrapHistory result).wrapAll = .ok (convertToKV .history result)
  length : ∀ type, (convertToKV type result).length = result.length - 1

/-! ## The loops -/

section

variable {α β : Type} {f : α → Except JsError β}

theorem mapM_of_ok {g : α → β} {l : List α} (h : ∀ a ∈ l, f a = .ok (g a)) :
    l.mapM f = .ok (l.map g) := by
  induction l with
  | nil => rfl
  | cons a l ih =>
    obtain ⟨ha, hl⟩ := List.forall_mem_cons.mp h
    rw [List.mapM_cons, ha, ih hl]
    rfl

/-- One exception ends the loop. -/
theorem mapM_of_error {l : List α} {a : α} (ha : a ∈ l) (h : f a = .error .typeError) :
    l.mapM f = .error .typeError := by
  induction l with
  | nil => cases ha
  | cons b l ih =>
    rw [List.mapM_cons]
    cases hb : f b with
    | error e =>
      cases e
      rfl
    | ok c =>
      have hne : a ≠ b := by
        rintro rfl
        rw [h] at hb
        cases hb
      rw [ih ((List.mem_cons.mp ha).resolve_left hne)]
      rfl

end

variable {titles : List V} {rows : List (List V)}

theorem length_convertToKV (type : RecordType) (result : List (List V)) :
    (convertToKV type result).length = result.length - 1 := by
  rw [convertToKV, List.length_map, List.length_drop]

theorem favoriteRecordAt_eq {index : ℕ} {record : List V} (h : rows[index]? = some record) :
    favoriteRecordAt (titles :: rows) index = .ok (wrapRecord .favorite record) := by
  rw [favoriteRecordAt, List.getElem?_cons_succ, h]
  rfl

theorem wrapAll_favorite (titles : List V) (rows : List (List V)) :
    (wrapFavorite (titles :: rows)).wrapAll = .ok (convertToKV .favorite (titles :: rows)) := by
  have hlength : ((titles :: rows).length - 1 : ℤ).toNat = rows.length := by
    rw [List.length_cons]
    omega
  have hrows : convertToKV .favorite (titles :: rows) =
      (List.range rows.length).map fun i => wrapRecord .favorite (rows[i]?.getD []) := by
    refine List.ext_getElem (by simp [convertToKV]) fun i hi _ => ?_
    have hi : i < rows.length := by simpa [convertToKV] using hi
    simp [convertToKV, hi]
  rw [wrapFavorite, hlength, hrows]
  refine mapM_of_ok fun i hi => favoriteRecordAt_eq ?_
  have hi : i < rows.length := List.mem_range.mp hi
  simp [hi]

/-- The last record is looked for behind the end. -/
theorem wrapAll_history_error (titles : List V) (hrows : rows ≠ []) :
    (wrapHistory (titles :: rows)).wrapAll = .error .typeError := by
  have hpos := List.length_pos_iff.mpr hrows
  refine mapM_of_error (a := rows.length) ?_ ?_
  · simp [List.mem_range'_1]
    omega
  · rw [historyRecordAt, List.getElem?_cons_succ, List.getElem?_eq_none (Nat.le_refl _)]

theorem wrapAll_history_nil (titles : List V) :
    (wrapHistory [titles]).wrapAll = .ok (convertToKV .history [titles]) :=
  rfl

/-! ## The results -/

/-- The converters agree on a result exactly if it has no rows. -/
theorem agrees_iff_nil (titles : List V) (rows : List (List V)) :
    Agrees (titles :: rows) ↔ rows = [] := by
  constructor
  · intro h
    by_contra hrows
    cases (wrapAll_history_error titles hrows).symm.trans h.history
  · rintro rfl
    exact ⟨wrapAll_favorite titles [], wrapAll_history_nil titles, fun type =>
      length_convertToKV type _⟩

/-- A history of one row. -/
theorem one_row_throws :
    (wrapHistory [["media_id"], ["17"]]).wrapAll = .error .typeError ∧
      ¬Agrees [["media_id"], ["17"]] :=
  ⟨rfl, fun h => nomatch h.history⟩

end FSJsql

end MySocket
