import MySocket.Arrangement
import MySocket.Favorites

/-!
# The lists of records

`FSJsql.js` lists the records of `fsc_favorite` and of `fsc_history`, the latest first, by queries
with an offset and a length. The time of a record counts in seconds, and the database may put the
records of one second in any order, each time a query is made.

* `mergeTopN_eq` : the first records of each table are enough for the first of both.
* `paging_iff` : page after page, the lists hold every record once, exactly if no two records of
  one time can come on different sides of the end of a page.
-/

namespace MySocket

namespace FSJsql

/-! ## The queries -/

/-- The columns of `fsc_history`. -/
inductive HistoryColumn
  | mediaId
  | nameCn
  | displayType
  | maxIndex
  | virtualUser
  | userId
  | serialId
  | serialIndex
  | serialTitle
  | serialClarity
  | serialLanguage
  | playTimeInSeconds
  | operationTime
  deriving DecidableEq

def HistoryColumn.name : HistoryColumn → String
  | mediaId => "media_id"
  | nameCn => "name_cn"
  | displayType => "display_type"
  | maxIndex => "max_index"
  | virtualUser => "virtual_user"
  | userId => "user_id"
  | serialId => "serial_id"
  | serialIndex => "serial_index"
  | serialTitle => "serial_title"
  | serialClarity => "serial_clarity"
  | serialLanguage => "serial_language"
  | playTimeInSeconds => "play_time_in_seconds"
  | operationTime => "operation_time"

/-- A query for the rows of a table from an offset on, the latest first. -/
structure Listing (C : Type) where
  columns : List C
  name : C → String
  table : String

def Listing.sql {C : Type} (listing : Listing C) : String :=
  "select " ++ ", ".intercalate (listing.columns.map listing.name) ++ " from " ++ listing.table ++
    " order by operation_time desc limit ?, ?"

/-- The query of `loadFavorites`. -/
def favoriteListing : Listing Column where
  columns := [.mediaId, .virtualUser, .userId, .operationTime, .nameCn, .displayType, .ucsStatus,
    .maxIndex]
  name := Column.name
  table := "fsc_favorite"

/-- The query of `loadHistorys`. -/
def historyListing : Listing HistoryColumn where
  columns := [.mediaId, .nameCn, .displayType, .maxIndex, .virtualUser, .userId, .serialId,
    .serialIndex, .serialTitle, .serialClarity, .serialLanguage, .playTimeInSeconds, .operationTime]
  name := HistoryColumn.name
  table := "fsc_history"

example : favoriteListing.sql =
    "select media_id, virtual_user, user_id, operation_time, name_cn, display_type, " ++
      "ucs_status, max_index from fsc_favorite order by operation_time desc limit ?, ?" := by
  decide +kernel

example : historyListing.sql =
    "select media_id, name_cn, display_type, max_index, virtual_user, user_id, " ++
      "serial_id, serial_index, serial_title, serial_clarity, serial_language, " ++
      "play_time_in_seconds, operation_time from fsc_history " ++
        "order by operation_time desc limit ?, ?" := by
  decide +kernel

variable {V : Type}

/-- `query` of the bridge for a listing : the titles, and the rows of the answer. -/
def Listing.query {C : Type} (listing : Listing C) (text : String → V) (rows : List (C → V)) :
    List (List V) :=
  listing.columns.map (fun column => text (listing.name column)) ::
    rows.map fun row => listing.columns.map row

/-- A row of `fsc_favorite` may stand before another if its time is not earlier. -/
def favoriteOrder (le : V → V → Bool) (r r' : Column → V) : Bool :=
  le (r' .operationTime) (r .operationTime)

def historyOrder (le : V → V → Bool) (r r' : HistoryColumn → V) : Bool :=
  le (r' .operationTime) (r .operationTime)

/-! ## The script -/

variable {le : V → V → Bool} {favorite : List (Column → V)} {history : List (HistoryColumn → V)}

def loadFavorites (text : String → V) (answers : Answers (favoriteOrder le) favorite)
    (offset len : ℕ) : List (Record V) :=
  convertToKV .favorite (favoriteListing.query text (answers.rows offset len))

def loadHistorys (text : String → V) (answers : Answers (historyOrder le) history)
    (offset len : ℕ) : List (Record V) :=
  convertToKV .history (historyListing.query text (answers.rows offset len))

def Record.operationTime : Record V → Option V
  | .favorite record => record.operationTime
  | .history record => record.operationTime

/-- `historyValue.operation_time > favoriteValue.operation_time` -/
def laterThan (gt : V → V → Bool) (historyValue favoriteValue : Record V) : Bool :=
  match historyValue.operationTime, favoriteValue.operationTime with
  | some time, some time' => gt time time'
  | _, _ => false

/-- The loop of `mergeTopN`, with the rounds that are left. -/
def mergeLoop (gt : V → V → Bool) (history favorite : List (Record V)) :
    ℕ → ℕ → ℕ → List (Record V) → List (Record V)
  | 0, _, _, ret => ret
  | n + 1, historyCursor, favoriteCursor, ret =>
    match history[historyCursor]?, favorite[favoriteCursor]? with
    | some historyValue, some favoriteValue =>
      if laterThan gt historyValue favoriteValue then
        mergeLoop gt history favorite n (historyCursor + 1) favoriteCursor (ret ++ [historyValue])
      else
        mergeLoop gt history favorite n historyCursor (favoriteCursor + 1) (ret ++ [favoriteValue])
    | some historyValue, none =>
      mergeLoop gt history favorite n (historyCursor + 1) favoriteCursor (ret ++ [historyValue])
    | none, some favoriteValue =>
      mergeLoop gt history favorite n historyCursor (favoriteCursor + 1) (ret ++ [favoriteValue])
    | none, none => ret

def mergeTopN (gt : V → V → Bool) (text : String → V)
    (historyAnswers : Answers (historyOrder le) history)
    (favoriteAnswers : Answers (favoriteOrder le) favorite) (topN : ℕ) : List (Record V) :=
  mergeLoop gt (loadHistorys text historyAnswers 0 topN) (loadFavorites text favoriteAnswers 0 topN)
    topN 0 0 []

/-! ## Rows and records -/

def favoriteRecord (row : Column → V) : Record V :=
  wrapRecord .favorite (favoriteListing.columns.map row)

def historyRecord (row : HistoryColumn → V) : Record V :=
  wrapRecord .history (historyListing.columns.map row)

/-- The titles are left out. -/
theorem convertToKV_query {C : Type} (type : RecordType) (listing : Listing C) (text : String → V)
    (rows : List (C → V)) :
    convertToKV type (listing.query text rows) =
      rows.map fun row => wrapRecord type (listing.columns.map row) := by
  rw [convertToKV, Listing.query, List.drop_one, List.tail_cons, List.map_map]
  rfl

theorem loadFavorites_eq (text : String → V) (answers : Answers (favoriteOrder le) favorite)
    (offset len : ℕ) :
    loadFavorites text answers offset len = (answers.rows offset len).map favoriteRecord :=
  convertToKV_query .favorite favoriteListing text _

theorem loadHistorys_eq (text : String → V) (answers : Answers (historyOrder le) history)
    (offset len : ℕ) :
    loadHistorys text answers offset len = (answers.rows offset len).map historyRecord :=
  convertToKV_query .history historyListing text _

/-- A record has all the columns of its row. -/
theorem favoriteRecord_injective : Function.Injective (favoriteRecord (V := V)) := by
  intro r r' h
  injection h with h
  injection h with h₀ h₁ h₂ h₃ h₄ h₅ h₆ h₇
  funext column
  cases column with
  | mediaId => exact Option.some.inj h₀
  | virtualUser => exact Option.some.inj h₁
  | userId => exact Option.some.inj h₂
  | operationTime => exact Option.some.inj h₃
  | nameCn => exact Option.some.inj h₄
  | displayType => exact Option.some.inj h₅
  | ucsStatus => exact Option.some.inj h₆
  | maxIndex => exact Option.some.inj h₇

theorem historyRecord_injective : Function.Injective (historyRecord (V := V)) := by
  intro r r' h
  injection h with h
  injection h with h₀ h₁ h₂ h₃ h₄ h₅ h₆ h₇ h₈ h₉ h₁₀ h₁₁ h₁₂
  funext column
  cases column with
  | mediaId => exact Option.some.inj h₀
  | nameCn => exact Option.some.inj h₁
  | displayType => exact Option.some.inj h₂
  | maxIndex => exact Option.some.inj h₃
  | virtualUser => exact Option.some.inj h₄
  | userId => exact Option.some.inj h₅
  | serialId => exact Option.some.inj h₆
  | serialIndex => exact Option.some.inj h₇
  | serialTitle => exact Option.some.inj h₈
  | serialClarity => exact Option.some.inj h₉
  | serialLanguage => exact Option.some.inj h₁₀
  | playTimeInSeconds => exact Option.some.inj h₁₁
  | operationTime => exact Option.some.inj h₁₂

theorem tieOrder_favorite (h : TieOrder le) : TieOrder (favoriteOrder le) :=
  h.descending fun row : Column → V => row .operationTime

theorem tieOrder_history (h : TieOrder le) : TieOrder (historyOrder le) :=
  h.descending fun row : HistoryColumn → V => row .operationTime

/-! ## Merging -/

theorem drop_eq_cons {α : Type} {l : List α} {n : ℕ} {a : α} (h : l[n]? = some a) :
    l.drop n = a :: l.drop (n + 1) := by
  obtain ⟨hn, rfl⟩ := List.getElem?_eq_some_iff.mp h
  exact List.drop_eq_getElem_cons hn

/-- The cursors walk through the merge of the two lists. -/
theorem mergeLoop_eq (gt : V → V → Bool) (history favorite : List (Record V)) (n h f : ℕ)
    (ret : List (Record V)) :
    mergeLoop gt history favorite n h f ret = ret ++ ((favorite.drop f).merge (history.drop h)
      fun favoriteValue historyValue => !laterThan gt historyValue favoriteValue).take n := by
  induction n generalizing h f ret with
  | zero => rw [mergeLoop, List.take_zero, List.append_nil]
  | succ n ih =>
    rw [mergeLoop]
    cases hh : history[h]? with
    | none =>
      have hhistory := List.drop_eq_nil_of_le (List.getElem?_eq_none_iff.mp hh)
      cases hf : favorite[f]? with
      | none =>
        rw [List.drop_eq_nil_of_le (List.getElem?_eq_none_iff.mp hf), hhistory]
        simp
      | some favoriteValue =>
        dsimp only
        rw [ih, hhistory, drop_eq_cons hf]
        simp
    | some historyValue =>
      cases hf : favorite[f]? with
      | none =>
        have hfavorite := List.drop_eq_nil_of_le (List.getElem?_eq_none_iff.mp hf)
        dsimp only
        rw [ih, hfavorite, drop_eq_cons hh]
        simp
      | some favoriteValue =>
        dsimp only
        rw [drop_eq_cons hf, drop_eq_cons hh, List.cons_merge_cons]
        by_cases hlater : laterThan gt historyValue favoriteValue
        · rw [if_pos hlater, ih, drop_eq_cons hf]
          simp [hlater]
        · rw [if_neg hlater, ih, drop_eq_cons hh]
          simp [hlater]

/-- A row of one of the tables, the time in it and its record. -/
abbrev EitherRow (V : Type) :=
  (HistoryColumn → V) ⊕ (Column → V)

def EitherRow.time : EitherRow V → V
  | .inl row => row .operationTime
  | .inr row => row .operationTime

def EitherRow.record : EitherRow V → Record V
  | .inl row => historyRecord row
  | .inr row => favoriteRecord row

def eitherOrder (le : V → V → Bool) (r r' : EitherRow V) : Bool :=
  le r'.time r.time

theorem tieOrder_either (h : TieOrder le) : TieOrder (eitherOrder le) :=
  h.descending EitherRow.time

/-- `mergeTopN` returns the latest records of both tables : the records of `topN` rows, or of all
if there are fewer, in the order of their times, and no row that is left out is later. -/
theorem mergeTopN_eq (hle : TieOrder le) {gt : V → V → Bool}
    (hgt : ∀ r ∈ history, ∀ r' ∈ favorite,
      gt (r .operationTime) (r' .operationTime) = !le (r .operationTime) (r' .operationTime))
    (text : String → V) (historyAnswers : Answers (historyOrder le) history)
    (favoriteAnswers : Answers (favoriteOrder le) favorite) (topN : ℕ) :
    ∃ taken left : List (EitherRow V),
      mergeTopN gt text historyAnswers favoriteAnswers topN = taken.map EitherRow.record ∧
      (taken ++ left).Perm (history.map .inl ++ favorite.map .inr) ∧
      taken.length = min topN (history.length + favorite.length) ∧
      taken.Pairwise (fun r r' => le r'.time r.time) ∧
      ∀ r ∈ left, ∀ r' ∈ taken, le r.time r'.time := by
  obtain ⟨lh, hlh, hrowsh⟩ := historyAnswers.lawful 0 topN
  obtain ⟨lf, hlf, hrowsf⟩ := favoriteAnswers.lawful 0 topN
  have hh : Arranged (eitherOrder le) (history.map .inl) (lh.map .inl) := hlh.map fun _ _ h => h
  have hf : Arranged (eitherOrder le) (favorite.map .inr) (lf.map .inr) := hlf.map fun _ _ h => h
  obtain ⟨left, hperm, hsorted, hleft⟩ := exists_rest_merge (tieOrder_either hle) hf hh topN
  refine ⟨_, left, ?_, hperm.trans List.perm_append_comm, ?_, hsorted,
    fun r hr r' hr' => hleft r' hr' r hr⟩
  · rw [List.map_take, List.map_merge (s := fun r r' => !laterThan gt r' r), mergeTopN,
      loadHistorys_eq, loadFavorites_eq, hrowsh, hrowsf, mergeLoop_eq, List.nil_append]
    · simp only [List.drop_zero, List.map_take, List.map_map]
      rfl
    · intro r hr r' hr'
      obtain ⟨row, hrow, rfl⟩ := List.mem_map.mp (List.mem_of_mem_take hr)
      obtain ⟨row', hrow', rfl⟩ := List.mem_map.mp (List.mem_of_mem_take hr')
      have hlater := hgt row' (hlh.perm.mem_iff.mp hrow') row (hlf.perm.mem_iff.mp hrow)
      exact ((congrArg (!·) hlater).trans (Bool.not_not _)).symm
  · rw [List.length_take, List.length_merge, List.length_take, List.length_take, List.length_map,
      List.length_map, hlh.perm.length_eq, hlf.perm.length_eq]
    omega

section

/-- The order of times that are numbers. -/
def timeLe (time time' : ℕ) : Bool :=
  time ≤ time'

theorem tieOrder_timeLe : TieOrder timeLe where
  trans a b c hab hbc := by
    simp only [timeLe, decide_eq_true_eq] at hab hbc ⊢
    omega
  total a b := by
    simp only [timeLe, Bool.or_eq_true, decide_eq_true_eq]
    omega

def favoriteAt (mediaId time : ℕ) (column : Column) : ℕ :=
  if column = .operationTime then time else mediaId

def historyAt (mediaId time : ℕ) (column : HistoryColumn) : ℕ :=
  if column = .operationTime then time else mediaId

theorem arranged_favorites :
    Arranged (favoriteOrder timeLe) [favoriteAt 1 30, favoriteAt 2 20]
      [favoriteAt 1 30, favoriteAt 2 20] :=
  ⟨.refl _, by decide⟩

theorem arranged_history :
    Arranged (historyOrder timeLe) [historyAt 3 20] [historyAt 3 20] :=
  ⟨.refl _, by decide⟩

theorem merge_two_of_three :
    ∃ taken left : List (EitherRow ℕ),
      mergeTopN (fun a b => decide (b < a)) String.length arranged_history.answers
        arranged_favorites.answers 2 = taken.map EitherRow.record ∧
      (taken ++ left).Perm
        ([historyAt 3 20].map .inl ++ [favoriteAt 1 30, favoriteAt 2 20].map .inr) ∧
      taken.length = min 2 (1 + 2) ∧
      taken.Pairwise (fun r r' => timeLe r'.time r.time) ∧
      ∀ r ∈ left, ∀ r' ∈ taken, timeLe r.time r'.time :=
  mergeTopN_eq tieOrder_timeLe (by decide) String.length arranged_history.answers
    arranged_favorites.answers 2

end

/-! ## Paging -/

theorem collects_map_iff {α β : Type} {f : α → β} (hf : Function.Injective f)
    {load : ℕ → ℕ → List α} {s : ℕ} {records : List α} :
    Collects (fun offset len => (load offset len).map f) s (records.map f) ↔
      Collects load s records := by
  simp only [Collects, ← List.map_flatMap, List.map_perm_map_iff hf, ne_eq, List.map_eq_nil_iff]

/-- The pages of both lists hold all records, whatever order the database puts the records of one
time in, exactly if no two records of one time can come on different sides of the end of a page. -/
theorem paging_iff (hle : TieOrder le) (text : String → V) (favorite : List (Column → V))
    (history : List (HistoryColumn → V)) {len : ℕ} (hlen : 0 < len) :
    (∀ answers : Answers (favoriteOrder le) favorite,
        Collects (loadFavorites text answers) len (favorite.map favoriteRecord)) ∧
      (∀ answers : Answers (historyOrder le) history,
        Collects (loadHistorys text answers) len (history.map historyRecord)) ↔
      (∀ k, ¬Straddles (favoriteOrder le) favorite (k * len)) ∧
        ∀ k, ¬Straddles (historyOrder le) history (k * len) := by
  rw [← collects_iff (tieOrder_favorite hle) hlen, ← collects_iff (tieOrder_history hle) hlen]
  refine and_congr (forall_congr' fun answers => ?_) (forall_congr' fun answers => ?_)
  · rw [show loadFavorites text answers = _ from funext₂ (loadFavorites_eq text answers)]
    exact collects_map_iff favoriteRecord_injective
  · rw [show loadHistorys text answers = _ from funext₂ (loadHistorys_eq text answers)]
    exact collects_map_iff historyRecord_injective

section

theorem paging_two_iff :
    (∀ answers : Answers (favoriteOrder timeLe) [favoriteAt 1 30, favoriteAt 2 20],
        Collects (loadFavorites String.length answers) 1
          ([favoriteAt 1 30, favoriteAt 2 20].map favoriteRecord)) ∧
      (∀ answers : Answers (historyOrder timeLe) [historyAt 3 20],
        Collects (loadHistorys String.length answers) 1 ([historyAt 3 20].map historyRecord)) ↔
      (∀ k, ¬Straddles (favoriteOrder timeLe) [favoriteAt 1 30, favoriteAt 2 20] (k * 1)) ∧
        ∀ k, ¬Straddles (historyOrder timeLe) [historyAt 3 20] (k * 1) :=
  paging_iff tieOrder_timeLe String.length _ _ Nat.one_pos

/-- Two favourites of one second, put the other way round from the second page on. -/
def swappedAnswers :
    Answers (favoriteOrder timeLe) [favoriteAt 1 30, favoriteAt 2 30] where
  rows offset len :=
    if offset = 0 then ([favoriteAt 1 30, favoriteAt 2 30].drop offset).take len
    else ([favoriteAt 2 30, favoriteAt 1 30].drop offset).take len
  lawful offset len := by
    split_ifs
    · exact ⟨_, ⟨.refl _, by decide⟩, rfl⟩
    · exact ⟨_, ⟨.swap .., by decide⟩, rfl⟩

/-- The first favourite is on both pages, and the second on none. -/
theorem favorite_lost :
    loadFavorites String.length swappedAnswers 0 1 = [favoriteRecord (favoriteAt 1 30)] ∧
      loadFavorites String.length swappedAnswers 1 1 = [favoriteRecord (favoriteAt 1 30)] ∧
      loadFavorites String.length swappedAnswers 2 1 = [] ∧
      ¬Collects (loadFavorites String.length swappedAnswers) 1
        ([favoriteAt 1 30, favoriteAt 2 30].map favoriteRecord) := by
  refine ⟨rfl, rfl, rfl, ?_⟩
  rintro ⟨m, hend, hpages, hperm⟩
  match m with
  | 0 => cases hend
  | 1 => cases hend
  | 2 => exact absurd hperm (by decide)
  | m + 3 => exact hpages 2 (by omega) rfl

end

end FSJsql

end MySocket
