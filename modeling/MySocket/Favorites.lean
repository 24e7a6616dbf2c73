import Mathlib.Data.Int.Notation
import Mathlib.Data.List.Induction
import Mathlib.Logic.Function.Basic
import MySocket.Table

/-!
# The favourites

`FSJsql.js` keeps the favourites of a user in the table `fsc_favorite`, through a bridge to
the database of the device. A row is written by position and read by position : the columns
of the `insert`, the parameters bound to them, the columns of the `select` and the indices
in `wrapRecord` are four lists that have to agree.

* `getFavStatus_eq` : after any calls of `setFavorite` and `unsetFavorite`, the favourites
  found for an id are the record of the last call on it, if that was `setFavorite`.
* `getFavStatus_null` : `getFavStatus` and `unsetFavorite` bind the id itself, and find nothing
  if it is null, while `setFavorite` binds its text.
-/

namespace MySocket

namespace FSJsql

/-! ## Records -/

/-- `dataType` -/
inductive RecordType
  | favorite
  | history

structure FavoriteRecord (V : Type) where
  mediaId : Option V
  virtualUser : Option V
  userId : Option V
  operationTime : Option V
  nameCn : Option V
  displayType : Option V
  ucsStatus : Option V
  maxIndex : Option V
  deriving DecidableEq

structure HistoryRecord (V : Type) where
  mediaId : Option V
  nameCn : Option V
  displayType : Option V
  maxIndex : Option V
  virtualUser : Option V
  userId : Option V
  serialId : Option V
  serialIndex : Option V
  serialTitle : Option V
  serialClarity : Option V
  serialLanguage : Option V
  playTimeInSeconds : Option V
  operationTime : Option V
  deriving DecidableEq

/-- What `wrapRecord` returns; a field is `none` if it is undefined. -/
inductive Record (V : Type)
  | favorite (record : FavoriteRecord V)
  | history (record : HistoryRecord V)
  deriving DecidableEq

def wrapRecord {V : Type} (type : RecordType) (record : List V) : Record V :=
  match type with
  | .favorite => .favorite
    { mediaId := record[0]?
      virtualUser := record[1]?
      userId := record[2]?
      operationTime := record[3]?
      nameCn := record[4]?
      displayType := record[5]?
      ucsStatus := record[6]?
      maxIndex := record[7]? }
  | .history => .history
    { mediaId := record[0]?
      nameCn := record[1]?
      displayType := record[2]?
      maxIndex := record[3]?
      virtualUser := record[4]?
      userId := record[5]?
      serialId := record[6]?
      serialIndex := record[7]?
      serialTitle := record[8]?
      serialClarity := record[9]?
      serialLanguage := record[10]?
      playTimeInSeconds := record[11]?
      operationTime := record[12]? }

/-- The first element is the title. -/
def convertToKV {V : Type} (type : RecordType) (ret : List (List V)) : List (Record V) :=
  (ret.drop 1).map (wrapRecord type)

/-! ## The database -/

/-- The columns of `fsc_favorite`. -/
inductive Column
  | mediaId
  | virtualUser
  | userId
  | operationTime
  | nameCn
  | displayType
  | ucsStatus
  | maxIndex
  deriving DecidableEq

def Column.name : Column → String
  | mediaId => "media_id"
  | virtualUser => "virtual_user"
  | userId => "user_id"
  | operationTime => "operation_time"
  | nameCn => "name_cn"
  | displayType => "display_type"
  | ucsStatus => "ucs_status"
  | maxIndex => "max_index"

/-- The text in a column, `none` if it is null. -/
abbrev Cell := Option String

abbrev Row := Column → Cell

/-- `fsc_favorite`, with its key. -/
abbrev Favorites := Table fun row : Row => row .mediaId

/-- The statements on one id, with the columns in the order of their text. -/
inductive Statement
  | select (columns : List Column)
  | delete
  | insertOrReplace (columns : List Column)

/-- The text of the statement. -/
def Statement.sql : Statement → String
  | select columns =>
    "select " ++ ", ".intercalate (columns.map Column.name) ++ " from fsc_favorite where media_id=?"
  | delete => "delete from fsc_favorite where media_id = ?"
  | insertOrReplace columns =>
    "insert or replace into fsc_favorite(" ++ ", ".intercalate (columns.map Column.name) ++ ")values("
      ++ ", ".intercalate (columns.map fun _ => "?") ++ ")"

/-- The row that binds the parameters to the columns in their order. -/
def rowOf (columns : List Column) (params : List Cell) : Row :=
  fun column => ((columns.zip params).lookup column).join

/-- `query` of the bridge : the titles, and the rows that the statement selects. -/
def query (statement : Statement) (params : List Cell) (t : Favorites) : List (List Cell) :=
  match statement with
  | .select columns =>
    columns.map (fun column => some column.name) ::
      (t.select params[0]?.join).map fun row => columns.map row
  | .delete | .insertOrReplace _ => []

/-- `execute` of the bridge. -/
def execute (statement : Statement) (params : List Cell) (t : Favorites) : Favorites :=
  match statement with
  | .select _ => t
  | .delete => t.delete params[0]?.join
  | .insertOrReplace columns => t.insertOrReplace (rowOf columns params)

/-! ## The functions of the script -/

/-- A value of the script. -/
structure JsValue where
  truthy : Bool
  /-- `v + ""` -/
  text : String
  /-- What the database compares the value as if it is bound itself : `JSON.stringify` makes null
  of null, undefined and the numbers that are not finite. -/
  param : Cell

namespace JsValue

/-- `0` -/
def zero : JsValue where
  truthy := false
  text := "0"
  param := some "0"

def null : JsValue where
  truthy := false
  text := "null"
  param := none

/-- A string. -/
def ofString (text : String) : JsValue where
  truthy := text ≠ ""
  text := text
  param := some text

/-- The value itself is compared as its text is. -/
def Textual (v : JsValue) : Prop :=
  v.param = some v.text

end JsValue

structure Options where
  maxIndex : JsValue
  virtualUser : JsValue
  userId : JsValue
  ucsStatus : JsValue

/-- `options && options.field || 0` -/
def orZero (options : Option Options) (field : Options → JsValue) : JsValue :=
  match options with
  | some options => if (field options).truthy then field options else .zero
  | none => .zero

/-- `fsQuery`; there is no table if there is no bridge. -/
def fsQuery (statement : Statement) (params : List Cell) : Option Favorites → List (List Cell)
  | some t => query statement params t
  | none => []

def fsExecute (statement : Statement) (params : List Cell) (db : Option Favorites) :
    Option Favorites :=
  db.map (execute statement params)

/-- The statement of `getFavStatus`. -/
def selectFavorite : Statement :=
  .select [.mediaId, .virtualUser, .userId, .operationTime, .nameCn, .displayType, .ucsStatus,
    .maxIndex]

/-- The statement of `setFavorite`. -/
def insertFavorite : Statement :=
  .insertOrReplace [.mediaId, .virtualUser, .userId, .operationTime, .nameCn, .displayType,
    .ucsStatus, .maxIndex]

example : selectFavorite.sql =
    "select media_id, virtual_user, user_id, operation_time, name_cn, display_type, " ++
      "ucs_status, max_index from fsc_favorite where media_id=?" := by decide +kernel

example : insertFavorite.sql =
    "insert or replace into fsc_favorite(media_id, virtual_user, user_id, operation_time, " ++
      "name_cn, display_type, ucs_status, max_index)values(?, ?, ?, ?, ?, ?, ?, ?)" := by
  decide +kernel

def getFavStatus (mediaId : JsValue) (db : Option Favorites) : List (Record Cell) :=
  convertToKV .favorite (fsQuery selectFavorite [mediaId.param] db)

def unsetFavorite (mediaId : JsValue) (db : Option Favorites) : Option Favorites :=
  fsExecute .delete [mediaId.param] db

/-- `setFavorite`, at `millis` of the clock. -/
def setFavorite (millis : ℤ) (mediaId nameCn displayType : JsValue) (options : Option Options)
    (db : Option Favorites) : Option Favorites :=
  let maxIndex := orZero options Options.maxIndex
  let virtualUser := orZero options Options.virtualUser
  let userId := orZero options Options.userId
  let ucsStatus := orZero options Options.ucsStatus
  fsExecute insertFavorite
    [some mediaId.text, some virtualUser.text, some userId.text, some (toString (millis / 1000)),
      some nameCn.text, some displayType.text, some ucsStatus.text, some maxIndex.text] db

/-! ## Calls -/

/-- A call that writes. -/
inductive Call
  | set (millis : ℤ) (mediaId nameCn displayType : JsValue) (options : Option Options)
  | unset (mediaId : JsValue)

namespace Call

def mediaId : Call → JsValue
  | set _ mediaId _ _ _ | unset mediaId => mediaId

def perform (db : Option Favorites) : Call → Option Favorites
  | set millis mediaId nameCn displayType options =>
    setFavorite millis mediaId nameCn displayType options db
  | unset mediaId => unsetFavorite mediaId db

/-- The text of an option, `"0"` if it is absent or falsy. -/
def optionText (options : Option Options) (field : Options → JsValue) : String :=
  ((options.map field).filter JsValue.truthy).elim "0" JsValue.text

/-- What the call makes of the favourite of its id. -/
def record : Call → Option (Record Cell)
  | set millis mediaId nameCn displayType options => some <| .favorite
    { mediaId := some (some mediaId.text)
      virtualUser := some (some (optionText options Options.virtualUser))
      userId := some (some (optionText options Options.userId))
      operationTime := some (some (toString (millis / 1000)))
      nameCn := some (some nameCn.text)
      displayType := some (some displayType.text)
      ucsStatus := some (some (optionText options Options.ucsStatus))
      maxIndex := some (some (optionText options Options.maxIndex)) }
  | unset _ => none

/-- The id as the statement of the call has it. -/
def key : Call → Cell
  | set _ mediaId _ _ _ => some mediaId.text
  | unset mediaId => mediaId.param

/-- What the call makes of all favourites; an id that is null is that of none. -/
def update (m : String → Option (Record Cell)) (call : Call) : String → Option (Record Cell) :=
  match call.key with
  | some id => Function.update m id call.record
  | none => m

end Call

/-- The database after the calls, from an empty table. -/
def after (calls : List Call) : Option Favorites :=
  calls.foldl Call.perform (some Table.empty)

/-- The last call on an id. -/
def lastOn (mediaId : JsValue) (calls : List Call) : Option Call :=
  calls.findRev? fun call => call.mediaId.text = mediaId.text

/-! ## The favourites as a map -/

/-- The favourites found are those of the map. -/
def Shows (m : String → Option (Record Cell)) (db : Option Favorites) : Prop :=
  ∀ mediaId : JsValue, getFavStatus mediaId db = (mediaId.param.bind m).toList

/-- The record of a row, through the columns of the selection. -/
def recordOf (row : Row) : Record Cell :=
  wrapRecord .favorite ([.mediaId, .virtualUser, .userId, .operationTime, .nameCn, .displayType,
    .ucsStatus, .maxIndex].map row)

theorem getFavStatus_some (mediaId : JsValue) (t : Favorites) :
    getFavStatus mediaId (some t) = (t.select mediaId.param).map recordOf := by
  simp [getFavStatus, fsQuery, query, convertToKV, selectFavorite, recordOf, Function.comp_def]

theorem shows_empty : Shows (fun _ => none) (some Table.empty) := fun mediaId => by
  simp [getFavStatus_some, Table.select, Table.empty]

/-- The row that `setFavorite` inserts. -/
def rowOfSet (millis : ℤ) (mediaId nameCn displayType : JsValue) (options : Option Options) : Row :=
  rowOf [.mediaId, .virtualUser, .userId, .operationTime, .nameCn, .displayType, .ucsStatus,
      .maxIndex]
    [some mediaId.text, some (orZero options Options.virtualUser).text,
      some (orZero options Options.userId).text, some (toString (millis / 1000)), some nameCn.text,
      some displayType.text, some (orZero options Options.ucsStatus).text,
      some (orZero options Options.maxIndex).text]

theorem setFavorite_some (millis : ℤ) (mediaId nameCn displayType : JsValue)
    (options : Option Options) (t : Favorites) :
    setFavorite millis mediaId nameCn displayType options (some t) =
      some (t.insertOrReplace (rowOfSet millis mediaId nameCn displayType options)) :=
  rfl

theorem orZero_text (options : Option Options) (field : Options → JsValue) :
    (orZero options field).text = Call.optionText options field := by
  cases options with
  | none => rfl
  | some options =>
    by_cases htruthy : (field options).truthy = true
    · simp [orZero, Call.optionText, Option.filter, htruthy]
    · simp [orZero, Call.optionText, Option.filter, htruthy, JsValue.zero]

/-- The three lists of columns agree : what is inserted is read back, field by field. -/
theorem recordOf_rowOfSet (millis : ℤ) (mediaId nameCn displayType : JsValue)
    (options : Option Options) :
    some (recordOf (rowOfSet millis mediaId nameCn displayType options)) =
      (Call.set millis mediaId nameCn displayType options).record := by
  simp only [Call.record, ← orZero_text]
  rfl

theorem Call.update_self (call : Call) (m : String → Option (Record Cell)) {id : String}
    (h : call.key = some id) : call.update m id = call.record := by
  rw [update, h]
  exact Function.update_self ..

theorem Call.update_of_ne (call : Call) (m : String → Option (Record Cell)) {id : String}
    (h : call.key ≠ some id) : call.update m id = m id := by
  unfold update
  cases hkey : call.key with
  | none => rfl
  | some key => exact Function.update_of_ne (fun heq => h (hkey.trans (congrArg some heq.symm))) ..

/-- The same of an id that may be null. -/
theorem Call.update_bind_of_ne (call : Call) (m : String → Option (Record Cell)) {param : Cell}
    (h : call.key ≠ param) : param.bind (call.update m) = param.bind m := by
  cases param with
  | none => rfl
  | some id => exact call.update_of_ne m h

/-- A call changes the favourite of its id, and no other. -/
theorem Shows.perform {m : String → Option (Record Cell)} {t : Favorites} (h : Shows m (some t))
    (call : Call) : ∃ t', call.perform (some t) = some t' ∧ Shows (call.update m) (some t') := by
  cases call with
  | set millis mediaId nameCn displayType options =>
    refine ⟨_, setFavorite_some millis mediaId nameCn displayType options t, fun other => ?_⟩
    have hkey : rowOfSet millis mediaId nameCn displayType options .mediaId = some mediaId.text :=
      rfl
    rw [getFavStatus_some]
    by_cases hid : some mediaId.text = other.param
    · rw [← hid, t.select_insertOrReplace_self hkey, Option.bind_some,
        (Call.set millis mediaId nameCn displayType options).update_self m rfl, ← recordOf_rowOfSet]
      rfl
    · rw [t.select_insertOrReplace_of_ne (hkey.trans_ne hid), ← getFavStatus_some, h other,
        (Call.set millis mediaId nameCn displayType options).update_bind_of_ne m hid]
  | unset mediaId =>
    refine ⟨t.delete mediaId.param, rfl, fun other => ?_⟩
    rw [getFavStatus_some]
    by_cases hid : mediaId.param = other.param
    · rw [hid, t.select_delete_self]
      cases hother : other.param with
      | none => rfl
      | some id =>
        rw [Option.bind_some, (Call.unset mediaId).update_self m (hid.trans hother)]
        rfl
    · rw [t.select_delete_of_ne hid, ← getFavStatus_some, h other,
        (Call.unset mediaId).update_bind_of_ne m hid]

/-- The map that the calls leave. -/
def favorites (calls : List Call) : String → Option (Record Cell) :=
  calls.foldl Call.update fun _ => none

/-- The table refines the map, whatever is called. -/
theorem shows_after (calls : List Call) :
    ∃ t, after calls = some t ∧ Shows (favorites calls) (some t) := by
  induction calls using List.reverseRecOn with
  | nil => exact ⟨_, rfl, shows_empty⟩
  | append_singleton calls call ih =>
    obtain ⟨t, ht, hshows⟩ := ih
    obtain ⟨t', ht', hshows'⟩ := hshows.perform call
    refine ⟨t', ?_, ?_⟩
    · rw [after, List.foldl_append, List.foldl_cons, List.foldl_nil, ← after, ht, ht']
    · rwa [favorites, List.foldl_append, List.foldl_cons, List.foldl_nil, ← favorites]

theorem Call.key_of_textual {call : Call} (h : call.mediaId.Textual) :
    call.key = some call.mediaId.text := by
  cases call with
  | set millis mediaId nameCn displayType options => rfl
  | unset mediaId => exact h

/-- The map holds the record of the last call on each id. -/
theorem favorites_eq {calls : List Call} (hids : ∀ call ∈ calls, call.mediaId.Textual)
    (mediaId : JsValue) :
    favorites calls mediaId.text = (lastOn mediaId calls).bind Call.record := by
  induction calls using List.reverseRecOn with
  | nil => rfl
  | append_singleton calls call ih =>
    have hcalls := ih fun call' hcall' => hids call' (List.mem_append_left _ hcall')
    have hkey := Call.key_of_textual (hids call (by simp))
    rw [favorites, List.foldl_append, List.foldl_cons, List.foldl_nil, ← favorites]
    by_cases hid : call.mediaId.text = mediaId.text
    · rw [call.update_self _ (hid ▸ hkey)]
      simp [lastOn, hid]
    · rw [call.update_of_ne _ (hkey.trans_ne (mt Option.some.inj hid)), hcalls]
      simp [lastOn, hid]

/-- Where ids are compared as texts, the favourites found for an id are the record of the last call
on it, if that was `setFavorite`, and a call on another id leaves them as they are. -/
theorem getFavStatus_eq {calls : List Call} {mediaId : JsValue}
    (hids : ∀ call ∈ calls, call.mediaId.Textual) (hid : mediaId.Textual) :
    getFavStatus mediaId (after calls) = ((lastOn mediaId calls).bind Call.record).toList ∧
      ∀ call : Call, call.mediaId.Textual → call.mediaId.text ≠ mediaId.text →
        getFavStatus mediaId (call.perform (after calls)) = getFavStatus mediaId (after calls) := by
  obtain ⟨t, ht, hshows⟩ := shows_after calls
  have hfound := hshows mediaId
  rw [hid, Option.bind_some] at hfound
  refine ⟨by rw [ht, hfound, favorites_eq hids], fun call hcall hne => ?_⟩
  obtain ⟨t', ht', hshows'⟩ := hshows.perform call
  have hkey : call.key ≠ some mediaId.text :=
    (Call.key_of_textual hcall).trans_ne (mt Option.some.inj hne)
  rw [ht, ht', hfound, hshows' mediaId, hid, Option.bind_some, call.update_of_ne _ hkey]

/-- A favourite that is set again with an option, after another one was taken back. -/
theorem getFavStatus_again :
    getFavStatus (.ofString "m1") (after
      [.set 1000 (.ofString "m1") (.ofString "one") (.ofString "movie") none,
        .set 1500 (.ofString "m2") (.ofString "two") (.ofString "tv") none,
        .unset (.ofString "m2"),
        .set 2500 (.ofString "m1") (.ofString "one") (.ofString "movie")
          (some ⟨.zero, .ofString "v", .null, .ofString ""⟩)]) =
      [.favorite
        ⟨some (some "m1"), some (some "v"), some (some "0"), some (some "2"), some (some "one"),
          some (some "movie"), some (some "0"), some (some "0")⟩] := by
  have hids : ∀ call ∈ ([.set 1000 (.ofString "m1") (.ofString "one") (.ofString "movie") none,
      .set 1500 (.ofString "m2") (.ofString "two") (.ofString "tv") none,
      .unset (.ofString "m2"),
      .set 2500 (.ofString "m1") (.ofString "one") (.ofString "movie")
        (some ⟨.zero, .ofString "v", .null, .ofString ""⟩)] : List Call),
      call.mediaId.Textual := by
    simp [Call.mediaId, JsValue.Textual, JsValue.ofString]
  have hid : (JsValue.ofString "m1").Textual := rfl
  rw [(getFavStatus_eq hids hid).1]
  decide +kernel

/-- For an id that is null nothing is found, and nothing is taken back. -/
theorem getFavStatus_null {mediaId : JsValue} (hid : mediaId.param = none) (calls : List Call) :
    getFavStatus mediaId (after calls) = [] ∧
      ∀ other, getFavStatus other (unsetFavorite mediaId (after calls)) =
        getFavStatus other (after calls) := by
  obtain ⟨t, ht, hshows⟩ := shows_after calls
  refine ⟨by rw [ht, hshows mediaId, hid]; rfl, fun other => ?_⟩
  obtain ⟨t', ht', hshows'⟩ := hshows.perform (.unset mediaId)
  have hupdate : (Call.unset mediaId).update (favorites calls) = favorites calls := by
    rw [Call.update, Call.key, hid]
  rw [hupdate] at hshows'
  rw [ht, hshows other, ← hshows' other, ← ht']
  rfl

end FSJsql

end MySocket
