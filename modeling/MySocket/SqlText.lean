import MySocket.CouponList
import MySocket.MySqlLexer

/-!
# User input in SQL

`setCoupon` and `swip.jsp` put the ids they are given between quotes into the text of a
statement, as they are. The server takes the statement apart again, and the ids should come out
as the values of the texts in it, with the rest of the statement as it was written.

* `staysData_iff` : that is so exactly if the ids have no quote, and no backslash but before a
  percent sign or an underscore.
-/

namespace MySocket

namespace SqlText

open MySql

/-! ## The property -/

/-- The tokens with the values of the texts replaced, one after the other. -/
def fill : List Token → List String → List Token
  | .text _ :: tokens, value :: values => .text value.toList :: fill tokens values
  | token :: tokens, values => token :: fill tokens values
  | [], _ => []

/-- The tokens of the `UPDATE` for two ids. -/
def updateTokens (couponId userId : String) : List Token :=
  fill (lex (setCouponSql (some "?") (some "?"))) [couponId, userId]

/-- The tokens of the query for an id. -/
def listTokens (userId : String) : List Token :=
  fill (lex (couponListSql (some "?"))) ["P", userId]

/-- The ids are the values of the texts in the statements. So whatever rows a statement with these
tokens touches or returns, if it is those with the ids, it is them. -/
structure StaysData (eq : String → String → Bool) (couponId userId : String) : Prop where
  update : lex (setCouponSql (some couponId) (some userId)) = updateTokens couponId userId
  list : lex (couponListSql (some userId)) = listTokens userId
  touched : ∀ touches : List Token → Rel → Prop,
    (∀ couponId userId r, touches (updateTokens couponId userId) r ↔
      eq r.appId couponId ∧ eq r.channelId userId) →
    ∀ r, touches (lex (setCouponSql (some couponId) (some userId))) r →
      eq r.appId couponId ∧ eq r.channelId userId
  shown : ∀ answer : List Token → Tables → List Coupon,
    (∀ userId t, answer (listTokens userId) t = published eq userId t) →
    ∀ t, answer (lex (couponListSql (some userId))) t = published eq userId t

/-! ## The statements -/

/-- The `UPDATE` up to the id of the coupon, what is between the ids, and their tokens. -/
def updateHeadSql : String :=
  "update ott_channel_app_rel set app_weight = (app_weight - 1) where app_id='"

def betweenSql : String :=
  "' and channel_id ='"

def updateHead : List Token :=
  [.word "update".toList, .word "ott_channel_app_rel".toList, .word "set".toList,
    .word "app_weight".toList, .symbol '=', .symbol '(', .word "app_weight".toList, .symbol '-',
    .word "1".toList, .symbol ')', .word "where".toList, .word "app_id".toList, .symbol '=']

def between : List Token :=
  [.word "and".toList, .word "channel_id".toList, .symbol '=']

/-- What is between the quotes of the ids. -/
def betweenText : List Char :=
  " and channel_id =".toList

/-- The query up to the id of the user. -/
def listHead : List Token :=
  [.word "select".toList, .word "ott_app".toList, .symbol '.', .symbol '*', .symbol ',',
    .word "ott_channel_app_rel".toList, .symbol '.', .word "app_weight".toList,
    .word "from".toList, .word "ott_app".toList, .symbol ',', .word "ott_channel_app_rel".toList,
    .word "where".toList, .word "ott_app".toList, .symbol '.', .word "pub_status".toList,
    .symbol '=', .text "P".toList, .word "and".toList, .word "ott_app".toList, .symbol '.',
    .word "id".toList, .symbol '=', .word "ott_channel_app_rel".toList, .symbol '.',
    .word "app_id".toList, .word "and".toList, .word "ott_channel_app_rel".toList, .symbol '.',
    .word "channel_id".toList, .symbol '=']

theorem read_updateHead :
    (Mode.plain).read updateHeadSql.toList = (.quoted quote [], updateHead) := by
  decide +kernel

theorem read_between :
    (Mode.plain).read (betweenText ++ [quote]) = (.quoted quote [], between) := by
  decide +kernel

theorem toList_betweenSql : betweenSql.toList = quote :: (betweenText ++ [quote]) := by
  decide +kernel

theorem toList_quote : "'".toList = [quote] :=
  rfl

theorem read_listHead :
    (Mode.plain).read couponListHead.toList = (.quoted quote [], listHead) := by
  decide +kernel

theorem lex_setCouponSql (couponId userId : String) :
    lex (setCouponSql (some couponId) (some userId)) =
      updateHead ++ lexFrom (.quoted quote []) (couponId.toList ++
        quote :: (betweenText ++ quote :: (userId.toList ++ [quote]))) := by
  have htext : setCouponSql (some couponId) (some userId) =
      updateHeadSql ++ couponId ++ betweenSql ++ userId ++ "'" :=
    rfl
  rw [lex, htext, String.toList_append, String.toList_append, String.toList_append,
    String.toList_append, toList_betweenSql, toList_quote]
  simp only [List.append_assoc, List.cons_append, List.nil_append, lexFrom_append,
    read_updateHead]

theorem lex_couponListSql (userId : String) :
    lex (couponListSql (some userId)) =
      listHead ++ lexFrom (.quoted quote []) (userId.toList ++ [quote]) := by
  rw [lex, couponListSql, operand, String.toList_append, String.toList_append, toList_quote,
    List.append_assoc, lexFrom_append, read_listHead]

/-! ## The results -/

/-- The ids are two texts in the tokens exactly if they are faithful. -/
theorem lex_setCouponSql_iff (couponId userId : String) :
    lex (setCouponSql (some couponId) (some userId)) =
        updateHead ++ .text couponId.toList :: (between ++ [.text userId.toList]) ↔
      faithful couponId.toList ∧ faithful userId.toList := by
  rw [lex_setCouponSql, List.append_cancel_left_eq]
  exact lexFrom_two_iff (by decide +kernel) (by decide +kernel) read_between _ _

theorem lex_couponListSql_iff (userId : String) :
    lex (couponListSql (some userId)) = listHead ++ [.text userId.toList] ↔
      faithful userId.toList := by
  rw [lex_couponListSql, List.append_cancel_left_eq]
  exact lexFrom_one_iff _

theorem faithful_placeholder : faithful "?".toList :=
  rfl

theorem updateTokens_eq (couponId userId : String) :
    updateTokens couponId userId =
      updateHead ++ .text couponId.toList :: (between ++ [.text userId.toList]) := by
  have htemplate := (lex_setCouponSql_iff "?" "?").mpr ⟨faithful_placeholder, faithful_placeholder⟩
  rw [updateTokens, htemplate]
  rfl

theorem listTokens_eq (userId : String) :
    listTokens userId = listHead ++ [.text userId.toList] := by
  rw [listTokens, (lex_couponListSql_iff "?").mpr faithful_placeholder]
  rfl

theorem lex_setCouponSql_eq_iff (couponId userId : String) :
    lex (setCouponSql (some couponId) (some userId)) = updateTokens couponId userId ↔
      faithful couponId.toList ∧ faithful userId.toList := by
  rw [updateTokens_eq]
  exact lex_setCouponSql_iff couponId userId

theorem lex_couponListSql_eq_iff (userId : String) :
    lex (couponListSql (some userId)) = listTokens userId ↔ faithful userId.toList := by
  rw [listTokens_eq]
  exact lex_couponListSql_iff userId

/-- What the user sends stays data in both statements exactly if it is faithful. -/
theorem staysData_iff (eq : String → String → Bool) (couponId userId : String) :
    StaysData eq couponId userId ↔ faithful couponId.toList ∧ faithful userId.toList := by
  constructor
  · exact fun h => (lex_setCouponSql_eq_iff couponId userId).mp h.update
  · intro h
    have hupdate := (lex_setCouponSql_eq_iff couponId userId).mpr h
    have hlist := (lex_couponListSql_eq_iff userId).mpr h.2
    exact {
      update := hupdate
      list := hlist
      touched := fun touches htouches r hr => (htouches couponId userId r).mp (hupdate ▸ hr)
      shown := fun answer hanswer t => by rw [hlist, hanswer] }

/-- The rest of the user id is code. -/
theorem condition_injected :
    Token.word "or".toList ∈ lex (setCouponSql (some "17") (some "' or '1'='1")) ∧
      ∀ eq, ¬StaysData eq "17" "' or '1'='1" := by
  refine ⟨by decide +kernel, fun eq h => ?_⟩
  have hupdate := h.update
  revert hupdate
  decide +kernel

end SqlText

end MySocket
