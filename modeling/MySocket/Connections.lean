import MySocket.Finally
import MySocket.Paging

/-!
# The connections of a `DBEngine`

Each operation of `DBEngine` takes a connection, uses it in a `try` block and closes in
nested `finally` blocks what it has opened. Any call of the database driver can fail, the
closing ones too, and so can the conversions to `int`.

The driver is a parameter (`Jdbc`) : it answers every call as it likes, with a value or an
exception, and may remember what it has been asked. `DBEngine.closed_once` says that
whatever it answers, an operation closes the connection it was given exactly once, and none
if the engine keeps its connection.
-/

namespace MySocket

namespace Jdbc

/-! ## The driver -/

/-- What is thrown, with what `toString` says of it. -/
inductive Thrown
  | sqlException (text : String)
  | runtimeException (text : String)

def nullPointer : Thrown :=
  .runtimeException "java.lang.NullPointerException"

/-- `new SQLException(reason)` -/
def newSQLException (reason : String) : Thrown :=
  .sqlException ("java.sql.SQLException: " ++ reason)

abbrev Connection := ℕ
abbrev Statement := ℕ
abbrev ResultSet := ℕ
abbrev CachedRowSet := ℕ

/-- The calls that can fail. A text that may be null is an `Option`. -/
inductive Call
  | getConnection (connName : String)
  | createStatement (conn : Connection)
  | executeQuery (stmt : Statement) (sql : Option (List Char))
  | executeUpdate (stmt : Statement) (sql : Option (List Char))
  | addBatch (stmt : Statement) (sql : Option (List Char))
  | executeBatch (stmt : Statement)
  | populate (rs : ResultSet)
  | next (rs : ResultSet)
  | getInt (rs : ResultSet) (column : String)
  | parseInt (digits : List Char)
  | closeResultSet (rs : ResultSet)
  | closeStatement (stmt : Statement)
  | closeConnection (conn : Connection)

/-- What a call returns. Only `getConnection` may return null. -/
abbrev Call.Answer : Call → Type
  | getConnection _ => Option Connection
  | createStatement _ => Statement
  | executeQuery _ _ => ResultSet
  | executeUpdate _ _ => ℤ
  | addBatch _ _ => Unit
  | executeBatch _ => List ℤ
  | populate _ => CachedRowSet
  | next _ => Bool
  | getInt _ _ => ℤ
  | parseInt _ => ℤ
  | closeResultSet _ => Unit
  | closeStatement _ => Unit
  | closeConnection _ => Unit

/-- A call and how it ended. -/
structure Event where
  call : Call
  result : Except Thrown call.Answer

end Jdbc

open Jdbc

/-- The driver : how a call ends, after the calls made so far. -/
abbrev Jdbc :=
  List Event → (c : Call) → Except Thrown c.Answer

namespace Jdbc

/-- The local variables of an operation that its `finally` block reads, and the calls so far. -/
structure Frame where
  stmt : Option Statement
  rs : Option ResultSet
  log : List Event

abbrev JProg :=
  Prog Frame Thrown

variable (jdbc : Jdbc)

def call (c : Call) : JProg c.Answer :=
  ExceptT.mk fun s => (jdbc s.log c, { s with log := s.log ++ [⟨c, jdbc s.log c⟩] })

def setStmt (stmt : Option Statement) : JProg PUnit :=
  modify fun s => { s with stmt }

def setRs (rs : Option ResultSet) : JProg PUnit :=
  modify fun s => { s with rs }

/-- A reference that is about to be used. -/
def deref {α : Type} : Option α → JProg α
  | some a => pure a
  | none => throw nullPointer

/-- `if (a != null) ...` -/
def ifNonNull {α : Type} (a : Option α) (f : α → JProg Unit) : JProg Unit :=
  match a with
  | some a => f a
  | none => pure ()

/-- The `catch` block of `queryPage` and `executeBatch`. -/
def rethrow {α : Type} (operation : String) : Thrown → JProg α
  | .sqlException text =>
    throw (newSQLException ("An error occur when " ++ operation ++ ".Error:" ++ text))
  | e => throw e

structure ResultPage where
  record : CachedRowSet
  totalRecord : ℤ
  pageSize : ℤ
  pageNo : ℤ

/-! ## The engine -/

structure DBEngine where
  connName : String
  isKeepConn : Bool
  connection : Option Connection

namespace DBEngine

/-- The constructor : no exception leaves it. -/
def new (connName : String) (isKeepConn : Bool) : JProg DBEngine := do
  let connection ←
    if isKeepConn then
      try
        call jdbc (.getConnection connName)
      catch _ =>
        pure none
    else pure none
  pure ⟨connName, isKeepConn, connection⟩

variable (engine : DBEngine)

/-- The connection an operation works on. -/
def connect : JProg (Option Connection) :=
  if engine.isKeepConn then pure engine.connection
  else call jdbc (.getConnection engine.connName)

/-- The `finally` block of the operations. Those without a result set have none to close. -/
def release (conn : Option Connection) : JProg Unit := do
  try
    let s ← get
    ifNonNull s.rs fun rs => call jdbc (.closeResultSet rs)
    ifNonNull s.stmt fun stmt => call jdbc (.closeStatement stmt)
  finally
    if engine.isKeepConn then pure ()
    else ifNonNull conn fun conn => call jdbc (.closeConnection conn)

/-- An operation : it takes a connection, works on it and releases it. -/
def withConnection {α : Type} (body : Option Connection → JProg α) : JProg α := do
  setStmt none
  setRs none
  let conn ← engine.connect jdbc
  try
    body conn
  finally
    engine.release jdbc conn

def executeQuery (sql : Option (List Char)) : JProg CachedRowSet :=
  engine.withConnection jdbc fun conn => do
    let conn ← deref conn
    let stmt ← call jdbc (.createStatement conn)
    setStmt stmt
    let rs ← call jdbc (.executeQuery stmt sql)
    setRs rs
    call jdbc (.populate rs)

def executeUpdate (sql : Option (List Char)) : JProg ℤ :=
  engine.withConnection jdbc fun conn => do
    let conn ← deref conn
    let stmt ← call jdbc (.createStatement conn)
    setStmt stmt
    call jdbc (.executeUpdate stmt sql)

def insertFetchId (sql : Option (List Char)) : JProg ℤ :=
  engine.withConnection jdbc fun conn => do
    let conn ← deref conn
    let stmt ← call jdbc (.createStatement conn)
    setStmt stmt
    let result ← call jdbc (.executeUpdate stmt sql)
    if result > 0 then
      let rs ← call jdbc (.executeQuery stmt (some "select last_insert_id() as id".toList))
      setRs rs
      if ← call jdbc (.next rs) then
        call jdbc (.getInt rs "id")
      else pure (-1)
    else pure (-1)

/-- `oBegin` and `oEnd`, if there is a LIMIT. -/
def limits (sql : List Char) : JProg (Option (ℤ × ℤ)) :=
  match Re.limitFound.find [] sql with
  | none => pure none
  | some (_, mc) =>
    if mc.get 2 ≠ [] then do
      let oBegin ← call jdbc (.parseInt (mc.get 1))
      let count ← call jdbc (.parseInt (mc.get 2))
      pure (some (oBegin, MySocket.DBEngine.toInt (oBegin + count)))
    else do
      let oEnd ← call jdbc (.parseInt (mc.get 1))
      pure (some (0, oEnd))

/-- `queryPage` wraps an `SQLException`, and lets other exceptions pass. -/
def queryPage (sql : Option (List Char)) (pageSize pageNo : ℤ) : JProg (Option ResultPage) :=
  engine.withConnection jdbc fun conn =>
    let pageNo := if pageNo > 0 then pageNo else 1
    try
      let sql ← deref sql
      let limits ← limits jdbc sql
      let (oBegin, oEnd) := limits.getD (0, maxInt)
      let first := MySocket.DBEngine.pageBegin oBegin oEnd pageSize pageNo
      let offset := MySocket.DBEngine.pageOffset oBegin oEnd pageSize pageNo
      let sql := MySocket.DBEngine.pageSql limits.isSome first offset sql
      if offset > 0 then
        let conn ← deref conn
        let stmt ← call jdbc (.createStatement conn)
        setStmt stmt
        let rs ← call jdbc (.executeQuery stmt sql)
        setRs rs
        let record ← call jdbc (.populate rs)
        let rs ← call jdbc (.executeQuery stmt (some "select found_rows() as ct".toList))
        setRs rs
        let more ← call jdbc (.next rs)
        let totalRecord ← if more then call jdbc (.getInt rs "ct") else pure 0
        pure (some ⟨record, totalRecord, pageSize, pageNo⟩)
      else pure none
    catch e => rethrow "queryPage" e

/-- Without statements there is no connection either. -/
def executeBatch (sql : Option (List (Option (List Char)))) : JProg (Option (List ℤ)) :=
  match sql with
  | none => pure none
  | some sql =>
    engine.withConnection jdbc fun conn =>
      try
        let conn ← deref conn
        let stmt ← call jdbc (.createStatement conn)
        setStmt stmt
        sql.forM fun sql => call jdbc (.addBatch stmt sql)
        let result ← call jdbc (.executeBatch stmt)
        pure (some result)
      catch e => rethrow "executeBatch" e

/-- `close` reports an `SQLException` to the log only. -/
def close : JProg Unit :=
  ifNonNull engine.connection fun connection =>
    try
      call jdbc (.closeConnection connection)
    catch
      | .sqlException _ => pure ()
      | e => throw e

/-- The operations other than `close`. -/
inductive Operation
  | executeQuery (sql : Option (List Char))
  | executeUpdate (sql : Option (List Char))
  | insertFetchId (sql : Option (List Char))
  | queryPage (sql : Option (List Char)) (pageSize pageNo : ℤ)
  | executeBatch (sql : Option (List (Option (List Char))))

abbrev Operation.Result : Operation → Type
  | executeQuery _ => CachedRowSet
  | executeUpdate _ => ℤ
  | insertFetchId _ => ℤ
  | queryPage _ _ _ => Option ResultPage
  | executeBatch _ => Option (List ℤ)

def perform : (op : Operation) → JProg op.Result
  | .executeQuery sql => engine.executeQuery jdbc sql
  | .executeUpdate sql => engine.executeUpdate jdbc sql
  | .insertFetchId sql => engine.insertFetchId jdbc sql
  | .queryPage sql pageSize pageNo => engine.queryPage jdbc sql pageSize pageNo
  | .executeBatch sql => engine.executeBatch jdbc sql

end DBEngine

/-! ## Connections obtained and closed -/

def Event.obtained : Event → Option Connection
  | ⟨.getConnection _, .ok conn⟩ => conn
  | _ => none

/-- A connection counts as closed once `close` was called, even if the call throws. -/
def Event.closed : Event → Option Connection
  | ⟨.closeConnection conn, _⟩ => some conn
  | _ => none

/-- The calls that open or close a connection. -/
def Call.usesConnections : Call → Bool
  | getConnection _ => true
  | closeConnection _ => true
  | _ => false

/-- The connections obtained in the log are `o`, those closed are `d`. -/
def Traffic (o d : List Connection) (s : Frame) : Prop :=
  s.log.filterMap Event.obtained = o ∧ s.log.filterMap Event.closed = d

variable {jdbc} {o d : List Connection}

theorem call_traffic (c : Call) :
    Ends (Traffic o d) (call jdbc c) fun r =>
      Traffic (o ++ (Event.obtained ⟨c, r⟩).toList) (d ++ (Event.closed ⟨c, r⟩).toList) := by
  rintro s ⟨rfl, rfl⟩
  change Traffic _ _ { s with log := s.log ++ [⟨c, jdbc s.log c⟩] }
  constructor
  · dsimp only
    rw [List.filterMap_append]
    congr 1
  · dsimp only
    rw [List.filterMap_append]
    congr 1

/-- A call that neither opens nor closes a connection. -/
theorem call_keeps {c : Call} (hc : c.usesConnections = false) :
    Keeps (Traffic o d) (call jdbc c) :=
  (call_traffic c).mono fun r s h => by
    have ho : Event.obtained ⟨c, r⟩ = none := by
      cases c <;> first | rfl | cases hc
    have hd : Event.closed ⟨c, r⟩ = none := by
      cases c <;> first | rfl | cases hc
    rwa [ho, hd, Option.toList_none, List.append_nil, List.append_nil] at h

theorem setStmt_keeps (stmt : Option Statement) : Keeps (Traffic o d) (setStmt stmt) :=
  Keeps.modify fun _ h => h

theorem setRs_keeps (rs : Option ResultSet) : Keeps (Traffic o d) (setRs rs) :=
  Keeps.modify fun _ h => h

theorem deref_keeps {α : Type} (a : Option α) : Keeps (Traffic o d) (deref a) := by
  cases a with
  | none => exact Keeps.throw _
  | some a => exact Keeps.pure a

theorem rethrow_keeps {α : Type} (operation : String) (e : Thrown) :
    Keeps (Traffic o d) (rethrow operation e : JProg α) := by
  cases e <;> exact Keeps.throw _

theorem ifNonNull_keeps {α : Type} {a : Option α} {f : α → JProg Unit}
    (h : ∀ a, Keeps (Traffic o d) (f a)) : Keeps (Traffic o d) (ifNonNull a f) := by
  cases a with
  | none => exact Keeps.pure _
  | some a => exact h a

namespace DBEngine

variable {engine : DBEngine}

/-- `release` closes the connection it is given, unless the engine keeps it. -/
theorem release_traffic (conn : Option Connection) :
    Ends (Traffic o d) (engine.release jdbc conn) fun _ =>
      Traffic o (d ++ if engine.isKeepConn then [] else conn.toList) := by
  have hfirst : Keeps (Traffic o d) (do
      let s ← get
      ifNonNull s.rs fun rs => call jdbc (.closeResultSet rs)
      ifNonNull s.stmt fun stmt => call jdbc (.closeStatement stmt) : JProg Unit) :=
    Keeps.get.bind fun s =>
      (ifNonNull_keeps fun rs => call_keeps rfl).bind fun _ =>
        ifNonNull_keeps fun stmt => call_keeps rfl
  refine Ends.tryFinally hfirst ?_
  cases hkeep : engine.isKeepConn with
  | true =>
    simp only [if_true, List.append_nil]
    exact Keeps.pure _
  | false =>
    simp only [Bool.false_eq_true, if_false]
    cases conn with
    | none =>
      simp only [Option.toList_none, List.append_nil]
      exact Keeps.pure _
    | some conn =>
      refine (call_traffic (.closeConnection conn)).mono fun r s h => ?_
      rwa [show Event.obtained ⟨.closeConnection conn, r⟩ = none from rfl, Option.toList_none,
        List.append_nil] at h

/-- `connect` takes a new connection, unless the engine keeps one. -/
theorem connect_traffic :
    Ends (Traffic o d) (engine.connect jdbc) fun r =>
      match r with
      | .ok conn => Traffic (o ++ if engine.isKeepConn then [] else conn.toList) d
      | .error _ => Traffic o d := by
  cases hkeep : engine.isKeepConn with
  | true =>
    simp only [connect, hkeep, if_true, List.append_nil]
    exact fun _ h => h
  | false =>
    simp only [connect, hkeep, Bool.false_eq_true, if_false]
    refine (call_traffic (.getConnection engine.connName)).mono fun r s h => ?_
    rw [show Event.closed ⟨.getConnection engine.connName, r⟩ = none from rfl, Option.toList_none,
      List.append_nil] at h
    cases r with
    | ok conn => exact h
    | error e =>
      rw [show Event.obtained ⟨.getConnection engine.connName, .error e⟩ = none from rfl,
        Option.toList_none, List.append_nil] at h
      exact h

/-- The connections taken have been closed, and are at most one. -/
def Released (engine : DBEngine) (o d : List Connection) (s : Frame) : Prop :=
  ∃ conns, Traffic (o ++ conns) (d ++ conns) s ∧ conns.length ≤ 1 ∧
    (engine.isKeepConn = true → conns = [])

theorem Released.of_traffic {s : Frame} (h : Traffic o d s) : Released engine o d s :=
  ⟨[], by rwa [List.append_nil, List.append_nil], by simp, fun _ => rfl⟩

theorem withConnection_released {α : Type} {body : Option Connection → JProg α}
    (hbody : ∀ conn o d, Keeps (Traffic o d) (body conn)) :
    Ends (Traffic o d) (engine.withConnection jdbc body) fun _ => Released engine o d := by
  have hnone : ∀ (e : Thrown) (s : Frame), Traffic o d s → Released engine o d s :=
    fun _ _ => Released.of_traffic
  refine Ends.bind (setStmt_keeps none) (fun _ => ?_) hnone
  refine Ends.bind (setRs_keeps none) (fun _ => ?_) hnone
  refine Ends.bind connect_traffic (fun conn => ?_) hnone
  refine Ends.mono (Ends.tryFinally (hbody conn _ _) (release_traffic conn)) fun _ s h => ?_
  refine ⟨_, h, ?_, fun hkeep => if_pos hkeep⟩
  cases engine.isKeepConn <;> cases conn <;> simp

/-! ## The operations -/

/-- How the operations begin : with a statement on their connection. -/
theorem createStatement_keeps {α : Type} (conn : Option Connection)
    {body : Connection → Statement → JProg α}
    (h : ∀ conn stmt, Keeps (Traffic o d) (body conn stmt)) :
    Keeps (Traffic o d) (do
      let conn ← deref conn
      let stmt ← call jdbc (.createStatement conn)
      setStmt stmt
      body conn stmt) := by
  refine (deref_keeps conn).bind fun conn => ?_
  refine (call_keeps rfl).bind fun stmt => ?_
  exact (setStmt_keeps _).bind fun _ => h conn stmt

/-- A query whose result set is left to `release`. -/
theorem executeQuery_keeps {α : Type} (stmt : Statement) (sql : Option (List Char))
    {body : ResultSet → JProg α} (h : ∀ rs, Keeps (Traffic o d) (body rs)) :
    Keeps (Traffic o d) (do
      let rs ← call jdbc (.executeQuery stmt sql)
      setRs rs
      body rs) := by
  refine (call_keeps rfl).bind fun rs => ?_
  exact (setRs_keeps _).bind fun _ => h rs

theorem executeQuery_released (sql : Option (List Char)) :
    Ends (Traffic o d) (engine.executeQuery jdbc sql) fun _ => Released engine o d := by
  refine withConnection_released fun conn o d => ?_
  refine createStatement_keeps conn fun conn stmt => ?_
  exact executeQuery_keeps stmt sql fun rs => call_keeps rfl

theorem executeUpdate_released (sql : Option (List Char)) :
    Ends (Traffic o d) (engine.executeUpdate jdbc sql) fun _ => Released engine o d := by
  refine withConnection_released fun conn o d => ?_
  refine createStatement_keeps conn fun conn stmt => ?_
  exact call_keeps rfl

theorem insertFetchId_released (sql : Option (List Char)) :
    Ends (Traffic o d) (engine.insertFetchId jdbc sql) fun _ => Released engine o d := by
  refine withConnection_released fun conn o d => ?_
  refine createStatement_keeps conn fun conn stmt => ?_
  refine (call_keeps rfl).bind fun result => ?_
  refine Keeps.ite ?_ (Keeps.pure _)
  refine executeQuery_keeps stmt _ fun rs => ?_
  refine (call_keeps rfl).bind fun more => ?_
  exact Keeps.ite (call_keeps rfl) (Keeps.pure _)

theorem limits_keeps (sql : List Char) : Keeps (Traffic o d) (limits jdbc sql) := by
  unfold limits
  split
  · exact Keeps.pure _
  · split
    · refine (call_keeps rfl).bind fun oBegin => ?_
      exact (call_keeps rfl).bind fun count => Keeps.pure _
    · exact (call_keeps rfl).bind fun oEnd => Keeps.pure _

theorem queryPage_released (sql : Option (List Char)) (pageSize pageNo : ℤ) :
    Ends (Traffic o d) (engine.queryPage jdbc sql pageSize pageNo) fun _ => Released engine o d := by
  refine withConnection_released fun conn o d => Keeps.tryCatch ?_ (rethrow_keeps _)
  refine (deref_keeps sql).bind fun sql => (limits_keeps sql).bind fun limits => ?_
  refine Keeps.ite ?_ (Keeps.pure _)
  refine createStatement_keeps conn fun conn stmt => ?_
  refine executeQuery_keeps stmt _ fun rs => ?_
  refine (call_keeps rfl).bind fun record => ?_
  refine executeQuery_keeps stmt _ fun rs => ?_
  refine (call_keeps rfl).bind fun more => ?_
  refine Keeps.ite ?_ ?_
  · exact (call_keeps rfl).bind fun totalRecord => Keeps.pure _
  · exact (Keeps.pure 0).bind fun totalRecord => Keeps.pure _

theorem executeBatch_released (sql : Option (List (Option (List Char)))) :
    Ends (Traffic o d) (engine.executeBatch jdbc sql) fun _ => Released engine o d := by
  cases sql with
  | none => exact fun s h => Released.of_traffic h
  | some sql =>
    refine withConnection_released fun conn o d => Keeps.tryCatch ?_ (rethrow_keeps _)
    refine createStatement_keeps conn fun conn stmt => ?_
    refine (Keeps.forM fun sql => call_keeps rfl).bind fun _ => ?_
    exact (call_keeps rfl).bind fun result => Keeps.pure _

theorem perform_released (op : Operation) :
    Ends (Traffic o d) (engine.perform jdbc op) fun _ => Released engine o d := by
  cases op with
  | executeQuery sql => exact executeQuery_released sql
  | executeUpdate sql => exact executeUpdate_released sql
  | insertFetchId sql => exact insertFetchId_released sql
  | queryPage sql pageSize pageNo => exact queryPage_released sql pageSize pageNo
  | executeBatch sql => exact executeBatch_released sql

/-- Whatever the driver answers, an operation closes the connection it obtained, once, by the
time it returns or throws, and closes no other one. An engine that keeps its connection
obtains and closes none. -/
theorem closed_once (jdbc : Jdbc) (engine : DBEngine) (op : Operation) (s : Frame) :
    ∃ conns : List Connection,
      ((engine.perform jdbc op).exec s).2.log.filterMap Event.obtained =
        s.log.filterMap Event.obtained ++ conns ∧
      ((engine.perform jdbc op).exec s).2.log.filterMap Event.closed =
        s.log.filterMap Event.closed ++ conns ∧
      conns.length ≤ 1 ∧ (engine.isKeepConn = true → conns = []) := by
  obtain ⟨conns, ⟨ho, hd⟩, hlen, hkeep⟩ := perform_released op s ⟨rfl, rfl⟩
  exact ⟨conns, ho, hd, hlen, hkeep⟩

/-- A driver whose rows cannot be read and whose result sets cannot be closed. -/
def unreadable : Jdbc := fun _ c =>
  match c with
  | .getConnection _ => .ok (some 7)
  | .createStatement _ => .ok 1
  | .executeQuery _ _ => .ok 2
  | .closeResultSet _ => .error (newSQLException "closed")
  | _ => .error nullPointer

example :
    ((executeQuery unreadable ⟨"efan", false, none⟩ none).exec ⟨none, none, []⟩).2.log.filterMap
      Event.closed = [7] :=
  rfl

/-- Operations one after the other, whose callers survive the exceptions. -/
def session (jdbc : Jdbc) (engine : DBEngine) (ops : List Operation) : JProg PUnit :=
  ops.forM fun op =>
    try
      let _ ← engine.perform jdbc op
      pure ⟨⟩
    catch _ =>
      pure ⟨⟩

/-- The connections taken have all been closed. -/
def Balanced (engine : DBEngine) (o d : List Connection) (s : Frame) : Prop :=
  ∃ conns, Traffic (o ++ conns) (d ++ conns) s ∧ (engine.isKeepConn = true → conns = [])

theorem perform_balanced (op : Operation) : Keeps (Balanced engine o d) (engine.perform jdbc op) := by
  rintro s ⟨conns, h, hkeep⟩
  obtain ⟨conns', h', -, hkeep'⟩ := perform_released op s h
  rw [List.append_assoc, List.append_assoc] at h'
  exact ⟨conns ++ conns', h', fun hk => by rw [hkeep hk, hkeep' hk, List.append_nil]⟩

theorem session_keeps {I : Frame → Prop} (h : ∀ op, Keeps I (engine.perform jdbc op))
    (ops : List Operation) : Keeps I (engine.session jdbc ops) :=
  Keeps.forM fun op => ((h op).bind fun _ => Keeps.pure _).tryCatch fun _ => Keeps.pure _

/-- After any number of operations the pool has its connections back. -/
theorem session_balanced (ops : List Operation) :
    Keeps (Balanced engine o d) (engine.session jdbc ops) :=
  session_keeps perform_balanced ops

/-! ## An engine that keeps its connection -/

theorem new_traffic (connName : String) :
    Ends (Traffic o d) (new jdbc connName true) fun r s =>
      ∃ engine, r = .ok engine ∧ engine.isKeepConn = true ∧
        Traffic (o ++ engine.connection.toList) d s := by
  have hget : Ends (Traffic o d)
      (tryCatch (call jdbc (.getConnection connName)) fun _ => pure none) fun r s =>
        ∃ conn, r = .ok conn ∧ Traffic (o ++ conn.toList) d s := by
    refine Ends.tryCatch (call_traffic (.getConnection connName)) (fun conn s h => ?_) fun e => ?_
    · rw [show Event.closed ⟨.getConnection connName, .ok conn⟩ = none from rfl,
        Option.toList_none, List.append_nil] at h
      exact ⟨conn, rfl, h⟩
    · rw [show Event.closed ⟨.getConnection connName, .error e⟩ = none from rfl,
        Option.toList_none, List.append_nil]
      exact fun s h => ⟨none, rfl, h⟩
  refine Ends.bind hget (fun conn => ?_) fun e s h => ?_
  · rintro s ⟨conn', hconn, h⟩
    obtain rfl : conn = conn' := Except.ok.inj hconn
    exact ⟨⟨connName, true, conn⟩, rfl, rfl, h⟩
  · obtain ⟨conn, hconn, -⟩ := h
    cases hconn

theorem close_traffic :
    Ends (Traffic o d) (engine.close jdbc) fun _ => Traffic o (d ++ engine.connection.toList) := by
  unfold close
  cases engine.connection with
  | none =>
    rw [Option.toList_none, List.append_nil]
    exact Keeps.pure _
  | some connection =>
    have hcall : Ends (Traffic o d) (call jdbc (.closeConnection connection)) fun _ =>
        Traffic o (d ++ [connection]) :=
      (call_traffic (.closeConnection connection)).mono fun r s h => by
        rwa [show Event.obtained ⟨.closeConnection connection, r⟩ = none from rfl,
          Option.toList_none, List.append_nil] at h
    refine Ends.tryCatch hcall (fun _ _ h => h) fun e => ?_
    cases e with
    | sqlException text => exact Keeps.pure _
    | runtimeException text => exact Keeps.throw _

theorem perform_keeps (hkeep : engine.isKeepConn = true) (op : Operation) :
    Keeps (Traffic o d) (engine.perform jdbc op) := by
  intro s h
  obtain ⟨conns, h', -, hnone⟩ := perform_released op s h
  rwa [hnone hkeep, List.append_nil, List.append_nil] at h'

/-- Closed at the end, as its constructor asks, such an engine gives its connection back. -/
theorem lifetime_traffic (connName : String) (ops : List Operation) :
    Ends (Traffic o d) (do
        let engine ← new jdbc connName true
        try
          engine.session jdbc ops
        finally
          engine.close jdbc) fun _ s => ∃ conns, Traffic (o ++ conns) (d ++ conns) s := by
  refine Ends.bind (new_traffic connName) (fun engine => ?_) fun e s h => ?_
  · rintro s ⟨engine', heq, hkeep, h⟩
    obtain rfl : engine = engine' := Except.ok.inj heq
    have hops : Keeps (Traffic (o ++ engine.connection.toList) d) (engine.session jdbc ops) :=
      session_keeps (perform_keeps hkeep) ops
    exact ⟨_, Ends.tryFinally hops close_traffic s h⟩
  · obtain ⟨engine, heq, -⟩ := h
    cases heq

end DBEngine

end Jdbc

end MySocket
