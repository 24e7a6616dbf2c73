import Mathlib.Logic.Function.Basic
import MySocket.Finally
import MySocket.Walk

/-!
# Looking a connection up

`DBEngine.getConnection` finds the entry of a name in `DB_CONFIG_MAP` and opens a connection
as the entry says. An entry of the type `mapping` names another entry : the connection is
that of the other name, with the catalog set to the `db` of the entry. So the connection is
opened at the end of a chain of names, and handed back through a `try` block at each of them.

* `released_iff` : a call that fails leaves no connection open, exactly if every catalog along
  the chain can be set on the connection opened at its end.
* `terminates_iff_noRepeat` : the calls come to an end exactly if no name occurs twice on the
  chain.

The driver and the naming service are a parameter (`Driver`) that answers every call as it
likes.
-/

namespace MySocket

namespace ConnectionLookup

/-! ## The configuration -/

/-- `java.util.Properties` -/
abbrev Properties :=
  List (String × String)

def Properties.get (pro : Properties) (key : String) : Option String :=
  pro.lookup key

def Properties.put (pro : Properties) (key value : String) : Properties :=
  (key, value) :: pro

/-- `DB_CONFIG_MAP` -/
abbrev Config :=
  List (String × Properties)

def Config.get (config : Config) (name : Option String) : Option Properties :=
  name.bind fun name => config.lookup name

def Config.put (config : Config) (name : String) (pro : Properties) : Config :=
  (name, pro) :: config

/-- `String.equalsIgnoreCase` compares characters by their upper and lower case. A character
outside ASCII whose case is in ASCII is compared as that one. -/
def foldCase (c : Char) : Char :=
  match c with
  | 'ı' | 'İ' => 'I'
  | 'ſ' => 'S'
  | '\u212A' => 'K'
  | c => c.toUpper

/-- `constant.equalsIgnoreCase(text)`, for a constant in ASCII. -/
def equalsIgnoreCase (constant : String) (text : Option String) : Bool :=
  match text with
  | some text => constant.toList.map foldCase = text.toList.map foldCase
  | none => false

/-- `CONN_BY_DATASOURCE`, `CONN_BY_DIRECTCONNECT`, `CONN_BY_PROXOOL` and `CONN_BY_MAPPING` -/
inductive ConnType
  | dataSource
  | directConnect
  | proxool
  | mapping
  deriving DecidableEq

def ConnType.text : ConnType → String
  | dataSource => "DataSource"
  | directConnect => "DirectConnect"
  | proxool => "Proxool"
  | mapping => "mapping"

/-- The constants are compared in this order. -/
def connType (type : Option String) : Option ConnType :=
  if equalsIgnoreCase ConnType.dataSource.text type then some .dataSource
  else if equalsIgnoreCase ConnType.directConnect.text type then some .directConnect
  else if equalsIgnoreCase ConnType.proxool.text type then some .proxool
  else if equalsIgnoreCase ConnType.mapping.text type then some .mapping
  else none

/-! ## The driver -/

/-- What a call of the driver or of the naming service throws. -/
inductive JavaException
  | sqlException (reason : String)
  | namingException
  | runtimeException (text : String)
  deriving DecidableEq

/-- An exception, or the error at the end of the stack, which is none. -/
inductive Thrown
  | exception (e : JavaException)
  | stackOverflowError
  deriving DecidableEq

def sqlException (reason : String) : Thrown :=
  .exception (.sqlException reason)

def nullPointer : Thrown :=
  .exception (.runtimeException "java.lang.NullPointerException")

abbrev Connection := ℕ
abbrev DataSource := ℕ

/-- The calls that can fail. -/
inductive Call
  /-- The lookups of the environment and of the source in it. -/
  | lookup (dsName : Option String)
  /-- `DataSource.getConnection` -/
  | dataSource (ds : DataSource)
  /-- `DriverManager.getConnection` -/
  | driverManager (url : Option String) (info : Properties)
  | setCatalog (conn : Connection) (db : Option String)
  | close (conn : Connection)

/-- What a call returns; `none` is null. -/
abbrev Call.Answer : Call → Type
  | lookup _ => Option DataSource
  | dataSource _ => Option Connection
  | driverManager _ _ => Option Connection
  | setCatalog _ _ => Unit
  | close _ => Unit

/-- A call and how it ended. -/
structure Event where
  call : Call
  result : Except JavaException call.Answer

/-- How a call ends, after the calls made so far. -/
abbrev Driver :=
  List Event → (c : Call) → Except JavaException c.Answer

/-- The caches of `DBEngine`, and the calls so far. -/
structure Engine where
  /-- `DS_MAP` -/
  dsMap : Option String → Option DataSource
  /-- `PROXOOL_CONFIG_MAP` -/
  proxoolConfigMap : Option String → Option Properties
  log : List Event

abbrev LProg :=
  Prog Engine Thrown

variable (driver : Driver) (config : Config)

def call (c : Call) : LProg c.Answer :=
  ExceptT.mk fun s =>
    ((driver s.log c).mapError .exception, { s with log := s.log ++ [⟨c, driver s.log c⟩] })

/-- A reference that is about to be used. -/
def deref {α : Type} : Option α → LProg α
  | some a => pure a
  | none => throw nullPointer

/-! ## The code -/

def getConnectionByDataSource (pro : Properties) : LProg (Option Connection) :=
  try
    let dsName := pro.get "data-source-name"
    match (← get).dsMap dsName with
    | some ds => call driver (.dataSource ds)
    | none =>
      match ← call driver (.lookup dsName) with
      | some ds =>
        modify fun s => { s with dsMap := Function.update s.dsMap dsName (some ds) }
        call driver (.dataSource ds)
      | none => pure none
  catch
    | .exception .namingException => throw (sqlException "Cant not find datesource!")
    | e => throw e

def directGetConnect (pro : Properties) : LProg (Option Connection) :=
  try
    call driver (.driverManager (pro.get "url") [])
  catch
    | .exception (.sqlException _) => throw (sqlException "Direct get connection fail!")
    | e => throw e

/-- The properties of a pool. `setProperty` takes no null. -/
def proxoolInfo (pro : Properties) : LProg Properties := do
  let count ← deref (pro.get "maximum-connection-count")
  let lifetime ← deref (pro.get "maximum-connection-lifetime")
  let minimum ← deref (pro.get "minimum-connection-count")
  pure [("proxool.maximum-connection-count", count),
    ("proxool.maximum-connection-lifetime", lifetime),
    ("proxool.minimum-connection-count", minimum),
    ("proxool.house-keeping-test-sql", "select CURRENT_DATE")]

/-- The properties of the pool of a name are made once. -/
def proxoolConfig (pro : Properties) : LProg Properties := do
  let name := pro.get "name"
  match (← get).proxoolConfigMap name with
  | some info => pure info
  | none =>
    let info ← proxoolInfo pro
    modify fun s =>
      { s with proxoolConfigMap := Function.update s.proxoolConfigMap name (some info) }
    pure info

def getConnectionByProxool (pro : Properties) : LProg (Option Connection) := do
  let info ← proxoolConfig pro
  call driver (.driverManager (pro.get "url") info)

/-- `getConnectionByMapping`, with the `getConnection` that it calls. -/
def getConnectionByMapping (getConnection : Option String → LProg (Option Connection))
    (pro : Properties) : LProg (Option Connection) :=
  try
    let conn ← getConnection (pro.get "map")
    let connection ← deref conn
    call driver (.setCatalog connection (pro.get "db"))
    pure conn
  catch
    | .exception (.sqlException _) => throw (sqlException "Get connection by mapping fail!")
    | e => throw e

/-- The `try` block of `getConnection`. -/
def openConnection (getConnection : Option String → LProg (Option Connection))
    (name : Option String) : LProg (Option Connection) :=
  match config.get name with
  | none => throw (sqlException ("No connection named:" ++ name.getD "null"))
  | some pro =>
    match connType (pro.get "type") with
    | some .dataSource => getConnectionByDataSource driver pro
    | some .directConnect => directGetConnect driver pro
    | some .proxool => getConnectionByProxool driver pro
    | some .mapping => getConnectionByMapping driver getConnection pro
    | none => pure none

/-- `getConnection` on a stack with room for `depth` calls of it. -/
def getConnection : ℕ → Option String → LProg (Option Connection)
  | 0, _ => throw .stackOverflowError
  | depth + 1, name =>
    try
      openConnection driver config (getConnection depth) name
    catch
      | .exception (.sqlException reason) => throw (sqlException reason)
      | .exception _ => pure none
      | .stackOverflowError => throw .stackOverflowError

/-! ## The chain of names -/

/-- The entry of a name, if it is a mapping. -/
def mappingOf (name : Option String) : Option Properties :=
  (config.get name).filter fun pro => connType (pro.get "type") = some .mapping

/-- The name that the entry of a name maps to. -/
def target (name : Option String) : Option (Option String) :=
  (mappingOf config name).map fun pro => pro.get "map"

/-- The catalogs that the entries along the chain set, the last entry's first, and the name that
the chain ends with. -/
def follow : ℕ → Option String → List (Option String) × Option String
  | 0, name => ([], name)
  | depth + 1, name =>
    match mappingOf config name with
    | some pro => ((follow depth (pro.get "map")).1 ++ [pro.get "db"], (follow depth (pro.get "map")).2)
    | none => ([], name)

/-- What opens the connection at the end of a chain. -/
def openEnd (name : Option String) : LProg (Option Connection) :=
  openConnection driver config (fun _ => throw .stackOverflowError) name

/-! ## The property -/

def Event.obtained : Event → Option Connection
  | ⟨.dataSource _, .ok conn⟩ => conn
  | ⟨.driverManager _ _, .ok conn⟩ => conn
  | _ => none

/-- A connection counts as closed once `close` was called. -/
def Event.closed : Event → Option Connection
  | ⟨.close conn, _⟩ => some conn
  | _ => none

/-- A connection returned is the only one that was obtained in the calls, and without one every
connection obtained was closed. -/
def Released (calls : List Event) : Except Thrown (Option Connection) → Prop
  | .ok (some conn) => calls.filterMap Event.obtained = [conn]
  | .ok none | .error _ =>
    ∀ conn ∈ calls.filterMap Event.obtained, conn ∈ calls.filterMap Event.closed

/-- The catalogs can be set on the connection, one after the other. -/
def SetsAll (conn : Connection) : List Event → List (Option String) → Prop
  | _, [] => True
  | log, db :: dbs =>
    driver log (.setCatalog conn db) = .ok () ∧
      SetsAll conn (log ++ [⟨.setCatalog conn db, .ok ()⟩]) dbs

/-! ## Execution -/

variable {driver config}

/-- How a call of `getConnection` ends and what it leaves. -/
abbrev Outcome :=
  Except Thrown (Option Connection) × Engine

/-- What the `catch` blocks of `getConnection` make of an outcome. -/
def caught : Outcome → Outcome
  | (.error (.exception (.sqlException reason)), s) => (.error (sqlException reason), s)
  | (.error (.exception _), s) => (.ok none, s)
  | out => out

/-- What `getConnection` makes of the outcome for the name that an entry maps to. -/
def handBack (driver : Driver) (db : Option String) : Outcome → Outcome
  | (.ok (some conn), s) =>
    let t := { s with log := s.log ++ [⟨.setCatalog conn db, driver s.log (.setCatalog conn db)⟩] }
    match driver s.log (.setCatalog conn db) with
    | .ok () => (.ok (some conn), t)
    | .error (.sqlException _) => (.error (sqlException "Get connection by mapping fail!"), t)
    | .error _ => (.ok none, t)
  | (.error (.exception (.sqlException _)), s) =>
    (.error (sqlException "Get connection by mapping fail!"), s)
  | (.error .stackOverflowError, s) => (.error .stackOverflowError, s)
  | (_, s) => (.ok none, s)

theorem exec_call (c : Call) (s : Engine) :
    (call driver c).exec s =
      ((driver s.log c).mapError .exception, { s with log := s.log ++ [⟨c, driver s.log c⟩] }) :=
  rfl

theorem exec_getConnection_succ (depth : ℕ) (name : Option String) (s : Engine) :
    (getConnection driver config (depth + 1) name).exec s =
      caught ((openConnection driver config (getConnection driver config depth) name).exec s) := by
  rw [getConnection, exec_tryCatch]
  rcases (openConnection driver config (getConnection driver config depth) name).exec s with
    ⟨((_ | _ | _) | _) | _ | conn, t⟩ <;> rfl

theorem exec_getConnectionByMapping (g : Option String → LProg (Option Connection))
    (pro : Properties) (s : Engine) :
    caught ((getConnectionByMapping driver g pro).exec s) =
      handBack driver (pro.get "db") ((g (pro.get "map")).exec s) := by
  rw [getConnectionByMapping, exec_tryCatch, exec_bind]
  rcases (g (pro.get "map")).exec s with ⟨((_ | _ | _) | _) | _ | conn, t⟩
  · rfl
  · rfl
  · rfl
  · rfl
  · rfl
  · have hcall : (call driver (.setCatalog conn (pro.get "db"))).exec t = _ := exec_call _ t
    simp only [deref, pure_bind, exec_bind, handBack]
    rcases hset : driver t.log (.setCatalog conn (pro.get "db")) with (_ | _ | _) | _ <;>
      rw [hset] at hcall <;> rw [hcall] <;> rfl

theorem openConnection_of_mapping (g : Option String → LProg (Option Connection))
    {name : Option String} {pro : Properties} (h : mappingOf config name = some pro) :
    openConnection driver config g name = getConnectionByMapping driver g pro := by
  obtain ⟨hget, htype⟩ := Option.filter_eq_some_iff.mp h
  simp only [decide_eq_true_eq] at htype
  simp only [openConnection, hget, htype]

/-- Where the chain ends, `getConnection` is not called again. -/
theorem openConnection_of_none (g : Option String → LProg (Option Connection))
    {name : Option String} (h : mappingOf config name = none) :
    openConnection driver config g name = openEnd driver config name := by
  cases hget : config.get name with
  | none => simp only [openEnd, openConnection, hget]
  | some pro =>
    cases htype : connType (pro.get "type") with
    | none => simp only [openEnd, openConnection, hget, htype]
    | some type =>
      cases type with
      | dataSource | directConnect | proxool => simp only [openEnd, openConnection, hget, htype]
      | mapping => simp [mappingOf, hget, htype] at h

theorem exec_getConnection_mapping (depth : ℕ) {name : Option String} {pro : Properties}
    (h : mappingOf config name = some pro) (s : Engine) :
    (getConnection driver config (depth + 1) name).exec s =
      handBack driver (pro.get "db") ((getConnection driver config depth (pro.get "map")).exec s) := by
  rw [exec_getConnection_succ, openConnection_of_mapping _ h, exec_getConnectionByMapping]

theorem exec_getConnection_end (depth : ℕ) {name : Option String}
    (h : mappingOf config name = none) (s : Engine) :
    (getConnection driver config (depth + 1) name).exec s =
      caught ((openEnd driver config name).exec s) := by
  rw [exec_getConnection_succ, openConnection_of_none _ h]

/-- The connection is opened at the end of the chain and handed back along it. -/
theorem exec_getConnection {depth : ℕ} {name : Option String}
    (h : walk (target config) depth name = none) (s : Engine) :
    (getConnection driver config depth name).exec s =
      (follow config depth name).1.foldl (fun out db => handBack driver db out)
        (caught ((openEnd driver config (follow config depth name).2).exec s)) := by
  induction depth generalizing name with
  | zero => cases h
  | succ depth ih =>
    cases hmap : mappingOf config name with
    | none => rw [exec_getConnection_end depth hmap, follow, hmap, List.foldl_nil]
    | some pro =>
      rw [walk, target, hmap, Option.map_some, Option.bind_some] at h
      rw [exec_getConnection_mapping depth hmap, ih h, follow, hmap, List.foldl_append,
        List.foldl_cons, List.foldl_nil]

/-! ## The end of a chain -/

/-- The calls since `l` have obtained the connections `o`, and closed none. -/
def Since (l : List Event) (o : List Connection) (s : Engine) : Prop :=
  ∃ calls, s.log = l ++ calls ∧ calls.filterMap Event.obtained = o ∧
    calls.filterMap Event.closed = []

/-- The connection of a result. -/
def opened : Except Thrown (Option Connection) → List Connection
  | .ok conn => conn.toList
  | .error _ => []

/-- `x` obtains no connection. -/
def Quiet {α : Type} (x : LProg α) : Prop :=
  ∀ l, Ends (Since l []) x fun r s => Since l [] s ∧ r ≠ .error .stackOverflowError

/-- `x` obtains the connection that it returns, and no other. -/
def OpensOne (x : LProg (Option Connection)) : Prop :=
  ∀ l, Ends (Since l []) x fun r s => Since l (opened r) s ∧ r ≠ .error .stackOverflowError

section

variable {α β : Type}

theorem Since.call {l : List Event} {o : List Connection} {s : Engine} (h : Since l o s)
    {c : Call} (r : Except JavaException c.Answer) (hclosed : Event.closed ⟨c, r⟩ = none) :
    Since l (o ++ (Event.obtained ⟨c, r⟩).toList) { s with log := s.log ++ [⟨c, r⟩] } := by
  obtain ⟨calls, hlog, hobtained, hnone⟩ := h
  refine ⟨calls ++ [⟨c, r⟩], ?_, ?_, ?_⟩
  · dsimp only
    rw [hlog, List.append_assoc]
  · rw [List.filterMap_append, hobtained]
    congr 1
  · rw [List.filterMap_append, hnone, List.nil_append, List.filterMap_cons, hclosed,
      List.filterMap_nil]

theorem Quiet.pure (a : α) : Quiet (Pure.pure a : LProg α) :=
  fun _ _ hs => ⟨hs, nofun⟩

theorem Quiet.get : Quiet (MonadState.get : LProg Engine) :=
  fun _ _ hs => ⟨hs, nofun⟩

/-- The caches are not in the log. -/
theorem Quiet.modify {f : Engine → Engine} (h : ∀ s, (f s).log = s.log) :
    Quiet (modify f : LProg PUnit) := fun _ s hs => by
  obtain ⟨calls, hlog, hcalls⟩ := hs
  exact ⟨⟨calls, (h s).trans hlog, hcalls⟩, nofun⟩

theorem Quiet.bind {x : LProg α} {f : α → LProg β} (hx : Quiet x) (hf : ∀ a, Quiet (f a)) :
    Quiet (x >>= f) := fun l =>
  (hx l).bind (fun a s hs => hf a l s hs.1) fun _ _ hs =>
    ⟨hs.1, fun he => hs.2 (congrArg _ (Except.error.inj he))⟩

theorem quiet_deref (a : Option α) : Quiet (deref a) := by
  cases a with
  | none => exact fun _ _ hs => ⟨hs, nofun⟩
  | some a => exact Quiet.pure a

theorem quiet_lookup (dsName : Option String) : Quiet (call driver (.lookup dsName)) :=
  fun l s hs => by
    have hcall := hs.call (driver s.log (.lookup dsName)) rfl
    rw [exec_call]
    refine ⟨by simpa [Event.obtained] using hcall, ?_⟩
    cases driver s.log (.lookup dsName) <;> nofun

theorem Quiet.opensOne {x : LProg α} {f : α → LProg (Option Connection)} (hx : Quiet x)
    (hf : ∀ a, OpensOne (f a)) : OpensOne (x >>= f) := fun l =>
  (hx l).bind (fun a s hs => hf a l s hs.1) fun _ _ hs =>
    ⟨hs.1, fun he => hs.2 (congrArg _ (Except.error.inj he))⟩

theorem opensOne_none : OpensOne (pure none) :=
  fun _ _ hs => ⟨hs, nofun⟩

theorem opensOne_throw (e : JavaException) : OpensOne (throw (.exception e)) :=
  fun _ _ hs => ⟨hs, nofun⟩

theorem opensOne_dataSource (ds : DataSource) : OpensOne (call driver (.dataSource ds)) :=
  fun l s hs => by
    have hcall := hs.call (driver s.log (.dataSource ds)) rfl
    rw [exec_call]
    generalize driver s.log (.dataSource ds) = r at hcall ⊢
    cases r <;> exact ⟨hcall, nofun⟩

theorem opensOne_driverManager (url : Option String) (info : Properties) :
    OpensOne (call driver (.driverManager url info)) := fun l s hs => by
  have hcall := hs.call (driver s.log (.driverManager url info)) rfl
  rw [exec_call]
  generalize driver s.log (.driverManager url info) = r at hcall ⊢
  cases r <;> exact ⟨hcall, nofun⟩

theorem OpensOne.tryCatch {x : LProg (Option Connection)}
    {h : Thrown → LProg (Option Connection)} (hx : OpensOne x)
    (hh : ∀ e, OpensOne (h (.exception e))) : OpensOne (tryCatch x h) := fun l => by
  refine (hx l).tryCatch (fun a s hs => hs) fun e s hs => ?_
  cases e with
  | exception e => exact hh e l s hs.1
  | stackOverflowError => exact absurd rfl hs.2

theorem opensOne_getConnectionByDataSource (pro : Properties) :
    OpensOne (getConnectionByDataSource driver pro) := by
  unfold getConnectionByDataSource
  refine OpensOne.tryCatch (Quiet.get.opensOne fun s => ?_) fun e => ?_
  · split
    · exact opensOne_dataSource _
    · refine (quiet_lookup _).opensOne fun ds => ?_
      cases ds with
      | none => exact opensOne_none
      | some ds => exact (Quiet.modify fun _ => rfl).opensOne fun _ => opensOne_dataSource ds
  · cases e <;> exact opensOne_throw _

theorem opensOne_directGetConnect (pro : Properties) :
    OpensOne (directGetConnect driver pro) := by
  unfold directGetConnect
  refine (opensOne_driverManager _ _).tryCatch fun e => ?_
  cases e <;> exact opensOne_throw _

theorem quiet_proxoolInfo (pro : Properties) : Quiet (proxoolInfo pro) :=
  (quiet_deref _).bind fun _ => (quiet_deref _).bind fun _ => (quiet_deref _).bind fun _ =>
    Quiet.pure _

theorem quiet_proxoolConfig (pro : Properties) : Quiet (proxoolConfig pro) := by
  unfold proxoolConfig
  refine Quiet.get.bind fun s => ?_
  split
  · exact Quiet.pure _
  · exact (quiet_proxoolInfo pro).bind fun _ => (Quiet.modify fun _ => rfl).bind fun _ => Quiet.pure _

theorem opensOne_getConnectionByProxool (pro : Properties) :
    OpensOne (getConnectionByProxool driver pro) :=
  (quiet_proxoolConfig pro).opensOne fun _ => opensOne_driverManager _ _

theorem opensOne_openEnd (driver : Driver) {name : Option String} (h : mappingOf config name = none) :
    OpensOne (openEnd driver config name) := by
  rw [openEnd, openConnection]
  cases hget : config.get name with
  | none => exact opensOne_throw _
  | some pro =>
    cases htype : connType (pro.get "type") with
    | none => simpa only [htype] using opensOne_none
    | some type =>
      cases type with
      | dataSource => simpa only [htype] using opensOne_getConnectionByDataSource pro
      | directConnect => simpa only [htype] using opensOne_directGetConnect pro
      | proxool => simpa only [htype] using opensOne_getConnectionByProxool pro
      | mapping => simp [mappingOf, hget, htype] at h

end

/-! ## The way back -/

theorem caught_snd (out : Outcome) : (caught out).2 = out.2 := by
  rcases out with ⟨((_ | _ | _) | _) | _ | conn, s⟩ <;> rfl

theorem opened_caught (out : Outcome) : opened (caught out).1 = opened out.1 := by
  rcases out with ⟨((_ | _ | _) | _) | _ | conn, s⟩ <;> rfl

theorem caught_ne_overflow {out : Outcome} (h : out.1 ≠ .error .stackOverflowError) :
    (caught out).1 ≠ .error .stackOverflowError := by
  rcases out with ⟨((_ | _ | _) | _) | _ | conn, s⟩
  · nofun
  · nofun
  · nofun
  · exact absurd rfl h
  · nofun
  · nofun

/-- Without a connection no catalog is set. -/
theorem handBack_of_opened_eq_nil (driver : Driver) {out : Outcome} (h : opened out.1 = [])
    (db : Option String) :
    opened (handBack driver db out).1 = [] ∧ (handBack driver db out).2 = out.2 := by
  rcases out with ⟨((_ | _ | _) | _) | _ | conn, s⟩
  · exact ⟨rfl, rfl⟩
  · exact ⟨rfl, rfl⟩
  · exact ⟨rfl, rfl⟩
  · exact ⟨rfl, rfl⟩
  · exact ⟨rfl, rfl⟩
  · cases h

theorem handBack_ne_overflow {out : Outcome} (h : out.1 ≠ .error .stackOverflowError)
    (db : Option String) : (handBack driver db out).1 ≠ .error .stackOverflowError := by
  rcases out with ⟨((_ | _ | _) | _) | _ | conn, s⟩
  · nofun
  · nofun
  · nofun
  · exact absurd rfl h
  · nofun
  · simp only [handBack]
    rcases driver s.log (.setCatalog conn db) with (_ | _ | _) | _ <;> nofun

theorem foldl_handBack_ne_overflow {out : Outcome} (h : out.1 ≠ .error .stackOverflowError)
    (dbs : List (Option String)) :
    (dbs.foldl (fun out db => handBack driver db out) out).1 ≠ .error .stackOverflowError := by
  induction dbs generalizing out with
  | nil => exact h
  | cons db dbs ih => exact ih (handBack_ne_overflow h db)

theorem foldl_of_opened_eq_nil (driver : Driver) {out : Outcome} (h : opened out.1 = [])
    (dbs : List (Option String)) :
    opened (dbs.foldl (fun out db => handBack driver db out) out).1 = [] ∧
      (dbs.foldl (fun out db => handBack driver db out) out).2 = out.2 := by
  induction dbs generalizing out with
  | nil => exact ⟨h, rfl⟩
  | cons db dbs ih =>
    obtain ⟨hnone, hsame⟩ := handBack_of_opened_eq_nil driver h db
    obtain ⟨hnone', hsame'⟩ := ih hnone
    exact ⟨hnone', hsame'.trans hsame⟩

theorem handBack_of_ok {conn : Connection} {s : Engine} {db : Option String}
    (h : driver s.log (.setCatalog conn db) = .ok ()) :
    handBack driver db (.ok (some conn), s) =
      (.ok (some conn), { s with log := s.log ++ [⟨.setCatalog conn db, .ok ()⟩] }) := by
  simp only [handBack, h]

theorem handBack_of_error {conn : Connection} {s : Engine} {db : Option String}
    {e : JavaException} (h : driver s.log (.setCatalog conn db) = .error e) :
    opened (handBack driver db (.ok (some conn), s)).1 = [] ∧
      (handBack driver db (.ok (some conn), s)).2 =
        { s with log := s.log ++ [⟨.setCatalog conn db, .error e⟩] } := by
  simp only [handBack, h]
  cases e <;> exact ⟨rfl, rfl⟩

/-- A connection is handed back to the start of the chain if all catalogs can be set, and is lost
otherwise. -/
theorem foldl_of_conn (driver : Driver) {l : List Event} {conn : Connection} {s : Engine}
    (h : Since l [conn] s) (dbs : List (Option String)) :
    Since l [conn] (dbs.foldl (fun out db => handBack driver db out) (.ok (some conn), s)).2 ∧
      (opened (dbs.foldl (fun out db => handBack driver db out) (.ok (some conn), s)).1 = [conn] ↔
        SetsAll driver conn s.log dbs) := by
  induction dbs generalizing s with
  | nil => exact ⟨h, iff_of_true rfl trivial⟩
  | cons db dbs ih =>
    have hset := h.call (driver s.log (.setCatalog conn db)) rfl
    rw [List.foldl_cons, SetsAll]
    cases hr : driver s.log (.setCatalog conn db) with
    | ok _ =>
      rw [hr] at hset
      rw [handBack_of_ok hr]
      obtain ⟨hsince, hiff⟩ := ih hset
      exact ⟨hsince, by rw [hiff]; simp⟩
    | error e =>
      rw [hr] at hset
      obtain ⟨hnone, hlog⟩ := handBack_of_error hr
      obtain ⟨hnone', hsame⟩ := foldl_of_opened_eq_nil driver hnone dbs
      rw [hnone', hsame, hlog]
      exact ⟨hset, by simp⟩

/-! ## The results -/

theorem mappingOf_follow {depth : ℕ} {name : Option String}
    (h : walk (target config) depth name = none) :
    mappingOf config (follow config depth name).2 = none := by
  induction depth generalizing name with
  | zero => cases h
  | succ depth ih =>
    cases hmap : mappingOf config name with
    | none => rw [follow, hmap, hmap]
    | some pro =>
      rw [walk, target, hmap, Option.map_some, Option.bind_some] at h
      rw [follow, hmap]
      exact ih h

/-- Of the connections obtained, none are closed, so they must be those returned. -/
theorem Since.released_iff_opened {l : List Event} {o : List Connection} {s : Engine} (h : Since l o s)
    (r : Except Thrown (Option Connection)) :
    Released (s.log.drop l.length) r ↔ opened r = o := by
  obtain ⟨calls, hlog, rfl, hclosed⟩ := h
  rw [hlog, List.drop_left]
  rcases r with _ | _ | conn
  · simp [Released, opened, hclosed, List.eq_nil_iff_forall_not_mem, eq_comm]
  · simp [Released, opened, hclosed, List.eq_nil_iff_forall_not_mem, eq_comm]
  · simp [Released, opened, eq_comm]

/-- What is handed back from the end of a chain. -/
theorem released_foldl_iff {l : List Event} {r : Except Thrown (Option Connection)} {t : Engine}
    (h : Since l (opened r) t) (dbs : List (Option String)) :
    Released ((dbs.foldl (fun out db => handBack driver db out) (caught (r, t))).2.log.drop l.length)
        (dbs.foldl (fun out db => handBack driver db out) (caught (r, t))).1 ↔
      ∀ conn, r = .ok (some conn) → SetsAll driver conn t.log dbs := by
  have hnone : opened r = [] →
      Released ((dbs.foldl (fun out db => handBack driver db out) (caught (r, t))).2.log.drop l.length)
        (dbs.foldl (fun out db => handBack driver db out) (caught (r, t))).1 := fun hopened => by
    obtain ⟨hnone, hsame⟩ := foldl_of_opened_eq_nil driver
      ((opened_caught (r, t)).trans hopened) dbs
    rw [hsame, caught_snd, h.released_iff_opened, hnone, hopened]
  rcases r with e | _ | conn
  · exact iff_of_true (hnone rfl) fun conn heq => nomatch heq
  · exact iff_of_true (hnone rfl) fun conn heq => nomatch heq
  · have hcaught : caught (.ok (some conn), t) = (.ok (some conn), t) := rfl
    obtain ⟨hsince, hiff⟩ := foldl_of_conn driver h dbs
    rw [hcaught, hsince.released_iff_opened, hiff]
    constructor
    · rintro hset _ ⟨⟩
      exact hset
    · exact fun hset => hset conn rfl

/-- A call of `getConnection` that fails leaves no connection open, and one that succeeds has
obtained no other, exactly if the catalogs along the chain can be set on the connection opened at
its end, should there be one. -/
theorem released_iff {depth : ℕ} {name : Option String}
    (h : walk (target config) depth name = none) (s : Engine) :
    Released (((getConnection driver config depth name).exec s).2.log.drop s.log.length)
        ((getConnection driver config depth name).exec s).1 ↔
      ∀ conn t, (openEnd driver config (follow config depth name).2).exec s = (.ok (some conn), t) →
        SetsAll driver conn t.log (follow config depth name).1 := by
  have hend := (opensOne_openEnd driver (mappingOf_follow h) s.log s ⟨[], by simp⟩).1
  rw [exec_getConnection h, released_foldl_iff hend]
  constructor
  · intro hset conn t heq
    rw [heq] at hset
    exact hset conn rfl
  · exact fun hset conn heq => hset conn _ (Prod.ext heq rfl)

section

/-- `conn_mobile` is mapped to `db_wrp`, which is connected to directly. -/
def mobile : Config :=
  [("conn_mobile", [("type", "mapping"), ("map", "db_wrp"), ("db", "test")]),
    ("db_wrp", [("name", "db_wrp"), ("type", "DirectConnect"), ("url", "jdbc:mysql://localhost")])]

/-- A driver with one connection, on which the catalog can be set or not. -/
def oneConnection (setCatalog : Except JavaException Unit) : Driver := fun _ c =>
  match c with
  | .lookup _ => .ok none
  | .dataSource _ => .ok none
  | .driverManager _ _ => .ok (some 7)
  | .setCatalog _ _ => setCatalog
  | .close _ => .ok ()

def emptyEngine : Engine where
  dsMap _ := none
  proxoolConfigMap _ := none
  log := []

theorem mobile_released :
    Released
      (((getConnection (oneConnection (.ok ())) mobile 2 (some "conn_mobile")).exec
        emptyEngine).2.log.drop 0)
      ((getConnection (oneConnection (.ok ())) mobile 2 (some "conn_mobile")).exec emptyEngine).1 :=
  (released_iff (by decide) emptyEngine).mpr fun _ _ _ => ⟨rfl, trivial⟩

/-- The catalog `test` is not there. -/
def unknownDatabase : Driver :=
  oneConnection (.error (.sqlException "Unknown database"))

/-- The exception of `setCatalog` leaves the connection to `db_wrp` open. -/
theorem mobile_leaks :
    walk (target mobile) 2 (some "conn_mobile") = none ∧
    ((getConnection unknownDatabase mobile 2 (some "conn_mobile")).exec emptyEngine).1 =
      .error (sqlException "Get connection by mapping fail!") ∧
    ((getConnection unknownDatabase mobile 2 (some "conn_mobile")).exec
      emptyEngine).2.log.filterMap Event.obtained = [7] ∧
    ¬Released
      (((getConnection unknownDatabase mobile 2 (some "conn_mobile")).exec emptyEngine).2.log.drop 0)
      ((getConnection unknownDatabase mobile 2 (some "conn_mobile")).exec emptyEngine).1 := by
  refine ⟨by decide, by decide, by decide, fun h => ?_⟩
  exact absurd (h 7 (by decide)) (by decide)

end

/-! ## The end of the stack -/

/-- The chain ends, and there is room on the stack for it. -/
theorem getConnection_ne_overflow {depth : ℕ} {name : Option String}
    (h : walk (target config) depth name = none) (s : Engine) :
    ((getConnection driver config depth name).exec s).1 ≠ .error .stackOverflowError := by
  rw [exec_getConnection h]
  have hend := (opensOne_openEnd driver (mappingOf_follow h) s.log s ⟨[], by simp⟩).2
  exact foldl_handBack_ne_overflow (caught_ne_overflow hend) _

/-- The chain does not end, and no stack has room for it. -/
theorem getConnection_overflow {name : Option String} (h : ¬Halts (target config) name)
    (depth : ℕ) (s : Engine) :
    (getConnection driver config depth name).exec s = (.error .stackOverflowError, s) := by
  induction depth generalizing name with
  | zero => rfl
  | succ depth ih =>
    obtain ⟨next, hnext, hnext'⟩ := exists_of_not_halts h
    obtain ⟨pro, hmap, rfl⟩ := Option.map_eq_some_iff.mp hnext
    rw [exec_getConnection_mapping depth hmap, ih hnext']
    rfl

/-- `getConnection` comes to an end, whatever it is. -/
def Terminates (driver : Driver) (config : Config) (name : Option String) (s : Engine) : Prop :=
  ∃ depth, ((getConnection driver config depth name).exec s).1 ≠ .error .stackOverflowError

theorem terminates_iff_halts (driver : Driver) (config : Config) (name : Option String)
    (s : Engine) : Terminates driver config name s ↔ Halts (target config) name := by
  constructor
  · rintro ⟨depth, hdepth⟩
    by_contra hhalts
    exact hdepth (congrArg Prod.fst (getConnection_overflow hhalts depth s))
  · rintro ⟨depth, hdepth⟩
    exact ⟨depth, getConnection_ne_overflow hdepth s⟩

/-- Only names with an entry are mapped. -/
theorem mem_of_target {name next : Option String} (h : target config name = some next) :
    name ∈ config.map fun entry => some entry.1 := by
  obtain ⟨pro, hmap, -⟩ := Option.map_eq_some_iff.mp h
  obtain ⟨hget, -⟩ := Option.filter_eq_some_iff.mp hmap
  obtain ⟨name, rfl, hlookup⟩ := Option.bind_eq_some_iff.mp hget
  obtain ⟨l₁, l₂, rfl, -⟩ := List.lookup_eq_some_iff.mp hlookup
  simp

theorem terminates_iff_noRepeat (driver : Driver) (config : Config) (name : Option String)
    (s : Engine) : Terminates driver config name s ↔ NoRepeat (target config) name :=
  (terminates_iff_halts driver config name s).trans
    (halts_iff_noRepeat (fun _ _ h => mem_of_target h) name)

end ConnectionLookup

end MySocket
