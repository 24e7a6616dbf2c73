import MySocket.LoadedConfig

/-!
# Which connection a name gives

A name that is mapped gives the connection of the entry at the end of its chain. Each entry on the
way back sets its own catalog on it, so the entry of the name itself, the last one, decides.

* `getConnection_resolves` : if every call succeeds, the connection was opened with the settings
  at the end of the chain and has the catalog of the name's own entry; if the chain ends with a
  name that has no entry, `getConnection` throws an `SQLException`.

Which catalog a connection has is up to the driver (`Catalogs`), of which it is only assumed that
`setCatalog` sets it, and that nothing is left of it when a pool hands the connection out again.

The sources and the properties of the pools are remembered, so the statement is about every
state that the calls before have left (`Reached`).
-/

namespace MySocket

namespace ConnectionLookup

/-! ## The property -/

/-- The call returned, and not null. -/
def Event.succeeded : Event → Bool
  | ⟨.lookup _, .ok ds⟩ => ds.isSome
  | ⟨.dataSource _, .ok conn⟩ => conn.isSome
  | ⟨.driverManager _ _, .ok conn⟩ => conn.isSome
  | ⟨_, .ok _⟩ => true
  | ⟨_, .error _⟩ => false

/-- The catalogs of a driver's connections. -/
structure Catalogs where
  /-- The catalog of a connection, after the calls so far. -/
  current : List Event → Connection → Option String
  /-- The catalog that a call opens a connection with. -/
  own : Call → Option String

/-- A connection that is handed out has the catalog of the call that opens it, also if it comes
from a pool and had another one before. A catalog that is set is that of the connection. -/
structure Catalogs.Lawful (catalogs : Catalogs) : Prop where
  handedOut : ∀ log event conn, event.obtained = some conn →
    catalogs.current (log ++ [event]) conn = catalogs.own event.call
  set : ∀ log conn db,
    catalogs.current (log ++ [⟨.setCatalog conn (some db), .ok ()⟩]) conn = some db

/-- The catalog for a name : the `db` of its entry if it is mapped, and otherwise the one that the
last of the calls has opened the connection with. -/
def Catalogs.wanted (catalogs : Catalogs) (config : Config) (name : Option String)
    (opening : List Event) : Option String :=
  match mappingOf config name with
  | some pro => pro.get "db"
  | none => opening.getLast?.bind fun event => catalogs.own event.call

/-- The calls open `conn` with the settings of an entry, after those in the log. A source is
looked up once. -/
def OpenedWith (log : List Event) (pro : Properties) (conn : Connection) (calls : List Event) :
    Prop :=
  match connType (pro.get "type") with
  | some .dataSource => ∃ ds : DataSource,
      calls = [⟨.lookup (pro.get "data-source-name"), .ok (some ds)⟩,
        ⟨.dataSource ds, .ok (some conn)⟩] ∨
      ⟨.lookup (pro.get "data-source-name"), .ok (some ds)⟩ ∈ log ∧
        calls = [⟨.dataSource ds, .ok (some conn)⟩]
  | some .directConnect => calls = [⟨.driverManager (pro.get "url") [], .ok (some conn)⟩]
  | some .proxool => ∃ info, PoolSettings pro info ∧
      calls = [⟨.driverManager (pro.get "url") info, .ok (some conn)⟩]
  | some .mapping | none => False

/-- The states that calls of `getConnection`, and other calls of the driver, can leave. -/
inductive Reached (driver : Driver) (config : Config) : Engine → Prop
  | start : Reached driver config ⟨fun _ => none, fun _ => none, []⟩
  | getConnection {s : Engine} (depth : ℕ) (name : Option String) : Reached driver config s →
      Reached driver config ((getConnection driver config depth name).exec s).2
  | call {s : Engine} (c : Call) : Reached driver config s →
      Reached driver config ((call driver c).exec s).2

/-! ## What is remembered -/

/-- The sources in the cache were looked up by their names, and the properties of a pool are
those of the entry of its name. -/
structure Cached (config : Config) (s : Engine) : Prop where
  source : ∀ dsName ds, s.dsMap dsName = some ds → ⟨.lookup dsName, .ok (some ds)⟩ ∈ s.log
  pool : ∀ name info, s.proxoolConfigMap name = some info →
    ∃ pro, config.get name = some pro ∧ PoolSettings pro info

/-- The entries are usable, and that of a pool has the name it is found by. -/
structure Sound (config : Config) : Prop where
  usable : ∀ name pro, config.get name = some pro → Usable pro
  named : ∀ name pro, config.get name = some pro → connType (pro.get "type") = some .proxool →
    pro.get "name" = name

variable {driver : Driver} {config : Config} {pro : Properties} {s : Engine}

theorem Cached.append (h : Cached config s) (calls : List Event) :
    Cached config { s with log := s.log ++ calls } where
  source dsName ds hds := List.mem_append_left _ (h.source dsName ds hds)
  pool := h.pool

theorem Cached.update_source (h : Cached config s) {dsName : Option String} {ds : DataSource}
    (hlog : ⟨.lookup dsName, .ok (some ds)⟩ ∈ s.log) :
    Cached config { s with dsMap := Function.update s.dsMap dsName (some ds) } where
  source dsName' ds' hds := by
    dsimp only at hds ⊢
    by_cases heq : dsName' = dsName
    · subst heq
      rw [Function.update_self] at hds
      rwa [← Option.some.inj hds]
    · rw [Function.update_of_ne heq] at hds
      exact h.source dsName' ds' hds
  pool := h.pool

theorem Cached.update_pool (h : Cached config s) {name : Option String} {info : Properties}
    (hget : config.get name = some pro) (hinfo : PoolSettings pro info) :
    Cached config
      { s with proxoolConfigMap := Function.update s.proxoolConfigMap name (some info) } where
  source := h.source
  pool name' info' hpool := by
    dsimp only at hpool
    by_cases heq : name' = name
    · subst heq
      rw [Function.update_self] at hpool
      exact ⟨pro, hget, Option.some.inj hpool ▸ hinfo⟩
    · rw [Function.update_of_ne heq] at hpool
      exact h.pool name' info' hpool

/-! ## The end of a chain -/

/-- How a connection is opened with the settings of an entry, if it is. -/
structure Opening (config : Config) (l : List Event) (pro : Properties) (calls : List Event)
    (out : Outcome) : Prop where
  log_eq : out.2.log = l ++ calls
  cached : Cached config out.2
  opens : (∀ event ∈ calls, event.succeeded) →
    ∃ conn, out.1 = .ok (some conn) ∧ OpenedWith l pro conn calls

/-- A `catch` block that throws again. -/
theorem Opening.tryCatch {l : List Event} {x : LProg (Option Connection)}
    {h : Thrown → LProg (Option Connection)} {calls : List Event}
    (hx : Opening config l pro calls (x.exec s))
    (hh : ∀ e t, ∃ e', (h e).exec t = (.error e', t)) :
    Opening config l pro calls ((tryCatch x h).exec s) := by
  rw [exec_tryCatch]
  rcases hout : x.exec s with ⟨e | conn, t⟩ <;> rw [hout] at hx
  · obtain ⟨e', he⟩ := hh e t
    dsimp only
    rw [he]
    exact ⟨hx.log_eq, hx.cached, fun hok => (hx.opens hok).imp fun _ h => nomatch h.1⟩
  · exact hx

theorem opening_dataSource (driver : Driver) {ds : DataSource}
    (htype : connType (pro.get "type") = some .dataSource) (hs : Cached config s)
    (hds : s.dsMap (pro.get "data-source-name") = some ds) :
    Opening config s.log pro [⟨.dataSource ds, driver s.log (.dataSource ds)⟩]
      ((call driver (.dataSource ds)).exec s) where
  log_eq := rfl
  cached := hs.append _
  opens hok := by
    rw [exec_call]
    rcases hr : driver s.log (.dataSource ds) with _ | _ | conn
    · rw [hr] at hok
      exact absurd (List.forall_mem_singleton.mp hok) nofun
    · rw [hr] at hok
      exact absurd (List.forall_mem_singleton.mp hok) nofun
    · refine ⟨conn, rfl, ?_⟩
      simp only [OpenedWith, htype]
      exact ⟨ds, .inr ⟨hs.source _ _ hds, rfl⟩⟩

theorem exists_opening_byDataSource (driver : Driver) (hs : Cached config s)
    (htype : connType (pro.get "type") = some .dataSource) :
    ∃ calls, Opening config s.log pro calls ((getConnectionByDataSource driver pro).exec s) := by
  suffices hopen : ∃ calls, Opening config s.log pro calls (Prog.exec _ s) from
    hopen.imp fun calls h => h.tryCatch fun e t => by
      rcases e with (_ | _ | _) | _ <;> exact ⟨_, rfl⟩
  rw [exec_get_bind]
  cases hds : s.dsMap (pro.get "data-source-name") with
  | some ds => exact ⟨_, opening_dataSource driver htype hs hds⟩
  | none =>
    rw [exec_bind, exec_call]
    have hlookup := hs.append [⟨.lookup (pro.get "data-source-name"), driver s.log _⟩]
    rcases hr : driver s.log (.lookup (pro.get "data-source-name")) with e | _ | ds
    · rw [hr] at hlookup
      exact ⟨_, rfl, hlookup, fun hok => absurd (List.forall_mem_singleton.mp hok) nofun⟩
    · rw [hr] at hlookup
      exact ⟨_, rfl, hlookup, fun hok => absurd (List.forall_mem_singleton.mp hok) nofun⟩
    · rw [hr] at hlookup
      have hput := hlookup.update_source (List.mem_append_right _ List.mem_cons_self)
      have hopen := opening_dataSource driver htype hput (Function.update_self ..)
      refine ⟨_ :: _, hopen.log_eq.trans (List.append_assoc ..), hopen.cached, fun hok => ?_⟩
      obtain ⟨-, hok⟩ := List.forall_mem_cons.mp hok
      obtain ⟨conn, hconn, hwith⟩ := hopen.opens hok
      refine ⟨conn, hconn, ?_⟩
      simp only [OpenedWith, htype] at hwith ⊢
      obtain ⟨ds', hcalls | ⟨-, hcalls⟩⟩ := hwith
      · cases hcalls
      · obtain ⟨hsame, -⟩ := Event.mk.inj (List.cons.inj hcalls).1
        obtain rfl := Call.dataSource.inj hsame
        exact ⟨ds, .inl (congrArg _ hcalls)⟩

theorem opening_driverManager (driver : Driver) {url : Option String} {info : Properties}
    (hs : Cached config s)
    (hwith : ∀ conn, OpenedWith s.log pro conn [⟨.driverManager url info, .ok (some conn)⟩]) :
    Opening config s.log pro
      [⟨.driverManager url info, driver s.log (.driverManager url info)⟩]
      ((call driver (.driverManager url info)).exec s) where
  log_eq := rfl
  cached := hs.append _
  opens hok := by
    rw [exec_call]
    rcases hr : driver s.log (.driverManager url info) with _ | _ | conn
    · rw [hr] at hok
      exact absurd (List.forall_mem_singleton.mp hok) nofun
    · rw [hr] at hok
      exact absurd (List.forall_mem_singleton.mp hok) nofun
    · exact ⟨conn, rfl, hwith conn⟩

theorem exists_opening_direct (driver : Driver) (hs : Cached config s)
    (htype : connType (pro.get "type") = some .directConnect) :
    ∃ calls, Opening config s.log pro calls ((directGetConnect driver pro).exec s) := by
  have hwith (conn : Connection) :
      OpenedWith s.log pro conn [⟨.driverManager (pro.get "url") [], .ok (some conn)⟩] := by
    simp only [OpenedWith, htype]
  exact ⟨_, (opening_driverManager driver hs hwith).tryCatch fun e t => by
    rcases e with (_ | _ | _) | _ <;> exact ⟨_, rfl⟩⟩

theorem exec_proxoolConfig_of_some {info : Properties}
    (h : s.proxoolConfigMap (pro.get "name") = some info) :
    (proxoolConfig pro).exec s = (.ok info, s) := by
  rw [proxoolConfig, exec_get_bind, h]
  rfl

theorem exec_proxoolConfig_of_none {info : Properties} (hinfo : PoolSettings pro info)
    (h : s.proxoolConfigMap (pro.get "name") = none) :
    (proxoolConfig pro).exec s = (.ok info, { s with
      proxoolConfigMap := Function.update s.proxoolConfigMap (pro.get "name") (some info) }) := by
  rw [proxoolConfig, exec_get_bind, h, hinfo.proxoolInfo_eq]
  rfl

theorem exists_opening_byProxool (driver : Driver) (hs : Cached config s)
    (htype : connType (pro.get "type") = some .proxool) (hpro : Usable pro)
    (hget : config.get (pro.get "name") = some pro) :
    ∃ calls, Opening config s.log pro calls ((getConnectionByProxool driver pro).exec s) := by
  have hwith (info : Properties) (hinfo : PoolSettings pro info) (conn : Connection) :
      OpenedWith s.log pro conn [⟨.driverManager (pro.get "url") info, .ok (some conn)⟩] := by
    simp only [OpenedWith, htype]
    exact ⟨info, hinfo, rfl⟩
  rw [getConnectionByProxool, exec_bind]
  cases hcache : s.proxoolConfigMap (pro.get "name") with
  | some info =>
    rw [exec_proxoolConfig_of_some hcache]
    obtain ⟨pro', hget', hinfo⟩ := hs.pool _ _ hcache
    obtain rfl : pro = pro' := Option.some.inj (hget.symm.trans hget')
    exact ⟨_, opening_driverManager driver hs (hwith info hinfo)⟩
  | none =>
    obtain ⟨info, hinfo⟩ := hpro.exists_poolSettings htype
    rw [exec_proxoolConfig_of_none hinfo hcache]
    exact ⟨_, opening_driverManager driver (hs.update_pool hget hinfo) (hwith info hinfo)⟩

theorem exists_opening (driver : Driver) (hconfig : Sound config) (hs : Cached config s)
    {name : Option String} (hget : config.get name = some pro)
    (hend : mappingOf config name = none) :
    ∃ calls, Opening config s.log pro calls ((openEnd driver config name).exec s) := by
  obtain ⟨type, htype, -⟩ := hconfig.usable name pro hget
  simp only [openEnd, openConnection, hget, htype]
  cases type with
  | dataSource => exact exists_opening_byDataSource driver hs htype
  | directConnect => exact exists_opening_direct driver hs htype
  | proxool =>
    have hname := hconfig.named name pro hget htype
    exact exists_opening_byProxool driver hs htype (hconfig.usable name pro hget) (hname ▸ hget)
  | mapping => simp [mappingOf, hget, htype] at hend

theorem openEnd_of_get_eq_none {name : Option String} (hget : config.get name = none) :
    openEnd driver config name =
      throw (sqlException ("No connection named:" ++ name.getD "null")) := by
  simp only [openEnd, openConnection, hget]

/-! ## The states between calls -/

theorem Cached.handBack {out : Outcome} (h : Cached config out.2) (driver : Driver)
    (db : Option String) : Cached config (handBack driver db out).2 := by
  rcases out with ⟨((_ | _ | _) | _) | _ | conn, t⟩
  · exact h
  · exact h
  · exact h
  · exact h
  · exact h
  · have hset := Cached.append h [⟨.setCatalog conn db, driver t.log (.setCatalog conn db)⟩]
    simp only [ConnectionLookup.handBack]
    rcases hr : driver t.log (.setCatalog conn db) with (_ | _ | _) | _ <;> rwa [hr] at hset

/-- However a call of `getConnection` ends, the caches stay right. -/
theorem cached_getConnection (driver : Driver) (hconfig : Sound config) (depth : ℕ)
    (name : Option String) (hs : Cached config s) :
    Cached config ((getConnection driver config depth name).exec s).2 := by
  induction depth generalizing name with
  | zero => exact hs
  | succ depth ih =>
    cases hmap : mappingOf config name with
    | some pro =>
      rw [exec_getConnection_mapping depth hmap]
      exact (ih _).handBack driver _
    | none =>
      rw [exec_getConnection_end depth hmap, caught_snd]
      cases hget : config.get name with
      | none =>
        rw [openEnd_of_get_eq_none hget]
        exact hs
      | some pro =>
        obtain ⟨calls, hopen⟩ := exists_opening driver hconfig hs hget hmap
        exact hopen.cached

theorem Reached.cached (hconfig : Sound config) (h : Reached driver config s) :
    Cached config s := by
  induction h with
  | start => exact ⟨nofun, nofun⟩
  | getConnection depth name _ ih => exact cached_getConnection driver hconfig depth name ih
  | call c _ ih => exact ih.append _

theorem sound_init (util : StringUtil) (document : Document) : Sound (init util document) where
  usable _ _ h := usable_of_get h
  named name pro h htype := by
    cases name with
    | none => cases h
    | some name =>
      rw [get_init_eq] at h
      obtain ⟨node, hlast, hpro⟩ := Option.bind_eq_some_iff.mp h
      have hname := List.find?_some hlast
      simp only [Bool.and_eq_true, decide_eq_true_eq] at hname
      rw [connType_properties hpro] at htype
      simp only [properties, htype] at hpro
      obtain rfl := Option.some.inj hpro
      exact congrArg some hname.1

/-! ## The way back -/

/-- The calls that set the catalogs. -/
def catalogCalls (conn : Connection) (dbs : List (Option String)) : List Event :=
  dbs.map fun db => ⟨.setCatalog conn db, .ok ()⟩

/-- If the catalogs can be set, the connection is handed back to the start of the chain. -/
theorem exists_calls_foldl (driver : Driver) (conn : Connection) (dbs : List (Option String))
    (t : Engine) :
    ∃ calls, (dbs.foldl (fun out db => handBack driver db out) (.ok (some conn), t)).2.log =
        t.log ++ calls ∧
      ((∀ event ∈ calls, event.succeeded) → calls = catalogCalls conn dbs ∧
        (dbs.foldl (fun out db => handBack driver db out) (.ok (some conn), t)).1 =
          .ok (some conn)) := by
  induction dbs generalizing t with
  | nil => exact ⟨[], (List.append_nil _).symm, fun _ => ⟨rfl, rfl⟩⟩
  | cons db dbs ih =>
    rw [List.foldl_cons]
    rcases hr : driver t.log (.setCatalog conn db) with e | ⟨⟩
    · obtain ⟨hnone, hlog⟩ := handBack_of_error hr
      rw [(foldl_of_opened_eq_nil driver hnone dbs).2, hlog]
      exact ⟨_, rfl, fun hok => absurd (List.forall_mem_singleton.mp hok) nofun⟩
    · rw [handBack_of_ok hr]
      obtain ⟨calls, hlog, hcalls⟩ := ih { t with log := t.log ++ [⟨.setCatalog conn db, .ok ()⟩] }
      refine ⟨_ :: calls, hlog.trans (List.append_assoc ..), fun hok => ?_⟩
      obtain ⟨hrest, hresult⟩ := hcalls (List.forall_mem_cons.mp hok).2
      exact ⟨congrArg _ hrest, hresult⟩

theorem exists_error_foldl (driver : Driver) (dbs : List (Option String)) (reason : String)
    (s : Engine) :
    ∃ reason', dbs.foldl (fun out db => handBack driver db out) (.error (sqlException reason), s) =
      (.error (sqlException reason'), s) := by
  induction dbs generalizing reason with
  | nil => exact ⟨reason, rfl⟩
  | cons db dbs ih => exact ih _

/-- If all calls succeed, the connection that is opened is handed back. -/
theorem Opening.exists_calls {l opening : List Event} {out : Outcome}
    (h : Opening config l pro opening out) (driver : Driver) (dbs : List (Option String)) :
    ∃ rest, (dbs.foldl (fun out db => handBack driver db out) (caught out)).2.log =
        l ++ opening ++ rest ∧
      ((∀ event ∈ opening ++ rest, event.succeeded) → ∃ conn,
        (dbs.foldl (fun out db => handBack driver db out) (caught out)).1 = .ok (some conn) ∧
          OpenedWith l pro conn opening ∧ rest = catalogCalls conn dbs) := by
  by_cases hconn : ∃ conn, out.1 = .ok (some conn)
  · obtain ⟨conn, hconn⟩ := hconn
    have hcaught : caught out = (.ok (some conn), out.2) := by
      rw [← hconn, ← Prod.mk.eta (p := out), hconn]
      rfl
    obtain ⟨rest, hlog, hrest⟩ := exists_calls_foldl driver conn dbs out.2
    rw [hcaught]
    refine ⟨rest, hlog.trans (congrArg (· ++ rest) h.log_eq), fun hok => ?_⟩
    obtain ⟨hopening, hrest'⟩ := List.forall_mem_append.mp hok
    obtain ⟨conn', hconn', hwith⟩ := h.opens hopening
    obtain ⟨⟩ := hconn.symm.trans hconn'
    exact ⟨conn, (hrest hrest').2, hwith, (hrest hrest').1⟩
  · have hnone : opened (caught out).1 = [] := by
      rw [opened_caught]
      rcases out with ⟨_ | _ | conn, t⟩
      · rfl
      · rfl
      · exact absurd ⟨conn, rfl⟩ hconn
    rw [(foldl_of_opened_eq_nil driver hnone dbs).2, caught_snd]
    refine ⟨[], h.log_eq.trans (List.append_nil _).symm, fun hok => ?_⟩
    obtain ⟨conn, hout, -⟩ := h.opens (List.forall_mem_append.mp hok).1
    exact absurd ⟨conn, hout⟩ hconn

/-! ## The chain -/

/-- There is room on the stack for the whole chain. -/
theorem walk_of_lt {n depth : ℕ} {name last : Option String}
    (hchain : walk (target config) n name = some last) (hlast : target config last = none)
    (hdepth : n < depth) : walk (target config) depth name = none := by
  refine walk_eq_none_of_le (Nat.succ_le_of_lt hdepth) ?_
  rw [Nat.succ_eq_add_one, walk_add, hchain, Option.bind_some, walk, hlast, Option.bind_none]

theorem follow_snd {n depth : ℕ} {name last : Option String}
    (hchain : walk (target config) n name = some last) (hlast : target config last = none)
    (hdepth : n < depth) : (follow config depth name).2 = last := by
  obtain ⟨depth, rfl⟩ := Nat.exists_eq_add_one_of_ne_zero (Nat.ne_zero_of_lt hdepth)
  induction n generalizing name depth with
  | zero =>
    obtain rfl := Option.some.inj hchain
    rw [follow, Option.map_eq_none_iff.mp hlast]
  | succ n ih =>
    obtain ⟨next, hnext, hchain⟩ := Option.bind_eq_some_iff.mp hchain
    obtain ⟨pro, hmap, rfl⟩ := Option.map_eq_some_iff.mp hnext
    obtain ⟨depth, rfl⟩ := Nat.exists_eq_add_one_of_ne_zero (show depth ≠ 0 by omega)
    rw [follow, hmap]
    exact ih hchain depth (by omega)

/-- The catalog of the name itself is set last. -/
theorem getLast?_follow {depth : ℕ} {name : Option String}
    (h : walk (target config) depth name = none) :
    (follow config depth name).1.getLast? =
      (mappingOf config name).map fun pro => pro.get "db" := by
  cases depth with
  | zero => cases h
  | succ depth =>
    rw [follow]
    cases mappingOf config name with
    | none => rfl
    | some pro => exact List.getLast?_concat

/-- The catalog is that of the name's own entry, if the catalogs along the chain are set on the
connection that was opened at its end. -/
theorem Catalogs.Lawful.current_eq {catalogs : Catalogs} (h : catalogs.Lawful)
    (hconfig : Sound config) {depth : ℕ} {name : Option String}
    (hwalk : walk (target config) depth name = none) {before : List Event} {event : Event}
    {conn : Connection} (hobtained : event.obtained = some conn) (log : List Event) :
    catalogs.current (log ++ (before ++ [event]) ++ catalogCalls conn (follow config depth name).1)
      conn = catalogs.wanted config name (before ++ [event]) := by
  have hlast := getLast?_follow hwalk
  rw [wanted]
  cases hmap : mappingOf config name with
  | none =>
    rw [hmap, Option.map_none, List.getLast?_eq_none_iff] at hlast
    rw [hlast, catalogCalls, List.map_nil, List.append_nil, ← List.append_assoc,
      h.handedOut _ _ _ hobtained, List.getLast?_concat, Option.bind_some]
  | some pro =>
    obtain ⟨hget, htype⟩ := Option.filter_eq_some_iff.mp hmap
    simp only [decide_eq_true_eq] at htype
    obtain ⟨db, hdb⟩ := (hconfig.usable name pro hget).exists_db htype
    rw [hmap, Option.map_some, hdb] at hlast
    obtain ⟨dbs, hdbs⟩ := List.getLast?_eq_some_iff.mp hlast
    dsimp only
    rw [hdbs, catalogCalls, List.map_append, ← List.append_assoc, hdb]
    exact h.set _ conn db

theorem OpenedWith.exists_obtained {l calls : List Event} {conn : Connection}
    (h : OpenedWith l pro conn calls) :
    ∃ before event, calls = before ++ [event] ∧ event.obtained = some conn := by
  unfold OpenedWith at h
  split at h
  · obtain ⟨ds, rfl | ⟨-, rfl⟩⟩ := h
    · exact ⟨[_], _, rfl, rfl⟩
    · exact ⟨[], _, rfl, rfl⟩
  · exact ⟨[], _, h, rfl⟩
  · obtain ⟨info, -, rfl⟩ := h
    exact ⟨[], _, rfl, rfl⟩
  · exact h.elim
  · exact h.elim

/-! ## The results -/

/-- A call of `getConnection` whose calls all succeed opens a connection with the settings at the
end of the chain, and its catalog is then that of the entry of the name. A call for a chain that
ends with a name without an entry throws. -/
theorem getConnection_resolves (util : StringUtil) (document : Document) {catalogs : Catalogs}
    (hcatalogs : catalogs.Lawful) (hs : Reached driver (init util document) s) {n depth : ℕ}
    {name last : Option String}
    (hchain : walk (target (init util document)) n name = some last)
    (hlast : target (init util document) last = none) (hdepth : n < depth) :
    (∀ pro, (init util document).get last = some pro →
      (∀ event ∈ ((getConnection driver (init util document) depth name).exec s).2.log.drop
        s.log.length, event.succeeded) →
      ∃ conn opening dbs,
        ((getConnection driver (init util document) depth name).exec s).1 = .ok (some conn) ∧
        ((getConnection driver (init util document) depth name).exec s).2.log =
          s.log ++ opening ++ catalogCalls conn dbs ∧
        OpenedWith s.log pro conn opening ∧
        catalogs.current ((getConnection driver (init util document) depth name).exec s).2.log conn =
          catalogs.wanted (init util document) name opening) ∧
      ((init util document).get last = none →
        ∃ reason, ((getConnection driver (init util document) depth name).exec s).1 =
          .error (sqlException reason)) := by
  have hconfig := sound_init util document
  have hwalk := walk_of_lt hchain hlast hdepth
  have hend := mappingOf_follow hwalk
  rw [exec_getConnection hwalk]
  rw [follow_snd hchain hlast hdepth] at hend ⊢
  refine ⟨fun pro hget hok => ?_, fun hget => ?_⟩
  · obtain ⟨opening, hopen⟩ := exists_opening driver hconfig (hs.cached hconfig) hget hend
    obtain ⟨rest, hlog, hrest⟩ :=
      hopen.exists_calls driver (follow (init util document) depth name).1
    rw [hlog, List.append_assoc, List.drop_left] at hok
    obtain ⟨conn, hresult, hwith, rfl⟩ := hrest hok
    obtain ⟨before, event, rfl, hobtained⟩ := hwith.exists_obtained
    refine ⟨conn, _, _, hresult, hlog, hwith, ?_⟩
    rw [hlog, hcatalogs.current_eq hconfig hwalk hobtained]
  · rw [openEnd_of_get_eq_none hget]
    obtain ⟨reason, hreason⟩ := exists_error_foldl driver (follow (init util document) depth name).1
      ("No connection named:" ++ last.getD "null") s
    exact ⟨reason, congrArg Prod.fst hreason⟩

section

/-- `conn_mobile` is mapped to `db_wrp`, and `conn_sms` to a name without an element. -/
def mobileDocument : Document :=
  [⟨"conn_mobile", [("type", "mapping"), ("map", "db_wrp"), ("db", "mobile")]⟩,
    ⟨"db_wrp", [("type", "DirectConnect"), ("dburl", "jdbc:mysql://localhost")]⟩,
    ⟨"conn_sms", [("type", "mapping"), ("map", "db_sms")]⟩]

/-- The catalog of `conn` after another call, if a connection is opened without one. -/
def Event.catalog (conn : Connection) (current : Option String) (event : Event) : Option String :=
  if event.obtained = some conn then none
  else
    match event with
    | ⟨.setCatalog conn' (some db), .ok _⟩ => if conn' = conn then some db else current
    | _ => current

/-- The catalog that was set on a connection since it was handed out. -/
def mobileCatalogs : Catalogs where
  current log conn := log.foldl (Event.catalog conn) none
  own _ := none

theorem mobileCatalogs_lawful : mobileCatalogs.Lawful where
  handedOut log event conn h := List.foldl_append.trans (if_pos h)
  set log conn db := by
    refine List.foldl_append.trans ?_
    simp [Event.catalog, Event.obtained]

theorem mobile_resolves :
    (∃ conn opening dbs,
      ((getConnection (oneConnection (.ok ())) (init jutil mobileDocument) 2
        (some "conn_mobile")).exec emptyEngine).1 = .ok (some conn) ∧
      ((getConnection (oneConnection (.ok ())) (init jutil mobileDocument) 2
        (some "conn_mobile")).exec emptyEngine).2.log =
          [] ++ opening ++ catalogCalls conn dbs ∧
      OpenedWith []
        [("name", "db_wrp"), ("type", "DirectConnect"), ("url", "jdbc:mysql://localhost")]
        conn opening ∧
      mobileCatalogs.current ((getConnection (oneConnection (.ok ())) (init jutil mobileDocument) 2
        (some "conn_mobile")).exec emptyEngine).2.log conn = some "mobile") ∧
      ∃ reason, ((getConnection (oneConnection (.ok ())) (init jutil mobileDocument) 2
        (some "conn_sms")).exec emptyEngine).1 = .error (sqlException reason) :=
  ⟨(getConnection_resolves jutil mobileDocument mobileCatalogs_lawful .start
      (show walk _ 1 _ = some (some "db_wrp") by decide) (by decide) (by decide)).1 _
      (by decide) (by decide),
    (getConnection_resolves jutil mobileDocument mobileCatalogs_lawful .start
      (show walk _ 1 _ = some (some "db_sms") by decide) (by decide) (by decide)).2 (by decide)⟩

end

end ConnectionLookup

end MySocket
