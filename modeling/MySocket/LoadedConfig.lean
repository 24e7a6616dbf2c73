import MySocket.DbConfig

/-!
# The entries that are loaded

The method that opens a connection takes it for granted that the entry has the keys it reads.
They are put there by `DBEngine.init`, which passes over the elements it can make no entry of.

* `init_usable` : every entry has one of the types and a value for each key that is read, it is
  that of the last acceptable element of its name, and the other elements change nothing.
-/

namespace MySocket

namespace ConnectionLookup

/-! ## The keys that are read -/

/-- The keys that the method of a type reads. -/
def ConnType.keys : ConnType → List String
  | dataSource => ["data-source-name"]
  | directConnect => ["url"]
  | proxool => ["url", "name", "maximum-connection-count", "maximum-connection-lifetime",
      "minimum-connection-count"]
  | mapping => ["map", "db"]

variable {driver : Driver} {pro pro' : Properties}

theorem proxoolConfig_congr (h : ∀ key ∈ ConnType.proxool.keys, pro'.get key = pro.get key) :
    proxoolConfig pro' = proxoolConfig pro := by
  simp only [ConnType.keys, List.forall_mem_cons] at h
  obtain ⟨-, hname, hcount, hlifetime, hminimum, -⟩ := h
  simp only [proxoolConfig, proxoolInfo, hname, hcount, hlifetime, hminimum]

/-- Besides the type, a connection depends on no other keys of the entry. -/
theorem openConnection_congr {config config' : Config} {name : Option String} {type : ConnType}
    (g : Option String → LProg (Option Connection)) (hget : config.get name = some pro)
    (hget' : config'.get name = some pro') (htype : connType (pro.get "type") = some type)
    (htype' : connType (pro'.get "type") = some type)
    (hkeys : ∀ key ∈ type.keys, pro'.get key = pro.get key) :
    openConnection driver config' g name = openConnection driver config g name := by
  simp only [openConnection, hget, hget', htype, htype']
  cases type with
  | dataSource =>
    have hname := hkeys "data-source-name" List.mem_cons_self
    rw [getConnectionByDataSource, hname, getConnectionByDataSource]
  | directConnect =>
    have hurl := hkeys "url" List.mem_cons_self
    rw [directGetConnect, hurl, directGetConnect]
  | proxool =>
    have hurl := hkeys "url" List.mem_cons_self
    rw [getConnectionByProxool, proxoolConfig_congr hkeys, hurl, getConnectionByProxool]
  | mapping =>
    have hmap := hkeys "map" List.mem_cons_self
    have hdb := hkeys "db" (List.mem_cons_of_mem _ List.mem_cons_self)
    rw [getConnectionByMapping, hmap, hdb, getConnectionByMapping]

/-- The entry is of a known type, and has a value for each key that is read. -/
def Usable (pro : Properties) : Prop :=
  ∃ type, connType (pro.get "type") = some type ∧ ∀ key ∈ type.keys, (pro.get key).isSome

/-- The properties that a pool is set up with are the values of its entry. -/
def PoolSettings (pro info : Properties) : Prop :=
  ∃ count lifetime minimum,
    pro.get "maximum-connection-count" = some count ∧
    pro.get "maximum-connection-lifetime" = some lifetime ∧
    pro.get "minimum-connection-count" = some minimum ∧
    info = [("proxool.maximum-connection-count", count),
      ("proxool.maximum-connection-lifetime", lifetime),
      ("proxool.minimum-connection-count", minimum),
      ("proxool.house-keeping-test-sql", "select CURRENT_DATE")]

theorem PoolSettings.proxoolInfo_eq {info : Properties} (h : PoolSettings pro info) :
    proxoolInfo pro = pure info := by
  obtain ⟨count, lifetime, minimum, hcount, hlifetime, hminimum, rfl⟩ := h
  simp only [proxoolInfo, hcount, hlifetime, hminimum, deref, pure_bind]

/-- A pool can be set up from its entry. -/
theorem Usable.exists_poolSettings (h : Usable pro)
    (htype : connType (pro.get "type") = some .proxool) : ∃ info, PoolSettings pro info := by
  obtain ⟨type, htype', hkeys⟩ := h
  obtain rfl := Option.some.inj (htype.symm.trans htype')
  simp only [ConnType.keys, List.forall_mem_cons, Option.isSome_iff_exists] at hkeys
  obtain ⟨-, -, ⟨count, hcount⟩, ⟨lifetime, hlifetime⟩, ⟨minimum, hminimum⟩, -⟩ := hkeys
  exact ⟨_, count, lifetime, minimum, hcount, hlifetime, hminimum, rfl⟩

theorem Usable.exists_db (h : Usable pro) (htype : connType (pro.get "type") = some .mapping) :
    ∃ db, pro.get "db" = some db := by
  obtain ⟨type, htype', hkeys⟩ := h
  obtain rfl := Option.some.inj (htype.symm.trans htype')
  exact Option.isSome_iff_exists.mp (hkeys "db" (List.mem_cons_of_mem _ List.mem_cons_self))

/-! ## The elements that are loaded -/

/-- An element of which an entry can be made. -/
def acceptable (node : ConnectionElement) : Bool :=
  match connType (getChildAttr node "type") with
  | some .dataSource => ((getChildAttr node "data-source-name").getD "") ≠ ""
  | some _ => true
  | none => false

variable {util : StringUtil} {node : ConnectionElement} {document : Document}

theorem isSome_properties (util : StringUtil) (node : ConnectionElement) :
    (properties util node).isSome = acceptable node := by
  rw [properties, acceptable]
  cases connType (getChildAttr node "type") with
  | none => rfl
  | some type =>
    cases type with
    | dataSource =>
      dsimp only
      split
      · next h => rw [h]; rfl
      · next h => rw [h]; rfl
      · next name hname h => simpa [h] using fun heq => hname heq
    | directConnect | proxool | mapping => rfl

/-- `init` puts a value for every key that is read. -/
theorem usable_of_properties (h : properties util node = some pro) : Usable pro := by
  refine (Option.isSome_iff_exists.mp ?_).imp fun type htype => ⟨htype, ?_⟩
  · rw [connType_properties h]
    cases htype : connType (getChildAttr node "type") with
    | none => simp [properties, htype] at h
    | some type => rfl
  · rw [connType_properties h] at htype
    simp only [properties, htype] at h
    cases type with
    | dataSource =>
      dsimp only at h
      split at h
      · cases h
      · cases h
      · obtain rfl := Option.some.inj h
        exact List.forall_mem_singleton.mpr rfl
    | directConnect =>
      obtain rfl := Option.some.inj h
      exact List.forall_mem_singleton.mpr rfl
    | proxool =>
      obtain rfl := Option.some.inj h
      simp only [ConnType.keys, List.forall_mem_cons]
      exact ⟨rfl, rfl, rfl, rfl, rfl, List.forall_mem_nil _⟩
    | mapping =>
      obtain rfl := Option.some.inj h
      simp only [ConnType.keys, List.forall_mem_cons]
      exact ⟨rfl, rfl, List.forall_mem_nil _⟩

/-- The entry has the type and the values of the element, or their defaults. -/
def Describes (util : StringUtil) (node : ConnectionElement) (pro : Properties) : Prop :=
  connType (pro.get "type") = connType (getChildAttr node "type") ∧
    match connType (getChildAttr node "type") with
    | some .dataSource =>
      pro.get "data-source-name" = (getChildAttr node "data-source-name").map trim
    | some .directConnect =>
      pro.get "url" = some (trim ((getChildAttr node "dburl").getD (serverUrl util node)))
    | some .proxool =>
      pro.get "name" = some node.name ∧
        pro.get "url" = some (trim ("proxool." ++ node.name ++ ":org.gjt.mm.mysql.Driver:" ++
          serverUrl util node)) ∧
        ∀ key default, (key, default) ∈ [("maximum-connection-count", 300),
            ("maximum-connection-lifetime", 3600), ("minimum-connection-count", 100)] →
          pro.get key = some (toString (util.convertInt (getChildAttr node key) default))
    | some .mapping =>
      pro.get "map" = some (util.convertString (getChildAttr node "map") "localhost") ∧
        pro.get "db" = some (util.convertString (getChildAttr node "db") "test")
    | none => False

theorem describes_of_properties (h : properties util node = some pro) :
    Describes util node pro := by
  refine ⟨connType_properties h, ?_⟩
  unfold properties at h
  cases htype : connType (getChildAttr node "type") with
  | none => simp [htype] at h
  | some type =>
    cases type with
    | dataSource =>
      simp only [htype] at h
      split at h
      · cases h
      · cases h
      · next hname =>
        obtain rfl := Option.some.inj h
        rw [hname]
        rfl
    | directConnect =>
      simp only [htype] at h
      obtain rfl := Option.some.inj h
      rfl
    | proxool =>
      simp only [htype] at h
      obtain rfl := Option.some.inj h
      refine ⟨rfl, rfl, fun key default hmem => ?_⟩
      simp only [List.mem_cons, Prod.mk.injEq, List.not_mem_nil, or_false] at hmem
      rcases hmem with ⟨rfl, rfl⟩ | ⟨rfl, rfl⟩ | ⟨rfl, rfl⟩ <;> rfl
    | mapping =>
      simp only [htype] at h
      obtain rfl := Option.some.inj h
      exact ⟨rfl, rfl⟩

theorem lastElement_eq (util : StringUtil) (document : Document) (name : String) :
    lastElement util document name =
      document.reverse.find? fun node => node.name = name && acceptable node := by
  simp only [lastElement, isSome_properties]

theorem usable_of_get {name : Option String} (h : (init util document).get name = some pro) :
    Usable pro := by
  cases name with
  | none => cases h
  | some name =>
    rw [get_init_eq] at h
    obtain ⟨node, -, hpro⟩ := Option.bind_eq_some_iff.mp h
    exact usable_of_properties hpro

theorem init_of_not_acceptable (before after : Document) (h : acceptable node = false) :
    init util (before ++ node :: after) = init util (before ++ after) := by
  have hnone : properties util node = none := by
    rw [← Option.not_isSome_iff_eq_none, isSome_properties, h]
    nofun
  simp only [init, List.foldl_append, List.foldl_cons, hnone]

end ConnectionLookup

end MySocket
