import MySocket.ConnectionLookup

/-!
# The configuration of the connections

`DBEngine.init` reads `dbconfig.xml` and puts an entry into `DB_CONFIG_MAP` for each element
`connection` of a known type. What a `mapping` element names is taken as it stands : the
name of another element, of none, or its own.

* `terminates_iff` : a lookup in the configuration of a document comes to an end exactly if
  the names it is mapped to do not repeat.

The results do not depend on what `StringUtil` does with a text, and have it as a parameter;
`jutil` is the class that the repository comes with.
-/

namespace MySocket

namespace ConnectionLookup

/-- Two functions of a text, which may be null, and a default. -/
structure StringUtil where
  convertString : Option String → String → String
  convertInt : Option String → ℤ → ℤ

/-- The zeros of the decimal digits of Unicode. -/
def digitZeros : List ℕ :=
  [0x30, 0x660, 0x6F0, 0x7C0, 0x966, 0x9E6, 0xA66, 0xAE6, 0xB66, 0xBE6, 0xC66, 0xCE6, 0xD66,
    0xE50, 0xED0, 0xF20, 0x1040, 0x1090, 0x17E0, 0x1810, 0x1946, 0x19D0, 0x1A80, 0x1A90, 0x1B50,
    0x1BB0, 0x1C40, 0x1C50, 0xA620, 0xA8D0, 0xA900, 0xA9D0, 0xAA50, 0xABF0, 0xFF10]

/-- `Character.digit(c, 10)`. The digits outside the basic plane are two characters for Java, and
none of the two is a digit. -/
def digit (c : Char) : Option ℕ :=
  (digitZeros.find? fun first => first ≤ c.toNat && c.toNat < first + 10).map fun first =>
    c.toNat - first

/-- `Integer.parseInt`, `none` if it throws. -/
def parseInt (text : String) : Option ℤ :=
  let (negative, digits) : Bool × List Char :=
    match text.toList with
    | '-' :: digits => (true, digits)
    | '+' :: digits => (false, digits)
    | digits => (false, digits)
  if digits = [] then none
  else
    (digits.foldlM (fun n c => (digit c).map fun d => 10 * n + d) 0).bind fun n : ℕ =>
      let value : ℤ := if negative then -n else n
      if -2 ^ 31 ≤ value ∧ value < 2 ^ 31 then some value else none

/-- `com.qq.jutil.string.StringUtil` -/
def jutil : StringUtil where
  convertString text default := text.getD default
  convertInt text default := (text.bind parseInt).getD default

example : ["3307", "+7", "-12", "", "-", " 7", "0x7", "٣", "2147483648"].map (fun text =>
    jutil.convertInt (some text) 3306) = [3307, 7, -12, 3306, 3306, 3306, 3306, 3, 3306] := by
  decide +kernel

/-- An element `connection` of the document. -/
structure ConnectionElement where
  /-- The attribute `name`, empty if it is missing. -/
  name : String
  /-- The tags of the elements below it in their order, with the attribute `value`. -/
  descendants : List (String × String)

/-- The elements `connection` in the order of the document. -/
abbrev Document :=
  List ConnectionElement

def getChildAttr (node : ConnectionElement) (attrName : String) : Option String :=
  node.descendants.lookup attrName

/-- `String.trim` -/
def trim (text : String) : String :=
  let blank (c : Char) : Bool := c ≤ ' '
  String.ofList ((text.toList.dropWhile blank).reverse.dropWhile blank).reverse

variable (util : StringUtil)

/-- The parameters of a connection to a server, from `host` on. -/
def serverUrl (node : ConnectionElement) : String :=
  let host := util.convertString (getChildAttr node "host") "localhost"
  let port := util.convertInt (getChildAttr node "port") 3306
  let db := util.convertString (getChildAttr node "db") "test"
  let user := util.convertString (getChildAttr node "user") "root"
  let password := util.convertString (getChildAttr node "password") ""
  let characterEncoding := util.convertString (getChildAttr node "characterEncoding") "GBK"
  "jdbc:mysql://" ++ host ++ ":" ++ toString port ++ "/" ++ db ++ "?user=" ++ user ++ "&password="
    ++ password ++ "&useUnicode=true&characterEncoding=" ++ characterEncoding

/-- The properties of an element, `none` if it is passed over. -/
def properties (node : ConnectionElement) : Option Properties :=
  let name := node.name
  match connType (getChildAttr node "type") with
  | some .dataSource =>
    match getChildAttr node "data-source-name" with
    | none | some "" => none
    | some dataSourceName => some
      [("name", name), ("type", ConnType.dataSource.text), ("data-source-name", trim dataSourceName)]
  | some .directConnect =>
    let dburl := (getChildAttr node "dburl").getD (serverUrl util node)
    some [("name", name), ("type", ConnType.directConnect.text), ("url", trim dburl)]
  | some .proxool =>
    let dburl := "proxool." ++ name ++ ":org.gjt.mm.mysql.Driver:" ++ serverUrl util node
    let number attrName default := toString (util.convertInt (getChildAttr node attrName) default)
    some [("name", name), ("type", ConnType.proxool.text), ("url", trim dburl),
      ("maximum-connection-count", number "maximum-connection-count" 300),
      ("maximum-connection-lifetime", number "maximum-connection-lifetime" 3600),
      ("minimum-connection-count", number "minimum-connection-count" 100)]
  | some .mapping =>
    let db := util.convertString (getChildAttr node "db") "test"
    let map := util.convertString (getChildAttr node "map") "localhost"
    some [("type", ConnType.mapping.text), ("map", map), ("db", db)]
  | none => none

/-- `init`, up to the classes of the drivers. -/
def init (document : Document) : Config :=
  document.foldl (fun config node =>
    match properties util node with
    | some pro => config.put node.name pro
    | none => config) []

/-- The entry of a name is that of its last element that is not passed over. -/
theorem get_init (document : Document) (name : String) :
    (init util document).get (some name) =
      document.reverse.findSome? fun node =>
        if node.name = name then properties util node else none := by
  induction document using List.reverseRecOn with
  | nil => rfl
  | append_singleton document node ih =>
    rw [init, List.foldl_append, List.foldl_cons, List.foldl_nil, ← init, List.reverse_concat,
      List.findSome?_cons, ← ih]
    cases hpro : properties util node with
    | none => simp
    | some pro =>
      by_cases hname : node.name = name
      · simp [Config.get, Config.put, hname]
      · simp [Config.get, Config.put, hname, List.lookup_cons, beq_eq_false_iff_ne.mpr (Ne.symm hname)]

/-- The last element of a name that is not passed over. -/
def lastElement (document : Document) (name : String) : Option ConnectionElement :=
  document.reverse.find? fun node => node.name = name && (properties util node).isSome

/-- The name that a name is mapped to. -/
def mapsTo (document : Document) (name : String) : Option String :=
  ((lastElement util document name).filter fun node =>
    connType (getChildAttr node "type") = some .mapping).map fun node =>
      util.convertString (getChildAttr node "map") "localhost"

variable {util}

theorem connType_text (type : ConnType) : connType (some type.text) = some type := by
  cases type <;> decide

/-- The type of an entry is that of its element. -/
theorem connType_properties {node : ConnectionElement} {pro : Properties}
    (h : properties util node = some pro) :
    connType (pro.get "type") = connType (getChildAttr node "type") := by
  unfold properties at h
  cases htype : connType (getChildAttr node "type") with
  | none => simp [htype] at h
  | some type =>
    cases type with
    | dataSource =>
      simp only [htype] at h
      split at h
      · cases h
      · cases h
      · obtain rfl := Option.some.inj h
        exact connType_text .dataSource
    | directConnect =>
      simp only [htype] at h
      obtain rfl := Option.some.inj h
      exact connType_text .directConnect
    | proxool =>
      simp only [htype] at h
      obtain rfl := Option.some.inj h
      exact connType_text .proxool
    | mapping =>
      simp only [htype] at h
      obtain rfl := Option.some.inj h
      exact connType_text .mapping

theorem get_map_properties {node : ConnectionElement} {pro : Properties}
    (h : properties util node = some pro)
    (htype : connType (getChildAttr node "type") = some .mapping) :
    pro.get "map" = some (util.convertString (getChildAttr node "map") "localhost") := by
  simp only [properties, htype] at h
  obtain rfl := Option.some.inj h
  rfl

theorem get_init_eq (document : Document) (name : String) :
    (init util document).get (some name) =
      (lastElement util document name).bind (properties util) := by
  rw [get_init, lastElement]
  induction document.reverse with
  | nil => rfl
  | cons node nodes ih =>
    rw [List.findSome?_cons, List.find?_cons, ih]
    by_cases hname : node.name = name
    · cases hpro : properties util node with
      | none => simp [hname]
      | some pro => simp [hname, hpro]
    · simp [hname]

/-- In the configuration of a document, an entry refers to the name its element maps it to. -/
theorem target_init (document : Document) (name : String) :
    target (init util document) (some name) = (mapsTo util document name).map some := by
  rw [target, mappingOf, mapsTo, get_init_eq]
  cases hlast : lastElement util document name with
  | none => rfl
  | some node =>
    have hfound := List.find?_some hlast
    simp only [Bool.and_eq_true] at hfound
    obtain ⟨pro, hpro⟩ := Option.isSome_iff_exists.mp hfound.2
    rw [Option.bind_some, hpro, Option.filter_some, Option.filter_some, connType_properties hpro]
    by_cases htype : connType (getChildAttr node "type") = some .mapping
    · simp [htype, get_map_properties hpro htype]
    · simp [htype]

/-- A lookup comes to an end exactly if no name occurs twice among the names it is mapped to. -/
theorem terminates_iff (util : StringUtil) (document : Document) (driver : Driver)
    (name : Option String) (s : Engine) :
    Terminates driver (init util document) name s ↔
      ∀ n, name = some n → NoRepeat (mapsTo util document) n := by
  rw [terminates_iff_noRepeat]
  cases name with
  | none =>
    refine iff_of_true ?_ nofun
    rw [← halts_iff_noRepeat fun _ _ h => mem_of_target h]
    exact ⟨1, rfl⟩
  | some name =>
    rw [noRepeat_map (Option.some_injective _) (target_init document)]
    exact ⟨fun h n hn => Option.some.inj hn ▸ h, fun h => h name rfl⟩

/-- `conn_mobile` is mapped to itself, and the calls fill every stack. -/
theorem self_mapping :
    (∀ (driver : Driver) (s : Engine) (depth : ℕ),
      (getConnection driver
          (init jutil [⟨"conn_mobile", [("type", "mapping"), ("map", "conn_mobile")]⟩]) depth
          (some "conn_mobile")).exec s = (.error .stackOverflowError, s)) ∧
      ∀ (driver : Driver) (s : Engine), ¬Terminates driver
        (init jutil [⟨"conn_mobile", [("type", "mapping"), ("map", "conn_mobile")]⟩])
        (some "conn_mobile") s := by
  have hhalts : ¬Halts (target
      (init jutil [⟨"conn_mobile", [("type", "mapping"), ("map", "conn_mobile")]⟩]))
      (some "conn_mobile") := fun ⟨n, hn⟩ =>
    walk_ne_none Nat.zero_lt_one (b := some "conn_mobile") rfl (by decide) n hn
  exact ⟨fun driver s depth => getConnection_overflow hhalts depth s, fun driver s h =>
    hhalts ((terminates_iff_halts _ _ _ s).mp h)⟩

end ConnectionLookup

end MySocket
