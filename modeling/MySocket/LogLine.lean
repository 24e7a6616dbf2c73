import Mathlib.Data.List.Chain
import MySocket.JsText

/-!
# Lines of the log

`log.js` reports a record as a line of its fields, `key=value`, with `*_*` between them. Of the
values it escapes the sign `#`, which would end the address the line is part of, as `%23`.

* `determines_iff` : the line of a record determines its fields exactly if no value has `#` or
  `%23`, or `*_*`, the name of its own field or of the next and `=`.
-/

namespace MySocket

namespace Js

/-! ## The code -/

/-- `escapeSymbol` -/
def escapeSymbol (source : JsString) : JsString :=
  source.flatMap fun c => if c = unit '#' then text "%23" else [c]

/-- `protocolSplit` -/
def protocolSplit : JsString :=
  text "*_*"

/-- A configuration of the log. -/
structure LogConfig where
  rprotocol : JsString
  firstname : JsString
  secondname : JsString
  protocol : List JsString

def ottpv : LogConfig where
  rprotocol := text "1"
  firstname := text "ott"
  secondname := text "ottpv"
  protocol := [text "rprotocol", text "clientFlag", text "fck", text "mac", text "userid",
    text "fpc", text "version", text "sid", text "pvid", text "config", text "url",
    text "referurl", text "channelid", text "vtime", text "ext", text "step", text "sestep",
    text "seidcount", text "ta", text "prop_brand", text "prop_fingerprint",
    text "prop_manufacturer", text "prop_model", text "prop_version_release",
    text "prop_version_sdk", text "prop_device_id"]

/-- `protocolJoin`, for data with `none` for `undefined`. -/
def protocolJoin (protocol : List JsString) (data : JsString → Option JsString) :
    List JsString :=
  protocol.map fun key =>
    key ++ text "=" ++
      match data key with
      | none => []
      | some val => escapeSymbol val

/-- The address that `getRequest` reports to. -/
def getRequest (config : LogConfig) (data : JsString → Option JsString) : JsString :=
  text "http://stat.funshion.net/" ++
    (if config.firstname = [] then text "ott" else config.firstname) ++ text "/" ++
    (if config.secondname = [] then text "ottpv" else config.secondname) ++ text "?" ++
    join protocolSplit (protocolJoin config.protocol
      (Function.update data (text "rprotocol") (some config.rprotocol)))

/-! ## The property -/

/-- A record of strings. -/
abbrev LogRecord := JsString → JsString

/-- The line of a record. -/
def reportLine (protocol : List JsString) (d : LogRecord) : JsString :=
  join protocolSplit (protocolJoin protocol fun key => some (d key))

/-- A record with the same line is the same on the fields of the protocol. -/
def Determines (protocol : List JsString) (d : LogRecord) : Prop :=
  ∀ d', reportLine protocol d' = reportLine protocol d → ∀ key ∈ protocol, d' key = d key

/-- What stands before the value of a field. -/
def separator (key : JsString) : JsString :=
  protocolSplit ++ (key ++ text "=")

/-- No value has the escaped sign or what it is escaped as, or what separates its field from the
one before or after it. -/
structure Unmistakable (protocol : List JsString) (d : LogRecord) : Prop where
  escape : ∀ key ∈ protocol, unit '#' ∉ d key ∧ ¬text "%23" <:+: d key
  separated : protocol.IsChain fun key next =>
    ¬separator next <:+: d key ∧ ¬separator next <:+: d next

/-! ## The escape -/

section

variable {s t u v : JsString}

theorem escapeSymbol_append (s t : JsString) :
    escapeSymbol (s ++ t) = escapeSymbol s ++ escapeSymbol t :=
  List.flatMap_append

theorem escapeSymbol_of_notMem (h : unit '#' ∉ s) : escapeSymbol s = s := by
  have hsingle : escapeSymbol s = s.flatMap fun c => [c] :=
    List.flatMap_congr fun c hc => if_neg fun hhash : c = unit '#' => h (hhash ▸ hc)
  rw [hsingle, List.flatMap_singleton']

theorem escapeSymbol_hash (u v : JsString) :
    escapeSymbol (u ++ unit '#' :: v) = escapeSymbol u ++ (text "%23" ++ escapeSymbol v) := by
  rw [escapeSymbol_append]
  rfl

theorem escapeSymbol_escaped (u v : JsString) :
    escapeSymbol (u ++ (text "%23" ++ v)) = escapeSymbol u ++ (text "%23" ++ escapeSymbol v) := by
  have hescaped : escapeSymbol (text "%23") = text "%23" := by decide +kernel
  rw [escapeSymbol_append, escapeSymbol_append, hescaped]

/-- A text that is escaped as one without `%23` is that one. -/
theorem eq_of_escapeSymbol_eq (h : ¬text "%23" <:+: s) (heq : escapeSymbol t = s) : t = s := by
  by_cases ht : unit '#' ∈ t
  · obtain ⟨u, v, rfl⟩ := List.append_of_mem ht
    rw [escapeSymbol_hash] at heq
    exact absurd ⟨escapeSymbol u, escapeSymbol v, by rw [List.append_assoc, heq]⟩ h
  · rwa [escapeSymbol_of_notMem ht] at heq

end

/-! ## Separators -/

section

variable {key next k : JsString} {s t u v x y r : JsString} {keys : List JsString}
  {f g : JsString → JsString}

/-- A name of a field is not mistaken for a part of a separator. -/
structure FieldName (key : JsString) : Prop where
  star : unit '*' ∉ key
  equals : unit '=' ∉ key
  underscore : key.head? ≠ some (unit '_')

theorem separator_append (key s : JsString) : separator key ++ s =
    unit '*' :: unit '_' :: unit '*' :: (key ++ unit '=' :: s) := by
  have hsplit : protocolSplit = [unit '*', unit '_', unit '*'] := by decide +kernel
  have hequals : text "=" = [unit '='] := by decide +kernel
  rw [separator, hsplit, hequals]
  simp only [List.cons_append, List.nil_append, List.append_assoc]

/-- A star behind a text without one is behind all of it. -/
theorem exists_of_append_star (hs : unit '*' ∉ s) (h : s ++ r = t ++ unit '*' :: y) :
    ∃ x, t = s ++ x ∧ r = x ++ unit '*' :: y := by
  rcases List.append_eq_append_iff.mp h with ⟨x, ht, hr⟩ | ⟨x, hst, hy⟩
  · exact ⟨x, ht, hr⟩
  · cases x with
    | nil => exact ⟨[], by simpa using hst.symm, by simpa using hy.symm⟩
    | cons c x =>
      obtain ⟨rfl, -⟩ := List.cons.inj hy
      exact absurd (hst ▸ List.mem_append_right _ List.mem_cons_self) hs

/-- Two separators are the same, or one is behind the other. -/
theorem separator_align (hkey : FieldName key) (hnext : FieldName next)
    (h : separator next ++ r = t ++ (separator key ++ y)) :
    (t = [] ∧ key = next ∧ r = y) ∨
      ∃ x, t = separator next ++ x ∧ r = x ++ (separator key ++ y) := by
  rw [separator_append, separator_append] at h
  match t with
  | [] =>
    have htail := List.cons.inj (List.cons.inj (List.cons.inj h).2).2
    obtain ⟨hnames, hry⟩ := append_cons_inj hnext.equals hkey.equals htail.2
    exact .inl ⟨rfl, hnames.symm, hry⟩
  | [a] =>
    have hsecond := (List.cons.inj (List.cons.inj h).2).1
    exact absurd hsecond (by decide)
  | [a, b] =>
    -- the name would begin with the underscore of the other separator
    have htail := (List.cons.inj (List.cons.inj (List.cons.inj h).2).2).2
    cases next with
    | nil => exact absurd (List.cons.inj htail).1 (by decide)
    | cons c next =>
      have hc := (List.cons.inj htail).1
      exact absurd (by rw [List.head?_cons, hc]) hnext.underscore
  | a :: b :: c :: t =>
    obtain ⟨ha, h₁⟩ := List.cons.inj h
    obtain ⟨hb, h₂⟩ := List.cons.inj h₁
    obtain ⟨hc, h₃⟩ := List.cons.inj h₂
    have hstar : unit '*' ∉ next ++ [unit '='] := by
      rw [List.mem_append, List.mem_singleton, not_or]
      exact ⟨hnext.star, by decide⟩
    rw [List.append_cons] at h₃
    obtain ⟨x, rfl, hr⟩ := exists_of_append_star hstar h₃
    refine .inr ⟨x, ?_, ?_⟩
    · rw [separator_append, ← List.append_cons, ← ha, ← hb, ← hc]
    · rw [separator_append, hr]

/-- Where a separator can be in a text before and after another one. -/
theorem separator_locate (hkey : FieldName key) (hnext : FieldName next)
    (h : v ++ (separator next ++ r) = x ++ (separator key ++ y)) :
    separator key <:+: v ∨ (v = x ∧ key = next ∧ r = y) ∨
      ∃ z, r = z ++ (separator key ++ y) := by
  rcases List.append_eq_append_iff.mp h with ⟨t, hx, ht⟩ | ⟨t, hv, ht⟩
  · rcases separator_align hkey hnext ht with ⟨rfl, hnames, hr⟩ | ⟨z, -, hr⟩
    · exact .inr (.inl ⟨by rw [hx, List.append_nil], hnames, hr⟩)
    · exact .inr (.inr ⟨z, hr⟩)
  · rcases separator_align hnext hkey ht with ⟨rfl, hnames, hr⟩ | ⟨z, rfl, -⟩
    · exact .inr (.inl ⟨by rw [hv, List.append_nil], hnames.symm, hr.symm⟩)
    · exact .inl ⟨x, z, by rw [hv, List.append_assoc]⟩

/-! ## The fields of a line -/

/-- The fields with their separators. -/
def fieldsText (f : JsString → JsString) : List JsString → JsString
  | [] => []
  | key :: keys => separator key ++ (f key ++ fieldsText f keys)

theorem fieldsText_append (f : JsString → JsString) (before after : List JsString) :
    fieldsText f (before ++ after) = fieldsText f before ++ fieldsText f after := by
  induction before with
  | nil => rfl
  | cons key before ih =>
    rw [List.cons_append, fieldsText, fieldsText, ih]
    simp only [List.append_assoc]

theorem fieldsText_congr (h : ∀ key ∈ keys, f key = g key) :
    fieldsText f keys = fieldsText g keys := by
  induction keys with
  | nil => rfl
  | cons key keys ih =>
    rw [List.forall_mem_cons] at h
    rw [fieldsText, fieldsText, h.1, ih h.2]

/-- A line is the fields but for the separator in front. -/
theorem protocolSplit_reportLine (d : LogRecord) (key : JsString) (keys : List JsString) :
    protocolSplit ++ reportLine (key :: keys) d =
      fieldsText (fun k => escapeSymbol (d k)) (key :: keys) := by
  induction keys generalizing key with
  | nil =>
    rw [reportLine, protocolJoin, List.map_singleton, join, List.intercalate_singleton,
      fieldsText, fieldsText, List.append_nil, separator]
    simp only [List.append_assoc]
  | cons next keys ih =>
    have hline : reportLine (key :: next :: keys) d = key ++ (text "=" ++ (escapeSymbol (d key) ++
        (protocolSplit ++ reportLine (next :: keys) d))) := by
      rw [reportLine, protocolJoin, List.map_cons, List.map_cons, join,
        List.intercalate_cons_cons, List.append_assoc, List.append_assoc, List.append_assoc]
      rfl
    rw [hline, ih]
    conv_rhs => rw [fieldsText, separator]
    simp only [List.append_assoc]

theorem reportLine_eq_iff {d d' : LogRecord} : reportLine keys d' = reportLine keys d ↔
    fieldsText (fun k => escapeSymbol (d' k)) keys =
      fieldsText (fun k => escapeSymbol (d k)) keys := by
  cases keys with
  | nil => exact iff_of_true rfl rfl
  | cons key keys =>
    rw [← protocolSplit_reportLine, ← protocolSplit_reportLine, List.append_cancel_left_eq]

/-! ## Reading the fields -/

/-- A field has no second place behind its own. -/
theorem fieldsText_ne_later (hnames : ∀ k ∈ key :: keys, FieldName k)
    (hnodup : (key :: keys).Nodup) (hown : ∀ k ∈ key :: keys, ¬separator k <:+: f k) :
    f key ++ fieldsText f keys ≠ x ++ (separator key ++ (s ++ fieldsText g keys)) := by
  induction keys generalizing key x s with
  | nil =>
    intro h
    rw [fieldsText, fieldsText, List.append_nil, List.append_nil] at h
    exact hown key List.mem_cons_self ⟨x, s, by rw [h, List.append_assoc]⟩
  | cons next keys ih =>
    intro h
    rw [List.forall_mem_cons] at hnames hown
    rw [List.nodup_cons, List.mem_cons, not_or] at hnodup
    rw [fieldsText, fieldsText] at h
    rcases separator_locate hnames.1 (hnames.2 next List.mem_cons_self) h with
      hinfix | ⟨-, heq, -⟩ | ⟨z, hz⟩
    · exact hown.1 hinfix
    · exact hnodup.1.1 heq
    · -- then the next field has one too
      refine ih (x := z ++ (separator key ++ s)) (s := g next) hnames.2 hnodup.2 hown.2 ?_
      rw [hz]
      simp only [List.append_assoc]

theorem notInfix_of_isChain (h : (key :: keys).IsChain fun k next =>
    ¬separator next <:+: f k ∧ ¬separator next <:+: f next) :
    ∀ k ∈ keys, ¬separator k <:+: f k := by
  induction keys generalizing key with
  | nil => exact List.forall_mem_nil _
  | cons next keys ih =>
    rw [List.isChain_cons_cons] at h
    exact List.forall_mem_cons.mpr ⟨h.1.2, ih h.2⟩

/-- The fields of a text can be read off, if none has the separator before or after it. -/
theorem fieldsText_inj (hnames : ∀ k ∈ key :: keys, FieldName k) (hnodup : (key :: keys).Nodup)
    (hchain : (key :: keys).IsChain fun k next =>
      ¬separator next <:+: f k ∧ ¬separator next <:+: f next)
    (h : f key ++ fieldsText f keys = g key ++ fieldsText g keys) :
    ∀ k ∈ key :: keys, f k = g k := by
  induction keys generalizing key with
  | nil =>
    rw [fieldsText, fieldsText, List.append_nil, List.append_nil] at h
    exact List.forall_mem_singleton.mpr h
  | cons next keys ih =>
    have hown := notInfix_of_isChain hchain
    rw [List.isChain_cons_cons] at hchain
    rw [List.forall_mem_cons] at hnames
    rw [List.nodup_cons] at hnodup
    have hname := hnames.2 next List.mem_cons_self
    rw [fieldsText, fieldsText] at h
    rcases separator_locate hname hname h with hinfix | ⟨heq, -, hrest⟩ | ⟨z, hz⟩
    · exact absurd hinfix hchain.1.1
    · exact List.forall_mem_cons.mpr ⟨heq, ih hnames.2 hnodup.2 hchain.2 hrest⟩
    · exact absurd hz (fieldsText_ne_later hnames.2 hnodup.2 hown)

end

/-! ## The results -/

section

variable {protocol before after : List JsString} {d d' : LogRecord} {key next x y : JsString}

theorem determines_of_unmistakable (hnames : ∀ key ∈ protocol, FieldName key)
    (hnodup : protocol.Nodup) (h : Unmistakable protocol d) : Determines protocol d := by
  intro d' hline
  have hescape : ∀ key ∈ protocol, escapeSymbol (d key) = d key := fun key hkey =>
    escapeSymbol_of_notMem (h.escape key hkey).1
  cases protocol with
  | nil => exact List.forall_mem_nil _
  | cons key keys =>
    have hfields := (reportLine_eq_iff.mp hline).symm
    rw [fieldsText_congr hescape, fieldsText, fieldsText] at hfields
    have hvalues := fieldsText_inj (g := fun k => escapeSymbol (d' k)) hnames hnodup h.separated
      (List.append_cancel_left hfields)
    intro k hk
    exact eq_of_escapeSymbol_eq (h.escape k hk).2 (hvalues k hk).symm

/-- A value may be changed into one that is escaped in the same way. -/
theorem Determines.eq_of_escapeSymbol_eq (h : Determines protocol d) (hkey : key ∈ protocol)
    (heq : escapeSymbol x = escapeSymbol (d key)) : x = d key := by
  have hsame : ∀ k ∈ protocol,
      escapeSymbol (Function.update d key x k) = escapeSymbol (d k) := by
    intro k _
    by_cases hk : k = key
    · rw [hk, Function.update_self, heq]
    · rw [Function.update_of_ne hk]
  have hline := h _ (reportLine_eq_iff.mpr (fieldsText_congr hsame)) key hkey
  rwa [Function.update_self] at hline

theorem percent_ne_hash (x y : JsString) : text "%23" ++ x ≠ unit '#' :: y := by
  have hescaped : text "%23" = [unit '%', unit '2', unit '3'] := by decide +kernel
  rw [hescaped]
  intro h
  exact absurd (List.cons.inj h).1 (by decide)

theorem Determines.escape (h : Determines protocol d) (hkey : key ∈ protocol) :
    unit '#' ∉ d key ∧ ¬text "%23" <:+: d key := by
  constructor
  · intro hmem
    obtain ⟨u, v, huv⟩ := List.append_of_mem hmem
    have heq : escapeSymbol (u ++ (text "%23" ++ v)) = escapeSymbol (d key) := by
      rw [huv, escapeSymbol_escaped, escapeSymbol_hash]
    have hvalue := h.eq_of_escapeSymbol_eq hkey heq
    rw [huv] at hvalue
    exact percent_ne_hash v v (List.append_cancel_left hvalue)
  · rintro ⟨u, v, huv⟩
    rw [List.append_assoc] at huv
    have heq : escapeSymbol (u ++ unit '#' :: v) = escapeSymbol (d key) := by
      rw [← huv, escapeSymbol_escaped, escapeSymbol_hash]
    have hvalue := h.eq_of_escapeSymbol_eq hkey heq
    rw [← huv] at hvalue
    exact percent_ne_hash v v (List.append_cancel_left hvalue).symm

/-- Two values side by side may be changed if their text with the separator is the same. -/
theorem Determines.eq_of_pair (h : Determines (before ++ key :: next :: after) d)
    (hnodup : (before ++ key :: next :: after).Nodup)
    (heq : escapeSymbol x ++ (separator next ++ escapeSymbol y) =
      escapeSymbol (d key) ++ (separator next ++ escapeSymbol (d next))) : x = d key := by
  rw [List.nodup_append] at hnodup
  obtain ⟨-, hpair, hbefore⟩ := hnodup
  rw [List.nodup_cons, List.nodup_cons, List.mem_cons, not_or] at hpair
  obtain ⟨⟨hne, hkey⟩, hnext, -⟩ := hpair
  have hvalue : ∀ k, k ≠ key → k ≠ next →
      Function.update (Function.update d key x) next y k = d k := by
    intro k hk hk'
    rw [Function.update_of_ne hk', Function.update_of_ne hk]
  have hx : Function.update (Function.update d key x) next y key = x := by
    rw [Function.update_of_ne hne, Function.update_self]
  have hline : reportLine (before ++ key :: next :: after)
      (Function.update (Function.update d key x) next y) =
        reportLine (before ++ key :: next :: after) d := by
    refine reportLine_eq_iff.mpr ?_
    rw [fieldsText_append, fieldsText_append]
    refine congrArg₂ _ (fieldsText_congr fun k hk => ?_) ?_
    · have hk1 := hbefore k hk key List.mem_cons_self
      have hk2 := hbefore k hk next (List.mem_cons_of_mem _ List.mem_cons_self)
      rw [hvalue k hk1 hk2]
    · have hafter : fieldsText (fun k => escapeSymbol
          (Function.update (Function.update d key x) next y k)) after =
            fieldsText (fun k => escapeSymbol (d k)) after := by
        refine fieldsText_congr fun k hk => ?_
        rw [hvalue k (fun hk' => hkey (hk' ▸ hk)) fun hk' => hnext (hk' ▸ hk)]
      rw [fieldsText, fieldsText, fieldsText, fieldsText, hafter, hx, Function.update_self]
      have hpair := congrArg (· ++ fieldsText (fun k => escapeSymbol (d k)) after) heq
      simp only [List.append_assoc] at hpair
      rw [hpair]
  have hkeyvalue := h _ hline key (List.mem_append_right _ List.mem_cons_self)
  rwa [hx] at hkeyvalue

theorem unmistakable_of_determines (hnodup : protocol.Nodup) (h : Determines protocol d) :
    Unmistakable protocol d := by
  refine ⟨fun key hkey => h.escape hkey, ?_⟩
  rw [List.isChain_iff_forall_rel_of_append_cons_cons]
  intro key next before after hprotocol
  have hkey : key ∈ protocol := by simp [hprotocol]
  have hnext : next ∈ protocol := by simp [hprotocol]
  have hpair : ∀ {x y : JsString}, unit '#' ∉ x → unit '#' ∉ y →
      x ++ (separator next ++ y) = d key ++ (separator next ++ d next) → x = d key := by
    intro x y hx hy heq
    rw [hprotocol] at h hnodup
    refine h.eq_of_pair (y := y) hnodup ?_
    rw [escapeSymbol_of_notMem hx, escapeSymbol_of_notMem hy,
      escapeSymbol_of_notMem (h.escape (hprotocol ▸ hkey)).1,
      escapeSymbol_of_notMem (h.escape (hprotocol ▸ hnext)).1, heq]
  have hsep : ∀ s, separator next ++ s ≠ [] := fun s => by
    rw [separator_append]
    exact List.cons_ne_nil _ _
  have hfree := (h.escape hkey).1
  have hfree' := (h.escape hnext).1
  constructor
  · rintro ⟨u, v, huv⟩
    rw [List.append_assoc] at huv
    rw [← huv] at hfree
    simp only [List.mem_append, not_or] at hfree
    have hu : u = d key := by
      refine hpair (y := v ++ (separator next ++ d next)) hfree.1 ?_ ?_
      · simp only [List.mem_append, not_or]
        exact ⟨hfree.2.2, hfree.2.1, hfree'⟩
      · rw [← huv]
        simp only [List.append_assoc]
    rw [← huv] at hu
    exact hsep v (List.append_right_eq_self.mp hu.symm)
  · rintro ⟨u, v, huv⟩
    rw [List.append_assoc] at huv
    rw [← huv] at hfree'
    simp only [List.mem_append, not_or] at hfree'
    have hu : d key ++ (separator next ++ u) = d key := by
      refine hpair (y := v) ?_ hfree'.2.2 ?_
      · simp only [List.mem_append, not_or]
        exact ⟨hfree, hfree'.2.1, hfree'.1⟩
      · rw [← huv]
        simp only [List.append_assoc]
    exact hsep u (List.append_right_eq_self.mp hu)

/-- Two addresses are the same if the lines of the records with the version of the protocol are. -/
theorem getRequest_eq_iff (config : LogConfig) : getRequest config (fun key => some (d' key)) =
    getRequest config (fun key => some (d key)) ↔
      reportLine config.protocol (Function.update d' (text "rprotocol") config.rprotocol) =
        reportLine config.protocol (Function.update d (text "rprotocol") config.rprotocol) := by
  have hupdate : ∀ f : LogRecord,
      Function.update (fun key => some (f key)) (text "rprotocol") (some config.rprotocol) =
        fun key => some (Function.update f (text "rprotocol") config.rprotocol key) := fun f =>
    (Function.comp_update some f (text "rprotocol") config.rprotocol).symm
  rw [getRequest, getRequest, hupdate, hupdate, List.append_cancel_left_eq]
  rfl

/-- The names of the fields of `ottpv`. -/
theorem fieldNames_ottpv : (∀ key ∈ ottpv.protocol, FieldName key) ∧ ottpv.protocol.Nodup := by
  have hall : ∀ key ∈ ottpv.protocol, unit '*' ∉ key ∧ unit '=' ∉ key ∧
      key.head? ≠ some (unit '_') := by decide +kernel
  exact ⟨fun key hkey => ⟨(hall key hkey).1, (hall key hkey).2.1, (hall key hkey).2.2⟩,
    by decide +kernel⟩

/-- The line determines the record exactly if no value has what is escaped or escapes, or a
separator before or after it. -/
theorem determines_iff (d : LogRecord) :
    Determines ottpv.protocol d ↔ Unmistakable ottpv.protocol d :=
  ⟨unmistakable_of_determines fieldNames_ottpv.2,
    determines_of_unmistakable fieldNames_ottpv.1 fieldNames_ottpv.2⟩

end

/-- A record with an address and nothing else. -/
def urlRecord (url : JsString) : LogRecord :=
  Function.update (fun _ => []) (text "url") url

/-- A page address with `#` and one with `%23` have one line, and so have an address that imitates
the next field and that field. -/
theorem not_determines_url :
    reportLine ottpv.protocol (urlRecord (text "a#b")) =
      reportLine ottpv.protocol (urlRecord (text "a%23b")) ∧
    reportLine ottpv.protocol (urlRecord (text "a*_*referurl=b")) =
      reportLine ottpv.protocol (Function.update (urlRecord (text "a")) (text "referurl")
        (text "b*_*referurl=")) ∧
    ¬Determines ottpv.protocol (urlRecord (text "a#b")) ∧
    ¬Determines ottpv.protocol (urlRecord (text "a*_*referurl=b")) := by
  have hhash : reportLine ottpv.protocol (urlRecord (text "a#b")) =
      reportLine ottpv.protocol (urlRecord (text "a%23b")) := by decide +kernel
  have hsep : reportLine ottpv.protocol (urlRecord (text "a*_*referurl=b")) =
      reportLine ottpv.protocol (Function.update (urlRecord (text "a")) (text "referurl")
        (text "b*_*referurl=")) := by decide +kernel
  refine ⟨hhash, hsep, fun h => ?_, fun h => ?_⟩
  · exact absurd (h _ hhash.symm (text "url") (by decide +kernel)) (by decide +kernel)
  · exact absurd (h _ hsep.symm (text "url") (by decide +kernel)) (by decide +kernel)

end Js

end MySocket
