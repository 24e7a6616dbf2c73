import MySocket.Broadcast

/-!
# The chat page and its messages

`index.html` sends what is typed as `username,toUser,text`, the servlet passes the message
on unchanged, and every page that gets it splits it at the commas again. A page that is
greeted with `open` and a number takes the number for its name.

* `heard_iff` : the text that is shown is the text typed if and only if that has no comma.
* `routed_iff` : the servlet's two handlers against the rule that the page states, that a
  message goes to the connection of `toUser`, or to all if that is empty.
-/

set_option linter.unusedSectionVars false

namespace MySocket

/-! ## Splitting -/

/-- `split` of JavaScript, at a single character. -/
def fields (sep : Char) (s : String) : List String :=
  (s.toList.splitOn sep).map String.ofList

/-- The fields up to the last one that is not empty. -/
def dropTrailing : List String → List String
  | [] => []
  | f :: fs => if ∀ g ∈ f :: fs, g = "" then [] else f :: dropTrailing fs

/-- `split` of Java : empty fields at the end are left out. -/
def javaSplit (sep : Char) (s : String) : List String :=
  if sep ∈ s.toList then dropTrailing (fields sep s) else [s]

theorem fields_append {u : String} (hu : ',' ∉ u.toList) (s : String) :
    fields ',' (u ++ "," ++ s) = u :: fields ',' s := by
  have htext : (u ++ "," ++ s).toList = u.toList ++ ',' :: s.toList := by
    simp [String.toList_append]
  rw [fields, htext, List.splitOn_append_cons_self_of_not_mem hu, List.map_cons,
    String.ofList_toList]
  rfl

/-- The fields of `u,t,x`. -/
theorem fields_message {u t : String} (hu : ',' ∉ u.toList) (ht : ',' ∉ t.toList) (x : String) :
    fields ',' (u ++ "," ++ t ++ "," ++ x) = u :: t :: fields ',' x := by
  rw [String.append_assoc, String.append_assoc, fields_append hu, ← String.append_assoc,
    fields_append ht]

theorem fields_eq_singleton {sep : Char} {s : String} (h : sep ∉ s.toList) : fields sep s = [s] := by
  rw [fields, List.splitOn_eq_singleton h, List.map_singleton, String.ofList_toList]

/-- The first field is all of the text only if there is no comma. -/
theorem head_fields {s : String} {fs : List String} : fields ',' s = s :: fs → ',' ∉ s.toList := by
  intro h hmem
  obtain ⟨a, b, hs, ha⟩ := List.eq_append_cons_of_mem hmem
  rw [fields, hs, List.splitOn_append_cons_self_of_not_mem ha, List.map_cons] at h
  have hhead := congrArg String.toList (List.cons_eq_cons.mp h).1
  have hlen := congrArg List.length hs
  rw [String.toList_ofList] at hhead
  rw [← hhead, List.length_append, List.length_cons] at hlen
  omega

/-- All fields are empty only if the text is made of commas. -/
theorem fields_empty_iff {s : String} :
    (∀ g ∈ fields ',' s, g = "") ↔ ∀ c ∈ s.toList, c = ',' := by
  have hlist : ∀ cs : List Char, (∀ g ∈ cs.splitOn ',', g = []) ↔ ∀ c ∈ cs, c = ',' := by
    intro cs
    induction cs with
    | nil => simp
    | cons c cs ih =>
      rw [List.splitOn_cons_eq_if_modifyHead, List.forall_mem_cons]
      by_cases hc : c = ','
      · simp [hc, ih]
      · obtain ⟨f, fs, hfs⟩ := List.exists_cons_of_ne_nil (List.splitOn_ne_nil ',' cs)
        simp [hc, hfs]
  rw [← hlist, fields]
  simp

/-- The second field of what Java's `split` leaves. -/
theorem dropTrailing_second (u t : String) (fs : List String) :
    (dropTrailing (u :: t :: fs))[1]? = if ∀ g ∈ t :: fs, g = "" then none else some t := by
  by_cases h : ∀ g ∈ t :: fs, g = ""
  · rw [if_pos h, dropTrailing]
    split
    · rfl
    · rw [dropTrailing, if_pos h]
      rfl
  · have hall : ¬∀ g ∈ u :: t :: fs, g = "" := fun hall => h (List.forall_mem_cons.mp hall).2
    rw [if_neg h, dropTrailing, if_neg hall, dropTrailing, if_neg h]
    rfl

/-! ## The page -/

/-- The inputs of the page and the lines of its log, the last one first. -/
structure ChatPage where
  connected : Bool
  username : String
  toUser : String
  textMessage : String
  log : List String

/-- What the page takes a message for. -/
inductive Heard
  | named (username : String)
  | said (speaker text : String)
  deriving DecidableEq

/-- `showData[i]` in a string. -/
def item (showData : List String) (i : ℕ) : String :=
  showData.getD i "undefined"

/-- The message as `onmessage` reads it. -/
def hear (data : String) : Heard :=
  if "open".toList <+: data.toList then .named (item (fields ' ' data) 1)
  else .said (item (fields ',' data) 0) (item (fields ',' data) 2)

namespace ChatPage

def onmessage (p : ChatPage) (data : String) : ChatPage :=
  match hear data with
  | .named username => { p with username }
  | .said speaker text => { p with log := (speaker ++ "说:" ++ text) :: p.log }

theorem onmessage_said {p : ChatPage} {data speaker text : String}
    (h : hear data = .said speaker text) :
    p.onmessage data = { p with log := (speaker ++ "说:" ++ text) :: p.log } := by
  rw [onmessage, h]

/-- The message sent, if any, and the page afterwards. -/
def sendMessage (p : ChatPage) : Option String × ChatPage :=
  (if p.connected ∧ p.textMessage ≠ "" then
      some (p.username ++ "," ++ p.toUser ++ "," ++ p.textMessage)
    else none,
    { p with textMessage := "" })

end ChatPage

/-! ## The servlet -/

section

variable {γ : Type*} [DecidableEq γ]

/-- `toOne`, visiting the map's values in `order`; `none` for an index out of bounds. -/
def HelloWorldWebSocketServlet.toOne (myoutbound : γ → Outbound) (r : Registry γ)
    (message : String) (order : List γ) : Option (Sent γ) :=
  match (javaSplit ',' message)[1]? with
  | none => none
  | some key =>
    if key = "" then some (sendAll myoutbound message order)
    else
      match r.mmiList.lookup key with
      | some toUser => some (sendAll myoutbound message [toUser])
      | none => some ⟨[], false⟩

/-- Who gets a message to `t`. -/
def recipients (r : Registry γ) (t : String) : List γ :=
  if t = "" then r.values else (r.mmiList.lookup t).toList

/-- The handler returned, and has sent the message to its recipients and to nobody else. -/
def Routed (r : Registry γ) (t message : String) (handled : Option (Sent γ)) : Prop :=
  ∃ sent, handled = some sent ∧
    sent.written.Perm ((recipients r t).map fun c => (c, message))

/-! ## What a page shows -/

variable {myoutbound : γ → Outbound} {message : String} {order : List γ}

/-- The message is passed on as it came. -/
theorem message_of_mem_written {c : γ × String} :
    ∀ {order : List γ}, c ∈ (sendAll myoutbound message order).written → c.2 = message
  | [], h => by simp [sendAll] at h
  | d :: order, h => by
    simp only [sendAll] at h
    split_ifs at h
    · rcases List.mem_cons.mp h with rfl | h
      · rfl
      · exact message_of_mem_written h
    · rw [List.mem_singleton.mp h]
    · simp at h

/-- A page takes a greeting for its name. -/
theorem hear_greeting {mykey : String} (hk : ' ' ∉ mykey.toList) :
    hear (Servlet.helloWorld.greeting mykey) = .named mykey := by
  have htext : ("open " ++ mykey).toList = "open".toList ++ ' ' :: mykey.toList := by
    simp [String.toList_append]
  have hfields : fields ' ' ("open " ++ mykey) = ["open", mykey] := by
    rw [fields, htext, List.splitOn_append_cons_self_of_not_mem (by decide),
      List.splitOn_eq_singleton hk]
    simp
  change hear ("open " ++ mykey) = _
  rw [hear, if_pos (by rw [htext]; exact List.prefix_append _ _), hfields]
  rfl

/-- A message with a number for the user is shown with the text up to the first comma. -/
theorem hear_message {u t x : String} (hu : u.toList.all Char.isDigit = true)
    (ht : ',' ∉ t.toList) :
    hear (u ++ "," ++ t ++ "," ++ x) = .said u (item (fields ',' x) 0) := by
  have hdigit : ∀ c ∈ u.toList, c.isDigit = true := List.all_eq_true.mp hu
  have hcomma : ',' ∉ u.toList := fun h => absurd (hdigit _ h) (by decide)
  have hopen : ¬"open".toList <+: (u ++ "," ++ t ++ "," ++ x).toList := by
    intro hp
    have htext : (u ++ "," ++ t ++ "," ++ x).toList = u.toList ++ ',' :: (t ++ "," ++ x).toList := by
      simp [String.toList_append]
    rw [htext, show "open".toList = ['o', 'p', 'e', 'n'] from rfl] at hp
    cases hcs : u.toList with
    | nil =>
      rw [hcs, List.nil_append, List.cons_prefix_cons] at hp
      exact absurd hp.1 (by decide)
    | cons c cs =>
      rw [hcs, List.cons_append, List.cons_prefix_cons] at hp
      have hc := hdigit c (by simp [hcs])
      rw [← hp.1] at hc
      exact absurd hc (by decide)
  rw [hear, if_neg hopen, fields_message hcomma ht]
  rfl

theorem item_fields_iff {x : String} : item (fields ',' x) 0 = x ↔ ',' ∉ x.toList := by
  constructor
  · intro h
    obtain ⟨f, fs, hfs⟩ : ∃ f fs, fields ',' x = f :: fs :=
      List.exists_cons_of_ne_nil (by simp [fields])
    rw [hfs] at h
    obtain rfl : f = x := h
    exact head_fields hfs
  · intro h
    rw [fields_eq_singleton h]
    rfl

/-- A connected page whose server has given it a number sends what is typed, and every page
that the servlet passes it on to takes it for a line of that number with the text as it was
typed, and shows that line, if and only if the text has no comma. -/
theorem heard_iff {p : ChatPage} (hp : p.connected = true)
    (hu : p.username.toList.all Char.isDigit = true) (ht : ',' ∉ p.toUser.toList)
    (hx : p.textMessage ≠ "") (myoutbound : γ → Outbound) (order : List γ) :
    ∃ message, p.sendMessage.1 = some message ∧
      ∀ c ∈ (HelloWorldWebSocketServlet.onTextMessage myoutbound message order).written,
        (hear c.2 = .said p.username p.textMessage ∧
            (∀ q : ChatPage, q.onmessage c.2 =
              { q with log := (p.username ++ "说:" ++ p.textMessage) :: q.log }) ↔
          ',' ∉ p.textMessage.toList) := by
  refine ⟨p.username ++ "," ++ p.toUser ++ "," ++ p.textMessage, if_pos ⟨hp, hx⟩, fun c hc => ?_⟩
  have hhear := hear_message (x := p.textMessage) hu ht
  rw [message_of_mem_written hc, ← item_fields_iff]
  constructor
  · rintro ⟨h, -⟩
    exact (Heard.said.inj (hhear.symm.trans h)).2
  · intro h
    rw [h] at hhear
    exact ⟨hhear, fun q => ChatPage.onmessage_said hhear⟩

/-! ## Who gets a message -/

theorem perm_map_message {cs ds : List γ} :
    (cs.map fun c => (c, message)).Perm (ds.map fun c => (c, message)) ↔ cs.Perm ds := by
  refine ⟨fun h => ?_, fun h => h.map _⟩
  have := h.map Prod.fst
  simpa [List.map_map, Function.comp_def] using this

/-- The connection of one key is all there is exactly if there is no other key. -/
theorem values_perm_iff {r : Registry γ} {t : String} :
    r.values.Perm (r.mmiList.lookup t).toList ↔ ∀ k c, r.mmiList.lookup k = some c → k = t := by
  have hmem : ∀ k c, ⟨k, c⟩ ∈ r.mmiList.entries ↔ r.mmiList.lookup k = some c := fun k c =>
    (List.mem_dlookup_iff r.mmiList.nodupKeys).symm
  constructor
  · intro h k c hk
    have ht : r.mmiList.lookup t = some c :=
      Option.mem_toList.mp (h.subset (Registry.mem_values.mpr ⟨k, hk⟩))
    have hlen : r.mmiList.entries.length = 1 := by
      have := h.length_eq
      rwa [ht, Registry.values, List.length_map] at this
    obtain ⟨e, he⟩ := List.length_eq_one_iff.mp hlen
    have hk' := (hmem k c).mpr hk
    have ht' := (hmem t c).mpr ht
    rw [he, List.mem_singleton] at hk' ht'
    exact congrArg Sigma.fst (hk'.trans ht'.symm)
  · intro h
    have hentries : r.mmiList.entries.Perm ((r.mmiList.lookup t).toList.map fun c => ⟨t, c⟩) := by
      refine (List.perm_ext_iff_of_nodup r.mmiList.nodupKeys.nodup ?_).mpr fun e => ?_
      · cases r.mmiList.lookup t <;> simp
      · obtain ⟨k, c⟩ := e
        rw [hmem, List.mem_map]
        constructor
        · intro hk
          obtain rfl := h k c hk
          exact ⟨c, Option.mem_toList.mpr hk, rfl⟩
        · rintro ⟨d, hd, heq⟩
          obtain ⟨rfl, hdc⟩ := Sigma.mk.inj heq
          obtain rfl := eq_of_heq hdc
          exact Option.mem_toList.mp hd
    have := hentries.map Sigma.snd
    rwa [List.map_map, Function.comp_def, List.map_id'] at this

/-- The live handler sends to everyone, whoever the message is for. -/
theorem onTextMessage_routed_iff {r : Registry γ} (ho : order.Perm r.values) (t message : String) :
    Routed r t message (some (HelloWorldWebSocketServlet.onTextMessage working message order)) ↔
      t = "" ∨ ∀ k c, r.mmiList.lookup k = some c → k = t := by
  have hsent : Routed r t message
      (some (HelloWorldWebSocketServlet.onTextMessage working message order)) ↔
        r.values.Perm (recipients r t) := by
    rw [HelloWorldWebSocketServlet.onTextMessage, sendAll_working]
    constructor
    · rintro ⟨sent, heq, hperm⟩
      obtain rfl := Option.some.inj heq
      exact ho.symm.trans (perm_map_message.mp hperm)
    · exact fun h => ⟨_, rfl, perm_map_message.mpr (ho.trans h)⟩
  rw [hsent, recipients]
  by_cases ht : t = ""
  · simp [ht]
  · rw [if_neg ht, values_perm_iff]
    simp [ht]

/-- `toOne` follows the rule, but has no second field to look at in a message to all that is
made of commas. -/
theorem toOne_routed_iff {r : Registry γ} (ho : order.Perm r.values) {u t x : String}
    (hu : ',' ∉ u.toList) (ht : ',' ∉ t.toList) :
    Routed r t (u ++ "," ++ t ++ "," ++ x)
        (HelloWorldWebSocketServlet.toOne working r (u ++ "," ++ t ++ "," ++ x) order) ↔
      ¬(t = "" ∧ ∀ c ∈ x.toList, c = ',') := by
  have hsecond : (javaSplit ',' (u ++ "," ++ t ++ "," ++ x))[1]? =
      if t = "" ∧ ∀ c ∈ x.toList, c = ',' then none else some t := by
    have hcomma : ',' ∈ (u ++ "," ++ t ++ "," ++ x).toList := by
      simp [String.toList_append]
    rw [javaSplit, if_pos hcomma, fields_message hu ht, dropTrailing_second]
    refine if_congr ?_ rfl rfl
    rw [List.forall_mem_cons, fields_empty_iff]
  rw [HelloWorldWebSocketServlet.toOne, hsecond]
  by_cases hempty : t = "" ∧ ∀ c ∈ x.toList, c = ','
  · rw [if_pos hempty]
    refine iff_of_false ?_ (not_not.mpr hempty)
    rintro ⟨sent, heq, -⟩
    cases heq
  · rw [if_neg hempty]
    refine iff_of_true ?_ hempty
    dsimp only
    by_cases ht0 : t = ""
    · rw [if_pos ht0, sendAll_working]
      refine ⟨_, rfl, perm_map_message.mpr ?_⟩
      rwa [recipients, if_pos ht0]
    · rw [if_neg ht0]
      rcases hk : r.mmiList.lookup t with _ | c
      · exact ⟨_, rfl, by simp [recipients, ht0, hk]⟩
      · refine ⟨_, rfl, ?_⟩
        rw [sendAll_working]
        simp [recipients, ht0, hk]

/-- The rule of the page, for a message `u,t,x` and connections that work. The handler in use
follows it exactly if the message is to all or nobody is registered under another key; `toOne`
exactly if the message is not one to all that is made of commas. -/
theorem routed_iff {r : Registry γ} (ho : order.Perm r.values) {u t x : String}
    (hu : ',' ∉ u.toList) (ht : ',' ∉ t.toList) :
    (Routed r t (u ++ "," ++ t ++ "," ++ x)
        (some (HelloWorldWebSocketServlet.onTextMessage working (u ++ "," ++ t ++ "," ++ x) order)) ↔
      t = "" ∨ ∀ k c, r.mmiList.lookup k = some c → k = t) ∧
    (Routed r t (u ++ "," ++ t ++ "," ++ x)
        (HelloWorldWebSocketServlet.toOne working r (u ++ "," ++ t ++ "," ++ x) order) ↔
      ¬(t = "" ∧ ∀ c ∈ x.toList, c = ',')) :=
  ⟨onTextMessage_routed_iff ho t _, toOne_routed_iff ho hu ht⟩

end

/-- "a,b" is shown as "a". -/
theorem heard_half :
    (ChatPage.sendMessage ⟨true, "17", "", "a,b", []⟩).1 = some "17,,a,b" ∧
      (HelloWorldWebSocketServlet.onTextMessage working "17,,a,b" [()]).written = [((), "17,,a,b")] ∧
      hear "17,,a,b" = .said "17" "a" ∧ hear "17,,a,b" ≠ .said "17" "a,b" := by
  decide

/-- Without a comma the text arrives. -/
theorem heard_whole :
    ∃ message, (ChatPage.sendMessage ⟨true, "17", "", "a b", []⟩).1 = some message ∧
      ∀ c ∈ (HelloWorldWebSocketServlet.onTextMessage working message [()]).written,
        (hear c.2 = .said "17" "a b" ∧
            (∀ q : ChatPage, q.onmessage c.2 =
              { q with log := ("17" ++ "说:" ++ "a b") :: q.log }) ↔
          ',' ∉ "a b".toList) :=
  heard_iff rfl (by decide) (by decide) (by decide) working [()]

/-- A message for the connection `1` goes to the connection `2` as well, and `toOne` looks for
a second field of ",," in vain. -/
theorem routed_to_all :
    (twoOpen.mmiList.lookup "1" = some 0 ∧ [0, 1].Perm twoOpen.values) ∧
      (HelloWorldWebSocketServlet.onTextMessage working "2,1,hi" [0, 1]).written =
        [(0, "2,1,hi"), (1, "2,1,hi")] ∧
      HelloWorldWebSocketServlet.toOne working twoOpen "2,,,," [0, 1] = none ∧
      ¬Routed twoOpen "1" "2,1,hi"
        (some (HelloWorldWebSocketServlet.onTextMessage working "2,1,hi" [0, 1])) := by
  refine ⟨by decide, by decide, rfl, ?_⟩
  rintro ⟨sent, heq, hperm⟩
  obtain rfl := Option.some.inj heq
  exact absurd hperm.length_eq (by decide)

/-- A message to all, and what `toOne` makes of one for the connection `1`. -/
theorem routed_right :
    Routed twoOpen "" ("2" ++ "," ++ "" ++ "," ++ "hi")
        (some (HelloWorldWebSocketServlet.onTextMessage working ("2" ++ "," ++ "" ++ "," ++ "hi")
          [0, 1])) ∧
      Routed twoOpen "1" ("2" ++ "," ++ "1" ++ "," ++ "hi")
        (HelloWorldWebSocketServlet.toOne working twoOpen ("2" ++ "," ++ "1" ++ "," ++ "hi") [0, 1]) :=
  ⟨(routed_iff (by decide) (by decide) (by decide)).1.mpr (.inl rfl),
    (routed_iff (by decide) (by decide) (by decide)).2.mpr fun h => absurd h.1 (by decide)⟩

end MySocket
