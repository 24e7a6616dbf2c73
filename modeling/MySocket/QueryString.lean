import MySocket.Regex
import MySocket.UriComponent

/-!
# Parameters of a page

`getParam` of `common.js` searches the query of the page for `?` or `&`, a name, `=` and what
follows up to the next `&`, and decodes it if it can.

`getParam_query` : in a query of encoded values it finds the value of the first parameter of
the name, and a value that cannot be decoded is returned as it is written.
-/

namespace MySocket

/-- The characters of `\w`. -/
def isWordChar (c : Char) : Bool :=
  c.isAlphanum || c = '_'

/-- A name of a parameter. -/
@[ext] structure ParamName where
  chars : List Char
  word : ∀ c ∈ chars, isWordChar c = true
deriving DecidableEq

/-- The characters that begin a parameter. -/
def isLead (c : Char) : Bool :=
  c = '?' || c = '&'

/-- `[?&]name=` -/
def paramWord (name : ParamName) : List (Char → Bool) :=
  isLead :: (name.chars ++ ['=']).map fun d c => c == d

/-- `[?&]name=([^&]*)` -/
def paramRe (name : ParamName) : Re :=
  .seq (.lit (paramWord name)) (.group 1 (.star fun c => c ≠ '&'))

/-- `getParam`, where `search` is `window.location.search`. -/
def getParam (search : List Char) (name : ParamName) : List Char :=
  match (paramRe name).find [] search with
  | none => []
  | some (_, m) => (decodeURIComponent (m.get 1)).getD (m.get 1)

/-! ## Queries -/

/-- A name and a value, or what is written for the value. -/
abbrev Param := ParamName × List Char

/-- `name=value` -/
def Param.text (p : Param) : List Char :=
  p.1.chars ++ '=' :: p.2

/-- The query with the parameters `ps`. -/
def querySearch (ps : List Param) : List Char :=
  if ps = [] then [] else '?' :: ['&'].intercalate (ps.map Param.text)

/-- A parameter with its value encoded. -/
def Param.encode (p : Param) : Param :=
  (p.1, encodeURIComponent p.2)

/-- The parameters with `d` before the first one. -/
def paramsText (d : Char) : List Param → List Char
  | [] => []
  | p :: ps => d :: p.text ++ paramsText '&' ps

section

variable {name : ParamName} {p : Param} {ps : List Param} {cs v rest : List Char} {c d : Char}

theorem intercalate_text (p : Param) (ps : List Param) :
    ['&'].intercalate ((p :: ps).map Param.text) = p.text ++ paramsText '&' ps := by
  induction ps generalizing p with
  | nil => rw [List.map_singleton, List.intercalate_singleton, paramsText, List.append_nil]
  | cons q ps ih =>
    rw [List.map_cons, List.map_cons, List.intercalate_cons_cons, ← List.map_cons, ih]
    simp [paramsText]

theorem querySearch_eq (ps : List Param) : querySearch ps = paramsText '?' ps := by
  cases ps with
  | nil => rfl
  | cons p ps =>
    rw [querySearch, if_neg (List.cons_ne_nil p ps), intercalate_text, paramsText,
      List.cons_append]

/-- A parameter in the middle has a `&` before it. -/
theorem exists_paramsText_append (hd : isLead d = true) (ps : List Param) (p : Param)
    (qs : List Param) : ∃ d', isLead d' = true ∧
      paramsText d (ps ++ p :: qs) = paramsText d ps ++ d' :: (p.text ++ paramsText '&' qs) := by
  induction ps generalizing d with
  | nil => exact ⟨d, hd, rfl⟩
  | cons q ps ih =>
    obtain ⟨d', hd', htext⟩ := ih (d := '&') rfl
    refine ⟨d', hd', ?_⟩
    rw [List.cons_append, paramsText, htext, paramsText, List.append_assoc]

/-! ## One parameter -/

theorem spells_chars {w t : List Char} : Spells (w.map fun d c => c == d) t ↔ t = w := by
  rw [Spells, List.forall₂_map_left_iff]
  simp only [beq_iff_eq]
  constructor
  · intro h
    exact (List.forall₂_eq_eq_eq ▸ h.imp fun _ _ h => h.symm : w = t).symm
  · rintro rfl
    exact List.forall₂_same.mpr fun _ _ => rfl

theorem spells_paramWord {t : List Char} :
    Spells (paramWord name) t ↔ ∃ d, isLead d = true ∧ t = d :: (name.chars ++ ['=']) := by
  rw [paramWord, Spells, List.forall₂_cons_left_iff]
  constructor
  · rintro ⟨d, t, hd, ht, rfl⟩
    exact ⟨d, hd, by rw [spells_chars.mp ht]⟩
  · rintro ⟨d, hd, rfl⟩
    exact ⟨d, _, hd, spells_chars.mpr rfl, rfl⟩

/-- A match begins with the name. -/
theorem run_paramRe_eq_nil {before : List Char}
    (h : ∀ d u, isLead d = true → cs ≠ d :: (name.chars ++ '=' :: u)) :
    (paramRe name).run before cs = [] := by
  refine List.eq_nil_iff_forall_not_mem.mpr fun hit hrun => ?_
  obtain ⟨h₁, hlit, -⟩ := Re.mem_run_seq.mp hrun
  obtain ⟨t, u, rfl, ht, -⟩ := Re.mem_run_lit.mp hlit
  obtain ⟨d, hd, rfl⟩ := spells_paramWord.mp ht
  exact h d u hd (by simp)

theorem run_paramRe_of_not_isLead (before : List Char) (hc : isLead c = false) :
    (paramRe name).run before (c :: cs) = [] := by
  refine run_paramRe_eq_nil fun d u hd heq => ?_
  rw [(List.cons_eq_cons.mp heq).1, hd] at hc
  cases hc

theorem run_paramRe_nil (before : List Char) : (paramRe name).run before [] = [] :=
  run_paramRe_eq_nil fun _ _ _ => nofun

theorem equals_notMem (name : ParamName) : '=' ∉ name.chars := fun h =>
  absurd (name.word _ h) (by decide)

theorem run_paramRe_of_ne (before : List Char) (hne : p.1 ≠ name) :
    (paramRe name).run before (d :: (p.text ++ rest)) = [] := by
  refine run_paramRe_eq_nil fun e u _ heq => ?_
  have htext := (List.cons_eq_cons.mp heq).2
  rw [Param.text, List.append_assoc, List.cons_append] at htext
  -- both names end at the first `=`
  have hsplit := congrArg (List.splitOn '=') htext
  rw [List.splitOn_append_cons_self_of_not_mem (equals_notMem p.1),
    List.splitOn_append_cons_self_of_not_mem (equals_notMem name)] at hsplit
  exact hne (ParamName.ext (List.cons_eq_cons.mp hsplit).1)

/-- At the parameter of the name, its value is what is found. -/
theorem find_paramRe (before : List Char) (hd : isLead d = true) (hv : '&' ∉ v)
    (hrest : ∀ c ∈ rest.head?, c = '&') :
    ∃ m, (paramRe name).find before (d :: (Param.text (name, v) ++ rest)) = some ([], m) ∧
      m.get 1 = v := by
  have hword : Spells (paramWord name) (d :: (name.chars ++ ['='])) :=
    spells_paramWord.mpr ⟨d, hd, rfl⟩
  have hstar := Re.head_run_star (p := fun c => decide (c ≠ '&')) (t := v) (u := rest)
    (before ++ d :: (name.chars ++ ['='])) (fun c hc => decide_eq_true (ne_of_mem_of_not_mem hc hv))
    fun c hc => by simp [hrest c hc]
  have hrun := Re.head_run_seq (Re.head_run_lit before hword (u := v ++ rest))
    (Re.head_run_group (n := 1) hstar)
  have htext : d :: (Param.text (name, v) ++ rest) =
      d :: (name.chars ++ ['=']) ++ (v ++ rest) := by
    simp [Param.text]
  rw [htext]
  refine ⟨_, Re.find_of_head_run hrun, ?_⟩
  simp [Hit.append, Hit.get]

/-- A parameter that contains neither `&` nor `?` in its value. -/
def Param.Plain (p : Param) : Prop :=
  '&' ∉ p.2 ∧ '?' ∉ p.2

theorem isLead_eq_false : isLead c = false ↔ c ≠ '&' ∧ c ≠ '?' := by
  simp [isLead, and_comm]

theorem Param.Plain.not_isLead (hp : p.Plain) : ∀ c ∈ p.text, isLead c = false := by
  intro c hc
  rw [isLead_eq_false]
  rcases List.mem_append.mp hc with hc | hc
  · have hword := p.1.word c hc
    constructor <;> rintro rfl <;> exact absurd hword (by decide)
  rcases List.mem_cons.mp hc with rfl | hc
  · decide
  · exact ⟨ne_of_mem_of_not_mem hc hp.1, ne_of_mem_of_not_mem hc hp.2⟩

/-- The search passes over a parameter of another name. -/
theorem find_param (before : List Char) (hne : p.1 ≠ name) (hplain : p.Plain) :
    (paramRe name).find before (d :: p.text ++ cs) =
      ((paramRe name).find (before ++ d :: p.text) cs).map fun s => (d :: p.text ++ s.1, s.2) := by
  refine Re.find_append fun x c y htext => ?_
  cases x with
  | nil =>
    obtain ⟨rfl, rfl⟩ := List.cons_eq_cons.mp htext
    exact run_paramRe_of_ne _ hne
  | cons e x =>
    have hc : c ∈ p.text := by
      rw [(List.cons_eq_cons.mp htext).2]
      simp
    exact run_paramRe_of_not_isLead _ (hplain.not_isLead c hc)

theorem find_paramsText (before : List Char) (hne : ∀ p ∈ ps, p.1 ≠ name)
    (hplain : ∀ p ∈ ps, p.Plain) :
    (paramRe name).find before (paramsText d ps ++ cs) =
      ((paramRe name).find (before ++ paramsText d ps) cs).map fun s =>
        (paramsText d ps ++ s.1, s.2) := by
  induction ps generalizing before d with
  | nil => simp [paramsText]
  | cons p ps ih =>
    rw [List.forall_mem_cons] at hne hplain
    rw [paramsText, List.append_assoc, find_param before hne.1 hplain.1, ih _ hne.2 hplain.2]
    simp [Function.comp_def]

/-! ## The parameter that is found -/

theorem head_paramsText (ps : List Param) : ∀ c ∈ (paramsText '&' ps).head?, c = '&' := by
  cases ps <;> simp [paramsText]

/-- The first parameter of the name is found, whatever follows it. -/
theorem getParam_first {qs : List Param} (hne : ∀ p ∈ ps, p.1 ≠ name)
    (hplain : ∀ p ∈ ps, p.Plain) (hv : '&' ∉ v) :
    getParam (querySearch (ps ++ (name, v) :: qs)) name = (decodeURIComponent v).getD v := by
  obtain ⟨d, hd, htext⟩ := exists_paramsText_append (d := '?') rfl ps (name, v) qs
  obtain ⟨m, hfind, hget⟩ : ∃ m, (paramRe name).find ([] ++ paramsText '?' ps)
      (d :: (Param.text (name, v) ++ paramsText '&' qs)) = some ([], m) ∧ m.get 1 = v :=
    find_paramRe _ hd hv (head_paramsText qs)
  rw [getParam, querySearch_eq, htext, find_paramsText [] hne hplain, hfind]
  simp only [Option.map_some, hget]

/-- Without a parameter of the name there is nothing. -/
theorem getParam_none (hne : ∀ p ∈ ps, p.1 ≠ name) (hplain : ∀ p ∈ ps, p.Plain) :
    getParam (querySearch ps) name = [] := by
  have hfind : (paramRe name).find [] (paramsText '?' ps ++ []) = _ :=
    find_paramsText [] hne hplain
  have hend : (paramRe name).find ([] ++ paramsText '?' ps) [] = none := by
    rw [Re.find, run_paramRe_nil]
    rfl
  rw [List.append_nil, hend] at hfind
  rw [getParam, querySearch_eq, hfind]
  rfl

theorem Param.plain_encode (p : Param) : p.encode.Plain :=
  ⟨notMem_encodeURIComponent (by decide) (by decide) (by decide),
    notMem_encodeURIComponent (by decide) (by decide) (by decide)⟩

end

/-- `getParam` reads back what was encoded, the first of the name if there are several, and
returns a value that cannot be decoded as it is. -/
theorem getParam_query :
    (∀ (pairs : List Param) (n : ParamName),
      getParam (querySearch (pairs.map Param.encode)) n =
        ((pairs.find? fun p => p.1 = n).map Prod.snd).getD []) ∧
    ∀ (before after : List Param) (n : ParamName) (v : List Char),
      (∀ p ∈ before, p.1 ≠ n) → (∀ p ∈ before, p.Plain) → '&' ∉ v →
      decodeURIComponent v = none →
        getParam (querySearch (before ++ (n, v) :: after)) n = v := by
  constructor
  · intro pairs n
    have hplain : ∀ l : List Param, ∀ p ∈ l.map Param.encode, p.Plain := fun l p hp => by
      obtain ⟨q, -, rfl⟩ := List.mem_map.mp hp
      exact q.plain_encode
    cases hfind : pairs.find? fun p => p.1 = n with
    | none =>
      refine getParam_none (fun p hp => ?_) (hplain pairs)
      obtain ⟨q, hq, rfl⟩ := List.mem_map.mp hp
      simpa [Param.encode] using List.find?_eq_none.mp hfind q hq
    | some p =>
      obtain ⟨hp, before, after, rfl, hbefore⟩ := List.find?_eq_some_iff_append.mp hfind
      obtain rfl : p.1 = n := of_decide_eq_true hp
      have hne : ∀ q ∈ before.map Param.encode, q.1 ≠ p.1 := fun q hq => by
        obtain ⟨q, hmem, rfl⟩ := List.mem_map.mp hq
        simpa [Param.encode] using hbefore q hmem
      have hfirst : getParam (querySearch (before.map Param.encode ++
          (p.1, encodeURIComponent p.2) :: after.map Param.encode)) p.1 = _ :=
        getParam_first hne (hplain before) p.plain_encode.1
      rw [decodeURIComponent_encodeURIComponent] at hfirst
      rw [List.map_append, List.map_cons]
      exact hfirst
  · intro before after n v hne hplain hv hdecode
    rw [getParam_first hne hplain hv, hdecode, Option.getD_none]

def idParam : ParamName :=
  ⟨['i', 'd'], List.all_eq_true.mp rfl⟩

def titleParam : ParamName :=
  ⟨['t', 'i', 't', 'l', 'e'], List.all_eq_true.mp rfl⟩

theorem idParam_ne : idParam ≠ titleParam := fun h =>
  absurd (congrArg (fun n => n.chars.length) h) (by decide)

/-- `?id=7&title=%E4` -/
theorem undecodable_returned :
    getParam (querySearch [(idParam, ['7']), (titleParam, ['%', 'E', '4'])]) titleParam =
      ['%', 'E', '4'] :=
  getParam_query.2 [(idParam, ['7'])] [] titleParam ['%', 'E', '4']
    (List.forall_mem_singleton.mpr idParam_ne)
    (List.forall_mem_singleton.mpr ⟨by simp, by simp⟩) (by simp) rfl

end MySocket
