import SchemaBinding.Proofs.Code.UnitOutline

/-!
# The values of an enum in its blocks

The values of an enum are written three times, as enumerators in the header and as names and as
values in the source, and three times it is written how many they are.  The runtime takes a value by
the place of its name, so all of these have to agree.  They are read off the outlines of the blocks.

* `literalBetween?_quoted`, `numberBetween?_toString`: a literal and a number are read back from a
  line.
* `statementsOf_declaration`, `statementsOf_definition`: what stands in the bodies of the blocks.
* `mapM_enumerators`, `names_register`, `values_getValues`: the values.
* `count_register`, `count_getValues`, `count_getSize`: how many they are.
-/

namespace SchemaBinding.Code

open Schema

/-! ### Reading lines -/

/-- The text that a literal denotes that stands in a line between a beginning and an end. -/
def literalBetween? (front back line : String) : Option String := do
  let inner ← between? (front ++ "\"") ("\"" ++ back) line
  let (value, []) ← readLiteral (inner.toList ++ ['"']) | none
  return String.ofList value

/-- The number that stands in a line between a beginning and an end. -/
def numberBetween? (front back line : String) : Option Nat :=
  ((between? front back line).filter fun inner => inner.toList.all Char.isDigit).bind String.toNat?

theorem literalBetween?_quoted (front back s : String) :
    literalBetween? front back (front ++ quoted s ++ back) = some s := by
  have hinner : between? (front ++ "\"") ("\"" ++ back) (front ++ quoted s ++ back)
      = some (escape s) := by
    rw [between?_eq_some_iff, quoted]
    simp only [String.append_assoc]
  rw [literalBetween?, hinner]
  show (readLiteral _).bind _ = _
  rw [readLiteral_escape s []]
  show some (String.ofList s.toList) = _
  rw [String.ofList_toList]

theorem literalBetween?_of_between? {front back line : String}
    (h : between? (front ++ "\"") ("\"" ++ back) line = none) :
    literalBetween? front back line = none := by
  rw [literalBetween?, h]
  rfl

theorem numberBetween?_toString (front back : String) (n : Nat) :
    numberBetween? front back (front ++ toString n ++ back) = some n := by
  have hinner : between? front back (front ++ toString n ++ back) = some (toString n) :=
    between?_eq_some_iff.2 rfl
  have hdigits : (toString n).toList.all Char.isDigit = true := by
    rw [List.all_eq_true]
    exact fun c hc => isDigit_of_mem_toString hc
  rw [numberBetween?, hinner, Option.filter_some, if_pos hdigits, Option.bind_some]
  exact Nat.toNat?_repr n

/-- A character that belongs neither to a number nor to the pieces around it. -/
theorem numberBetween?_of_foreign {front back line : String} {c : Char} (hdigit : c.isDigit = false)
    (hfront : c ∉ front.toList) (hback : c ∉ back.toList) (hline : c ∈ line.toList) :
    numberBetween? front back line = none := by
  rw [numberBetween?]
  cases hfound : between? front back line with
  | none => rfl
  | some inner =>
    obtain rfl := between?_eq_some_iff.1 hfound
    simp only [String.toList_append, List.mem_append] at hline
    have hinner : c ∈ inner.toList := by
      rcases hline with (hline | hline) | hline
      · exact absurd hline hfront
      · exact hline
      · exact absurd hline hback
    have hall : ¬ inner.toList.all Char.isDigit = true := by
      rw [List.all_eq_true]
      intro hall
      rw [hall c hinner] at hdigit
      cases hdigit
    rw [Option.filter_some, if_neg hall, Option.bind_none]

/-! ### Reading bodies -/

/-- The statement that a line makes in a body that stands below this line. -/
def Entry.statement? (owner : String) : Entry → Option String
  | .statement other text => if other = owner then some text else none
  | _ => none

/-- The statements in the bodies of a unit that stand below this line. -/
def statementsOf (owner unit : String) : List String :=
  (outline unit).filterMap (Entry.statement? owner)

theorem Entry.statement?_self (owner line : String) :
    Entry.statement? owner (.statement owner line) = some line := if_pos rfl

theorem filterMap_statements_self (owner : String) (body : List String) :
    (statements owner body).filterMap (Entry.statement? owner) = body.filter (· ≠ "") := by
  rw [statements, filterMap_map_eq (h := id) fun line _ => Entry.statement?_self owner line,
    List.map_id]

theorem filterMap_statements_of_ne {owner other : String} (h : other ≠ owner)
    (body : List String) : (statements other body).filterMap (Entry.statement? owner) = [] := by
  rw [List.filterMap_eq_nil_iff]
  intro entry hentry
  obtain ⟨line, -, rfl⟩ := List.mem_map.1 hentry
  exact if_neg h

/-- Of functions with different signatures, each body is found by its own. -/
theorem filterMap_entries {fs : List Function} {qualifier : String}
    (hnodup : (fs.map fun f => f.signature.text qualifier).Nodup) (scope? : Option String)
    {f : Function} (hf : f ∈ fs) :
    (fs.flatMap (Function.entries scope? qualifier)).filterMap
        (Entry.statement? (f.signature.text qualifier))
      = f.body.filter (· ≠ "") := by
  have hentries : ∀ (g : Function) (owner : String),
      (g.entries scope? qualifier).filterMap (Entry.statement? owner)
        = (statements (g.signature.text qualifier) g.body).filterMap (Entry.statement? owner) :=
    fun g owner => List.filterMap_cons_none rfl
  induction fs with
  | nil => cases hf
  | cons first rest ih =>
    rw [List.map_cons, List.nodup_cons] at hnodup
    rw [List.flatMap_cons, List.filterMap_append, hentries]
    rcases List.mem_cons.1 hf with rfl | hf
    · have hothers : (rest.flatMap (Function.entries scope? qualifier)).filterMap
          (Entry.statement? (f.signature.text qualifier)) = [] := by
        rw [List.filterMap_flatMap, List.flatMap_eq_nil_iff]
        intro g hg
        rw [hentries]
        refine filterMap_statements_of_ne (fun hsame => hnodup.1 ?_) _
        rw [← hsame]
        exact List.mem_map_of_mem hg
      rw [filterMap_statements_self, hothers, List.append_nil]
    · have hne : first.signature.text qualifier ≠ f.signature.text qualifier := fun hsame =>
        hnodup.1 (hsame ▸ List.mem_map_of_mem hf)
      rw [filterMap_statements_of_ne hne, List.nil_append]
      exact ih hnodup.2 hf

/-- Texts with ends of one length that differ. -/
theorem ne_of_endings {s t x y : String} (hs : x.toList <:+ s.toList) (ht : y.toList <:+ t.toList)
    (hlength : x.toList.length = y.toList.length) (hne : x ≠ y) : s ≠ t := by
  rintro rfl
  have hsuffix : x.toList <:+ y.toList := List.suffix_of_suffix_length_le hs ht hlength.le
  exact hne (String.toList_inj.1 (hsuffix.eq_of_length hlength))

namespace EnumBlock

variable {settings : Settings} {e : EnumDecl}

/-- The settings that the blocks of an enum look at. -/
def consulted (settings : Settings) : Settings := ⟨"", settings.runtimeNamespace, [], []⟩

theorem unbroken_consulted (hs : '\n' ∉ settings.runtimeNamespace.toList) :
    (consulted settings).Unbroken where
  baseName := by simp [consulted]
  runtimeNamespace := hs
  headerIncludes := by simp [consulted]
  sourceIncludes := by simp [consulted]

theorem nodup_signatures (settings : Settings) (e : EnumDecl) :
    ((functions settings e).map fun f => f.signature.text "").Nodup := by
  have hregister : "r()".toList <:+ ((register settings e).signature.text "").toList :=
    ⟨"void Registe".toList, by simp [register, registerSignature, Signature.text]⟩
  have hinfos : "s()".toList <:+ ((getInfos settings e).signature.text "").toList :=
    ⟨("const " ++ infos settings ++ "* GetDataEnumInfo").toList, by
      simp [getInfos, infosSignature, Signature.text]⟩
  have hvalues : "es)".toList <:+ ((getValues e).signature.text "").toList :=
    ⟨("void GetEnumValues(std::vector<" ++ e.generatedName ++ "::Type>& enumValu").toList, by
      simp [getValues, valuesSignature, Signature.text]⟩
  have hsize : "e()".toList <:+ ((getSize e).signature.text "").toList :=
    ⟨"size_t GetSiz".toList, by simp [getSize, sizeSignature, Signature.text]⟩
  simp only [functions, List.map_cons, List.map_nil, List.nodup_cons, List.mem_cons,
    List.not_mem_nil, or_false, not_or, not_false_eq_true, List.nodup_nil, and_true]
  exact ⟨⟨ne_of_endings hregister hinfos rfl (by decide),
    ne_of_endings hregister hvalues rfl (by decide),
    ne_of_endings hregister hsize rfl (by decide)⟩,
    ⟨ne_of_endings hinfos hvalues rfl (by decide), ne_of_endings hinfos hsize rfl (by decide)⟩,
    ne_of_endings hvalues hsize rfl (by decide)⟩

theorem ne_empty_of_mem_body {f : Function} (hf : f ∈ functions settings e) :
    ∀ line ∈ f.body, line ≠ "" := by
  -- every line of a body ends in a semicolon
  have hsemicolon : ∀ line ∈ f.body, ';' ∈ line.toList := by
    simp only [functions, List.mem_cons, List.not_mem_nil, or_false] at hf
    rcases hf with rfl | rfl | rfl | rfl
    · intro line hline
      simp only [register, registrations, List.mem_append, List.mem_cons, List.mem_map,
        List.not_mem_nil, or_false] at hline
      rcases hline with ((rfl | rfl) | ⟨value, -, rfl⟩) | rfl <;> simp
    · simp [getInfos]
    · simp [getValues, collections]
    · simp [getSize]
  intro line hline
  exact ne_empty_of_mem (hsemicolon line hline)

variable (hs : '\n' ∉ settings.runtimeNamespace.toList)
  (hname : isIdentifier e.generatedName = true)
  (hvalues : ∀ value ∈ e.values, isIdentifier value = true)

include hs hname hvalues

/-- **The statements of a function of an enum**, read off its block in the source. -/
theorem statementsOf_definition {f : Function} (hf : f ∈ functions settings e) :
    statementsOf (f.signature.text "") (Text.unlines (definition settings e)) = f.body := by
  have hyields : Yields [] (definition (consulted settings) e)
      (definitionEntries (consulted settings) e) :=
    yields_definition (unbroken_consulted hs) hname hvalues
  have houtline : outline (Text.unlines (definition settings e)) = definitionEntries settings e :=
    outline_unlines hyields
  have hfilled : f.body.filter (· ≠ "") = f.body := by
    rw [List.filter_eq_self]
    intro line hline
    exact decide_eq_true (ne_empty_of_mem_body hf line hline)
  rw [statementsOf, houtline, definitionEntries, List.filterMap_cons_none rfl,
    filterMap_entries (nodup_signatures settings e) _ hf, hfilled]

/-- **The enumerators of an enum**, read off its block in the header. -/
theorem statementsOf_declaration :
    statementsOf "enum Type" (Text.unlines (declaration settings e)) = enumerators e := by
  have hyields : Yields [] (declaration (consulted settings) e)
      (declarationEntries (consulted settings) e) :=
    yields_declaration (unbroken_consulted hs) hname hvalues
  have houtline : outline (Text.unlines (declaration settings e)) = declarationEntries settings e :=
    outline_unlines hyields
  have hvalues : ((enumerators e).map (Entry.statement "enum Type")).filterMap
      (Entry.statement? "enum Type") = enumerators e := by
    rw [filterMap_map_eq (h := id) fun line _ => Entry.statement?_self "enum Type" line,
      List.map_id]
  have hdeclared : ((declaredSignatures settings e).map fun s =>
      Entry.declared (some e.generatedName) (s.text "" ++ ";")).filterMap
      (Entry.statement? "enum Type") = [] := by
    rw [List.filterMap_map, List.filterMap_eq_nil_iff]
    intro s _
    rfl
  rw [statementsOf, houtline, declarationEntries, List.filterMap_append,
    List.filterMap_cons_none rfl, hvalues, hdeclared, List.append_nil]

omit hs hname hvalues

/-! ### What the bodies say -/

/-- The line that makes the description of an enum, by what it ends in. -/
theorem ending_infos (settings : Settings) :
    "s;".toList <:+ (infos settings ++ "* enumInfos = new " ++ infos settings ++ ";").toList := by
  have hinfos : infos settings = settings.scope ++ "DataEnumInfos" := settings.runtime_eq _
  rw [hinfos]
  exact ⟨(settings.scope ++ "DataEnumInfos* enumInfos = new " ++ settings.scope
    ++ "DataEnumInfo").toList, by simp⟩

/-- The line that hands the description over, by what it ends in. -/
theorem ending_handover (settings : Settings) (e : EnumDecl) :
    "s);".toList <:+ (resources settings ++ "->RegisterDataEnumInfos(" ++ quoted e.name
      ++ ", enumInfos);").toList :=
  ⟨(resources settings ++ "->RegisterDataEnumInfos(" ++ quoted e.name ++ ", enumInfo").toList,
    by simp⟩

theorem mapM_enumerators (hvalues : ∀ value ∈ e.values, isIdentifier value = true) :
    (enumerators e).mapM (nameBetween? "" ",") = some e.values := by
  have hread : (enumerators e).mapM (nameBetween? "" ",") = some (e.values.map id) := by
    refine mapM_map_eq_some fun value hvalue => ?_
    have hself := nameBetween?_self (hvalues value hvalue) "" ","
    rwa [String.empty_append] at hself
  rwa [List.map_id] at hread

/-- **The names of the values are registered**, in order, and no other literals are pushed. -/
theorem names_register (settings : Settings) (e : EnumDecl) :
    (register settings e).body.filterMap (literalBetween? "enumInfos->values.push_back(" ");")
      = e.values := by
  have hfirst : literalBetween? "enumInfos->values.push_back(" ");"
      (infos settings ++ "* enumInfos = new " ++ infos settings ++ ";") = none :=
    literalBetween?_of_between?
      (between?_of_ending (ending_infos settings) (by decide) (by decide))
  have hreserve : literalBetween? "enumInfos->values.push_back(" ");"
      ("enumInfos->values.reserve(" ++ count e ++ ");") = none := by
    refine literalBetween?_of_between? (between?_of_missing (c := '"') (by simp) ?_)
    have hdigits : '"' ∉ (count e).toList := fun hmem =>
      absurd (isDigit_of_mem_toString hmem) (by decide)
    simp [hdigits]
  have hlast : literalBetween? "enumInfos->values.push_back(" ");"
      (resources settings ++ "->RegisterDataEnumInfos(" ++ quoted e.name ++ ", enumInfos);")
      = none :=
    literalBetween?_of_between?
      (between?_of_ending (ending_handover settings e) (by decide) (by decide))
  have hpushed : (registrations e).filterMap (literalBetween? "enumInfos->values.push_back(" ");")
      = e.values.map id :=
    filterMap_map_eq fun value _ => literalBetween?_quoted _ _ value
  rw [register, List.filterMap_append, List.filterMap_append, hpushed,
    List.filterMap_cons_none hfirst, List.filterMap_cons_none hreserve,
    List.filterMap_cons_none hlast, List.map_id]
  simp

/-- Room is reserved for as many names as there are values. -/
theorem count_register (settings : Settings) (e : EnumDecl) :
    (register settings e).body.filterMap (numberBetween? "enumInfos->values.reserve(" ");")
      = [e.values.length] := by
  have hforeign : ∀ c line, c.isDigit = false → c ∉ "enumInfos->values.reserve(".toList →
      c ∉ ");".toList → c ∈ line.toList →
      numberBetween? "enumInfos->values.reserve(" ");" line = none :=
    fun _ _ hdigit hfront hback hline => numberBetween?_of_foreign hdigit hfront hback hline
  have hfirst := hforeign '*' (infos settings ++ "* enumInfos = new " ++ infos settings ++ ";")
    (by decide) (by decide) (by decide) (by simp)
  have hreserve := numberBetween?_toString "enumInfos->values.reserve(" ");" e.values.length
  have hpushed : (registrations e).filterMap (numberBetween? "enumInfos->values.reserve(" ");")
      = [] := by
    rw [List.filterMap_eq_nil_iff]
    intro line hline
    obtain ⟨value, -, rfl⟩ := List.mem_map.1 hline
    exact hforeign '"' _ (by decide) (by decide) (by decide) (by simp [quoted])
  have hlast := hforeign '"'
    (resources settings ++ "->RegisterDataEnumInfos(" ++ quoted e.name ++ ", enumInfos);")
    (by decide) (by decide) (by decide) (by simp [quoted])
  rw [register, List.filterMap_append, List.filterMap_append, hpushed,
    List.filterMap_cons_none hfirst, count, List.filterMap_cons_some hreserve,
    List.filterMap_cons_none hlast]
  simp

/-- **The values are collected**, in order, by the name of the enum. -/
theorem values_getValues (hvalues : ∀ value ∈ e.values, isIdentifier value = true) :
    (getValues e).body.filterMap
        (nameBetween? ("enumValues.push_back(" ++ e.generatedName ++ "::") ");")
      = e.values := by
  have hreserve : nameBetween? ("enumValues.push_back(" ++ e.generatedName ++ "::") ");"
      ("enumValues.reserve(" ++ count e ++ ");") = none := by
    refine nameBetween?_of_missing (c := ':') (Or.inl (by simp)) ?_
    have hdigits : ':' ∉ (count e).toList := fun hmem =>
      absurd (isDigit_of_mem_toString hmem) (by decide)
    simp [hdigits]
  have hcollected : (collections e).filterMap
      (nameBetween? ("enumValues.push_back(" ++ e.generatedName ++ "::") ");")
      = e.values.map id :=
    filterMap_map_eq fun value hvalue => nameBetween?_self (hvalues value hvalue) _ _
  rw [getValues, List.filterMap_append, List.filterMap_cons_none hreserve, hcollected, List.map_id]
  simp

/-- Room is reserved for as many values as there are. -/
theorem count_getValues (e : EnumDecl) :
    (getValues e).body.filterMap (numberBetween? "enumValues.reserve(" ");")
      = [e.values.length] := by
  have hreserve := numberBetween?_toString "enumValues.reserve(" ");" e.values.length
  have hcollected : (collections e).filterMap (numberBetween? "enumValues.reserve(" ");") = [] := by
    rw [List.filterMap_eq_nil_iff]
    intro line hline
    obtain ⟨value, -, rfl⟩ := List.mem_map.1 hline
    exact numberBetween?_of_foreign (c := ':') (by decide) (by decide) (by decide) (by simp)
  rw [getValues, List.filterMap_append, count, List.filterMap_cons_some hreserve, hcollected]
  simp

theorem count_getSize (e : EnumDecl) :
    (getSize e).body.filterMap (numberBetween? "return " ";") = [e.values.length] := by
  have hreturn := numberBetween?_toString "return " ";" e.values.length
  rw [getSize, count, List.filterMap_cons_some hreturn]
  simp

/-! ### What the blocks say -/

def declaredValues? (block : String) : Option (List String) :=
  (statementsOf "enum Type" block).mapM (nameBetween? "" ",")

def registeredNames (block : String) : List String :=
  (statementsOf "void Register()" block).filterMap
    (literalBetween? "enumInfos->values.push_back(" ");")

/-- The line above the body that collects the values of an enum. -/
def collectorHead (name : String) : String :=
  "void GetEnumValues(" ++ ("std::vector<" ++ name ++ "::Type>& enumValues") ++ ")"

theorem text_getValues (e : EnumDecl) :
    (getValues e).signature.text "" = collectorHead e.generatedName := by
  have hhead : "void" ++ " " ++ "GetEnumValues" ++ "(" = "void GetEnumValues(" := by decide
  unfold getValues valuesSignature Signature.text collectorHead
  simp only [String.append_empty, Bool.false_eq_true, if_false]
  rw [← hhead]

def collectedValues (name block : String) : List String :=
  (statementsOf (collectorHead name) block).filterMap
    (nameBetween? ("enumValues.push_back(" ++ name ++ "::") ");")

/-- The numbers of names that room is reserved for. -/
def reservedNames (block : String) : List Nat :=
  (statementsOf "void Register()" block).filterMap
    (numberBetween? "enumInfos->values.reserve(" ");")

/-- The numbers of values that room is reserved for. -/
def reservedValues (name block : String) : List Nat :=
  (statementsOf (collectorHead name) block).filterMap (numberBetween? "enumValues.reserve(" ");")

def answeredSizes (block : String) : List Nat :=
  (statementsOf "size_t GetSize()" block).filterMap (numberBetween? "return " ";")

/-- **The two blocks of an enum agree about its values.**  The enumerators in the header, the names
that are registered in the source and the values that are collected there are the values of the
enum, in order, and their number is what room is reserved for and what the size is. -/
theorem values_agree (hs : '\n' ∉ settings.runtimeNamespace.toList)
    (hname : isIdentifier e.generatedName = true)
    (hvalues : ∀ value ∈ e.values, isIdentifier value = true) :
    declaredValues? (Text.unlines (declaration settings e)) = some e.values
    ∧ registeredNames (Text.unlines (definition settings e)) = e.values
    ∧ collectedValues e.generatedName (Text.unlines (definition settings e)) = e.values
    ∧ reservedNames (Text.unlines (definition settings e)) = [e.values.length]
    ∧ reservedValues e.generatedName (Text.unlines (definition settings e)) = [e.values.length]
    ∧ answeredSizes (Text.unlines (definition settings e)) = [e.values.length] := by
  have hbody : ∀ f ∈ functions settings e, ∀ head, f.signature.text "" = head →
      statementsOf head (Text.unlines (definition settings e)) = f.body := by
    rintro f hf head rfl
    exact statementsOf_definition hs hname hvalues hf
  have hregister : statementsOf "void Register()" (Text.unlines (definition settings e))
      = (register settings e).body :=
    hbody (register settings e) (by simp [functions]) _
      (by simp [register, registerSignature, Signature.text])
  have hcollector : statementsOf (collectorHead e.generatedName)
      (Text.unlines (definition settings e)) = (getValues e).body :=
    hbody (getValues e) (by simp [functions]) _ (text_getValues e)
  have hsize : statementsOf "size_t GetSize()" (Text.unlines (definition settings e))
      = (getSize e).body :=
    hbody (getSize e) (by simp [functions]) _ (by simp [getSize, sizeSignature, Signature.text])
  refine ⟨?_, ?_, ?_, ?_, ?_, ?_⟩
  · rw [declaredValues?, statementsOf_declaration hs hname hvalues]
    exact mapM_enumerators hvalues
  · rw [registeredNames, hregister]
    exact names_register settings e
  · rw [collectedValues, hcollector]
    exact values_getValues hvalues
  · rw [reservedNames, hregister]
    exact count_register settings e
  · rw [reservedValues, hcollector]
    exact count_getValues e
  · rw [answeredSizes, hsize]
    exact count_getSize e

/-- An enum that no identifier could name. -/
def cutEnum : EnumDecl := ⟨"cut \"A\"", "ECut", ["Round", "Oval"]⟩

/-- Settings with a namespace of the runtime that looks like a statement. -/
def oddSettings : Settings :=
  Settings.standard.withRuntimeNamespace "enumInfos->values.push_back(\"Fake\");"

theorem values_agree_cutEnum :
    declaredValues? (Text.unlines (declaration oddSettings cutEnum)) = some ["Round", "Oval"]
    ∧ registeredNames (Text.unlines (definition oddSettings cutEnum)) = ["Round", "Oval"]
    ∧ collectedValues "ECut" (Text.unlines (definition oddSettings cutEnum)) = ["Round", "Oval"]
    ∧ reservedNames (Text.unlines (definition oddSettings cutEnum)) = [2]
    ∧ reservedValues "ECut" (Text.unlines (definition oddSettings cutEnum)) = [2]
    ∧ answeredSizes (Text.unlines (definition oddSettings cutEnum)) = [2] := by
  have hs : '\n' ∉ oddSettings.runtimeNamespace.toList := by decide +kernel
  have hname : isIdentifier cutEnum.generatedName = true := by decide +kernel
  have hvalues : ∀ value ∈ cutEnum.values, isIdentifier value = true := by decide +kernel
  exact values_agree hs hname hvalues

end EnumBlock

end SchemaBinding.Code
