import SchemaBinding.Proofs.Code.Unbroken

/-!
# Outlines of the two files

What the header and the source say is put together from the document and the settings, without their
text: `headerEntries` and `sourceEntries`.  Both files are read as just that.

* `EnumBlock.yields_declaration`, `EnumBlock.yields_definition`: the blocks of an enum.
* `ClassBlock.yields_declaration`, `ClassBlock.yields_definition`: the blocks of a class.
* `outline_header`, `outline_source`: the outlines of the two files.
-/

namespace SchemaBinding.Code

open Schema

variable {settings : Settings} {doc : Document} {c : ClassDecl} {e : EnumDecl}

/-! ### What is said -/

def Function.entries (scope? : Option String) (qualifier : String) (f : Function) : List Entry :=
  .defined scope? (f.signature.text qualifier) :: statements (f.signature.text qualifier) f.body

namespace EnumBlock

def declaredSignatures (settings : Settings) (e : EnumDecl) : List Signature :=
  [infosSignature settings, valuesSignature e, sizeSignature, registerSignature]

def declarationEntries (settings : Settings) (e : EnumDecl) : List Entry :=
  .enumBlock e.generatedName
    :: (enumerators e).map (.statement "enum Type")
    ++ (declaredSignatures settings e).map fun s =>
      .declared (some e.generatedName) (s.text "" ++ ";")

def definitionEntries (settings : Settings) (e : EnumDecl) : List Entry :=
  .enumBlock e.generatedName
    :: (functions settings e).flatMap (Function.entries (some e.generatedName) "")

end EnumBlock

namespace ClassBlock

def fieldText (m : Member) (r : Resolution) : String := r.signature ++ " " ++ m.generatedName ++ ";"

/-- The signatures of the functions that are called by the runtime. -/
def overrideSignatures (settings : Settings) (c : ClassDecl) : List Signature :=
  parseSignature settings
    :: if c.kind.serializable then [serializeSignature settings, instanceTypeSignature] else []

def declarationEntries (settings : Settings) (doc : Document) (c : ClassDecl) : List Entry :=
  [.classBlock c.generatedName (parentType settings doc c),
      .declared (some c.generatedName) ((constructorSignature c).text "" ++ ";"),
      .declared (some c.generatedName) ("virtual " ++ (destructorSignature c).text "" ++ ";")]
    ++ c.emittedMembers.map (fun (m, r) => .field c.generatedName (fieldText m r))
    ++ (overrideSignatures settings c).map fun s =>
      .declared (some c.generatedName) ("virtual " ++ s.text "" ++ " override;")

def definitionEntries (settings : Settings) (doc : Document) (c : ClassDecl) : List Entry :=
  (functions settings doc c).flatMap (Function.entries none (c.generatedName ++ "::"))

end ClassBlock

def FactoryBranch.entries (owner : String) (b : FactoryBranch) : List Entry :=
  [.statement owner ("if (classType == " ++ quoted b.name ++ ")"),
    .statement owner ("return new " ++ b.generatedName ++ ";")]

def factoryEntries (settings : Settings) (doc : Document) : List Entry :=
  let text := (factorySignature settings).text ""
  .defined none text
    :: (factoryBranches doc).flatMap (FactoryBranch.entries text)
    ++ [.statement text "return nullptr;"]

def openingEntries (nameSpace : String) : List Entry :=
  if nameSpace = "" then [] else [.opened nameSpace]

def closingEntries (nameSpace : String) : List Entry :=
  if nameSpace = "" then [] else [.closed nameSpace]

def headerEntries (settings : Settings) (doc : Document) : List Entry :=
  settings.headerIncludes.map .included
    ++ openingEntries doc.nameSpace
    ++ doc.classes.items.map (fun c => .forward c.generatedName)
    ++ doc.enums.items.flatMap (EnumBlock.declarationEntries settings)
    ++ doc.classes.items.flatMap (ClassBlock.declarationEntries settings doc)
    ++ [.declared none ((registerSignature settings).text "" ++ ";"),
      .declared none ((factorySignature settings).text "" ++ ";")]
    ++ closingEntries doc.nameSpace

def sourceEntries (settings : Settings) (doc : Document) : List Entry :=
  .included settings.headerFile
    :: settings.sourceIncludes.map .included
    ++ openingEntries doc.nameSpace
    ++ doc.enums.items.flatMap (EnumBlock.definitionEntries settings)
    ++ doc.classes.items.flatMap (ClassBlock.definitionEntries settings doc)
    ++ (registerFunction settings doc).entries none ""
    ++ factoryEntries settings doc
    ++ closingEntries doc.nameSpace

/-! ### Lines outside of blocks -/

theorem yields_file {text : String} (h : Legible text) :
    Yields [] [text] (entryOf? text).toList := yields_indented h

theorem yields_silent {text : String} (h : Legible text) (hnone : entryOf? text = none) :
    Yields [] [text] [] := by
  have hline := yields_file h
  rwa [hnone] at hline

theorem yields_banner : Yields [] [banner] [] :=
  yields_silent ⟨by decide +kernel, by decide +kernel⟩ (by decide +kernel)

theorem yields_sectionTitle {title : String} (h : Legible ("// " ++ title))
    (hnone : entryOf? ("// " ++ title) = none) : Yields [] (sectionTitle title) [] :=
  (yields_banner.append (yields_silent h hnone)).append (yields_blank [])

theorem entryOf?_includeLine (file : String) :
    entryOf? (includeLine file) = some (.included file) := by
  have hlast : (includeLine file).toList.getLast? = some '"' := getLast?_toList_append (by decide) _
  have hfound : between? "#include \"" "\"" (includeLine file) = some file := by
    rw [between?_eq_some_iff, includeLine]
    rfl
  rw [entryOf?, if_neg (not_isDeclaration_of_last hlast (by decide)), hfound]
  rfl

theorem yields_includeLine {file : String} (h : '\n' ∉ file.toList) :
    Yields [] [includeLine file] [.included file] := by
  have hline : Legible (includeLine file) :=
    .of_mem (c := '#') (by simp [includeLine, h]) (by simp [includeLine]) (by decide)
  have hyields := yields_file hline
  rwa [entryOf?_includeLine] at hyields

theorem yields_includeSection {files : List String} (h : ∀ file ∈ files, '\n' ∉ file.toList) :
    Yields [] (includeSection files) (files.map .included) := by
  unfold includeSection
  split
  · next hnil =>
    rw [hnil]
    exact .nil
  · have htitle : Yields [] (sectionTitle "Includes") [] :=
      yields_sectionTitle ⟨by decide, by decide⟩ (by decide +kernel)
    have hlines : Yields [] _ _ := Yields.map fun file hfile => yields_includeLine (h file hfile)
    have hall := (htitle.append hlines).append (yields_blank [])
    rwa [List.append_nil] at hall

/-- Every line that opens and closes the namespace is silent but for that. -/
theorem yields_opening {nameSpace : String} (h : nameSpace = "" ∨ isIdentifier nameSpace = true) :
    Yields [] (opening nameSpace) (openingEntries nameSpace) := by
  unfold opening openingEntries
  split
  · exact .nil
  · next hne =>
    have hname := h.resolve_left hne
    have hlast : ("namespace " ++ nameSpace ++ " \x7b").toList.getLast? = some '\x7b' :=
      getLast?_toList_append (by decide) _
    have hincluded : between? "#include \"" "\"" ("namespace " ++ nameSpace ++ " \x7b") = none :=
      between?_of_last (by decide : _ = some '"') hlast (by decide)
    have hline : Legible ("namespace " ++ nameSpace ++ " \x7b") :=
      .of_mem (c := ' ') (by simp [unbroken_of_isIdentifier hname]) (by simp) (by decide)
    have hyields := yields_file hline
    rw [entryOf?, if_neg (not_isDeclaration_of_last hlast (by decide)), hincluded,
      nameBetween?_self hname] at hyields
    exact hyields.append (yields_blank [])

theorem yields_closing {nameSpace : String} (h : nameSpace = "" ∨ isIdentifier nameSpace = true) :
    Yields [] (closing nameSpace) (closingEntries nameSpace) := by
  unfold closing closingEntries
  split
  · exact .nil
  · next hne =>
    have hname := h.resolve_left hne
    have hnone : ∀ {c : Char}, isWordCharacter c = false → c ∉ "\x7d // namespace ".toList →
        c ∉ ("\x7d // namespace " ++ nameSpace).toList := fun hword => notMem_behind hname hword
    have hself := nameBetween?_self hname "\x7d // namespace " ""
    rw [String.append_empty] at hself
    have hline : Legible ("\x7d // namespace " ++ nameSpace) :=
      .of_mem (c := ' ') (hnone (by decide) (by decide)) (by simp) (by decide)
    have hyields := yields_file hline
    rw [entryOf?, if_neg (not_isDeclaration_of_notMem (hnone (by decide) (by decide))),
      between?_of_missing (Or.inr (by decide)) (hnone (c := '"') (by decide) (by decide)),
      nameBetween?_of_missing (Or.inr (by decide)) (hnone (c := '\x7b') (by decide) (by decide)),
      hself] at hyields
    exact hyields

/-! ### Heads of blocks -/

theorem yields_forward {name : String} (h : isIdentifier name = true) :
    Yields [] ["class " ++ name ++ ";"] [.forward name] := by
  have hnone : ∀ {c : Char}, isWordCharacter c = false → c ∉ "class ".toList → c ∉ ";".toList →
      c ∉ ("class " ++ name ++ ";").toList := fun hword => notMem_around h hword
  have hline : Legible ("class " ++ name ++ ";") :=
    .of_mem (c := ' ') (hnone (by decide) (by decide) (by decide)) (by simp) (by decide)
  have hyields := yields_file hline
  rw [entryOf?,
    if_neg (not_isDeclaration_of_notMem (hnone (by decide) (by decide) (by decide))),
    between?_of_missing (Or.inr (by decide)) (hnone (c := '"') (by decide) (by decide) (by decide)),
    nameBetween?_of_missing (Or.inr (by decide))
      (hnone (c := '\x7b') (by decide) (by decide) (by decide)),
    nameBetween?_of_missing (Or.inl (by decide))
      (hnone (c := '\x7d') (by decide) (by decide) (by decide)),
    nameBetween?_self h] at hyields
  exact hyields

theorem yields_forwardDeclarations
    (h : ∀ c ∈ doc.classes.items, isIdentifier c.generatedName = true) :
    Yields [] (forwardDeclarations doc)
      (doc.classes.items.map fun c => .forward c.generatedName) := by
  unfold forwardDeclarations
  split
  · next hnil =>
    rw [hnil]
    exact .nil
  · have hlines : Yields [] _ _ := Yields.map fun c hc => yields_forward (h c hc)
    have hall := hlines.append (yields_blank [])
    rwa [List.append_nil] at hall

/-- The line above the block of an enum says nothing until the block begins. -/
theorem entryOf?_enumHead {name : String} (h : isIdentifier name = true) :
    entryOf? ("namespace " ++ name) = none := by
  have hnone : ∀ {c : Char}, isWordCharacter c = false → c ∉ "namespace ".toList →
      c ∉ ("namespace " ++ name).toList := fun hword => notMem_behind h hword
  rw [entryOf?, if_neg (not_isDeclaration_of_notMem (hnone (by decide) (by decide))),
    between?_of_missing (Or.inr (by decide)) (hnone (c := '"') (by decide) (by decide)),
    nameBetween?_of_missing (Or.inr (by decide)) (hnone (c := '\x7b') (by decide) (by decide)),
    nameBetween?_of_missing (Or.inl (by decide)) (hnone (c := '\x7d') (by decide) (by decide)),
    nameBetween?_of_missing (Or.inr (by decide)) (hnone (c := ';') (by decide) (by decide))]
  rfl

theorem block_enumHead {name : String} (h : isIdentifier name = true) :
    block none ("namespace " ++ name) = (.space name, [.enumBlock name]) := by
  have hparen : '(' ∉ ("namespace " ++ name).toList := notMem_behind h (by decide) (by decide)
  have hself := nameBetween?_self h "namespace " ""
  rw [String.append_empty] at hself
  simp only [block, if_neg fun hsignature : IsSignature _ => hparen hsignature.1, hself]

/-- What a class is derived from does not end like a signature. -/
theorem not_isSignature_classHead {name base : String} (h : isIdentifier name = true)
    (hbase : isIdentifier base = true ∨ ∃ scope kind, base = scope ++ ClassKind.rootClass kind) :
    ¬ IsSignature ("class " ++ name ++ " : public " ++ base) := by
  rintro ⟨hparen, hends⟩
  rcases hbase with hbase | ⟨scope, kind, rfl⟩
  · refine absurd hparen (notMem_behind hbase (by decide) ?_)
    exact notMem_around h (by decide) (by decide) (by decide)
  · -- both ends would be ends of the same text
    have hroot : kind.rootClass.toList
        <:+ ("class " ++ name ++ " : public " ++ (scope ++ kind.rootClass)).toList := by
      simp only [String.toList_append, ← List.append_assoc]
      exact List.suffix_append _ _
    have hends' : ∀ ending : String, ending.toList.length ≤ kind.rootClass.toList.length →
        ending.toList <:+ ("class " ++ name ++ " : public " ++ (scope ++ kind.rootClass)).toList →
        ending.toList <:+ kind.rootClass.toList :=
      fun ending hlength hend => List.suffix_of_suffix_length_le hend hroot hlength
    rcases hends with hend | hend
    · have hroot := hends' ")" (by cases kind <;> decide) hend
      cases kind <;> revert hroot <;> decide
    · have hroot := hends' ") const" (by cases kind <;> decide) hend
      cases kind <;> revert hroot <;> decide

theorem classHead?_text {name : String} (h : isIdentifier name = true) (base : String) :
    classHead? ("class " ++ name ++ " : public " ++ base) = some (name, base) := by
  have hline : ("class " ++ name ++ " : public " ++ base).toList
      = "class ".toList ++ (name.toList ++ (" : public ".toList ++ base.toList)) := by
    simp only [String.toList_append, List.append_assoc]
  have hword := isWordCharacter_of_isIdentifier h
  have hrest : ∀ c ∈ (" : public ".toList ++ base.toList).head?, isWordCharacter c = false := by
    intro c hc
    cases Option.some.inj hc
    decide
  rw [classHead?, hline, behind?_append]
  show (behind? _ (List.dropWhile _ _)).bind _ = _
  rw [dropWhile_append_of_all hword hrest, behind?_append, Option.bind_some,
    takeWhile_append_of_all hword hrest, String.ofList_toList, if_pos h, String.ofList_toList]

theorem block_classHead {name base : String} (h : isIdentifier name = true)
    (hbase : isIdentifier base = true ∨ ∃ scope kind, base = scope ++ ClassKind.rootClass kind) :
    block none ("class " ++ name ++ " : public " ++ base)
      = (.type name, [.classBlock name base]) := by
  have hhead : ("class " ++ name ++ " : public " ++ base).toList.head? = some 'c' := by
    simp
  have hspace : nameBetween? "namespace " "" ("class " ++ name ++ " : public " ++ base) = none := by
    rw [nameBetween?, between?_of_head (by decide : _ = some 'n') hhead (by decide),
      Option.filter_none]
  simp only [block, if_neg (not_isSignature_classHead h hbase), hspace, classHead?_text h]

theorem entryOf?_classHead (name : String) {base : String} {c : Char}
    (hlast : base.toList.getLast? = some c) (hc : c ≠ ';') :
    entryOf? ("class " ++ name ++ " : public " ++ base) = none := by
  have hhead : ("class " ++ name ++ " : public " ++ base).toList.head? = some 'c' := by
    simp
  have hcolon : ':' ∈ ("class " ++ name ++ " : public " ++ base).toList := by simp
  rw [entryOf?, if_neg (not_isDeclaration_of_last (getLast?_toList_append hlast _) hc),
    between?_of_head (by decide : _ = some '#') hhead (by decide),
    nameBetween?, between?_of_head (by decide : _ = some 'n') hhead (by decide),
    nameBetween?, between?_of_head (by decide : _ = some '\x7d') hhead (by decide),
    nameBetween?_of_foreign (by decide) (by decide) (by decide) hcolon]
  rfl

/-! ### Blocks of enums -/

theorem LegibleFunction.yields {frames : List Frame} {qualifier : String} {f : Function}
    (h : LegibleFunction qualifier f) (hframes : ∀ owner, frames.head? ≠ some (.body owner)) :
    Yields frames ((f.lines qualifier).map indent^[frames.length])
      (f.entries (frames.head?.bind Frame.scope?) qualifier) :=
  yields_function hframes h.signature (yields_body h.body)

theorem LegibleFunction.yields_file {qualifier : String} {f : Function}
    (h : LegibleFunction qualifier f) :
    Yields [] (f.lines qualifier) (f.entries none qualifier) := by
  have hbody : Yields [.body (f.signature.text qualifier)] _ _ := yields_body h.body
  rw [List.length_nil, Function.iterate_zero, List.map_id] at hbody
  exact yields_freeFunction h.signature hbody

namespace EnumBlock

theorem legible_head (hname : isIdentifier e.generatedName = true) :
    Legible ("namespace " ++ e.generatedName) :=
  .of_mem (c := ' ') (notMem_behind hname (by decide) (by decide)) (by simp) (by decide)

/-- The values of an enum, in its header. -/
theorem yields_values (hvalues : ∀ value ∈ e.values, isIdentifier value = true) :
    Yields [.space e.generatedName]
      (indent "enum Type" :: indent "\x7b" :: (enumerators e).map (indent ∘ indent)
        ++ [indent "\x7d;"])
      ((enumerators e).map (.statement "enum Type")) := by
  have hlines : Yields [.body "enum Type", .space e.generatedName]
      ((enumerators e).map (indent ∘ indent)) ((enumerators e).map (.statement "enum Type")) := by
    refine .map fun line hline => ?_
    obtain ⟨value, hvalue, rfl⟩ := List.mem_map.1 hline
    have hcomma : Legible (value ++ ",") :=
      .of_mem (c := ',') (by simp [unbroken_of_isIdentifier (hvalues value hvalue)]) (by simp)
        (by decide)
    have hyields : Yields [.body "enum Type", .space e.generatedName] _ _ := yields_indented hcomma
    rw [List.head?_cons, entries_statement (c := ',') _ (by simp)] at hyields
    exact hyields
  have hspace : nameBetween? "namespace " "" "enum Type" = none := by decide +kernel
  have hclass : classHead? "enum Type" = none := by decide +kernel
  have hopens : block (some (.space e.generatedName)) "enum Type" = (.body "enum Type", []) := by
    simp only [block, if_neg (by decide : ¬ IsSignature "enum Type"), hspace, hclass]
  have hblock : Yields [.space e.generatedName] _ _ := yields_block ⟨by decide, by decide⟩ hopens
    hlines (Or.inr rfl)
  rw [List.head?_cons, entries, if_neg (by decide)] at hblock
  exact hblock

theorem yields_declared {s : Signature} (name : String) (h : '\n' ∉ (s.text "").toList) :
    Yields [.space name] [declared s] [.declared (some name) (s.text "" ++ ";")] := by
  have hdeclaration := isDeclaration_text s "" "" (by decide : ";".toList.getLast? = some ';')
  rw [String.empty_append] at hdeclaration
  exact yields_declaration nofun (by simp [h]) hdeclaration

/-- **The block of an enum in the header.** -/
theorem yields_declaration (hs : settings.Unbroken) (hname : isIdentifier e.generatedName = true)
    (hvalues : ∀ value ∈ e.values, isIdentifier value = true) :
    Yields [] (declaration settings e) (declarationEntries settings e) := by
  have hsignature : ∀ s ∈ declaredSignatures settings e, '\n' ∉ (s.text "").toList := by
    simp only [declaredSignatures, List.forall_mem_cons, List.not_mem_nil, false_imp_iff,
      implies_true, and_true]
    exact ⟨(legible_getInfos hs e).signature, (legible_getValues hname hvalues).signature,
      (legible_getSize e).signature, (legible_register hs e).signature⟩
  have hdeclared : ∀ s ∈ declaredSignatures settings e, Yields [.space e.generatedName] [declared s]
      [.declared (some e.generatedName) (s.text "" ++ ";")] := fun s hs =>
    yields_declared e.generatedName (hsignature s hs)
  have hbody := (((((yields_values hvalues).append (yields_blank _)).append
    (hdeclared (infosSignature settings) (by simp [declaredSignatures]))).append
    (hdeclared (valuesSignature e) (by simp [declaredSignatures]))).append
    (hdeclared sizeSignature (by simp [declaredSignatures]))).append
    ((yields_blank _).append (hdeclared registerSignature (by simp [declaredSignatures])))
  have hblock : Yields [] _ _ := yields_block (legible_head hname) (block_enumHead hname) hbody
    (Or.inl rfl)
  rw [List.head?_nil, entries, entryOf?_enumHead hname] at hblock
  convert hblock using 1
  · simp [declaration]
  · simp [declarationEntries, declaredSignatures]

/-- **The block of an enum in the source.** -/
theorem yields_definition (hs : settings.Unbroken) (hname : isIdentifier e.generatedName = true)
    (hvalues : ∀ value ∈ e.values, isIdentifier value = true) :
    Yields [] (definition settings e) (definitionEntries settings e) := by
  have hdefined : ∀ f ∈ functions settings e, Yields [.space e.generatedName] (defined f)
      (f.entries (some e.generatedName) "") := fun f hf =>
    (legible_functions hs hname hvalues f hf).yields nofun
  have hbody := ((((hdefined (register settings e) (by simp [functions])).append
    (yields_blank _)).append
    ((hdefined (getInfos settings e) (by simp [functions])).append (yields_blank _))).append
    ((hdefined (getValues e) (by simp [functions])).append (yields_blank _))).append
    (hdefined (getSize e) (by simp [functions]))
  have hblock : Yields [] _ _ := yields_block (legible_head hname) (block_enumHead hname) hbody
    (Or.inl rfl)
  rw [List.head?_nil, entries, entryOf?_enumHead hname] at hblock
  convert hblock using 1
  · simp [definition]
  · simp [definitionEntries, functions]

end EnumBlock

/-! ### Blocks of classes -/

namespace ClassBlock

/-- The line above a section of a class says nothing. -/
theorem yields_label {text : String} (name : String) (h : Legible text)
    (htext : unindented 1 text = text) (hlast : text.toList.getLast? = some ':') :
    Yields [.type name] [text] [] := by
  have hline : Yields [.type name] _ _ := yields_line h.unbroken htext h.noBrace
  rwa [List.head?_cons, entries, if_neg (not_isDeclaration_of_last hlast (by decide)),
    if_neg (by rw [hlast]; decide)] at hline

theorem yields_public (name : String) : Yields [.type name] ["public:"] [] :=
  yields_label name ⟨by decide, by decide⟩ rfl (by decide)

theorem yields_protected (name : String) : Yields [.type name] ["protected:"] [] :=
  yields_label name ⟨by decide, by decide⟩ rfl (by decide)

theorem yields_publicSection {name : String} {lines : List String} {found : List Entry}
    (h : Yields [.type name] lines found) (hempty : lines = [] → found = []) :
    Yields [.type name] (publicSection lines) found := by
  unfold publicSection
  split
  · next hnil =>
    rw [hempty hnil]
    exact .nil
  · exact (((yields_blank _).append (yields_public name)).append (yields_blank _)).append h

theorem yields_fieldLine {m : Member} {r : Resolution} (name : String)
    (hsignature : IsTypeText r.signature) (hfield : isIdentifier m.generatedName = true) :
    Yields [.type name] [fieldLine m r] [.field name (fieldText m r)] := by
  have hnone : ∀ {c : Char}, isWordCharacter c = false → c ∉ ['<', '>', ':', '*', ' '] →
      c ∉ ";".toList → c ∉ (fieldText m r).toList := by
    intro c hword hmark hsemicolon
    refine notMem_around hfield hword ?_ hsemicolon
    rw [String.toList_append, List.mem_append, not_or]
    exact ⟨hsignature.notMem hword hmark, fun hblank => hmark (by simp_all)⟩
  have hline : Legible (fieldText m r) :=
    .of_mem (c := ' ') (hnone (by decide) (by decide) (by decide)) (by simp [fieldText]) (by decide)
  have hlast : (fieldText m r).toList.getLast? = some ';' := getLast?_toList_append (by decide) _
  have hyields : Yields [.type name] _ _ := yields_indented hline
  rw [List.head?_cons, entries,
    if_neg (not_isDeclaration_of_notMem (hnone (by decide) (by decide) (by decide))),
    if_pos hlast] at hyields
  exact hyields

theorem unbroken_overrides (hs : settings.Unbroken) :
    ∀ s ∈ overrideSignatures settings c, '\n' ∉ (s.text "").toList := by
  intro s hmem
  rcases List.mem_cons.1 hmem with rfl | hmem
  · simp [parseSignature, Signature.text, hs.runtime]
  · split at hmem
    · simp only [List.mem_cons, List.not_mem_nil, or_false] at hmem
      rcases hmem with rfl | rfl
      · simp [serializeSignature, Signature.text, hs.runtime]
      · decide
    · cases hmem

/-- The declaration of a function in the block of a class. -/
theorem yields_declared (name front back : String) (s : Signature) (hfront : '\n' ∉ front.toList)
    (hback : '\n' ∉ back.toList) (hlast : back.toList.getLast? = some ';')
    (htext : '\n' ∉ (s.text "").toList) :
    Yields [.type name] [indent (front ++ s.text "" ++ back)]
      [.declared (some name) (front ++ s.text "" ++ back)] :=
  Code.yields_declaration nofun (by simp [hfront, hback, htext])
    (isDeclaration_text s "" front hlast)

section

/-! What a class is derived from is a class of the document or a root of the runtime. -/

variable (hparent : ∀ p ∈ doc.parentOf? c, isIdentifier p.generatedName = true)

include hparent

theorem parentType_cases (settings : Settings) :
    isIdentifier (parentType settings doc c) = true
      ∨ ∃ scope kind, parentType settings doc c = scope ++ ClassKind.rootClass kind := by
  unfold parentType
  cases hp : doc.parentOf? c with
  | none => exact Or.inr ⟨_, _, Settings.runtime_eq _ _⟩
  | some p => exact Or.inl (hparent p hp)

theorem unbroken_parentType (hs : settings.Unbroken) :
    '\n' ∉ (parentType settings doc c).toList := by
  unfold parentType
  cases hp : doc.parentOf? c with
  | none => exact hs.runtime (by cases c.kind <;> decide)
  | some p => exact unbroken_of_isIdentifier (hparent p hp)

theorem exists_getLast?_parentType (settings : Settings) :
    ∃ last, (parentType settings doc c).toList.getLast? = some last ∧ last ≠ ';' := by
  rcases parentType_cases hparent settings with hname | ⟨scope, kind, hroot⟩
  · have hne := toList_ne_nil_of_isIdentifier hname
    refine ⟨_, List.getLast?_eq_some_getLast hne, fun hlast => ?_⟩
    have hword := isWordCharacter_of_isIdentifier hname _ (List.getLast_mem hne)
    rw [hlast] at hword
    exact absurd hword (by decide)
  · rw [hroot]
    cases kind with
    | datasheet => exact ⟨'t', getLast?_toList_append (by decide) _, by decide⟩
    | datasave => exact ⟨'t', getLast?_toList_append (by decide) _, by decide⟩

/-- **The block of a class in the header.** -/
theorem yields_declaration (hs : settings.Unbroken) (hname : isIdentifier c.generatedName = true)
    (hfields : ∀ emitted ∈ c.emittedMembers, isIdentifier emitted.1.generatedName = true
      ∧ IsTypeText emitted.2.signature) (hmethods : c.methods = []) :
    Yields [] (declaration settings doc c) (declarationEntries settings doc c) := by
  have hline := unbroken_of_isIdentifier hname
  have hconstructor := yields_declared c.generatedName "" ";" (constructorSignature c) (by decide)
    (by decide) (by decide) (by simp [constructorSignature, Signature.text, hline])
  have hdestructor := yields_declared c.generatedName "virtual " ";" (destructorSignature c)
    (by decide) (by decide) (by decide) (by simp [destructorSignature, Signature.text, hline])
  have hoverrides : Yields [.type c.generatedName] (overrides settings c)
      ((overrideSignatures settings c).map fun s =>
        .declared (some c.generatedName) ("virtual " ++ s.text "" ++ " override;")) := by
    refine .map fun s hmem => ?_
    exact yields_declared c.generatedName "virtual " " override;" s (by decide) (by decide)
      (by decide) (unbroken_overrides hs s hmem)
  have hfieldLines : Yields [.type c.generatedName]
      (c.emittedMembers.map fun (m, r) => fieldLine m r)
      (c.emittedMembers.map fun (m, r) => .field c.generatedName (fieldText m r)) :=
    .map fun emitted hm =>
      yields_fieldLine c.generatedName (hfields emitted hm).2 (hfields emitted hm).1
  have hsection := yields_publicSection hfieldLines (by simp)
  have hbody := (((((yields_public c.generatedName).append (yields_blank _)).append
    (hconstructor.append hdestructor)).append hsection).append
    (((yields_blank _).append (yields_protected c.generatedName)).append (yields_blank _))).append
    hoverrides
  have hhead : Legible ("class " ++ c.generatedName ++ " : public " ++ parentType settings doc c) :=
    .of_mem (c := ' ') (by simp [hline, unbroken_parentType hparent hs]) (by simp) (by decide)
  obtain ⟨last, hlast, hne⟩ := exists_getLast?_parentType hparent settings
  have hopens :
      block none ("class " ++ c.generatedName ++ " : public " ++ parentType settings doc c)
      = (.type c.generatedName, [.classBlock c.generatedName (parentType settings doc c)]) :=
    block_classHead hname (parentType_cases hparent settings)
  have hblock : Yields [] _ _ := yields_block hhead hopens hbody (Or.inr rfl)
  rw [List.head?_nil, entries, entryOf?_classHead c.generatedName hlast hne] at hblock
  convert hblock using 1
  · simp [declaration, hmethods, publicSection]
  · simp [declarationEntries]

end

/-- **The block of a class in the source.** -/
theorem yields_definition
    (h : ∀ f ∈ functions settings doc c, LegibleFunction (c.generatedName ++ "::") f) :
    Yields [] (definition settings doc c) (definitionEntries settings doc c) := by
  refine .flatMap fun f hf => ?_
  have hfunction := ((h f hf).yields_file).append (yields_blank [])
  rwa [List.append_nil] at hfunction

end ClassBlock

/-! ### The two files -/

theorem FactoryBranch.yields (owner : String) {b : FactoryBranch}
    (h : '\n' ∉ b.generatedName.toList) :
    Yields [.body owner] (b.lines.map bodyLine) (b.entries owner) := by
  have hcondition : Legible ("if (classType == " ++ quoted b.name ++ ")") :=
    .of_mem (c := '(') (by simp [unbroken_quoted]) (by simp) (by decide)
  have hreturn : Legible ("return new " ++ b.generatedName ++ ";") :=
    .of_mem (c := ' ') (by simp [h]) (by simp) (by decide)
  have hbody : Yields [.body owner, .body owner] _ _ := yields_indented hreturn
  rw [List.head?_cons, entries_statement (c := ' ') owner (by simp)] at hbody
  have hblock : Yields [.body owner] _ _ := yields_block hcondition rfl hbody (Or.inl rfl)
  rw [List.head?_cons, entries_statement (c := '(') owner (by simp)] at hblock
  have hindent : ∀ {line : String} {c : Char}, c ∈ line.toList → bodyLine line = indent line :=
    fun hmem => if_neg (ne_empty_of_mem hmem)
  have hblank : ' ' ∈ (indent ("return new " ++ b.generatedName ++ ";")).toList := by
    simp [indent]
  have hlines : b.lines.map bodyLine
      = [indent ("if (classType == " ++ quoted b.name ++ ")"), indent "\x7b",
          indent (indent ("return new " ++ b.generatedName ++ ";")), indent "\x7d"] ++ [""] := by
    rw [FactoryBranch.lines, List.map_cons, hindent (c := '(') (by simp), List.map_cons,
      List.map_cons, hindent hblank]
    rfl
  rw [hlines]
  exact hblock.append (yields_blank _)

theorem unbroken_factorySignature (hs : settings.Unbroken) :
    '\n' ∉ ((factorySignature settings).text "").toList := by
  simp [factorySignature, Signature.text, hs.runtime, Settings.factoryRoutine, hs.baseName]

theorem yields_factory (hs : settings.Unbroken)
    (h : ∀ c ∈ doc.classes.items, '\n' ∉ c.generatedName.toList) :
    Yields [] ((factoryFunction settings doc).lines "") (factoryEntries settings doc) := by
  have htext := unbroken_factorySignature hs
  have hbranches : ∀ b ∈ factoryBranches doc, '\n' ∉ b.generatedName.toList := by
    intro b hb
    obtain ⟨c, hc, rfl⟩ := List.mem_map.1 hb
    exact h c (List.mem_filter.1 hc).1
  have hreturn : Yields [.body ((factorySignature settings).text "")] [indent "return nullptr;"]
      [.statement ((factorySignature settings).text "") "return nullptr;"] :=
    yields_indented ⟨by decide, by decide⟩
  have hbody := (Yields.flatMap fun b hb => FactoryBranch.yields _ (hbranches b hb)).append hreturn
  refine yields_freeFunction htext ?_
  rw [factoryFunction, List.map_append, List.map_flatMap]
  exact hbody

/-- A free routine is declared. -/
theorem yields_freeDeclaration {s : Signature} (h : '\n' ∉ (s.text "").toList) :
    Yields [] [s.text "" ++ ";"] [.declared none (s.text "" ++ ";")] := by
  have hdeclaration := isDeclaration_text s "" "" (by decide : ";".toList.getLast? = some ';')
  rw [String.empty_append] at hdeclaration
  exact yields_declaration nofun (by simp [h]) hdeclaration

theorem RegularDocument.parentName (h : RegularDocument doc) (c : ClassDecl) :
    ∀ p ∈ doc.parentOf? c, isIdentifier p.generatedName = true := by
  intro p hp
  obtain ⟨name, -, hfound⟩ := Option.bind_eq_some_iff.1 hp
  exact h.className p (Registry.mem_items_of_find? hfound)

section

variable (hs : settings.Unbroken) (h : RegularDocument doc.resolve.1)

include hs h

theorem yields_headerLines :
    Yields [] (headerLines settings doc.resolve.1) (headerEntries settings doc.resolve.1) := by
  have hpragma : Yields [] ["#pragma once", ""] [] :=
    (yields_silent ⟨by decide, by decide⟩ (by decide +kernel)).append (yields_blank [])
  have htitle : Yields [] (sectionTitle "File Declarations") [] :=
    yields_sectionTitle ⟨by decide, by decide⟩ (by decide +kernel)
  have henums : Yields []
      (doc.resolve.1.enums.items.flatMap
        fun e => [banner] ++ EnumBlock.declaration settings e ++ [""])
      (doc.resolve.1.enums.items.flatMap (EnumBlock.declarationEntries settings)) := by
    refine .flatMap fun e he => ?_
    have hblock := EnumBlock.yields_declaration hs (h.enumName e he) (h.value e he)
    simpa only [List.nil_append, List.append_nil] using
      (yields_banner.append hblock).append (yields_blank [])
  have hclasses : Yields []
      (doc.resolve.1.classes.items.flatMap
        fun c => [banner] ++ ClassBlock.declaration settings doc.resolve.1 c ++ [""])
      (doc.resolve.1.classes.items.flatMap
        (ClassBlock.declarationEntries settings doc.resolve.1)) := by
    refine .flatMap fun c hc => ?_
    have hblock := ClassBlock.yields_declaration (h.parentName c) hs (h.className c hc)
      (fun emitted hm => ⟨h.memberName c hc emitted hm, h.isTypeText_signature hc hm⟩)
      (h.method c hc)
    simpa only [List.nil_append, List.append_nil] using
      (yields_banner.append hblock).append (yields_blank [])
  have hlegible : LegibleFunction "" (registerFunction settings doc.resolve.1) :=
    legible_registerFunction hs fun e he => unbroken_of_isIdentifier (h.enumName e he)
  have hregister := yields_freeDeclaration hlegible.signature
  have hfactory := yields_freeDeclaration (unbroken_factorySignature hs)
  have hfree := yields_banner.append ((hregister.append hfactory).append (yields_blank []))
  have hincludes := yields_includeSection hs.headerIncludes
  have hall := (((((((hpragma.append hincludes).append htitle).append
    (yields_opening h.nameSpace)).append (yields_forwardDeclarations h.className)).append
    henums).append hclasses).append hfree).append (yields_closing h.nameSpace)
  simp only [List.nil_append, List.append_nil] at hall
  exact hall

theorem yields_sourceLines :
    Yields [] (sourceLines settings doc.resolve.1) (sourceEntries settings doc.resolve.1) := by
  have hheader : Yields [] (sectionTitle "Header") [] :=
    yields_sectionTitle ⟨by decide, by decide⟩ (by decide +kernel)
  have hfile : '\n' ∉ settings.headerFile.toList := by simp [Settings.headerFile, hs.baseName]
  have htitle : Yields [] (sectionTitle "File Implementation") [] :=
    yields_sectionTitle ⟨by decide, by decide⟩ (by decide +kernel)
  have henums : Yields []
      (doc.resolve.1.enums.items.flatMap
        fun e => [banner] ++ EnumBlock.definition settings e ++ [""])
      (doc.resolve.1.enums.items.flatMap (EnumBlock.definitionEntries settings)) := by
    refine .flatMap fun e he => ?_
    have hblock := EnumBlock.yields_definition hs (h.enumName e he) (h.value e he)
    simpa only [List.nil_append, List.append_nil] using
      (yields_banner.append hblock).append (yields_blank [])
  have hclasses : Yields []
      (doc.resolve.1.classes.items.flatMap
        fun c => [banner] ++ ClassBlock.definition settings doc.resolve.1 c)
      (doc.resolve.1.classes.items.flatMap
        (ClassBlock.definitionEntries settings doc.resolve.1)) := by
    refine .flatMap fun c hc => ?_
    have hfunctions := ClassBlock.legible_functions hs (h.legibleMembers hc)
      fun p hp => unbroken_of_isIdentifier (h.parentName c p hp)
    exact yields_banner.append (ClassBlock.yields_definition hfunctions)
  have hlegible : LegibleFunction "" (registerFunction settings doc.resolve.1) :=
    legible_registerFunction hs fun e he => unbroken_of_isIdentifier (h.enumName e he)
  have hregister := hlegible.yields_file
  have hfactory : Yields [] _ (factoryEntries settings doc.resolve.1) :=
    yields_factory hs fun c hc => unbroken_of_isIdentifier (h.className c hc)
  have hown := (yields_includeLine hfile).append (yields_blank [])
  have hall := (((((((((((hheader.append hown).append
    (yields_includeSection hs.sourceIncludes)).append htitle).append
    (yields_opening h.nameSpace)).append henums).append hclasses).append yields_banner).append
    hregister).append (yields_blank [])).append hfactory).append
    (yields_blank [])).append (yields_closing h.nameSpace)
  simp only [List.nil_append, List.append_nil] at hall
  exact hall

variable (doc) in
/-- **The header is read as what it says.** -/
theorem outline_header :
    outline (header settings doc.resolve.1) = headerEntries settings doc.resolve.1 :=
  outline_unlines (yields_headerLines hs h)

variable (doc) in
/-- **The source is read as what it says.** -/
theorem outline_source :
    outline (source settings doc.resolve.1) = sourceEntries settings doc.resolve.1 :=
  outline_unlines (yields_sourceLines hs h)

end

end SchemaBinding.Code
