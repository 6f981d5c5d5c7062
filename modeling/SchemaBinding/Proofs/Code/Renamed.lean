import SchemaBinding.Binding
import SchemaBinding.Proofs.Code.Header
import SchemaBinding.Proofs.Code.Plain
import SchemaBinding.Proofs.Schema.RenamedLoad

/-!
# Code under other names

The names of a schema bind its parts to one another.  Generated code has them in literals only,
where the runtime looks data up by them; everything else is spelled with generated names.

* `header_rename`: the header does not show the names.
* `blanked_source_rename`: the source shows them in literals only.
* `Binding.generate_renameRoot`: so a tree under other names has the same code but for its literals,
  and the same kinds of diagnostics.
-/

namespace SchemaBinding

open Schema

variable {r : String → String}

namespace Schema

/-! ### Members and parents -/

theorem ClassDecl.emittedMembers_rename (c : ClassDecl) :
    (c.rename r).emittedMembers
      = c.emittedMembers.map fun (m, res) => (m.rename r, res.rename r) := by
  have hemitted : ∀ m : Member, (m.rename r).emitted? = m.emitted?.map (Resolution.rename r) := by
    intro m
    have hname : (m.rename r).name = m.name := rfl
    have hcode : (m.rename r).generatedName = m.generatedName := rfl
    rw [Member.emitted?, Member.emitted?, hname, hcode]
    split <;> rfl
  have hmembers : (c.rename r).members = c.members.map (Member.rename r) := rfl
  rw [ClassDecl.emittedMembers, ClassDecl.emittedMembers, hmembers, List.filterMap_map,
    List.map_filterMap]
  refine List.filterMap_congr fun m _ => ?_
  rw [Function.comp_apply, hemitted, Option.map_map, Option.map_map]
  rfl

theorem Document.parentOf?_rename (h : Renaming r) (doc : Document) (c : ClassDecl) :
    (doc.rename r).parentOf? (c.rename r) = (doc.parentOf? c).map (ClassDecl.rename r) := by
  have hparent : (c.rename r).parent? = c.parent?.map r := rfl
  rw [Document.parentOf?, Document.parentOf?, hparent]
  cases c.parent? with
  | none => rfl
  | some name => exact Document.class?_rename h doc name

end Schema

namespace Code

theorem sameOutline_rename (h : Renaming r) (doc : Document) :
    SameOutline doc (doc.rename r) (ClassDecl.rename r) where
  items := items_rename _ _
  parentOf? := doc.parentOf?_rename h
  generatedName _ := rfl
  kind _ := rfl
  methods _ := rfl
  fieldLines c := by
    rw [c.emittedMembers_rename, List.map_map]
    rfl

/-- **The header does not show the names.** -/
theorem header_rename (h : Renaming r) (settings : Settings) (doc : Document) :
    header settings (doc.rename r) = header settings doc := by
  refine header_eq settings (sameOutline_rename h doc) rfl ?_
  have henums : (doc.rename r).enums.items = doc.enums.items.map (EnumDecl.rename r) :=
    items_rename _ _
  rw [henums, List.flatMap_map]
  rfl

/-! ### Enums -/

variable {settings : Settings} {doc : Document}

section Enums

variable (h : PlainCode settings doc) {e : EnumDecl} (he : e ∈ doc.enums.items)

include h

theorem alike_register :
    AlikeFunctions "" (EnumBlock.register settings e)
      (EnumBlock.register settings (e.rename r)) where
  signature := rfl
  plain := (by decide : IsPlain (EnumBlock.registerSignature.text ""))
  body := by
    have hinfos : IsPlain (EnumBlock.infos settings) := h.runtime (by decide)
    have hresources : IsPlain (EnumBlock.resources settings) :=
      (h.runtime (by decide)).append (by decide)
    have hfirst : IsPlain (EnumBlock.infos settings ++ "* enumInfos = new "
        ++ EnumBlock.infos settings ++ ";") :=
      ((hinfos.append (by decide)).append hinfos).append (by decide)
    have hsecond : IsPlain ("enumInfos->values.reserve(" ++ EnumBlock.count e ++ ");") :=
      (IsPlain.append (by decide) (isPlain_toString _)).append (by decide)
    have hregistrations : AlikeLines (EnumBlock.registrations e)
        (EnumBlock.registrations (e.rename r)) :=
      alikeLines_map fun value _ => alike_around (by decide) (by decide) value value
    have hlast : Alike
        (EnumBlock.resources settings ++ "->RegisterDataEnumInfos(" ++ quoted e.name
          ++ ", enumInfos);")
        (EnumBlock.resources settings ++ "->RegisterDataEnumInfos(" ++ quoted (r e.name)
          ++ ", enumInfos);") :=
      alike_around (hresources.append (by decide)) (by decide) _ _
    exact .append (.append (.cons hfirst.alike (.cons hsecond.alike .nil)) hregistrations)
      (.cons hlast .nil)

theorem alike_getInfos :
    AlikeFunctions "" (EnumBlock.getInfos settings e)
      (EnumBlock.getInfos settings (e.rename r)) where
  signature := rfl
  plain := by
    refine isPlain_text (fun result hresult => ?_) (by decide) (by decide) (by decide) false
    cases hresult
    exact (IsPlain.append (by decide) (h.runtime (by decide))).append (by decide)
  body := by
    have hresources : IsPlain (EnumBlock.resources settings) :=
      (h.runtime (by decide)).append (by decide)
    have hline : Alike
        ("return " ++ EnumBlock.resources settings ++ "->GetDataEnumInfos(" ++ quoted e.name
          ++ ");")
        ("return " ++ EnumBlock.resources settings ++ "->GetDataEnumInfos(" ++ quoted (r e.name)
          ++ ");") :=
      alike_around ((IsPlain.append (by decide) hresources).append (by decide)) (by decide) _ _
    exact .cons hline .nil

include he

theorem alike_getValues :
    AlikeFunctions "" (EnumBlock.getValues e) (EnumBlock.getValues (e.rename r)) where
  signature := rfl
  plain := by
    refine isPlain_text (fun result hresult => ?_) (by decide) (by decide) ?_ false
    · cases hresult
      decide
    · exact (IsPlain.append (by decide) (h.enumName e he)).append (by decide)
  body := by
    have hfirst : IsPlain ("enumValues.reserve(" ++ EnumBlock.count e ++ ");") :=
      (IsPlain.append (by decide) (isPlain_toString _)).append (by decide)
    have hcollections : AlikeLines (EnumBlock.collections e)
        (EnumBlock.collections (e.rename r)) := by
      refine alikeLines_map fun value hvalue => IsPlain.alike ?_
      exact (((IsPlain.append (by decide) (h.enumName e he)).append (by decide)).append
        (h.value e he value hvalue)).append (by decide)
    exact .append (.cons hfirst.alike .nil) hcollections

/-- The block of an enum has its name in literals only. -/
theorem alikeLines_enumDefinition :
    AlikeLines (EnumBlock.definition settings e) (EnumBlock.definition settings (e.rename r)) := by
  have hopening : AlikeLines ["namespace " ++ e.generatedName, "\x7b"]
      ["namespace " ++ e.generatedName, "\x7b"] :=
    .cons (IsPlain.append (by decide) (h.enumName e he)).alike
      (.cons (IsPlain.alike (by decide)) .nil)
  have hclosing : AlikeLines ["\x7d"] ["\x7d"] := alikeLines_of_plain (by decide)
  have hsize : AlikeFunctions "" (EnumBlock.getSize e) (EnumBlock.getSize (e.rename r)) :=
    { signature := rfl
      plain := (by decide : IsPlain (EnumBlock.sizeSignature.text ""))
      body := .cons (IsPlain.append (IsPlain.append (by decide) (isPlain_toString _))
        (by decide)).alike .nil }
  have hregister : AlikeFunctions "" (EnumBlock.register settings e)
      (EnumBlock.register settings (e.rename r)) := alike_register h
  have hinfos : AlikeFunctions "" (EnumBlock.getInfos settings e)
      (EnumBlock.getInfos settings (e.rename r)) := alike_getInfos h
  have hvalues : AlikeFunctions "" (EnumBlock.getValues e) (EnumBlock.getValues (e.rename r)) :=
    alike_getValues h he
  exact hopening.append hregister.defined |>.append alikeLines_separator
    |>.append hinfos.defined |>.append alikeLines_separator
    |>.append hvalues.defined |>.append alikeLines_separator
    |>.append hsize.defined |>.append hclosing

end Enums

/-! ### Classes -/

namespace ClassBlock

theorem assignments_rename (c : ClassDecl) : assignments (c.rename r) = assignments c := by
  rw [assignments, assignments, c.emittedMembers_rename, List.filterMap_map]
  rfl

theorem releases_rename (c : ClassDecl) : releases (c.rename r) = releases c := by
  have hrelease : ∀ (m : Member) (res : Resolution),
      release? (m.rename r) (res.rename r) = release? m res := by
    intro m res
    have hownership : (res.rename r).category.ownership? = res.category.ownership? := by
      simp only [Resolution.rename]
      cases res.category <;> rfl
    rw [release?, release?, hownership]
    rfl
  rw [releases, releases, c.emittedMembers_rename, List.filterMap_map]
  exact List.filterMap_congr fun (m, res) _ => hrelease m res

theorem select_rename (direction : Direction) (category : Category) (isArray : Bool)
    (owner : ClassKind) :
    Routine.select direction (category.rename r) isArray owner
      = Routine.select direction category isArray owner := by
  cases category with
  | primitive p => rfl
  | enumeration name => rfl
  | object name ownership => cases ownership <;> rfl

theorem categoryName?_rename (category : Category) :
    categoryName? (category.rename r) = (categoryName? category).map r := by
  cases category <;> rfl

theorem isPlain_routineName (routine : Routine) : IsPlain ("binding::" ++ routine.name) := by
  obtain ⟨direction, shape, isArray⟩ := routine
  cases direction <;> cases shape <;> cases isArray <;> decide

/-- Of the names of types only a literal is written. -/
theorem alike_access (h : PlainCode settings doc) {m : Member}
    (hm : IsPlain m.generatedName) (direction : Direction) (owner : ClassKind) (res : Resolution) :
    Alike ((access direction owner m res).text settings)
      ((access direction owner (m.rename r) (res.rename r)).text settings) := by
  have hroutine : (access direction owner (m.rename r) (res.rename r)).routine
      = (access direction owner m res).routine :=
    select_rename direction res.category res.isArray owner
  have htypeName : (access direction owner (m.rename r) (res.rename r)).typeName?
      = (access direction owner m res).typeName?.map r := by
    have hcategory : categoryName? (res.rename r).category = (categoryName? res.category).map r :=
      categoryName?_rename res.category
    simp only [access] at hroutine ⊢
    rw [hroutine, hcategory]
    split <;> rfl
  have hruntime (routine : Routine) : IsPlain (settings.runtime ("binding::" ++ routine.name)) :=
    h.runtime (isPlain_routineName routine)
  -- only the name of the type differs, and that is a literal
  rw [Access.text, Access.text, hroutine, htypeName]
  refine .append (.append (.append (.append (.append (.append (hruntime _).alike
    (IsPlain.alike (by decide))) (alike_quoted _ _)) (IsPlain.alike (by decide))) ?typeName)
    hm.alike) (IsPlain.alike (by decide))
  cases (access direction owner m res).typeName? with
  | none => exact IsPlain.alike (by decide : IsPlain "")
  | some typeName => exact (alike_quoted _ _).append (IsPlain.alike (by decide))

section Functions

variable (hr : Renaming r) (h : PlainCode settings doc.resolve.1) {c : ClassDecl}
  (hc : c ∈ doc.resolve.1.classes.items)

include h hc

theorem alike_constructor :
    AlikeFunctions (c.generatedName ++ "::") (constructor c) (constructor (c.rename r)) where
  signature := rfl
  plain := isPlain_text (by rintro _ ⟨⟩) ((h.className c hc).append (by decide))
    (h.className c hc) (by decide) false
  body := by
    have hassignment : ∀ a ∈ assignments c, Alike a.text a.text := by
      intro a ha
      obtain ⟨⟨m, res⟩, hm, hassign⟩ := List.mem_filterMap.1 ha
      simp only [assignment?] at hassign
      split at hassign
      · cases hassign
      · obtain ⟨expression, hexpression, rfl⟩ := Option.map_eq_some_iff.1 hassign
        exact .append (.append ((h.memberName c hc _ hm).append (by decide)).alike
          (h.alike_expression hc hm hexpression)) (IsPlain.alike (by decide))
    have hbody : (constructor (c.rename r)).body = (assignments c).map Assignment.text := by
      rw [constructor, assignments_rename]
    rw [hbody]
    exact alikeLines_map hassignment

theorem alike_destructor :
    AlikeFunctions (c.generatedName ++ "::") (destructor c) (destructor (c.rename r)) where
  signature := rfl
  plain := isPlain_text (by rintro _ ⟨⟩) ((h.className c hc).append (by decide))
    (IsPlain.append (by decide) (h.className c hc)) (by decide) false
  body := by
    have hrelease : ∀ release ∈ releases c, IsPlain release.text := by
      intro release hrelease
      obtain ⟨⟨m, res⟩, hm, hreleased⟩ := List.mem_filterMap.1 hrelease
      have hname := h.memberName c hc _ hm
      simp only [release?] at hreleased
      split at hreleased <;> cases hreleased
      · exact hname.append (by decide)
      · exact hname.append (by decide)
      · exact (IsPlain.append (by decide) hname).append (by decide)
      · exact (IsPlain.append (by decide) hname).append (by decide)
    have hbody : (destructor (c.rename r)).body = (releases c).map Release.text := by
      rw [destructor, releases_rename]
    rw [hbody]
    exact alikeLines_map fun release hm => (hrelease release hm).alike

include hr

theorem alike_accessFunction {signature : Signature} (hname : IsPlain signature.name)
    (hplain : IsPlain (signature.text (c.generatedName ++ "::"))) (direction : Direction) :
    AlikeFunctions (c.generatedName ++ "::")
      (accessFunction settings doc.resolve.1 signature direction c)
      (accessFunction settings (doc.resolve.1.rename r) signature direction (c.rename r)) where
  signature := rfl
  plain := hplain
  body := by
    have haccesses : AlikeLines ((accesses direction c).map (Access.text settings))
        ((accesses direction (c.rename r)).map (Access.text settings)) := by
      rw [accesses, accesses, c.emittedMembers_rename, List.map_map, List.map_map, List.map_map]
      exact alikeLines_map fun emitted hm =>
        alike_access h (h.memberName c hc emitted hm) direction c.kind emitted.2
    have hempty : (c.rename r).emittedMembers = [] ↔ c.emittedMembers = [] := by
      rw [c.emittedMembers_rename, List.map_eq_nil_iff]
    have hcall := parentCall?_eq (sameOutline_rename hr doc.resolve.1) signature c
    -- the parent is called by its generated name, so both bodies begin alike
    refine AlikeLines.append ?_ haccesses
    rw [hcall]
    cases hparent : parentCall? doc.resolve.1 signature c with
    | none => exact .nil
    | some call =>
      obtain ⟨parent, hfound, rfl⟩ := Option.map_eq_some_iff.1 hparent
      obtain ⟨name, -, hparent⟩ := Option.bind_eq_some_iff.1 hfound
      have hparentName := h.className parent (Registry.mem_items_of_find? hparent)
      have hline : IsPlain (parent.generatedName ++ "::" ++ signature.name ++ "(context);") :=
        ((hparentName.append (by decide)).append hname).append (by decide)
      simp only [hempty]
      refine .cons hline.alike (alikeLines_of_plain ?_)
      split <;> decide

/-- A function of a class has names in literals only. -/
theorem alike_functions :
    List.Forall₂ (AlikeFunctions (c.generatedName ++ "::")) (functions settings doc.resolve.1 c)
      (functions settings (doc.resolve.1.rename r) (c.rename r)) := by
  have hscope : IsPlain (c.generatedName ++ "::") := (h.className c hc).append (by decide)
  have hparseName : IsPlain (parseSignature settings).name := (by decide : IsPlain "ParseMembers")
  have hserializeName : IsPlain (serializeSignature settings).name :=
    (by decide : IsPlain "SerializeMembers")
  have hparse : IsPlain ((parseSignature settings).text (c.generatedName ++ "::")) := by
    refine isPlain_text ?_ hscope (by decide) ((h.runtime (by decide)).append (by decide)) false
    rintro result ⟨⟩
    decide
  have hserialize : IsPlain ((serializeSignature settings).text (c.generatedName ++ "::")) := by
    refine isPlain_text ?_ hscope (by decide) ((h.runtime (by decide)).append (by decide)) true
    rintro result ⟨⟩
    decide
  have hinstanceType : AlikeFunctions (c.generatedName ++ "::") (instanceType c)
      (instanceType (c.rename r)) :=
    { signature := rfl
      plain := by
        refine isPlain_text ?_ hscope (by decide) (by decide) true
        rintro result ⟨⟩
        decide
      body := .cons (alike_around (by decide) (by decide) _ _)
        (.cons (IsPlain.alike (by decide)) .nil) }
  have hkind : (c.rename r).kind = c.kind := rfl
  rw [functions, functions, hkind]
  refine List.rel_append (.cons (alike_constructor h hc) (.cons (alike_destructor h hc)
    (.cons (alike_accessFunction hr h hc hparseName hparse .read) .nil))) ?_
  cases c.kind with
  | datasheet => exact .nil
  | datasave =>
    exact .cons (alike_accessFunction hr h hc hserializeName hserialize .write)
      (.cons hinstanceType .nil)

/-- The block of a class has names in literals only. -/
theorem alikeLines_definition :
    AlikeLines (definition settings doc.resolve.1 c)
      (definition settings (doc.resolve.1.rename r) (c.rename r)) :=
  alikeLines_definitions (alike_functions hr h hc)

end Functions

end ClassBlock

/-! ### Free routines -/

theorem factoryBranches_rename (doc : Document) :
    factoryBranches (doc.rename r)
      = (factoryBranches doc).map fun b => ⟨r b.name, b.generatedName⟩ := by
  have hclasses : (doc.rename r).classes.items = doc.classes.items.map (ClassDecl.rename r) :=
    items_rename _ _
  rw [factoryBranches, factoryBranches, hclasses, List.filter_map, List.map_map, List.map_map]
  rfl

section Routines

variable (h : PlainCode settings doc)

include h

theorem alike_registerFunction :
    AlikeFunctions "" (registerFunction settings doc)
      (registerFunction settings (doc.rename r)) where
  signature := rfl
  plain := by
    refine isPlain_text ?_ (by decide) (h.baseName.append (by decide)) (by decide) false
    rintro result ⟨⟩
    decide
  body := by
    have henums : (doc.rename r).enums.items = doc.enums.items.map (EnumDecl.rename r) :=
      items_rename _ _
    have hsame : (registerFunction settings (doc.rename r)).body
        = (registerFunction settings doc).body := by
      rw [registerFunction, registerFunction, henums, List.map_map]
      simp only [List.map_eq_nil_iff]
      rfl
    have hlast : IsPlain (settings.runtime "GetResources" ++ "()->RegisterDataObjectFactory("
        ++ settings.factoryRoutine ++ ");") :=
      (((h.runtime (by decide)).append (by decide)).append
        (h.baseName.append (by decide))).append (by decide)
    rw [hsame]
    refine .append (.append (alikeLines_map fun e he => ?_) (alikeLines_of_plain ?_))
      (.cons hlast.alike .nil)
    · exact ((h.enumName e he).append (by decide)).alike
    · split <;> decide

theorem alike_factoryFunction :
    AlikeFunctions "" (factoryFunction settings doc) (factoryFunction settings (doc.rename r)) where
  signature := rfl
  plain := by
    refine isPlain_text ?_ (by decide) (h.baseName.append (by decide)) (by decide) false
    rintro result ⟨⟩
    exact (h.runtime (by decide)).append (by decide)
  body := by
    have hbranches : AlikeLines ((factoryBranches doc).flatMap FactoryBranch.lines)
        ((factoryBranches (doc.rename r)).flatMap FactoryBranch.lines) := by
      rw [factoryBranches_rename, List.flatMap_map]
      refine alikeLines_flatMap fun b hb => ?_
      obtain ⟨c, hc, rfl⟩ := List.mem_map.1 hb
      have hname := h.className c (List.mem_of_mem_filter hc)
      have hline : IsPlain (indent ("return new " ++ c.generatedName ++ ";")) :=
        .append (by decide) ((IsPlain.append (by decide) hname).append (by decide))
      exact .cons (alike_around (by decide) (by decide) _ _)
        (.cons (IsPlain.alike (by decide)) (.cons hline.alike (alikeLines_of_plain (by decide))))
    exact hbranches.append (alikeLines_of_plain (by decide))

end Routines

/-! ### The source -/

theorem alike_includeLine {file : String} (h : IsPlain file) :
    Alike (includeLine file) (includeLine file) := by
  have hfile : Shows ("\"" ++ file ++ "\"") ['"', '"'] := shows_literal (blankFrom_inside_plain h)
  have hline : includeLine file = "#include " ++ ("\"" ++ file ++ "\"") := by
    simp only [includeLine, String.append_assoc]
  rw [hline]
  exact .append (IsPlain.alike (by decide)) ⟨_, hfile, hfile⟩

/-- What stands before the blocks. -/
theorem alikeLines_preamble (h : PlainCode settings doc) :
    AlikeLines
      (sectionTitle "Header" ++ [includeLine settings.headerFile, ""]
        ++ includeSection settings.sourceIncludes ++ sectionTitle "File Implementation"
        ++ opening doc.nameSpace)
      (sectionTitle "Header" ++ [includeLine settings.headerFile, ""]
        ++ includeSection settings.sourceIncludes ++ sectionTitle "File Implementation"
        ++ opening doc.nameSpace) := by
  have htitle : ∀ title ∈ ["Header", "Includes", "File Implementation"],
      AlikeLines (sectionTitle title) (sectionTitle title) := by
    intro title htitle
    refine alikeLines_of_plain ?_
    revert title
    decide
  have hheader : Alike (includeLine settings.headerFile) (includeLine settings.headerFile) :=
    alike_includeLine (h.baseName.append (by decide))
  have hincludes : AlikeLines (includeSection settings.sourceIncludes)
      (includeSection settings.sourceIncludes) := by
    rw [includeSection]
    split
    · exact .nil
    · exact ((htitle _ (by decide)).append
        (alikeLines_map fun file hfile => alike_includeLine (h.sourceIncludes file hfile))).append
        alikeLines_separator
  have hopening : AlikeLines (opening doc.nameSpace) (opening doc.nameSpace) := by
    rw [opening]
    split
    · exact .nil
    · exact .cons ((IsPlain.append (by decide) h.nameSpace).append (by decide)).alike
        alikeLines_separator
  exact (htitle _ (by decide)).append (.cons hheader alikeLines_separator) |>.append hincludes
    |>.append (htitle _ (by decide)) |>.append hopening

/-- **The source shows the names in literals only.** -/
theorem blanked_source_rename (hr : Renaming r) (h : PlainCode settings doc.resolve.1) :
    blanked (source settings (doc.resolve.1.rename r))
      = blanked (source settings doc.resolve.1) := by
  have hbanner : AlikeLines [banner] [banner] := alikeLines_of_plain (by decide)
  have henums : AlikeLines
      (doc.resolve.1.enums.items.flatMap fun e =>
        [banner] ++ EnumBlock.definition settings e ++ [""])
      ((doc.resolve.1.rename r).enums.items.flatMap fun e =>
        [banner] ++ EnumBlock.definition settings e ++ [""]) := by
    rw [show (doc.resolve.1.rename r).enums.items
      = doc.resolve.1.enums.items.map (EnumDecl.rename r) from items_rename _ _, List.flatMap_map]
    exact alikeLines_flatMap fun e he =>
      (hbanner.append (alikeLines_enumDefinition h he)).append alikeLines_separator
  have hclasses : AlikeLines
      (doc.resolve.1.classes.items.flatMap fun c =>
        [banner] ++ ClassBlock.definition settings doc.resolve.1 c)
      ((doc.resolve.1.rename r).classes.items.flatMap fun c =>
        [banner] ++ ClassBlock.definition settings (doc.resolve.1.rename r) c) := by
    rw [(sameOutline_rename hr doc.resolve.1).items, List.flatMap_map]
    exact alikeLines_flatMap fun c hc =>
      hbanner.append (ClassBlock.alikeLines_definition hr h hc)
  have hclosing : AlikeLines (closing doc.nameSpace) (closing doc.nameSpace) := by
    rw [closing]
    split
    · exact .nil
    · exact .cons (IsPlain.append (by decide) h.nameSpace).alike .nil
  refine (blanked_unlines ?_).symm
  exact (alikeLines_preamble h).append henums |>.append hclasses |>.append hbanner
    |>.append (alike_registerFunction h).lines |>.append alikeLines_separator
    |>.append (alike_factoryFunction h).lines |>.append alikeLines_separator |>.append hclosing

end Code

/-! ### Bindings -/

def Diagnostic.SameKind (d d' : Diagnostic) : Prop :=
  d'.severity = d.severity ∧ d'.problem.ctorIdx = d.problem.ctorIdx

theorem Diagnostic.sameKind_rename (d : Diagnostic) : d.SameKind (d.rename r) := by
  refine ⟨rfl, ?_⟩
  obtain ⟨severity, problem, location⟩ := d
  cases problem <;> rfl

namespace Binding

open Schema.Document (load load_renameRoot)

/-- **Names only bind.**  A tree under other names is refused if the tree is, or it has the same
header and, but for what stands in literals, the same source; and what is wrong is of the same kind,
one by one. -/
theorem generate_renameRoot (settings : Code.Settings) {root : Node} (h : Renaming r)
    (hroot : Coded root) (hplain : Code.PlainCode settings (load root).1) :
    (∃ b b', generate settings root = .ok b ∧ generate settings (renameRoot r root) = .ok b'
        ∧ b'.header = b.header ∧ Code.blanked b'.source = Code.blanked b.source
        ∧ List.Forall₂ Diagnostic.SameKind b.diagnostics b'.diagnostics)
      ∨ ∃ ds ds', generate settings root = .error ds
        ∧ generate settings (renameRoot r root) = .error ds'
        ∧ List.Forall₂ Diagnostic.SameKind ds ds' := by
  have hload := load_renameRoot h hroot
  have hkinds : List.Forall₂ Diagnostic.SameKind (load root).2 (load (renameRoot r root)).2 := by
    rw [hload, List.forall₂_map_right_iff, List.forall₂_same]
    exact fun d _ => d.sameKind_rename
  have hfatal : Diagnostic.anyFatal (load (renameRoot r root)).2
      = Diagnostic.anyFatal (load root).2 := by
    simp only [hload, Diagnostic.anyFatal, List.any_map, Function.comp_def,
      Diagnostic.isFatal_rename]
  cases hany : Diagnostic.anyFatal (load root).2 with
  | false =>
    rw [hany] at hfatal
    refine Or.inl ⟨_, _, generate_eq_ok_iff.2 ⟨hany, rfl⟩, generate_eq_ok_iff.2 ⟨hfatal, rfl⟩,
      ?_, ?_, hkinds⟩
    · rw [hload]
      exact Code.header_rename h settings _
    · rw [hload]
      exact Code.blanked_source_rename h hplain
  | true =>
    rw [hany] at hfatal
    exact Or.inr ⟨_, _, by simp [generate, hany], by simp [generate, hfatal], hkinds⟩

/-- A schema of items and potions, with a default that has quotes in it and a type that names
nothing. -/
def potionSchema : Node :=
  ⟨"Schema", [("namespace", "bag")],
    [⟨"Enum", [("name", "Rarity"), ("code", "ERarity")],
        [⟨"Value", [("name", "Common")], []⟩, ⟨"Value", [("name", "Rare")], []⟩]⟩,
      ⟨"Class", [("name", "Item"), ("code", "DS_Item"), ("type", "datasave")],
        [⟨"Data", [("name", "label"), ("type", "string"), ("default", "a \"thing\"")], []⟩,
          ⟨"Data", [("name", "rarity"), ("type", "Rarity"), ("default", "Rare")], []⟩]⟩,
      ⟨"Class", [("name", "Potion"), ("code", "DS_Potion"), ("type", "datasave"), ("base", "Item")],
        [⟨"Data", [("name", "source"), ("type", "array:instance:Item")], []⟩,
          ⟨"Data", [("name", "lost"), ("type", "reference:Elixir")], []⟩]⟩]⟩

theorem generate_potionSchema_traded :
    Renaming (Equiv.swap "Item" "Potion") ∧ Coded potionSchema
      ∧ Code.PlainCode .standard (load potionSchema).1
      ∧ ∃ b b', generate .standard potionSchema = .ok b
        ∧ generate .standard (renameRoot (Equiv.swap "Item" "Potion") potionSchema) = .ok b'
        ∧ b'.header = b.header ∧ Code.blanked b'.source = Code.blanked b.source
        ∧ List.Forall₂ Diagnostic.SameKind b.diagnostics b'.diagnostics
        ∧ b.diagnostics ≠ [] := by
  have hrenaming : Renaming (Equiv.swap "Item" "Potion") :=
    renaming_swap (by decide) (by decide) (by decide)
  have hcoded : Coded potionSchema :=
    { code := by decide
      base := by decide
      type := by decide }
  have hplain : Code.PlainCode .standard (load potionSchema).1 :=
    { baseName := by decide
      runtimeNamespace := by decide
      sourceIncludes := by decide
      nameSpace := by decide +kernel
      enumName := by decide +kernel
      value := by decide +kernel
      className := by decide +kernel
      memberName := by decide +kernel
      literal := by decide +kernel }
  have hfatal : Diagnostic.anyFatal (load potionSchema).2 = false := by decide +kernel
  have hreported : (load potionSchema).2 ≠ [] := by decide +kernel
  refine ⟨hrenaming, hcoded, hplain, ?_⟩
  rcases generate_renameRoot .standard hrenaming hcoded hplain with
    ⟨b, b', hb, hb', hheader, hsource, hkinds⟩ | ⟨ds, -, hrefused, -, -⟩
  · refine ⟨b, b', hb, hb', hheader, hsource, hkinds, ?_⟩
    rw [(generate_eq_ok_iff.1 hb).2]
    exact hreported
  · simp [generate, hfatal] at hrefused

end Binding

end SchemaBinding
