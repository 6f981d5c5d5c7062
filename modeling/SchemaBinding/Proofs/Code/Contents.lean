import SchemaBinding.Proofs.Code.UnitOutline

/-!
# What the two files hold, in order

Read line by line, the header announces every class, then declares every enum and then every class
with its fields, each list in the order of the document.  The source defines the functions of the
enums and then those of the classes in the same orders, and the enums are registered in that order
too.

* `registrations_enum`, `registrations_class`: no function of an enum or a class registers enums.
* `filter_isPart_headerEntries`, `filter_isHeading_sourceEntries`,
  `filterMap_registration?_sourceEntries`: what the outlines of the two files hold of each sort.
* `contents_inOrder`: the contents of the files of a schema.
-/

namespace SchemaBinding.Code

open Schema
open Schema.Document (load ofNode)

variable {settings : Settings} {doc : Document} {c : ClassDecl} {e : EnumDecl}

/-! ### Sorts of entries -/

namespace Entry

/-- An entry that announces or begins a part of the header, or a field. -/
def isPart : Entry → Bool
  | forward _ | enumBlock _ | classBlock _ _ | field _ _ => true
  | _ => false

/-- An entry that begins a block of an enum, or the definition of a function. -/
def isHeading : Entry → Bool
  | enumBlock _ | defined _ _ => true
  | _ => false

/-- The enum that a statement registers, with the signature above the body. -/
def registration? : Entry → Option (String × String)
  | statement owner text => (nameBetween? "" "::Register();" text).map (owner, ·)
  | _ => none

end Entry

theorem filter_map_all {α β : Type} {p : β → Bool} {f : α → β} (h : ∀ a, p (f a) = true)
    (items : List α) : (items.map f).filter p = items.map f := by
  rw [List.filter_eq_self]
  simpa using fun a _ => h a

theorem filter_map_none {α β : Type} {p : β → Bool} {f : α → β} (h : ∀ a, p (f a) = false)
    (items : List α) : (items.map f).filter p = [] := by
  rw [List.filter_eq_nil_iff]
  simpa using fun a _ => h a

/-! ### Parts of the header -/

theorem filter_isPart_enum (settings : Settings) (e : EnumDecl) :
    (EnumBlock.declarationEntries settings e).filter Entry.isPart
      = [.enumBlock e.generatedName] := by
  rw [EnumBlock.declarationEntries, List.filter_append, List.filter_cons_of_pos rfl,
    filter_map_none fun _ => rfl, filter_map_none fun _ => rfl]
  rfl

/-- What a class says of itself and its fields. -/
def ClassBlock.partEntries (settings : Settings) (doc : Document) (c : ClassDecl) : List Entry :=
  .classBlock c.generatedName (parentType settings doc c)
    :: c.emittedMembers.map fun (m, r) =>
      .field c.generatedName (r.signature ++ " " ++ m.generatedName ++ ";")

theorem filter_isPart_class (settings : Settings) (doc : Document) (c : ClassDecl) :
    (ClassBlock.declarationEntries settings doc c).filter Entry.isPart
      = ClassBlock.partEntries settings doc c := by
  rw [ClassBlock.declarationEntries, List.filter_append, List.filter_append,
    filter_map_all fun _ => rfl, filter_map_none fun _ => rfl, List.append_nil]
  rfl

/-- **The parts of the header**: the classes that it announces, the enums and the classes. -/
theorem filter_isPart_headerEntries (settings : Settings) (doc : Document) :
    (headerEntries settings doc).filter Entry.isPart
      = doc.classes.items.map (.forward ·.generatedName)
        ++ doc.enums.items.map (.enumBlock ·.generatedName)
        ++ doc.classes.items.flatMap (ClassBlock.partEntries settings doc) := by
  have hopening : (openingEntries doc.nameSpace).filter Entry.isPart = [] := by
    unfold openingEntries
    split <;> rfl
  have hclosing : (closingEntries doc.nameSpace).filter Entry.isPart = [] := by
    unfold closingEntries
    split <;> rfl
  have henums :
      (doc.enums.items.flatMap (EnumBlock.declarationEntries settings)).filter Entry.isPart
      = doc.enums.items.map (.enumBlock ·.generatedName) := by
    simp only [List.filter_flatMap, filter_isPart_enum, List.map_eq_flatMap]
  have hclasses : (doc.classes.items.flatMap (ClassBlock.declarationEntries settings doc)).filter
      Entry.isPart = doc.classes.items.flatMap (ClassBlock.partEntries settings doc) := by
    simp only [List.filter_flatMap, filter_isPart_class]
  simp only [headerEntries, List.filter_append, hopening, henums, hclasses, hclosing]
  rw [filter_map_none fun _ => rfl, filter_map_all fun _ => rfl, List.nil_append, List.nil_append]
  show _ ++ [] ++ [] = _
  rw [List.append_nil, List.append_nil]

/-! ### Headings of the source -/

theorem filter_isHeading_function (scope? : Option String) (qualifier : String) (f : Function) :
    (f.entries scope? qualifier).filter Entry.isHeading
      = [.defined scope? (f.signature.text qualifier)] := by
  rw [Function.entries, statements, List.filter_cons_of_pos rfl, filter_map_none fun _ => rfl]

theorem filter_isHeading_enum (settings : Settings) (e : EnumDecl) :
    (EnumBlock.definitionEntries settings e).filter Entry.isHeading
      = .enumBlock e.generatedName :: (EnumBlock.functions settings e).map fun f =>
          .defined (some e.generatedName) (f.signature.text "") := by
  rw [EnumBlock.definitionEntries, List.filter_cons_of_pos rfl, List.filter_flatMap,
    List.map_eq_flatMap]
  simp only [filter_isHeading_function]

theorem filter_isHeading_class (settings : Settings) (doc : Document) (c : ClassDecl) :
    (ClassBlock.definitionEntries settings doc c).filter Entry.isHeading
      = (ClassBlock.functions settings doc c).map fun f =>
          .defined none (f.signature.text (c.generatedName ++ "::")) := by
  rw [ClassBlock.definitionEntries, List.filter_flatMap, List.map_eq_flatMap]
  simp only [filter_isHeading_function]

theorem filter_isHeading_factory (settings : Settings) (doc : Document) :
    (factoryEntries settings doc).filter Entry.isHeading
      = [.defined none ((factorySignature settings).text "")] := by
  have hbranches : ∀ owner, ((factoryBranches doc).flatMap (FactoryBranch.entries owner)).filter
      Entry.isHeading = [] := by
    intro owner
    rw [List.filter_flatMap]
    exact List.flatMap_eq_nil_iff.2 fun b _ => rfl
  rw [factoryEntries, List.filter_append, List.filter_cons_of_pos rfl, hbranches]
  rfl

/-- **The headings of the source**: the blocks of the enums, then those of the classes, each with
the functions that it defines, then the two free routines. -/
theorem filter_isHeading_sourceEntries (settings : Settings) (doc : Document) :
    (sourceEntries settings doc).filter Entry.isHeading
      = doc.enums.items.flatMap (fun e => .enumBlock e.generatedName
          :: (EnumBlock.functions settings e).map fun f =>
            .defined (some e.generatedName) (f.signature.text ""))
        ++ doc.classes.items.flatMap (fun c => (ClassBlock.functions settings doc c).map fun f =>
          .defined none (f.signature.text (c.generatedName ++ "::")))
        ++ [.defined none ((registerSignature settings).text ""),
          .defined none ((factorySignature settings).text "")] := by
  have hopening : (openingEntries doc.nameSpace).filter Entry.isHeading = [] := by
    unfold openingEntries
    split <;> rfl
  have hclosing : (closingEntries doc.nameSpace).filter Entry.isHeading = [] := by
    unfold closingEntries
    split <;> rfl
  have hincludes : (Entry.included settings.headerFile
      :: settings.sourceIncludes.map Entry.included).filter Entry.isHeading = [] :=
    filter_map_none (fun _ => rfl) (settings.headerFile :: settings.sourceIncludes)
  simp only [sourceEntries, List.filter_append, hincludes, hopening, hclosing, List.filter_flatMap,
    filter_isHeading_enum, filter_isHeading_class, filter_isHeading_function,
    filter_isHeading_factory, List.nil_append, List.append_nil, List.append_assoc]
  rfl

/-! ### Registered enums -/

theorem filterMap_registration?_function (scope? : Option String) (qualifier : String)
    (f : Function) :
    (f.entries scope? qualifier).filterMap Entry.registration?
      = f.registrations.map (f.signature.text qualifier, ·) := by
  rw [Function.entries, List.filterMap_cons_none rfl, statements, List.filterMap_map,
    List.filterMap_filter, Function.registrations, List.map_filterMap]
  refine List.filterMap_congr fun line _ => ?_
  split
  · rfl
  · next hempty =>
    -- a line that only separates is no statement, and registers nothing
    obtain rfl : line = "" := by simpa using hempty
    have hnone : nameBetween? "" "::Register();" "" = none := by decide +kernel
    rw [hnone]
    rfl

theorem registrations_eq_nil {f : Function}
    (h : ∀ line ∈ f.body, nameBetween? "" "::Register();" line = none) : f.registrations = [] :=
  List.filterMap_eq_nil_iff.2 h

/-- A line with a character that does not belong there registers no enum. -/
theorem noRegistration_of_mem {line : String} {d : Char} (hmem : d ∈ line.toList)
    (hword : isWordCharacter d = false) (hback : d ∉ "::Register();".toList) :
    nameBetween? "" "::Register();" line = none :=
  nameBetween?_of_foreign hword (by simp) hback hmem

theorem registrations_enum (settings : Settings) (e : EnumDecl) :
    ∀ f ∈ EnumBlock.functions settings e, f.registrations = [] := by
  simp only [EnumBlock.functions, List.forall_mem_cons, List.not_mem_nil, false_imp_iff,
    implies_true, and_true]
  refine ⟨registrations_eq_nil ?register, registrations_eq_nil ?infos,
    registrations_eq_nil ?values, registrations_eq_nil ?size⟩
  case register =>
    intro line hline
    simp only [EnumBlock.register, EnumBlock.registrations, List.mem_append, List.mem_cons,
      List.mem_map, List.not_mem_nil, or_false] at hline
    rcases hline with ((rfl | rfl) | ⟨value, -, rfl⟩) | rfl
    · exact noRegistration_of_mem (d := '*') (by simp) (by decide) (by decide)
    · exact noRegistration_of_mem (d := '>') (by simp) (by decide) (by decide)
    · exact noRegistration_of_mem (d := '>') (by simp) (by decide) (by decide)
    · exact noRegistration_of_mem (d := '>') (by simp) (by decide) (by decide)
  case infos =>
    simp only [EnumBlock.getInfos, List.forall_mem_singleton]
    exact noRegistration_of_mem (d := '>') (by simp) (by decide) (by decide)
  case values =>
    intro line hline
    simp only [EnumBlock.getValues, EnumBlock.collections, List.mem_append, List.mem_cons,
      List.mem_map, List.not_mem_nil, or_false] at hline
    rcases hline with rfl | ⟨value, -, rfl⟩
    · exact noRegistration_of_mem (d := '.') (by simp) (by decide) (by decide)
    · exact noRegistration_of_mem (d := '.') (by simp) (by decide) (by decide)
  case size =>
    simp only [EnumBlock.getSize, List.forall_mem_singleton]
    exact noRegistration_of_mem (d := ' ') (by simp) (by decide) (by decide)

theorem noRegistration_assignment (a : Assignment) :
    nameBetween? "" "::Register();" a.text = none :=
  noRegistration_of_mem (d := '=') (by simp [Assignment.text]) (by decide) (by decide)

theorem noRegistration_release {m : Member} {r : Resolution}
    (hfield : isIdentifier m.generatedName = true) {a : Release}
    (ha : ClassBlock.release? m r = some a) : nameBetween? "" "::Register();" a.text = none := by
  have hcolon : ∀ {front back : String}, ':' ∉ front.toList → ':' ∉ back.toList →
      nameBetween? "" "::Register();" (front ++ m.generatedName ++ back) = none :=
    fun hfront hback => nameBetween?_of_missing (Or.inr (by decide : ':' ∈ "::Register();".toList))
      (notMem_around hfield (by decide) hfront hback)
  unfold ClassBlock.release? at ha
  split at ha <;> cases ha
  · exact noRegistration_of_mem (d := '=') (by simp [Release.text]) (by decide) (by decide)
  · exact noRegistration_of_mem (d := '.') (by simp [Release.text]) (by decide) (by decide)
  · exact hcolon (by decide) (by decide)
  · exact hcolon (by decide) (by decide)

theorem registrations_accessFunction (settings : Settings) (doc : Document) (signature : Signature)
    (direction : Direction) (c : ClassDecl) :
    (ClassBlock.accessFunction settings doc signature direction c).registrations = [] := by
  refine registrations_eq_nil fun line hline => ?_
  rcases List.mem_append.1 hline with hline | hline
  · unfold ClassBlock.parentCall? at hline
    cases hp : doc.parentOf? c with
    | none =>
      rw [hp] at hline
      cases hline
    | some p =>
      rw [hp] at hline
      rcases List.mem_cons.1 hline with rfl | hline
      · have hending : "(context);".toList
            <:+ (p.generatedName ++ "::" ++ signature.name ++ "(context);").toList := by
          rw [String.toList_append]
          exact List.suffix_append _ _
        rw [nameBetween?, between?_of_ending hending (by decide) (by decide), Option.filter_none]
      · split at hline
        · cases hline
        · rw [List.mem_singleton.1 hline]
          decide +kernel
  · obtain ⟨a, -, rfl⟩ := List.mem_map.1 hline
    exact noRegistration_of_mem (d := ',') (by simp [Access.text]) (by decide) (by decide)

theorem registrations_class (settings : Settings) (doc : Document)
    (hfields : ∀ emitted ∈ c.emittedMembers, isIdentifier emitted.1.generatedName = true) :
    ∀ f ∈ ClassBlock.functions settings doc c, f.registrations = [] := by
  have hconstructor : (ClassBlock.constructor c).registrations = [] := by
    refine registrations_eq_nil fun line hline => ?_
    obtain ⟨a, -, rfl⟩ := List.mem_map.1 hline
    exact noRegistration_assignment a
  have hdestructor : (ClassBlock.destructor c).registrations = [] := by
    refine registrations_eq_nil fun line hline => ?_
    obtain ⟨a, ha, rfl⟩ := List.mem_map.1 hline
    obtain ⟨emitted, hemitted, ha⟩ := List.mem_filterMap.1 ha
    exact noRegistration_release (hfields emitted hemitted) ha
  have htype : (ClassBlock.instanceType c).registrations = [] := by
    refine registrations_eq_nil ?_
    simp only [ClassBlock.instanceType, List.forall_mem_cons, List.not_mem_nil, false_imp_iff,
      implies_true, and_true]
    exact ⟨noRegistration_of_mem (d := ' ') (by simp) (by decide) (by decide),
      noRegistration_of_mem (d := ' ') (by simp) (by decide) (by decide)⟩
  intro f hf
  rcases List.mem_append.1 hf with hf | hf
  · simp only [List.mem_cons, List.not_mem_nil, or_false] at hf
    rcases hf with rfl | rfl | rfl
    · exact hconstructor
    · exact hdestructor
    · exact registrations_accessFunction settings doc _ .read c
  · split at hf
    · simp only [List.mem_cons, List.not_mem_nil, or_false] at hf
      rcases hf with rfl | rfl
      · exact registrations_accessFunction settings doc _ .write c
      · exact htype
    · cases hf

theorem filterMap_registration?_functions {scope? : Option String} {qualifier : String}
    {fs : List Function} (h : ∀ f ∈ fs, f.registrations = []) :
    (fs.flatMap (Function.entries scope? qualifier)).filterMap Entry.registration? = [] := by
  rw [List.filterMap_flatMap, List.flatMap_eq_nil_iff]
  intro f hf
  rw [filterMap_registration?_function, h f hf, List.map_nil]

theorem filterMap_registration?_factory (settings : Settings) (doc : Document) :
    (factoryEntries settings doc).filterMap Entry.registration? = [] := by
  have hblank : ∀ {owner line : String}, ' ' ∈ line.toList →
      Entry.registration? (.statement owner line) = none := by
    intro owner line hmem
    rw [Entry.registration?, noRegistration_of_mem hmem (by decide) (by decide), Option.map_none]
  rw [List.filterMap_eq_nil_iff]
  intro entry hentry
  simp only [factoryEntries, FactoryBranch.entries, List.mem_append, List.mem_cons,
    List.mem_flatMap,
    List.not_mem_nil, or_false] at hentry
  rcases hentry with (rfl | ⟨b, -, rfl | rfl⟩) | rfl
  · rfl
  · exact hblank (by simp)
  · exact hblank (by simp)
  · exact hblank (by simp)

/-- **Only the routine that registers calls enums for it**, every enum once, in order. -/
theorem filterMap_registration?_sourceEntries (settings : Settings)
    (henums : ∀ e ∈ doc.enums.items, isIdentifier e.generatedName = true)
    (hfields : ∀ c ∈ doc.classes.items, ∀ emitted ∈ c.emittedMembers,
      isIdentifier emitted.1.generatedName = true) :
    (sourceEntries settings doc).filterMap Entry.registration?
      = doc.enums.items.map fun e =>
          ((registerSignature settings).text "", e.generatedName) := by
  have hopening : (openingEntries doc.nameSpace).filterMap Entry.registration? = [] := by
    unfold openingEntries
    split <;> rfl
  have hclosing : (closingEntries doc.nameSpace).filterMap Entry.registration? = [] := by
    unfold closingEntries
    split <;> rfl
  have hincludes : (Entry.included settings.headerFile
      :: settings.sourceIncludes.map Entry.included).filterMap Entry.registration? = [] := by
    simp [Entry.registration?]
  have hblocks : (doc.enums.items.flatMap (EnumBlock.definitionEntries settings)).filterMap
      Entry.registration? = [] := by
    rw [List.filterMap_flatMap, List.flatMap_eq_nil_iff]
    intro e _
    rw [EnumBlock.definitionEntries, List.filterMap_cons_none rfl]
    exact filterMap_registration?_functions (registrations_enum settings e)
  have hclasses : (doc.classes.items.flatMap (ClassBlock.definitionEntries settings doc)).filterMap
      Entry.registration? = [] := by
    rw [List.filterMap_flatMap, List.flatMap_eq_nil_iff]
    intro c hc
    exact filterMap_registration?_functions (registrations_class settings doc (hfields c hc))
  simp only [sourceEntries, List.filterMap_append, hincludes, hopening, hblocks, hclasses, hclosing,
    filterMap_registration?_function, filterMap_registration?_factory,
    registrations_registerFunction settings henums, List.nil_append, List.append_nil, List.map_map]
  rfl

/-! ### The files of a schema -/

/-- A schema of goods and of stalls without anything of their own, with a unit without values. -/
def marketSchema : Node :=
  ⟨"Schema", [("namespace", "market")],
    [⟨"Class", [("name", "good"), ("code", "Good"), ("type", "datasave")],
        [⟨"Data", [("name", "label"), ("type", "string"), ("default", "a\n\"thing\"")], []⟩,
          ⟨"Data", [("name", "lost"), ("type", "reference:Nowhere")], []⟩,
          ⟨"Data", [("name", "price"), ("type", "array:int")], []⟩]⟩,
      ⟨"Enum", [("name", "Coin")], [⟨"Value", [("name", "Gold")], []⟩]⟩,
      ⟨"Class", [("name", "Stall"), ("base", "good")], []⟩,
      ⟨"Enum", [("name", "Unit")], []⟩]⟩

theorem unbroken_standard : Settings.standard.Unbroken :=
  ⟨by decide, by decide, by decide +kernel, by decide +kernel⟩

theorem regularDocument_marketSchema : RegularDocument (load marketSchema).1 where
  nameSpace := by decide +kernel
  enumName := by decide +kernel
  value := by decide +kernel
  className := by decide +kernel
  memberName := by decide +kernel
  method := by decide +kernel
  literal := by decide +kernel

end SchemaBinding.Code
