import SchemaBinding.Proofs.Code.LookupKey
import SchemaBinding.Proofs.Code.Outline

/-!
# Code without stray line breaks

A literal is written without a line break, whatever it denotes.  Everything else that code takes
from a document and its settings is copied, so a line of code is one line if none of that holds a
line break.

* `unbroken_quoted`: literals hold no line break.
* `RegularDocument`: names are identifiers, nothing is copied into classes, and no default apart
  from text holds a line break.
* `RegularDocument.isTypeText_signature`: the types of fields are put together from words and a few
  marks.
* `EnumBlock.legible_functions`, `ClassBlock.legible_functions`: every line of a body is one line,
  and no brace.
-/

namespace SchemaBinding

open Schema

/-- The literal of a default that is copied into code as it is. -/
def Schema.DefaultValue.literal? : DefaultValue → Option String
  | int literal | float literal | bool literal => some literal
  | enumerator _ value => some value
  | text _ | noEnumerators | null | emptySequence => none

namespace Code

/-! ### Pieces -/

/-- **Literals hold no line break.** -/
theorem unbroken_quoted (s : String) : '\n' ∉ (quoted s).toList := by
  have hbody : '\n' ∉ (escape s).toList := by
    intro hmem
    exact absurd (isControl_of_mem_escape hmem) (by decide)
  simp [quoted, hbody]

theorem unbroken_toString (n : Nat) : '\n' ∉ (toString n).toList :=
  fun hmem => absurd (isDigit_of_mem_toString hmem) (by decide)

theorem unbroken_of_isIdentifier {s : String} (h : isIdentifier s = true) : '\n' ∉ s.toList :=
  notMem_of_isIdentifier h (by decide)

/-! ### Settings -/

structure Settings.Unbroken (s : Settings) : Prop where
  baseName : '\n' ∉ s.baseName.toList
  runtimeNamespace : '\n' ∉ s.runtimeNamespace.toList
  headerIncludes : ∀ file ∈ s.headerIncludes, '\n' ∉ file.toList
  sourceIncludes : ∀ file ∈ s.sourceIncludes, '\n' ∉ file.toList

theorem Settings.Unbroken.runtime {s : Settings} (h : s.Unbroken) {item : String}
    (hitem : '\n' ∉ item.toList) : '\n' ∉ (s.runtime item).toList := by
  rw [Settings.runtime]
  split
  · exact hitem
  · simp [h.runtimeNamespace, hitem]

/-! ### Documents -/

/-- A document whose names are identifiers, whose classes have no methods that are copied, and whose
defaults apart from text hold no line break. -/
structure RegularDocument (doc : Document) : Prop where
  nameSpace : doc.nameSpace = "" ∨ isIdentifier doc.nameSpace = true
  enumName : ∀ e ∈ doc.enums.items, isIdentifier e.generatedName = true
  value : ∀ e ∈ doc.enums.items, ∀ value ∈ e.values, isIdentifier value = true
  className : ∀ c ∈ doc.classes.items, isIdentifier c.generatedName = true
  memberName : ∀ c ∈ doc.classes.items, ∀ emitted ∈ c.emittedMembers,
    isIdentifier emitted.1.generatedName = true
  method : ∀ c ∈ doc.classes.items, c.methods = []
  literal : ∀ c ∈ doc.classes.items, ∀ emitted ∈ c.emittedMembers,
    ∀ literal ∈ emitted.2.default.literal?, '\n' ∉ literal.toList

/-- Words, and marks that types are put together with. -/
def IsTypeText (s : String) : Prop :=
  ∀ c ∈ s.toList, isWordCharacter c = true ∨ c ∈ ['<', '>', ':', '*', ' ']

instance (s : String) : Decidable (IsTypeText s) := List.decidableBAll _ s.toList

theorem IsTypeText.append {s t : String} (hs : IsTypeText s) (ht : IsTypeText t) :
    IsTypeText (s ++ t) := by
  intro c hc
  rw [String.toList_append, List.mem_append] at hc
  exact hc.elim (hs c) (ht c)

theorem IsTypeText.notMem {s : String} (h : IsTypeText s) {c : Char}
    (hword : isWordCharacter c = false) (hmark : c ∉ ['<', '>', ':', '*', ' ']) : c ∉ s.toList := by
  intro hc
  rcases h c hc with hc | hc
  · rw [hword] at hc
    cases hc
  · exact hmark hc

theorem isTypeText_of_isIdentifier {s : String} (h : isIdentifier s = true) : IsTypeText s :=
  fun c hc => Or.inl (isWordCharacter_of_isIdentifier h c hc)

theorem isTypeText_target {owner : ClassKind} {t : Target}
    (hobject : ∀ decl ownership,
      t = .object decl ownership → isIdentifier decl.generatedName = true)
    (henum : ∀ e, t = .enumeration e → isIdentifier e.generatedName = true) :
    IsTypeText (t.signature owner) := by
  cases t with
  | object decl ownership =>
    have hname := isTypeText_of_isIdentifier (hobject decl ownership rfl)
    have hplain : IsTypeText (decl.generatedName ++ "*") := hname.append (by decide)
    have hconst : IsTypeText ("const " ++ decl.generatedName ++ "*") :=
      (IsTypeText.append (by decide) hname).append (by decide)
    cases ownership with
    | reference => exact hconst
    | owned =>
      cases owner with
      | datasheet => exact hconst
      | datasave => exact hplain
  | enumeration e =>
    exact (isTypeText_of_isIdentifier (henum e rfl)).append (by decide)
  | primitive p =>
    show IsTypeText p.fieldType
    cases p <;> decide

/-- What a field is set to is one line if nothing that is copied into it holds a line break. -/
theorem unbroken_expression_of_literal {doc : Document} {c : ClassDecl} {m : Member}
    {r : Resolution}
    (henums : ∀ e ∈ doc.resolve.1.enums.items, isIdentifier e.generatedName = true)
    (hc : c ∈ doc.resolve.1.classes.items) (hm : (m, r) ∈ c.emittedMembers)
    (hliteral : ∀ literal ∈ r.default.literal?, '\n' ∉ literal.toList) {expression : String}
    (hexpression : r.default.expression? = some expression) : '\n' ∉ expression.toList := by
  obtain ⟨t, ht, hr⟩ := exists_target_of_mem_emittedMembers hc hm
  cases hdefault : r.default with
  | text value =>
    rw [hdefault] at hexpression
    cases hexpression
    exact unbroken_quoted value
  | int literal | float literal | bool literal =>
    rw [hdefault] at hexpression hliteral
    cases hexpression
    exact hliteral _ rfl
  | enumerator enumName value =>
    rw [hdefault] at hexpression hliteral
    cases hexpression
    obtain ⟨e, rfl, rfl⟩ := Target.eq_enumeration_of_default (hr ▸ hdefault)
    have hmem : e ∈ doc.enums.items := mem_items_of_target? ht
    have hname := henums e hmem
    simp [unbroken_of_isIdentifier hname, hliteral value rfl]
  | noEnumerators | null =>
    rw [hdefault] at hexpression
    cases hexpression
    decide
  | emptySequence =>
    rw [hdefault] at hexpression
    cases hexpression

namespace RegularDocument

variable {doc : Document} {c : ClassDecl} {m : Member} {r : Resolution}

/-- **The types of fields** hold no other marks than those of types. -/
theorem isTypeText_signature (h : RegularDocument doc.resolve.1)
    (hc : c ∈ doc.resolve.1.classes.items) (hm : (m, r) ∈ c.emittedMembers) :
    IsTypeText r.signature := by
  obtain ⟨t, ht, rfl⟩ := exists_target_of_mem_emittedMembers hc hm
  have hsingle : IsTypeText (t.signature c.kind) := by
    refine isTypeText_target ?_ ?_
    · rintro decl ownership rfl
      have hfound : doc.resolve.1.class? m.type.base = some (doc.resolveClass decl) := by
        rw [Document.class?_resolve, Document.class?_of_target? ht, Option.map_some]
      have hmem : doc.resolveClass decl ∈ doc.resolve.1.classes.items :=
        Registry.mem_items_of_find? hfound
      have hname : isIdentifier (doc.resolveClass decl).generatedName = true := h.className _ hmem
      exact hname
    · rintro e rfl
      have hmem : e ∈ doc.enums.items := mem_items_of_target? ht
      exact h.enumName e hmem
  show IsTypeText (if m.type.isArray then "std::vector<" ++ t.signature c.kind ++ ">"
    else t.signature c.kind)
  split
  · exact (IsTypeText.append (by decide) hsingle).append (by decide)
  · exact hsingle

/-- What a field is set to is one line. -/
theorem unbroken_expression (h : RegularDocument doc.resolve.1)
    (hc : c ∈ doc.resolve.1.classes.items) (hm : (m, r) ∈ c.emittedMembers) {expression : String}
    (hexpression : r.default.expression? = some expression) : '\n' ∉ expression.toList :=
  unbroken_expression_of_literal h.enumName hc hm (h.literal c hc _ hm) hexpression

end RegularDocument

/-! ### Functions -/

/-- The signature of a function and every line of its body are one line, and no brace. -/
structure LegibleFunction (scope : String) (f : Function) : Prop where
  signature : '\n' ∉ (f.signature.text scope).toList
  body : ∀ line ∈ f.body, Legible line

variable {settings : Settings} {doc : Document} {c : ClassDecl} {e : EnumDecl}

namespace EnumBlock

def functions (settings : Settings) (e : EnumDecl) : List Function :=
  [register settings e, getInfos settings e, getValues e, getSize e]

theorem unbroken_infos (hs : settings.Unbroken) : '\n' ∉ (infos settings).toList :=
  hs.runtime (by decide)

theorem unbroken_resources (hs : settings.Unbroken) : '\n' ∉ (resources settings).toList := by
  simp [resources, hs.runtime]

theorem unbroken_count (e : EnumDecl) : '\n' ∉ (count e).toList := unbroken_toString _

theorem legible_register (hs : settings.Unbroken) (e : EnumDecl) :
    LegibleFunction "" (register settings e) where
  signature := by simp [register, registerSignature, Signature.text]
  body := by
    have hinfos := unbroken_infos hs
    intro line hline
    simp only [register, registrations, List.mem_append, List.mem_cons, List.mem_map,
      List.not_mem_nil, or_false] at hline
    rcases hline with ((rfl | rfl) | ⟨value, -, rfl⟩) | rfl
    · exact .of_mem (c := '*') (by simp [hinfos]) (by simp) (by decide)
    · exact .of_mem (c := '(') (by simp [unbroken_count]) (by simp) (by decide)
    · exact .of_mem (c := '(') (by simp [unbroken_quoted]) (by simp) (by decide)
    · exact .of_mem (c := '(') (by simp [unbroken_resources hs, unbroken_quoted]) (by simp)
        (by decide)

theorem legible_getInfos (hs : settings.Unbroken) (e : EnumDecl) :
    LegibleFunction "" (getInfos settings e) where
  signature := by simp [getInfos, infosSignature, Signature.text, unbroken_infos hs]
  body := by
    simp only [getInfos, List.forall_mem_singleton]
    exact .of_mem (c := '(') (by simp [unbroken_resources hs, unbroken_quoted]) (by simp)
      (by decide)

theorem legible_getValues (hname : isIdentifier e.generatedName = true)
    (hvalues : ∀ value ∈ e.values, isIdentifier value = true) :
    LegibleFunction "" (getValues e) where
  signature := by
    simp [getValues, valuesSignature, Signature.text, unbroken_of_isIdentifier hname]
  body := by
    intro line hline
    simp only [getValues, collections, List.mem_append, List.mem_cons, List.mem_map,
      List.not_mem_nil, or_false] at hline
    rcases hline with rfl | ⟨value, hvalue, rfl⟩
    · exact .of_mem (c := '(') (by simp [unbroken_count]) (by simp) (by decide)
    · have hline : '\n' ∉ value.toList := unbroken_of_isIdentifier (hvalues value hvalue)
      exact .of_mem (c := '(') (by simp [unbroken_of_isIdentifier hname, hline]) (by simp)
        (by decide)

theorem legible_getSize (e : EnumDecl) : LegibleFunction "" (getSize e) where
  signature := by simp [getSize, sizeSignature, Signature.text]
  body := by
    simp only [getSize, List.forall_mem_singleton]
    exact .of_mem (c := ' ') (by simp [unbroken_count]) (by simp) (by decide)

theorem legible_functions (hs : settings.Unbroken) (hname : isIdentifier e.generatedName = true)
    (hvalues : ∀ value ∈ e.values, isIdentifier value = true) :
    ∀ f ∈ functions settings e, LegibleFunction "" f := by
  simp only [functions, List.forall_mem_cons, List.not_mem_nil, false_imp_iff, implies_true,
    and_true]
  exact ⟨legible_register hs e, legible_getInfos hs e, legible_getValues hname hvalues,
    legible_getSize e⟩

end EnumBlock

namespace ClassBlock

/-- What is used of a class, to see that its functions are legible. -/
structure LegibleMembers (c : ClassDecl) : Prop where
  name : '\n' ∉ c.generatedName.toList
  field : ∀ emitted ∈ c.emittedMembers, '\n' ∉ emitted.1.generatedName.toList
  expression : ∀ emitted ∈ c.emittedMembers, ∀ expression ∈ emitted.2.default.expression?,
    '\n' ∉ expression.toList

theorem legible_constructor (h : LegibleMembers c) :
    LegibleFunction (c.generatedName ++ "::") (constructor c) where
  signature := by simp [constructor, constructorSignature, Signature.text, h.name]
  body := by
    simp only [constructor, assignments, List.forall_mem_map, List.mem_filterMap]
    rintro a ⟨emitted, hemitted, ha⟩
    simp only [assignment?] at ha
    split at ha
    · cases ha
    · obtain ⟨expression, hexpression, rfl⟩ := Option.map_eq_some_iff.1 ha
      have hline := h.expression emitted hemitted expression hexpression
      exact .of_mem (c := ' ') (by simp [Assignment.text, h.field emitted hemitted, hline])
        (by simp [Assignment.text]) (by decide)

theorem legible_destructor (h : LegibleMembers c) :
    LegibleFunction (c.generatedName ++ "::") (destructor c) where
  signature := by simp [destructor, destructorSignature, Signature.text, h.name]
  body := by
    simp only [destructor, releases, List.forall_mem_map, List.mem_filterMap]
    rintro a ⟨emitted, hemitted, ha⟩
    have hfield := h.field emitted hemitted
    simp only [release?] at ha
    split at ha <;> cases ha
    · exact .of_mem (c := ' ') (by simp [Release.text, hfield]) (by simp [Release.text]) (by decide)
    · exact .of_mem (c := '(') (by simp [Release.text, hfield]) (by simp [Release.text]) (by decide)
    · exact .of_mem (c := '(') (by simp [Release.text, hfield]) (by simp [Release.text]) (by decide)
    · exact .of_mem (c := '(') (by simp [Release.text, hfield]) (by simp [Release.text]) (by decide)

theorem legible_access (hs : settings.Unbroken) {a : Access} (hfield : '\n' ∉ a.field.toList)
    (hname : '\n' ∉ a.routine.name.toList) : Legible (a.text settings) := by
  have hroutine : '\n' ∉ (settings.runtime ("binding::" ++ a.routine.name)).toList :=
    hs.runtime (by simp [hname])
  refine .of_mem (c := '(') ?_ (by simp [Access.text]) (by decide)
  obtain ⟨routine, key, typeName?, field⟩ := a
  cases typeName? <;> simp [Access.text, hroutine, unbroken_quoted, hfield]

theorem unbroken_routineName (r : Routine) : '\n' ∉ r.name.toList := by
  obtain ⟨direction, shape, isArray⟩ := r
  cases direction <;> cases shape <;> cases isArray <;> decide

theorem legible_accessFunction (hs : settings.Unbroken) (h : LegibleMembers c)
    (hparent : ∀ p ∈ doc.parentOf? c, '\n' ∉ p.generatedName.toList) {signature : Signature}
    (hsignature : '\n' ∉ (signature.text (c.generatedName ++ "::")).toList)
    (hname : '\n' ∉ signature.name.toList) (direction : Direction) :
    LegibleFunction (c.generatedName ++ "::")
      (accessFunction settings doc signature direction c) where
  signature := hsignature
  body := by
    intro line hline
    rcases List.mem_append.1 hline with hline | hline
    · unfold parentCall? at hline
      cases hp : doc.parentOf? c with
      | none =>
        rw [hp] at hline
        cases hline
      | some p =>
        rw [hp] at hline
        rcases List.mem_cons.1 hline with rfl | hline
        · exact .of_mem (c := '(') (by simp [hparent p hp, hname]) (by simp) (by decide)
        · split at hline
          · cases hline
          · rw [List.mem_singleton.1 hline]
            exact legible_empty
    · obtain ⟨a, ha, rfl⟩ := List.mem_map.1 hline
      obtain ⟨emitted, hemitted, rfl⟩ := List.mem_map.1 ha
      exact legible_access hs (h.field emitted hemitted) (unbroken_routineName _)

theorem legible_instanceType (h : LegibleMembers c) :
    LegibleFunction (c.generatedName ++ "::") (instanceType c) where
  signature := by simp [instanceType, instanceTypeSignature, Signature.text, h.name]
  body := by
    simp only [instanceType, List.forall_mem_cons, List.not_mem_nil, false_imp_iff, implies_true,
      and_true]
    exact ⟨.of_mem (c := ' ') (by simp [unbroken_quoted]) (by simp) (by decide),
      .of_mem (c := ' ') (by simp) (by simp) (by decide)⟩

theorem legible_functions (hs : settings.Unbroken) (h : LegibleMembers c)
    (hparent : ∀ p ∈ doc.parentOf? c, '\n' ∉ p.generatedName.toList) :
    ∀ f ∈ functions settings doc c, LegibleFunction (c.generatedName ++ "::") f := by
  intro f hf
  rcases List.mem_append.1 hf with hf | hf
  · simp only [List.mem_cons, List.not_mem_nil, or_false] at hf
    rcases hf with rfl | rfl | rfl
    · exact legible_constructor h
    · exact legible_destructor h
    · refine legible_accessFunction hs h hparent ?_ (by simp [parseSignature]) .read
      simp [parseSignature, Signature.text, h.name, hs.runtime]
  · split at hf
    · simp only [List.mem_cons, List.not_mem_nil, or_false] at hf
      rcases hf with rfl | rfl
      · refine legible_accessFunction hs h hparent ?_ (by simp [serializeSignature]) .write
        simp [serializeSignature, Signature.text, h.name, hs.runtime]
      · exact legible_instanceType h
    · cases hf

end ClassBlock

theorem RegularDocument.legibleMembers (h : RegularDocument doc.resolve.1)
    (hc : c ∈ doc.resolve.1.classes.items) : ClassBlock.LegibleMembers c where
  name := unbroken_of_isIdentifier (h.className c hc)
  field emitted hm := unbroken_of_isIdentifier (h.memberName c hc emitted hm)
  expression _ hm _ hexpression := h.unbroken_expression hc hm hexpression

theorem legible_registerFunction (hs : settings.Unbroken)
    (h : ∀ e ∈ doc.enums.items, '\n' ∉ e.generatedName.toList) :
    LegibleFunction "" (registerFunction settings doc) where
  signature := by
    simp [registerFunction, registerSignature, Settings.registerRoutine, Signature.text,
      hs.baseName]
  body := by
    intro line hline
    simp only [registerFunction, List.mem_append, List.mem_map, List.mem_singleton] at hline
    rcases hline with (⟨e, he, rfl⟩ | hline) | rfl
    · exact .of_mem (c := '(') (by simp [h e he]) (by simp) (by decide)
    · split at hline
      · cases hline
      · rw [List.mem_singleton.1 hline]
        exact legible_empty
    · exact .of_mem (c := '(') (by simp [hs.runtime, Settings.factoryRoutine, hs.baseName])
        (by simp) (by decide)

end Code

end SchemaBinding
