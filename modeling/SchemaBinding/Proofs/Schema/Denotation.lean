import SchemaBinding.Proofs.Schema.MemberErrors
import SchemaBinding.Proofs.Schema.TypeFlags

/-!
# What members hold

What a member holds follows from its type: with a flag for objects the base names a class, and
without one it names an enum, or else a primitive.  `Denotes` is the table of these cases, each with
the category, the type of one value and the default of one value.  A member is resolved exactly if
its type is in the table, and a sequence wraps the type of one value and starts empty.

* `EnumDecl.startsAs_iff`: the default of one value of an enum.
* `Document.denotes_iff`: the table says what resolution finds.
* `Document.exists_denotes_iff`: which types are in the table.
* `Document.resolution?_load_iff`: the resolution of a member, by the table.
* `Document.warned_iff`: when the default of a member is reported.
* `Document.resolved_load`: which members are resolved, to what, and with which warning.
-/

namespace SchemaBinding.Schema

/-! ### Defaults of enums -/

/-- One value of an enum starts as what is written, if anything is, or else as the first value. -/
inductive EnumDecl.StartsAs (e : EnumDecl) (literal : String) : DefaultValue → Prop
  | written : Text.trim literal ≠ "" →
    e.StartsAs literal (.enumerator e.generatedName (Text.trim literal))
  | first {value : String} {rest : List String} : Text.trim literal = "" →
    e.values = value :: rest → e.StartsAs literal (.enumerator e.generatedName value)
  | nothing : Text.trim literal = "" → e.values = [] → e.StartsAs literal .noEnumerators

theorem EnumDecl.startsAs_iff {e : EnumDecl} {literal : String} {default : DefaultValue} :
    e.StartsAs literal default ↔ default = e.defaultValue literal := by
  unfold defaultValue
  constructor
  · rintro (hwritten | ⟨hblank, hvalues⟩ | ⟨hblank, hvalues⟩)
    · exact (if_neg hwritten).symm
    · simp only [hblank, if_true, hvalues]
    · simp only [hblank, if_true, hvalues]
  · rintro rfl
    by_cases hblank : Text.trim literal = ""
    · simp only [hblank, if_true]
      cases hvalues : e.values with
      | nil => exact .nothing hblank hvalues
      | cons value rest => exact .first hblank hvalues
    · simp only [hblank, if_false]
      exact .written hblank

namespace Document

/-! ### What types name -/

/-- What one value of a member of a class of kind `owner` is, by its type and its literal: its
category, the type of its field and its default.  A link goes before an owned object, and an enum
before a primitive. -/
inductive Denotes (doc : Document) (owner : ClassKind) (spec : TypeSpec) (literal : String) :
    Category → String → DefaultValue → Prop
  | reference {c : ClassDecl} : spec.isReference = true → doc.class? spec.base = some c →
    Denotes doc owner spec literal
      (.object spec.base .reference) ("const " ++ c.generatedName ++ "*") .null
  | constant {c : ClassDecl} : spec.isReference = false → spec.isInstance = true →
    doc.class? spec.base = some c → owner = .datasheet →
    Denotes doc owner spec literal
      (.object spec.base .owned) ("const " ++ c.generatedName ++ "*") .null
  | mutable {c : ClassDecl} : spec.isReference = false → spec.isInstance = true →
    doc.class? spec.base = some c → owner = .datasave →
    Denotes doc owner spec literal (.object spec.base .owned) (c.generatedName ++ "*") .null
  | enumeration {e : EnumDecl} {default : DefaultValue} : spec.isReference = false →
    spec.isInstance = false → doc.enum? spec.base = some e → e.StartsAs literal default →
    Denotes doc owner spec literal (.enumeration spec.base) (e.generatedName ++ "::Type") default
  | primitive {p : Primitive} : spec.isReference = false → spec.isInstance = false →
    doc.enum? spec.base = none → spec.base = p.keyword →
    Denotes doc owner spec literal (.primitive p) p.fieldType (p.defaultValue literal)

section Table

variable {doc : Document} {owner : ClassKind} {spec : TypeSpec} {literal : String}
  {category : Category} {scalar : String} {default : DefaultValue}

/-- What a type names, with the flags that it is named under. -/
theorem target?_eq_some_iff {t : Target} :
    doc.target? spec = some t
      ↔ (spec.isReference = true ∧ ∃ c, doc.class? spec.base = some c ∧ t = .object c .reference)
        ∨ (spec.isReference = false ∧ spec.isInstance = true
          ∧ ∃ c, doc.class? spec.base = some c ∧ t = .object c .owned)
        ∨ (spec.isReference = false ∧ spec.isInstance = false
          ∧ ∃ e, doc.enum? spec.base = some e ∧ t = .enumeration e)
        ∨ (spec.isReference = false ∧ spec.isInstance = false ∧ doc.enum? spec.base = none
          ∧ ∃ p : Primitive, spec.base = p.keyword ∧ t = .primitive p) := by
  unfold target? TypeSpec.ownership?
  cases hreference : spec.isReference with
  | true => simp [@eq_comm _ t]
  | false =>
    cases hinstance : spec.isInstance with
    | true => simp [@eq_comm _ t]
    | false =>
      cases henum : doc.enum? spec.base with
      | none => simp [Primitive.ofKeyword?_eq_some_iff, @eq_comm _ t]
      | some e => simp [@eq_comm _ t]

/-- **The table says what resolution finds.** -/
theorem denotes_iff :
    doc.Denotes owner spec literal category scalar default
      ↔ ∃ t, doc.target? spec = some t ∧ category = t.category spec.base
        ∧ scalar = t.signature owner ∧ default = t.defaultValue literal := by
  constructor
  · intro h
    cases h with
    | reference hflag hclass =>
      exact ⟨_, target?_eq_some_iff.2 (Or.inl ⟨hflag, _, hclass, rfl⟩), rfl, rfl, rfl⟩
    | constant hreference hflag hclass howner =>
      refine ⟨_, target?_eq_some_iff.2 (Or.inr (Or.inl ⟨hreference, hflag, _, hclass, rfl⟩)), rfl,
        ?_, rfl⟩
      rw [howner]
      rfl
    | mutable hreference hflag hclass howner =>
      refine ⟨_, target?_eq_some_iff.2 (Or.inr (Or.inl ⟨hreference, hflag, _, hclass, rfl⟩)), rfl,
        ?_, rfl⟩
      rw [howner]
      rfl
    | enumeration hreference hinstance henum hdefault =>
      exact ⟨_, target?_eq_some_iff.2
        (Or.inr (Or.inr (Or.inl ⟨hreference, hinstance, _, henum, rfl⟩))), rfl, rfl,
        EnumDecl.startsAs_iff.1 hdefault⟩
    | primitive hreference hinstance henum hkeyword =>
      exact ⟨_, target?_eq_some_iff.2
        (Or.inr (Or.inr (Or.inr ⟨hreference, hinstance, henum, _, hkeyword, rfl⟩))), rfl, rfl, rfl⟩
  · rintro ⟨t, ht, rfl, rfl, rfl⟩
    rcases target?_eq_some_iff.1 ht with ⟨hflag, c, hclass, rfl⟩
      | ⟨hreference, hflag, c, hclass, rfl⟩ | ⟨hreference, hinstance, e, henum, rfl⟩
      | ⟨hreference, hinstance, henum, p, hkeyword, rfl⟩
    · exact .reference hflag hclass
    · cases howner : owner with
      | datasheet => exact .constant hreference hflag hclass rfl
      | datasave => exact .mutable hreference hflag hclass rfl
    · exact .enumeration hreference hinstance henum (EnumDecl.startsAs_iff.2 rfl)
    · exact .primitive hreference hinstance henum hkeyword

/-- **Which types are in the table**: with a flag for objects those whose base is a class, without
one those whose base is an enum or a keyword. -/
theorem exists_denotes_iff :
    (∃ category scalar default, doc.Denotes owner spec literal category scalar default)
      ↔ ((spec.isReference = true ∨ spec.isInstance = true)
          ∧ doc.class? spec.base ≠ none)
        ∨ (spec.isReference = false ∧ spec.isInstance = false
          ∧ (doc.enum? spec.base ≠ none ∨ ∃ p : Primitive, spec.base = p.keyword)) := by
  constructor
  · rintro ⟨category, scalar, default, h⟩
    cases h with
    | reference hflag hclass => exact Or.inl ⟨Or.inl hflag, by simp [hclass]⟩
    | constant _ hflag hclass _ => exact Or.inl ⟨Or.inr hflag, by simp [hclass]⟩
    | mutable _ hflag hclass _ => exact Or.inl ⟨Or.inr hflag, by simp [hclass]⟩
    | enumeration hreference hinstance henum _ =>
      exact Or.inr ⟨hreference, hinstance, Or.inl (by simp [henum])⟩
    | primitive hreference hinstance _ hkeyword =>
      exact Or.inr ⟨hreference, hinstance, Or.inr ⟨_, hkeyword⟩⟩
  · rintro (⟨hflag, hclass⟩ | ⟨hreference, hinstance, hnamed⟩)
    · obtain ⟨c, hclass⟩ := Option.ne_none_iff_exists'.1 hclass
      cases hreference : spec.isReference with
      | true => exact ⟨_, _, _, .reference hreference hclass⟩
      | false =>
        have hinstance : spec.isInstance = true :=
          hflag.resolve_left (by rw [hreference]; exact Bool.false_ne_true)
        cases howner : owner with
        | datasheet => exact ⟨_, _, _, .constant hreference hinstance hclass rfl⟩
        | datasave => exact ⟨_, _, _, .mutable hreference hinstance hclass rfl⟩
    · cases henum : doc.enum? spec.base with
      | some e =>
        exact ⟨_, _, _, .enumeration hreference hinstance henum (EnumDecl.startsAs_iff.2 rfl)⟩
      | none =>
        obtain ⟨p, hkeyword⟩ := hnamed.resolve_left (not_not.2 henum)
        exact ⟨_, _, _, .primitive hreference hinstance henum hkeyword⟩

end Table

/-! ### Resolutions -/

/-- The resolution of a member is what its type denotes.  A sequence wraps the type of one value and
starts empty. -/
def ResolvesTo (doc : Document) (owner : ClassKind) (m : Member) (r : Resolution) : Prop :=
  ∃ scalar default, doc.Denotes owner m.type m.literal r.category scalar default
    ∧ r.signature = (if m.type.isArray then "std::vector<" ++ scalar ++ ">" else scalar)
    ∧ r.default = (if m.type.isArray then .emptySequence else default)
    ∧ r.isArray = m.type.isArray

section Resolving

variable {doc : Document} {owner : ClassKind} {m : Member} {r : Resolution}

theorem resolution?_eq_some_iff (hcomplete : m.isComplete = true) :
    doc.resolution? owner m = some r ↔ doc.ResolvesTo owner m r := by
  rw [resolution?, if_pos hcomplete, Option.map_eq_some_iff]
  constructor
  · rintro ⟨t, ht, rfl⟩
    exact ⟨_, _, denotes_iff.2 ⟨t, ht, rfl, rfl, rfl⟩, rfl, rfl, rfl⟩
  · rintro ⟨scalar, default, hdenotes, hsignature, hdefault, harray⟩
    obtain ⟨t, ht, hcategory, rfl, rfl⟩ := denotes_iff.1 hdenotes
    refine ⟨t, ht, ?_⟩
    rw [Target.resolution, ← hcategory, ← hsignature, ← hdefault, ← harray]

/-- A type denotes something exactly if a member of this type has a resolution. -/
theorem exists_resolvesTo_iff :
    (∃ r, doc.ResolvesTo owner m r)
      ↔ ∃ category scalar default, doc.Denotes owner m.type m.literal category scalar default := by
  constructor
  · rintro ⟨r, scalar, default, hdenotes, -⟩
    exact ⟨_, scalar, default, hdenotes⟩
  · rintro ⟨category, scalar, default, hdenotes⟩
    exact ⟨⟨category, _, _, _⟩, scalar, default, hdenotes, rfl, rfl, rfl⟩

/-- A single value never starts as a sequence. -/
theorem Denotes.default_ne {spec : TypeSpec} {literal scalar : String} {category : Category}
    {default : DefaultValue} (h : doc.Denotes owner spec literal category scalar default) :
    default ≠ .emptySequence := by
  cases h with
  | reference | constant | mutable => exact nofun
  | enumeration _ _ _ hdefault => cases hdefault <;> exact nofun
  | @primitive p _ _ _ _ => cases p <;> exact nofun

theorem ResolvesTo.default_eq_iff (h : doc.ResolvesTo owner m r) :
    r.default = .emptySequence ↔ m.type.isArray = true := by
  obtain ⟨scalar, default, hdenotes, -, hdefault, -⟩ := h
  rw [hdefault]
  split
  · next harray => exact iff_of_true rfl harray
  · next harray => exact iff_of_false hdenotes.default_ne harray

/-- What is denoted depends on the enums that are found, and on the generated names of the classes
that are found. -/
theorem Denotes.mono {doc' : Document} (henums : ∀ name, doc'.enum? name = doc.enum? name)
    (hclasses : ∀ name c, doc.class? name = some c →
      ∃ c', doc'.class? name = some c' ∧ c'.generatedName = c.generatedName)
    {spec : TypeSpec} {literal scalar : String} {category : Category} {default : DefaultValue}
    (h : doc.Denotes owner spec literal category scalar default) :
    doc'.Denotes owner spec literal category scalar default := by
  cases h with
  | reference hflag hclass =>
    obtain ⟨c', hclass', hname⟩ := hclasses _ _ hclass
    rw [← hname]
    exact .reference hflag hclass'
  | constant hreference hflag hclass howner =>
    obtain ⟨c', hclass', hname⟩ := hclasses _ _ hclass
    rw [← hname]
    exact .constant hreference hflag hclass' howner
  | mutable hreference hflag hclass howner =>
    obtain ⟨c', hclass', hname⟩ := hclasses _ _ hclass
    rw [← hname]
    exact .mutable hreference hflag hclass' howner
  | enumeration hreference hinstance henum hdefault =>
    exact .enumeration hreference hinstance ((henums _).trans henum) hdefault
  | primitive hreference hinstance henum hkeyword =>
    exact .primitive hreference hinstance ((henums _).trans henum) hkeyword

/-- Resolution leaves what types denote. -/
theorem denotes_resolve_iff {spec : TypeSpec} {literal scalar : String} {category : Category}
    {default : DefaultValue} :
    doc.resolve.1.Denotes owner spec literal category scalar default
      ↔ doc.Denotes owner spec literal category scalar default := by
  have henums : ∀ name, doc.resolve.1.enum? name = doc.enum? name := fun _ => rfl
  constructor
  · intro h
    refine h.mono (fun name => (henums name).symm) ?_
    intro name c hc
    rw [class?_resolve, Option.map_eq_some_iff] at hc
    obtain ⟨b, hb, rfl⟩ := hc
    exact ⟨b, hb, rfl⟩
  · intro h
    refine h.mono henums ?_
    intro name c hc
    exact ⟨doc.resolveClass c, by rw [class?_resolve, hc, Option.map_some], rfl⟩

theorem resolvesTo_resolve_iff : doc.resolve.1.ResolvesTo owner m r ↔ doc.ResolvesTo owner m r := by
  simp only [ResolvesTo, denotes_resolve_iff]

end Resolving

/-! ### The members of a tree -/

variable {root : Node}

/-- No class of a loaded document has the empty name. -/
theorem class?_empty_load (root : Node) : (load root).1.class? "" = none := by
  by_contra hne
  obtain ⟨c, hc⟩ := Option.ne_none_iff_exists'.1 hne
  rw [load, class?_resolve, Option.map_eq_some_iff] at hc
  obtain ⟨b, hb, -⟩ := hc
  obtain ⟨hmem, hempty⟩ := (wellNamed_ofNode root).classes.find?_eq_some_iff.1 hb
  obtain ⟨place, node, -, hdeclared⟩ := exists_node_of_mem_items hmem
  have hfilled : node.filledAttr? "name" = some b.name := by
    rw [← map_name_class, hdeclared]
    rfl
  exact (filledAttr?_eq_some_iff.1 hfilled).1 hempty

/-- A type without a base denotes nothing. -/
theorem base_ne_of_denotes {owner : ClassKind} {spec : TypeSpec} {literal scalar : String}
    {category : Category} {default : DefaultValue}
    (h : (load root).1.Denotes owner spec literal category scalar default) : spec.base ≠ "" := by
  intro hempty
  have hclass := class?_empty_load root
  have henum := enum?_empty_load root
  rw [← hempty] at hclass henum
  cases h with
  | reference _ h => exact nomatch hclass.symm.trans h
  | constant _ _ h _ => exact nomatch hclass.symm.trans h
  | mutable _ _ h _ => exact nomatch hclass.symm.trans h
  | enumeration _ _ h _ => exact nomatch henum.symm.trans h
  | @primitive p _ _ _ hkeyword =>
    rw [hempty] at hkeyword
    cases p <;> exact absurd hkeyword (by decide)

/-- A member of a loaded document is one of the document of the tree, resolved. -/
theorem exists_member_of_load {c : ClassDecl} (hc : c ∈ (load root).1.classes.items) {index : Nat}
    {m : Member} (hm : c.members[index]? = some m) :
    ∃ b ∈ (ofNode root).1.classes.items, (ofNode root).1.resolveClass b = c
      ∧ ∃ given, b.members[index]? = some given
        ∧ m = { given with resolution? := (ofNode root).1.resolution? b.kind given } := by
  obtain ⟨b, hb, rfl⟩ := mem_items_resolve_iff.1 hc
  have hmember : (b.members.map fun given =>
      { given with resolution? := (ofNode root).1.resolution? b.kind given })[index]? = some m := hm
  rw [List.getElem?_map, Option.map_eq_some_iff] at hmember
  obtain ⟨given, hgiven, rfl⟩ := hmember
  exact ⟨b, hb, rfl, given, hgiven, rfl⟩

section Loaded

variable {c : ClassDecl} {index : Nat} {m : Member}

/-- **The resolution of a member** is what its type denotes. -/
theorem resolution?_load_iff (hc : c ∈ (load root).1.classes.items)
    (hm : c.members[index]? = some m) (hname : m.name ≠ "") {r : Resolution} :
    m.resolution? = some r ↔ (load root).1.ResolvesTo c.kind m r := by
  obtain ⟨b, -, rfl, given, -, rfl⟩ := exists_member_of_load hc hm
  by_cases hbase : given.type.base = ""
  · have hmissing : (ofNode root).1.resolution? b.kind given = none :=
      if_neg fun h => (Member.isComplete_iff.1 h).2 hbase
    constructor
    · intro hr
      exact nomatch hmissing.symm.trans hr
    · rintro ⟨scalar, default, hdenotes, -⟩
      exact absurd hbase (base_ne_of_denotes hdenotes)
  · exact (resolution?_eq_some_iff (Member.isComplete_iff.2 ⟨hname, hbase⟩)).trans
      resolvesTo_resolve_iff.symm

/-! ### Defaults that are reported -/

/-- The member holds one value of an enum, and its default is none of its values. -/
structure HasUnknownDefault (doc : Document) (m : Member) (e : EnumDecl) : Prop where
  reference : m.type.isReference = false
  owned : m.type.isInstance = false
  single : m.type.isArray = false
  enum : doc.enum? m.type.base = some e
  written : Text.trim m.literal ≠ ""
  unknown : Text.trim m.literal ∉ e.values

/-- Resolution leaves which defaults are unknown. -/
theorem hasUnknownDefault_resolve_iff {doc : Document} {resolution? : Option Resolution}
    {e : EnumDecl} : doc.resolve.1.HasUnknownDefault { m with resolution? := resolution? } e
      ↔ doc.HasUnknownDefault m e :=
  ⟨fun h => ⟨h.reference, h.owned, h.single, h.enum, h.written, h.unknown⟩,
    fun h => ⟨h.reference, h.owned, h.single, h.enum, h.written, h.unknown⟩⟩

/-- That a default is no value of an enum is said about single values of enums. -/
theorem unknownEnumValue_mem_typeReports_iff {doc : Document} {owner : String} {d : Diagnostic} :
    (d ∈ doc.typeReports owner index m
        ∧ ∃ enumName value, d.problem = .unknownEnumValue enumName value)
      ↔ m.isComplete = true ∧ ∃ e, doc.HasUnknownDefault m e
        ∧ d = .warning (.unknownEnumValue e.name (Text.trim m.literal))
          (.member owner index m.name) := by
  rw [mem_typeReports_iff]
  constructor
  · rintro ⟨⟨hcomplete, ⟨-, rfl⟩ | ⟨e, htarget, harray, hwritten, hunknown, rfl⟩⟩, enumName, value,
      hproblem⟩
    · -- a type that names nothing is another problem
      unfold missingTarget at hproblem
      split at hproblem <;> exact nomatch hproblem
    · rcases target?_eq_some_iff.1 htarget with ⟨-, _, -, h⟩ | ⟨-, -, _, -, h⟩
        | ⟨hreference, hinstance, e', henum, h⟩ | ⟨-, -, -, _, -, h⟩
      · cases h
      · cases h
      · cases h
        exact ⟨hcomplete, e, ⟨hreference, hinstance, harray, henum, hwritten, hunknown⟩, rfl⟩
      · cases h
  · rintro ⟨hcomplete, e, h, rfl⟩
    have htarget : doc.target? m.type = some (.enumeration e) :=
      target?_eq_some_iff.2 (Or.inr (Or.inr (Or.inl ⟨h.reference, h.owned, e, h.enum, rfl⟩)))
    exact ⟨⟨hcomplete, Or.inr ⟨e, htarget, h.single, h.written, h.unknown, rfl⟩⟩, _, _, rfl⟩

/-- **When the default of a member is reported**: no other class has the name of its owner, and only
the pass over types speaks of defaults. -/
theorem warned_iff (hc : c ∈ (load root).1.classes.items) (hm : c.members[index]? = some m)
    (hname : m.name ≠ "") {d : Diagnostic} :
    (d ∈ (load root).2 ∧ (∃ enumName value, d.problem = .unknownEnumValue enumName value)
        ∧ ∃ name, d.location = .member c.name index name)
      ↔ ∃ e, (load root).1.HasUnknownDefault m e
        ∧ d = .warning (.unknownEnumValue e.name (Text.trim m.literal))
          (.member c.name index m.name) := by
  obtain ⟨b, hb, rfl, given, hgiven, rfl⟩ := exists_member_of_load hc hm
  constructor
  · rintro ⟨hd, ⟨enumName, value, hproblem⟩, name, hlocation⟩
    rcases List.mem_append.1 hd with hd | hd
    · rcases problem_of_mem_ofNode hd with ⟨_, _, h⟩ | ⟨_, _, -, h⟩ | ⟨_, h⟩ | ⟨_, h⟩ <;>
        exact nomatch h.symm.trans hproblem
    · rcases mem_resolveReports_iff.1 hd with hd | ⟨j, other, -, hd⟩ | ⟨other, hother, j, m', hm', hd⟩
      · obtain ⟨cycle, -, rfl⟩ := List.mem_map.1 hd
        exact nomatch hproblem
      · exact nomatch (of_mem_baseReports hd).2.symm.trans hlocation
      · obtain ⟨howner, rfl, -⟩ :=
          Location.member.inj ((location_of_mem_typeReports hd).symm.trans hlocation)
        obtain rfl := (wellNamed_ofNode root).classes.eq_of_name_eq hother hb howner
        obtain rfl : m' = given := Option.some.inj (hm'.symm.trans hgiven)
        obtain ⟨-, e, h, rfl⟩ := unknownEnumValue_mem_typeReports_iff.1 ⟨hd, _, _, hproblem⟩
        exact ⟨e, hasUnknownDefault_resolve_iff.2 h, rfl⟩
  · rintro ⟨e, h, rfl⟩
    have hbase : given.type.base ≠ "" := by
      intro hempty
      have hfound : (load root).1.enum? given.type.base = some e := h.enum
      rw [hempty, enum?_empty_load] at hfound
      cases hfound
    have hcomplete : given.isComplete = true := Member.isComplete_iff.2 ⟨hname, hbase⟩
    have hreport : .warning (.unknownEnumValue e.name (Text.trim given.literal))
        (.member b.name index given.name) ∈ (ofNode root).1.typeReports b.name index given :=
      (unknownEnumValue_mem_typeReports_iff.2
        ⟨hcomplete, e, hasUnknownDefault_resolve_iff.1 h, rfl⟩).1
    refine ⟨List.mem_append_right _ ?_, ⟨_, _, rfl⟩, _, rfl⟩
    exact mem_resolveReports_iff.2 (Or.inr (Or.inr ⟨b, hb, index, given, hgiven, hreport⟩))

/-- **What a member holds.**  It is resolved exactly if a flag for objects is set and its base is a
class, or if no such flag is set and its base is an enum or a keyword.  Its resolution is what its
type denotes; a sequence starts empty and nothing else does.  It is warned of exactly if it holds one
value of an enum and its default is none of the values of the enum. -/
theorem resolved_load (hc : c ∈ (load root).1.classes.items) (hm : c.members[index]? = some m)
    (hname : m.name ≠ "") :
    (m.resolution? ≠ none
      ↔ ((m.type.isReference = true ∨ m.type.isInstance = true)
          ∧ (load root).1.class? m.type.base ≠ none)
        ∨ (m.type.isReference = false ∧ m.type.isInstance = false
          ∧ ((load root).1.enum? m.type.base ≠ none ∨ ∃ p : Primitive, m.type.base = p.keyword)))
    ∧ (∀ r, m.resolution? = some r ↔ (load root).1.ResolvesTo c.kind m r)
    ∧ (∀ r, m.resolution? = some r → (r.default = .emptySequence ↔ m.type.isArray = true))
    ∧ ∀ d, (d ∈ (load root).2 ∧ (∃ enumName value, d.problem = .unknownEnumValue enumName value)
        ∧ ∃ name, d.location = .member c.name index name)
      ↔ ∃ e, (load root).1.HasUnknownDefault m e
        ∧ d = .warning (.unknownEnumValue e.name (Text.trim m.literal))
          (.member c.name index m.name) := by
  have hresolves : ∀ r, m.resolution? = some r ↔ (load root).1.ResolvesTo c.kind m r :=
    fun r => resolution?_load_iff hc hm hname
  refine ⟨?_, hresolves, fun r hr => ((hresolves r).1 hr).default_eq_iff,
    fun d => warned_iff hc hm hname⟩
  rw [Option.ne_none_iff_exists', exists_congr hresolves, exists_resolvesTo_iff, exists_denotes_iff]

end Loaded

/-- A schema of a stable.  One of its enums has the name of a primitive; its classes are of both
kinds. -/
def stableSchema : Node :=
  ⟨"Schema", [],
    [⟨"Enum", [("name", "int"), ("code", "Size")], [⟨"Value", [("name", "Pony")], []⟩]⟩,
      ⟨"Class", [("name", "Horse"), ("code", "DS_Horse")], []⟩,
      ⟨"Class", [("name", "Stable"), ("type", "datasave")],
        [⟨"Data", [("name", "size"), ("type", "int"), ("default", " Giant ")], []⟩,
          ⟨"Data", [("name", "boxes"), ("type", "instance:array:Horse"), ("default", "x")], []⟩]⟩]⟩

/-- The size is of the enum and not of the primitive, and its default is none of the sizes; the
boxes own their horses, so these can be written. -/
theorem resolved_load_stableSchema :
    ∃ c ∈ (load stableSchema).1.classes.items, ∃ size boxes,
      c.members[0]? = some size ∧ c.members[1]? = some boxes ∧ size.name ≠ "" ∧ boxes.name ≠ ""
      ∧ (load stableSchema).1.ResolvesTo c.kind size
        ⟨.enumeration "int", "Size::Type", .enumerator "Size" "Giant", false⟩
      ∧ (load stableSchema).1.ResolvesTo c.kind boxes
        ⟨.object "Horse" .owned, "std::vector<DS_Horse*>", .emptySequence, true⟩
      ∧ (∃ e, (load stableSchema).1.HasUnknownDefault size e)
      ∧ ¬ ∃ e, (load stableSchema).1.HasUnknownDefault boxes e := by
  have hmembers : ∃ c ∈ (load stableSchema).1.classes.items, ∃ size ∈ c.members,
      ∃ boxes ∈ c.members, c.members[0]? = some size ∧ c.members[1]? = some boxes
        ∧ (size.name = "size" ∧ boxes.name = "boxes") ∧ c.name = "Stable"
        ∧ size.resolution? = some
          ⟨.enumeration "int", "Size::Type", .enumerator "Size" "Giant", false⟩
        ∧ boxes.resolution? = some
          ⟨.object "Horse" .owned, "std::vector<DS_Horse*>", .emptySequence, true⟩ := by
    decide +kernel
  obtain ⟨c, hc, size, -, boxes, -, hsize, hboxes, ⟨hsizeName, hboxesName⟩, howner, hsizeType,
    hboxesType⟩ := hmembers
  have hsizeNamed : size.name ≠ "" := by
    rw [hsizeName]
    decide
  have hboxesNamed : boxes.name ≠ "" := by
    rw [hboxesName]
    decide
  obtain ⟨-, hsizes, -, hsizeWarned⟩ := resolved_load hc hsize hsizeNamed
  obtain ⟨-, hboxess, -, hboxesWarned⟩ := resolved_load hc hboxes hboxesNamed
  have hwarnings : (load stableSchema).2
      = [.warning (.unknownEnumValue "int" "Giant") (.member "Stable" 0 "size")] := by
    decide +kernel
  refine ⟨c, hc, size, boxes, hsize, hboxes, hsizeNamed, hboxesNamed, (hsizes _).1 hsizeType,
    (hboxess _).1 hboxesType, ?_, ?_⟩
  · obtain ⟨e, he, -⟩ := (hsizeWarned _).1 ⟨by rw [hwarnings]; exact List.mem_cons_self,
      ⟨_, _, rfl⟩, _, by rw [howner]; rfl⟩
    exact ⟨e, he⟩
  · rintro ⟨e, he⟩
    obtain ⟨hd, -⟩ := (hboxesWarned _).2 ⟨e, he, rfl⟩
    rw [hwarnings, List.mem_singleton] at hd
    exact absurd (Location.member.inj (congrArg Diagnostic.location hd)).2.1 (by decide)

end Document

end SchemaBinding.Schema
