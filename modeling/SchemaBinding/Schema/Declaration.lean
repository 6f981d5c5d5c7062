import SchemaBinding.Schema.TypeSpec

/-!
# Declarations

The enums and classes of a schema.  Each declaration has the name it is known by in the schema and
the name it has in generated code.  A member may carry its `Resolution`, and a class the name of
its resolved parent.
-/

namespace SchemaBinding.Schema

inductive DefaultValue where
  | text (value : String)
  | int (literal : String)
  | float (literal : String)
  | bool (literal : String)
  /-- A value of an enum, by the generated name of the enum. -/
  | enumerator (enumName value : String)
  /-- The enum has no values. -/
  | noEnumerators
  /-- No object. -/
  | null
  /-- A sequence without elements. -/
  | emptySequence
deriving DecidableEq, Repr

structure Resolution where
  category : Category
  /-- The type of the field. -/
  signature : String
  default : DefaultValue
  isArray : Bool
deriving DecidableEq, Repr

structure Member where
  /-- The key under which data holds the value. -/
  name : String
  /-- The field in generated code. -/
  generatedName : String
  type : TypeSpec
  /-- The default as it is written, empty if it is not. -/
  literal : String
  resolution? : Option Resolution
deriving DecidableEq, Repr

/-- A member of this type, not yet resolved, whose field is named like its key. -/
def Member.named (name : String) (type : TypeSpec) : Member := ⟨name, name, type, "", none⟩

/-- The resolution of a member that takes part in generated code: it has both names. -/
def Member.emitted? (m : Member) : Option Resolution :=
  if m.name = "" ∨ m.generatedName = "" then none else m.resolution?

structure EnumDecl where
  name : String
  generatedName : String
  values : List String
deriving DecidableEq, Repr

structure ClassDecl where
  name : String
  generatedName : String
  kind : ClassKind
  /-- The name of the base, empty if there is none. -/
  base : String
  isAbstract : Bool
  /-- Declarations that are copied into the generated class. -/
  methods : List String
  members : List Member
  /-- The name of the class that is the parent in generated code. -/
  parent? : Option String
deriving DecidableEq, Repr

def ClassDecl.named (name generatedName : String) : ClassDecl :=
  ⟨name, generatedName, .datasheet, "", false, [], [], none⟩

/-- The members that take part in generated code, with their resolutions. -/
def ClassDecl.emittedMembers (c : ClassDecl) : List (Member × Resolution) :=
  c.members.filterMap fun m => m.emitted?.map (m, ·)

theorem ClassDecl.mem_emittedMembers {c : ClassDecl} {m : Member} {r : Resolution} :
    (m, r) ∈ c.emittedMembers ↔ m ∈ c.members ∧ m.emitted? = some r := by
  simp only [emittedMembers, List.mem_filterMap, Option.map_eq_some_iff, Prod.mk.injEq]
  constructor
  · rintro ⟨m', hm, r', hr, rfl, rfl⟩
    exact ⟨hm, hr⟩
  · rintro ⟨hm, hr⟩
    exact ⟨m, hm, r, hr, rfl, rfl⟩

end SchemaBinding.Schema
