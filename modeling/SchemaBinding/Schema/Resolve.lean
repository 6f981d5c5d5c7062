import SchemaBinding.Schema.OfNode
import SchemaBinding.Schema.BaseChain

/-!
# Resolution

`Document.resolve` finds the parents of all classes, then the types and defaults of all members, and
writes both lists back onto the classes.  They depend on the declarations alone: what an earlier
resolution left behind is overwritten.

* `writeOnto_map`, `fst_resolve`: writing the lists back is one change of each class, `resolveClass`.
* `items_resolve`, `items_load`: so each class stands at its place, resolved.
-/

namespace SchemaBinding.Schema

/-- The literal of a default, trimmed, or a fallback if nothing is left of it. -/
def literalOr (literal fallback : String) : String :=
  let trimmed := Text.trim literal
  if trimmed = "" then fallback else trimmed

/-- The default of a field that holds a primitive.  Only text keeps the blanks around it. -/
def Primitive.defaultValue (p : Primitive) (literal : String) : DefaultValue :=
  match p with
  | string => .text literal
  | int => .int (literalOr literal "0")
  | float => .float (literalOr literal "0.f")
  | bool => .bool (literalOr literal "false")

/-- The default of a field that holds a value of an enum: the literal, else the first value. -/
def EnumDecl.defaultValue (e : EnumDecl) (literal : String) : DefaultValue :=
  let trimmed := Text.trim literal
  if trimmed = "" then
    match e.values with
    | [] => .noEnumerators
    | first :: _ => .enumerator e.generatedName first
  else .enumerator e.generatedName trimmed

/-- The declaration that the type of a member names. -/
inductive Target where
  | object (decl : ClassDecl) (ownership : Ownership)
  | enumeration (decl : EnumDecl)
  | primitive (p : Primitive)
deriving DecidableEq, Repr

namespace Target

/-- The category of a member whose base type is `base`. -/
def category (base : String) : Target → Category
  | object _ ownership => .object base ownership
  | enumeration _ => .enumeration base
  | primitive p => .primitive p

/-- The type of one value.  An object is constant unless a datasave owns it. -/
def signature (owner : ClassKind) : Target → String
  | object decl .owned =>
    match owner with
    | .datasave => decl.generatedName ++ "*"
    | .datasheet => "const " ++ decl.generatedName ++ "*"
  | object decl .reference => "const " ++ decl.generatedName ++ "*"
  | enumeration decl => decl.generatedName ++ "::Type"
  | primitive p => p.fieldType

def defaultValue (literal : String) : Target → DefaultValue
  | object _ _ => .null
  | enumeration decl => decl.defaultValue literal
  | primitive p => p.defaultValue literal

/-- The resolution of a member of a class of kind `owner`.  A sequence starts empty. -/
def resolution (owner : ClassKind) (m : Member) (t : Target) : Resolution :=
  { category := t.category m.type.base
    signature :=
      if m.type.isArray then "std::vector<" ++ t.signature owner ++ ">" else t.signature owner
    default := if m.type.isArray then .emptySequence else t.defaultValue m.literal
    isArray := m.type.isArray }

end Target

/-- A member without a name or a type is left to the reports on its declaration. -/
def Member.isComplete (m : Member) : Bool := m.name ≠ "" && m.type.base ≠ ""

theorem Member.isComplete_iff {m : Member} :
    m.isComplete = true ↔ m.name ≠ "" ∧ m.type.base ≠ "" := by
  simp [isComplete]

/-- Writes values onto the items at their places.  Where one list ends, the rest of the items stays
as it is. -/
def writeOnto {α β : Type} (write : α → β → α) : List α → List β → List α
  | item :: items, value :: values => write item value :: writeOnto write items values
  | items, _ => items

theorem writeOnto_map {α β : Type} (write : α → β → α) (valueOf : α → β) (items : List α) :
    writeOnto write items (items.map valueOf) = items.map fun item => write item (valueOf item) := by
  induction items with
  | nil => rfl
  | cons item rest ih => rw [List.map_cons, writeOnto, ih, List.map_cons]

/-- Writes a parent into a class, and resolutions into its members. -/
def ClassDecl.annotate (c : ClassDecl) (found : Option String × List (Option Resolution)) :
    ClassDecl :=
  { c with
    parent? := found.1
    members := writeOnto (fun m resolution? => { m with resolution? }) c.members found.2 }

namespace Document

/-! ### Members -/

/-- What a type names: with a flag for objects a class, otherwise an enum or else a primitive. -/
def target? (doc : Document) (spec : TypeSpec) : Option Target :=
  match spec.ownership? with
  | some ownership => (doc.class? spec.base).map (.object · ownership)
  | none =>
    match doc.enum? spec.base with
    | some e => some (.enumeration e)
    | none => (Primitive.ofKeyword? spec.base).map .primitive

/-- The resolution of a member of a class of kind `owner`, if its type names something. -/
def resolution? (doc : Document) (owner : ClassKind) (m : Member) : Option Resolution :=
  if m.isComplete then (doc.target? m.type).map (Target.resolution owner m) else none

def missingTarget (m : Member) : Problem :=
  match m.type.ownership? with
  | some _ => .unresolvedReference m.name m.type.base
  | none => .unknownType m.name m.type.base

/-- What is suspicious about a type that names something: the default of a single enum value that
the enum does not have. -/
def targetReports (location : Location) (m : Member) : Target → List Diagnostic
  | .enumeration e =>
    let literal := Text.trim m.literal
    if m.type.isArray ∨ literal = "" ∨ literal ∈ e.values then []
    else [.warning (.unknownEnumValue e.name literal) location]
  | _ => []

/-- What is wrong with the type and default of the member at a place. -/
def typeReports (doc : Document) (owner : String) (index : Nat) (m : Member) : List Diagnostic :=
  let location := Location.member owner index m.name
  if m.isComplete then
    match doc.target? m.type with
    | some target => targetReports location m target
    | none => [.error (missingTarget m) location]
  else []

/-! ### Parents -/

/-- The parent of a class: its base, if that is a class of the same kind. -/
def resolvedParent? (doc : Document) (c : ClassDecl) : Option String :=
  if c.base = "" then none
  else
    match doc.class? c.base with
    | some base => if base.kind = c.kind then some c.base else none
    | none => none

def baseReports (doc : Document) (index : Nat) (c : ClassDecl) : List Diagnostic :=
  if c.base = "" then []
  else
    match doc.class? c.base with
    | some base =>
      if base.kind = c.kind then []
      else [.warning (.invalidAttribute "Class" "base" c.base) (.classAt index c.name)]
    | none => [.warning (.unresolvedBase c.base) (.classAt index c.name)]

/-! ### Writing back -/

def resolvedParents (doc : Document) : List (Option String) :=
  doc.classes.items.map doc.resolvedParent?

def resolutions (doc : Document) : List (List (Option Resolution)) :=
  doc.classes.items.map fun c => c.members.map (doc.resolution? c.kind)

def resolveClass (doc : Document) (c : ClassDecl) : ClassDecl :=
  { c with
    parent? := doc.resolvedParent? c
    members := c.members.map fun m => { m with resolution? := doc.resolution? c.kind m } }

theorem annotate_resolved (doc : Document) (c : ClassDecl) :
    c.annotate (doc.resolvedParent? c, c.members.map (doc.resolution? c.kind))
      = doc.resolveClass c := by
  rw [ClassDecl.annotate, writeOnto_map, resolveClass]

/-! ### Documents -/

/-- What is wrong with the cycles, then with the bases, then with the members of a document. -/
def resolveReports (doc : Document) : List Diagnostic :=
  doc.cycleReports
    ++ (doc.classes.items.mapIdx doc.baseReports).flatten
    ++ doc.classes.items.flatMap fun c => (c.members.mapIdx (doc.typeReports c.name)).flatten

/-- Resolves every class, with everything that is wrong. -/
def resolve (doc : Document) : Document × List Diagnostic :=
  let annotations := doc.resolvedParents.zip doc.resolutions
  let items := writeOnto ClassDecl.annotate doc.classes.items annotations
  ({ doc with classes := { doc.classes with items := items } }, doc.resolveReports)

/-- **Writing the lists back changes each class by itself.** -/
theorem fst_resolve (doc : Document) :
    doc.resolve.1 = { doc with classes := doc.classes.map doc.resolveClass } := by
  have hitems : writeOnto ClassDecl.annotate doc.classes.items
        (doc.resolvedParents.zip doc.resolutions)
      = doc.classes.items.map doc.resolveClass := by
    rw [resolvedParents, resolutions, List.zip_map', writeOnto_map]
    exact List.map_congr_left fun c _ => annotate_resolved doc c
  rw [resolve, hitems, Registry.map]

/-- The resolved document of a tree, with everything that is wrong with its declarations and then
with their resolution. -/
def load (root : Node) : Document × List Diagnostic :=
  let built := ofNode root
  let resolved := built.1.resolve
  (resolved.1, built.2 ++ resolved.2)

theorem items_resolve (doc : Document) :
    doc.resolve.1.classes.items = doc.classes.items.map doc.resolveClass := by
  rw [fst_resolve, Registry.items_map]

theorem items_load (root : Node) :
    (load root).1.classes.items
      = (ofNode root).1.classes.items.map (ofNode root).1.resolveClass :=
  items_resolve _

end Document

end SchemaBinding.Schema
