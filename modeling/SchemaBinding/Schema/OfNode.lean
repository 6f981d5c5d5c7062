import SchemaBinding.Node
import SchemaBinding.Diagnostic
import SchemaBinding.Text.Letter
import SchemaBinding.Schema.Document

/-!
# The document of a tree

`Document.ofNode` reads the enums and classes among the children of a root: first the enums, then
the classes, so that a class never takes the name of an enum.  A bad declaration costs only itself.
What a node declares and what is wrong with it are two functions: `EnumDecl.ofNode?` and
`enumReports`, `ClassDecl.ofNode?` and `classReports`, `Member.ofNode` and `memberReports`.

* `textOf_eq`: an attribute that is absent reads like one that is empty.
* `filledAttr?_eq_some_iff`: one that is filled reads as it is.
* `abstractOf_eq`: a flag that is absent counts as an empty one.
-/

namespace SchemaBinding.Schema

/-- The generated name of a declaration: its code, or its name if it has no code. -/
def codeOf (node : Node) (name : String) : String := (node.filledAttr? "code").getD name

/-- The value of an attribute, empty if it is absent. -/
def textOf (node : Node) (key : String) : String := (node.attr? key).getD ""

theorem textOf_eq (node : Node) (key : String) :
    textOf node key = (node.filledAttr? key).getD "" := by
  rw [textOf, Node.filledAttr?]
  cases node.attr? key with
  | none => rfl
  | some text => by_cases h : text = "" <;> simp [Option.filter_some, h]

theorem filledAttr?_eq_some_iff {node : Node} {key value : String} :
    node.filledAttr? key = some value ↔ value ≠ "" ∧ textOf node key = value := by
  rw [textOf, Node.filledAttr?, Option.filter_eq_some_iff, decide_eq_true_eq, and_comm]
  refine and_congr_right fun hne => ?_
  cases node.attr? key with
  | none => exact iff_of_false nofun hne.symm
  | some text => exact Option.some_inj

theorem textOf_of_filledAttr? {node : Node} {key value : String}
    (h : node.filledAttr? key = some value) : textOf node key = value :=
  (filledAttr?_eq_some_iff.1 h).2

/-! ### Enums -/

/-- The values of an enum: those of its values that have a name. -/
def enumValues (node : Node) : List String :=
  (node.childrenTagged "Value").filterMap (·.filledAttr? "name")

/-- The enum that a node declares, if it has a name. -/
def EnumDecl.ofNode? (node : Node) : Option EnumDecl :=
  (node.filledAttr? "name").map fun name => ⟨name, codeOf node name, enumValues node⟩

def enumReports (index : Nat) (node : Node) : List Diagnostic :=
  match EnumDecl.ofNode? node with
  | none => [.error (.missingAttribute "Enum" "name") (.enumeration index "")]
  | some e =>
    if e.values = [] then [.warning (.emptyEnum e.name) (.enumeration index e.name)] else []

/-! ### Members -/

/-- The member that a node declares.  It is a member even if it has no name or type. -/
def Member.ofNode (node : Node) : Member :=
  let name := (node.filledAttr? "name").getD ""
  { name := name
    generatedName := codeOf node name
    type := ((node.filledAttr? "type").map TypeSpec.parse).getD .none
    literal := textOf node "default"
    resolution? := none }

/-- What is wrong with the member at a place: the name is missing, the type is missing, or both. -/
def memberReports (owner : String) (index : Nat) (node : Node) : List Diagnostic :=
  let m := Member.ofNode node
  let location := Location.member owner index m.name
  (if m.name = "" then [.error (.missingAttribute "Data" "name") location] else [])
    ++ (if m.type.base = "" then [.error (.missingAttribute "Data" "type") location] else [])

/-! ### Methods -/

/-- The declaration of a method, trimmed, if anything is left of it. -/
def methodOf? (node : Node) : Option String :=
  ((node.attr? "declaration").map Text.trim).filter (· ≠ "")

def methodReports (owner : String) (index : Nat) (node : Node) : List Diagnostic :=
  match methodOf? node with
  | some _ => []
  | none => [.warning (.missingAttribute "Method" "declaration") (.method owner index)]

/-! ### Classes -/

/-- Reads a flag: `true` and `1` set it; `false`, `0` and nothing do not. -/
def flagOf? (text : String) : Option Bool :=
  let word := String.ofList (Text.lowerLetters (Text.trimList text.toList))
  if word = "true" ∨ word = "1" then some true
  else if word = "false" ∨ word = "0" ∨ word = "" then some false
  else none

/-- The kind of the class that a node declares; a datasheet unless the node says otherwise. -/
def kindOf (node : Node) : ClassKind :=
  ((node.filledAttr? "type").bind ClassKind.ofKeyword?).getD .datasheet

/-- Whether the class that a node declares is abstract.  A flag that cannot be read counts as
set. -/
def abstractOf (node : Node) : Bool :=
  match node.attr? "abstract" with
  | none => false
  | some text => (flagOf? text).getD true

theorem abstractOf_eq (node : Node) :
    abstractOf node = (flagOf? (textOf node "abstract")).getD true := by
  unfold abstractOf textOf
  cases node.attr? "abstract" with
  | none => decide
  | some text => rfl

def ClassDecl.ofNode? (node : Node) : Option ClassDecl :=
  (node.filledAttr? "name").map fun name =>
    { name := name
      generatedName := codeOf node name
      kind := kindOf node
      base := Text.trim (textOf node "base")
      isAbstract := abstractOf node
      methods := (node.childrenTagged "Method").filterMap methodOf?
      members := (node.childrenTagged "Data").map Member.ofNode
      parent? := none }

def kindReports (location : Location) (node : Node) : List Diagnostic :=
  match node.filledAttr? "type" with
  | none => []
  | some word =>
    match ClassKind.ofKeyword? word with
    | some _ => []
    | none => [.error (.invalidAttribute "Class" "type" word) location]

def abstractReports (location : Location) (node : Node) : List Diagnostic :=
  match node.attr? "abstract" with
  | none => []
  | some text =>
    match flagOf? text with
    | some _ => []
    | none => [.warning (.invalidAttribute "Class" "abstract" text) location]

def classReports (index : Nat) (node : Node) : List Diagnostic :=
  match node.filledAttr? "name" with
  | none => [.error (.missingAttribute "Class" "name") (.classAt index "")]
  | some name =>
    let location := Location.classAt index name
    kindReports location node
      ++ abstractReports location node
      ++ ((node.childrenTagged "Method").mapIdx (methodReports name)).flatten
      ++ ((node.childrenTagged "Data").mapIdx (memberReports name)).flatten

/-! ### Documents -/

/-- Adds what a node declares, with what is wrong with it. -/
def Document.declareEnum (doc : Document) (index : Nat) (node : Node) :
    Document × List Diagnostic :=
  match EnumDecl.ofNode? node with
  | none => (doc, enumReports index node)
  | some e =>
    match doc.addEnum? e with
    | some extended => (extended, enumReports index node)
    | none =>
      (doc, enumReports index node
        ++ [.error (.duplicateType e.name) (.enumeration index e.name)])

def Document.declareClass (doc : Document) (index : Nat) (node : Node) :
    Document × List Diagnostic :=
  match ClassDecl.ofNode? node with
  | none => (doc, classReports index node)
  | some c =>
    match doc.addClass? c with
    | some extended => (extended, classReports index node)
    | none =>
      (doc, classReports index node ++ [.error (.duplicateType c.name) (.classAt index c.name)])

/-- Adds what nodes declare, one after the other, counting them from `index`. -/
def Document.declareAll (declare : Document → Nat → Node → Document × List Diagnostic)
    (index : Nat) (doc : Document) : List Node → Document × List Diagnostic
  | [] => (doc, [])
  | node :: rest =>
    let first := declare doc index node
    let others := declareAll declare (index + 1) first.1 rest
    (others.1, first.2 ++ others.2)

/-- The document of a tree and everything that is wrong with it. -/
def Document.ofNode (root : Node) : Document × List Diagnostic :=
  let start := Document.empty (Text.trim (textOf root "namespace"))
  let enums := declareAll declareEnum 0 start (root.childrenTagged "Enum")
  let classes := declareAll declareClass 0 enums.1 (root.childrenTagged "Class")
  (classes.1, enums.2 ++ classes.2)

end SchemaBinding.Schema
