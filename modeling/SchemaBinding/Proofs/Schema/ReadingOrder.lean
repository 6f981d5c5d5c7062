import SchemaBinding.Proofs.Schema.Names
import SchemaBinding.Proofs.Schema.Reports

/-!
# Declarations in the order of reading

A tree is read in two rounds: first its enums are declared and then its classes, each in the order of
the document.  `DeclarationSort` is what a round declares, and `documentAt` is the document when it is
the turn of a declaration.

* `DeclarationSort.declare_of_nameless`, `DeclarationSort.declare_of_taken`,
  `DeclarationSort.snd_declare_of_free`: what one declaration comes to.
* `DeclarationSort.hasTypeName_declareAll`: behind some declarations their names are taken.
* `Document.hasTypeName_documentAt`: the names that are taken when it is the turn of a declaration.
-/

namespace SchemaBinding.Schema

/-- A further child changes nothing about the children with another tag. -/
theorem childrenTagged_insert {root grown child : Node} {before after : List Node} {tag : String}
    (hgrown : grown.children = before ++ child :: after) (hroot : root.children = before ++ after)
    (hne : child.tag ≠ tag) : grown.childrenTagged tag = root.childrenTagged tag := by
  have hfilter : (child :: after).filter (·.tag = tag) = after.filter (·.tag = tag) :=
    List.filter_cons_of_neg (by simpa using hne)
  rw [Node.childrenTagged, Node.childrenTagged, hgrown, hroot, List.filter_append,
    List.filter_append, hfilter]

inductive DeclarationSort where
  | enums
  | classes
deriving DecidableEq

def namesOf (nodes : List Node) : List String := nodes.filterMap (·.filledAttr? "name")

namespace DeclarationSort

def tag : DeclarationSort → String
  | enums => "Enum"
  | classes => "Class"

def nodes (sort : DeclarationSort) (root : Node) : List Node := root.childrenTagged sort.tag

/-- Where a declaration is that stands at a place among those of its sort. -/
def location : DeclarationSort → Nat → String → Location
  | enums => .enumeration
  | classes => .classAt

/-- What is wrong with a declaration by itself. -/
def reports : DeclarationSort → Nat → Node → List Diagnostic
  | enums => enumReports
  | classes => classReports

def declare : DeclarationSort → Document → Nat → Node → Document × List Diagnostic
  | enums => Document.declareEnum
  | classes => Document.declareClass

/-- The document before the first declaration of this sort. -/
def start : DeclarationSort → Node → Document
  | enums, root => .empty (Text.trim (textOf root "namespace"))
  | classes, root => (Document.ofEnums root).1

/-! ### One declaration -/

section Declare

variable {sort : DeclarationSort} {doc : Document} {index : Nat} {node : Node} {name : String}

/-- A declaration without a name is left out. -/
theorem declare_of_nameless (h : node.filledAttr? "name" = none) :
    sort.declare doc index node
      = (doc, [.error (.missingAttribute sort.tag "name") (sort.location index "")]) := by
  cases sort with
  | enums =>
    have hnone : EnumDecl.ofNode? node = none := by rw [EnumDecl.ofNode?, h, Option.map_none]
    simp only [declare, Document.declareEnum, enumReports, hnone]
    rfl
  | classes =>
    have hnone : ClassDecl.ofNode? node = none := by rw [ClassDecl.ofNode?, h, Option.map_none]
    simp only [declare, Document.declareClass, classReports, hnone, h]
    rfl

/-- A declaration whose name is taken is left out, and what is wrong with it by itself is reported
all the same. -/
theorem declare_of_taken (h : node.filledAttr? "name" = some name)
    (htaken : doc.hasTypeName name = true) :
    sort.declare doc index node
      = (doc, sort.reports index node
          ++ [.error (.duplicateType name) (sort.location index name)]) := by
  cases sort with
  | enums =>
    simp only [declare, Document.declareEnum, EnumDecl.ofNode?, h, Option.map_some,
      Document.addEnum?, htaken, if_true]
    rfl
  | classes =>
    simp only [declare, Document.declareClass, ClassDecl.ofNode?, h, Option.map_some,
      Document.addClass?, htaken, if_true]
    rfl

theorem snd_declare_of_free (h : node.filledAttr? "name" = some name)
    (hfree : doc.hasTypeName name = false) :
    (sort.declare doc index node).2 = sort.reports index node := by
  cases sort with
  | enums =>
    simp only [declare, Document.declareEnum, EnumDecl.ofNode?, h, Option.map_some,
      Document.addEnum?, hfree, Bool.false_eq_true, if_false]
    rfl
  | classes =>
    simp only [declare, Document.declareClass, ClassDecl.ofNode?, h, Option.map_some,
      Document.addClass?, hfree, Bool.false_eq_true, if_false]
    rfl

/-- The place of a declaration plays no part in what is declared. -/
theorem fst_declare (sort : DeclarationSort) (doc : Document) (index place : Nat) (node : Node) :
    (sort.declare doc index node).1 = (sort.declare doc place node).1 := by
  cases sort with
  | enums =>
    show (doc.declareEnum index node).1 = (doc.declareEnum place node).1
    rw [Document.fst_declareEnum, Document.fst_declareEnum]
  | classes =>
    show (doc.declareClass index node).1 = (doc.declareClass place node).1
    rw [Document.fst_declareClass, Document.fst_declareClass]

/-- Behind a declaration its name is taken. -/
theorem hasTypeName_declare :
    (sort.declare doc index node).1.hasTypeName name = true
      ↔ doc.hasTypeName name = true ∨ node.filledAttr? "name" = some name := by
  cases hname : node.filledAttr? "name" with
  | none => simp [declare_of_nameless hname]
  | some given =>
    cases htaken : doc.hasTypeName given with
    | true =>
      rw [declare_of_taken hname htaken, Option.some.injEq]
      exact (or_iff_left_of_imp (by rintro rfl; exact htaken)).symm
    | false =>
      rw [Option.some.injEq, @eq_comm _ given]
      cases sort with
      | enums =>
        show (doc.declareEnum index node).1.hasTypeName name = true ↔ _
        rw [Document.fst_declareEnum, EnumDecl.ofNode?, hname, Option.map_some, Option.elim_some,
          if_neg (by rw [htaken]; exact Bool.false_ne_true), Document.hasTypeName_withEnum]
      | classes =>
        show (doc.declareClass index node).1.hasTypeName name = true ↔ _
        rw [Document.fst_declareClass, ClassDecl.ofNode?, hname, Option.map_some, Option.elim_some,
          if_neg (by rw [htaken]; exact Bool.false_ne_true), Document.hasTypeName_withClass]

end Declare

/-! ### Declarations one after the other -/

/-- **Behind some declarations their names are taken.** -/
theorem hasTypeName_declareAll (sort : DeclarationSort) (nodes : List Node) (index : Nat)
    (doc : Document) (name : String) :
    (Document.declareAll sort.declare index doc nodes).1.hasTypeName name = true
      ↔ doc.hasTypeName name = true ∨ name ∈ namesOf nodes := by
  induction nodes generalizing index doc with
  | nil => simp [Document.declareAll, namesOf]
  | cons node rest ih =>
    have hmem : name ∈ namesOf (node :: rest)
        ↔ node.filledAttr? "name" = some name ∨ name ∈ namesOf rest := by
      simp [namesOf, List.mem_filterMap]
    rw [Document.declareAll, ih, hasTypeName_declare, hmem, or_assoc]

end DeclarationSort

namespace Document

open DeclarationSort (nodes declare start)

/-- Nodes behind others go on from the document that these leave. -/
theorem declareAll_append (add : Document → Nat → Node → Document × List Diagnostic)
    (before after : List Node) (index : Nat) (doc : Document) :
    declareAll add index doc (before ++ after)
      = ((declareAll add (index + before.length) (declareAll add index doc before).1 after).1,
        (declareAll add index doc before).2
          ++ (declareAll add (index + before.length) (declareAll add index doc before).1 after).2) := by
  induction before generalizing index doc with
  | nil => rfl
  | cons node rest ih =>
    have hplace : index + (rest.length + 1) = index + 1 + rest.length := by omega
    rw [List.cons_append, declareAll, ih, List.length_cons, hplace, declareAll, List.append_assoc]

/-- The document when it is the turn of the declaration at a place. -/
def documentAt (root : Node) (sort : DeclarationSort) (place : Nat) : Document :=
  (declareAll sort.declare 0 (sort.start root) ((sort.nodes root).take place)).1

/-- The names of the declarations before the one at a place: of its sort those before it, and of
enums all if it is a class. -/
def namesBefore (root : Node) : DeclarationSort → Nat → List String
  | .enums, place => namesOf ((nodes .enums root).take place)
  | .classes, place => namesOf (nodes .enums root) ++ namesOf ((nodes .classes root).take place)

/-- **The names that are taken when it is the turn of a declaration.** -/
theorem hasTypeName_documentAt {root : Node} {sort : DeclarationSort} {place : Nat} {name : String} :
    (documentAt root sort place).hasTypeName name = true ↔ name ∈ namesBefore root sort place := by
  have hnone : ¬ (empty (Text.trim (textOf root "namespace"))).hasTypeName name = true := by
    rw [hasTypeName_empty]
    exact List.not_mem_nil
  rw [documentAt, DeclarationSort.hasTypeName_declareAll]
  cases sort with
  | enums => exact or_iff_right hnone
  | classes =>
    have henums : (start .classes root).hasTypeName name = true ↔ name ∈ namesOf (nodes .enums root) :=
      (DeclarationSort.hasTypeName_declareAll .enums (nodes .enums root) 0 _ name).trans
        (or_iff_right hnone)
    rw [namesBefore, List.mem_append, henums]

/-- The document of a tree is the one behind its last class. -/
theorem fst_ofNode_eq (root : Node) :
    (ofNode root).1
      = (declareAll (declare .classes) 0 (start .classes root) (nodes .classes root)).1 := rfl

/-- The reports on a tree: of the enums and then of the classes. -/
theorem snd_ofNode (root : Node) :
    (ofNode root).2
      = (declareAll (declare .enums) 0 (start .enums root) (nodes .enums root)).2
        ++ (declareAll (declare .classes) 0 (start .classes root) (nodes .classes root)).2 := rfl

end Document

end SchemaBinding.Schema
