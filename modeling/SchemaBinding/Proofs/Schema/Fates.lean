import SchemaBinding.Proofs.Schema.MemberErrors
import SchemaBinding.Proofs.Schema.ReadingOrder

/-!
# Fates of declarations

Each enum and each class among the children of a root meets one of three fates: it has no name, its
name is taken, or it is registered.  A name goes to the first enum that has it, or else to the first
class.  For a declaration that is not registered there is one error on its name, and the document
stays as it is; those that are registered stand in the document in order, each built from its own
node.

* `nameErrors_eq`: what is said about the name of a declaration.
* `firstNamed_filterMap`: a name goes to the first node that has it, place by place.
* `enumDecl_builtFrom`, `classDecl_builtFrom`: a declaration is built from its own node.
* `fates_load`: the fates of all declarations of a tree.
-/

namespace SchemaBinding

/-- The problem is with the name of a declaration with this tag. -/
def Problem.concernsName (tag : String) : Problem → Bool
  | missingAttribute element key => element = tag && key = "name"
  | duplicateType _ => true
  | _ => false

namespace Schema

def declarationAt? : Location → Option (DeclarationSort × Nat)
  | .enumeration index _ => some (.enums, index)
  | .classAt index _ => some (.classes, index)
  | _ => none

/-- The diagnostic is about the name of the declaration at a place. -/
def isNameError (sort : DeclarationSort) (place : Nat) (d : Diagnostic) : Bool :=
  d.problem.concernsName sort.tag && declarationAt? d.location = some (sort, place)

inductive Fate where
  | nameless
  | rejected (name : String)
  | registered (name : String)
deriving DecidableEq, Repr

namespace Fate

/-- The fate of a declaration when some names are taken. -/
def of (taken : List String) (node : Node) : Fate :=
  match node.filledAttr? "name" with
  | none => nameless
  | some name => if name ∈ taken then rejected name else registered name

theorem of_eq_rejected_iff {taken : List String} {node : Node} {name : String} :
    of taken node = rejected name ↔ node.filledAttr? "name" = some name ∧ name ∈ taken := by
  unfold of
  cases node.filledAttr? "name" with
  | none => simp
  | some given =>
    rw [Option.some.injEq]
    by_cases h : given ∈ taken
    · simp only [h, if_true, rejected.injEq]
      exact ⟨fun heq => ⟨heq, heq ▸ h⟩, And.left⟩
    · simp only [h, if_false, reduceCtorEq, false_iff]
      rintro ⟨rfl, hin⟩
      exact h hin

def isRegistered : Fate → Bool
  | registered _ => true
  | _ => false

/-- What is said about the name of a declaration that meets a fate. -/
def errors (sort : DeclarationSort) (place : Nat) : Fate → List Diagnostic
  | nameless => [.error (.missingAttribute sort.tag "name") (sort.location place "")]
  | rejected name => [.error (.duplicateType name) (sort.location place name)]
  | registered _ => []

end Fate

/-! ### What is said about names -/

section Round

variable {sort : DeclarationSort} {doc : Document} {index : Nat} {node : Node}

theorem isNameError_eq_false {place : Nat} {d : Diagnostic}
    (h : declarationAt? d.location ≠ some (sort, place)) : isNameError sort place d = false := by
  rw [isNameError, decide_eq_false h, Bool.and_false]

theorem declarationAt?_location (sort : DeclarationSort) (index : Nat) (name : String) :
    declarationAt? (sort.location index name) = some (sort, index) := by
  cases sort <;> rfl

/-- What is said about a declaration is said at its place, or at no declaration. -/
theorem declarationAt?_of_mem_declare {d : Diagnostic} (hd : d ∈ (sort.declare doc index node).2) :
    declarationAt? d.location = some (sort, index) ∨ declarationAt? d.location = none := by
  cases sort with
  | enums =>
    rw [Document.location_of_mem_declareEnum hd]
    exact Or.inl rfl
  | classes =>
    rcases Document.location_of_mem_declareClass hd with h | ⟨name, -, ⟨j, h⟩ | ⟨j, member, h⟩⟩
    · rw [h]
      exact Or.inl rfl
    · rw [h]
      exact Or.inr rfl
    · rw [h]
      exact Or.inr rfl

/-- Nothing that is wrong with a declaration by itself is about its name, if it has one. -/
theorem filter_reports {name : String} (h : node.filledAttr? "name" = some name) :
    (sort.reports index node).filter (isNameError sort index) = [] := by
  rw [List.filter_eq_nil_iff]
  intro d hd
  rw [Bool.not_eq_true]
  cases sort with
  | enums =>
    rcases mem_enumReports_iff.1 hd with ⟨hnone, -⟩ | ⟨e, -, -, rfl⟩
    · rw [EnumDecl.ofNode?, h] at hnone
      cases hnone
    · rfl
  | classes =>
    rcases mem_classReports_iff.1 hd with ⟨hnone, -⟩ | ⟨given, -, hd | hd | ⟨j, child, -, hd⟩
      | ⟨j, child, -, hd⟩⟩
    · rw [h] at hnone
      cases hnone
    · obtain ⟨word, -, -, rfl⟩ := mem_kindReports_iff.1 hd
      rfl
    · obtain ⟨text, -, -, rfl⟩ := mem_abstractReports_iff.1 hd
      rfl
    · obtain ⟨-, rfl⟩ := mem_methodReports_iff.1 hd
      rfl
    · rcases mem_memberReports_iff.1 hd with ⟨-, rfl⟩ | ⟨-, rfl⟩ <;> rfl

/-- **What one declaration says about its name** is settled by its fate. -/
theorem filter_declare {taken : List String}
    (htaken : ∀ name, doc.hasTypeName name = true ↔ name ∈ taken) :
    (sort.declare doc index node).2.filter (isNameError sort index)
      = (Fate.of taken node).errors sort index := by
  have hplace := declarationAt?_location sort index
  unfold Fate.of
  cases hname : node.filledAttr? "name" with
  | none =>
    rw [DeclarationSort.declare_of_nameless hname]
    refine List.filter_eq_self.2 fun d hd => ?_
    rw [List.mem_singleton.1 hd]
    simp [isNameError, Diagnostic.error, Problem.concernsName, hplace]
  | some name =>
    dsimp only
    by_cases hin : name ∈ taken
    · rw [if_pos hin, DeclarationSort.declare_of_taken hname ((htaken name).2 hin),
        List.filter_append, filter_reports hname, List.nil_append]
      refine List.filter_eq_self.2 fun d hd => ?_
      rw [List.mem_singleton.1 hd]
      simp [isNameError, Diagnostic.error, Problem.concernsName, hplace]
    · have hfree : doc.hasTypeName name = false := Bool.eq_false_iff.2 (mt (htaken name).1 hin)
      rw [if_neg hin, DeclarationSort.snd_declare_of_free hname hfree, filter_reports hname]
      rfl

/-- The declarations of the other sort say nothing about the names of these. -/
theorem filter_declareAll_of_ne {other : DeclarationSort} (hne : other ≠ sort) (place : Nat)
    (nodes : List Node) (doc : Document) :
    (Document.declareAll other.declare 0 doc nodes).2.filter (isNameError sort place) = [] := by
  rw [List.filter_eq_nil_iff]
  intro d hd
  rw [Bool.not_eq_true]
  obtain ⟨j, node, -, hd⟩ := Document.exists_of_mem_declareAll hd
  refine isNameError_eq_false ?_
  rcases declarationAt?_of_mem_declare hd with h | h
  · rw [h]
    intro heq
    exact hne (Prod.mk.inj (Option.some.inj heq)).1
  · rw [h]
    exact nofun

end Round

namespace Document

variable {root : Node} {sort : DeclarationSort}

def fateAt (root : Node) (sort : DeclarationSort) (place : Nat) (node : Node) : Fate :=
  .of (namesBefore root sort place) node

/-- What is said about the name of the declaration at a place. -/
def nameErrors (root : Node) (sort : DeclarationSort) (place : Nat) : List Diagnostic :=
  (load root).2.filter (isNameError sort place)

/-- Resolution says nothing about names. -/
theorem filter_resolveReports_name (doc : Document) (place : Nat) :
    doc.resolveReports.filter (isNameError sort place) = [] := by
  rw [List.filter_eq_nil_iff]
  intro d hd
  rw [Bool.not_eq_true, isNameError, Bool.and_eq_false_iff]
  refine Or.inl ?_
  rcases mem_resolveReports_iff.1 hd with hd | ⟨j, c, -, hd⟩ | ⟨c, -, j, m, -, hd⟩
  · obtain ⟨cycle, -, rfl⟩ := List.mem_map.1 hd
    rfl
  · obtain ⟨-, ⟨-, rfl⟩ | ⟨base, -, -, rfl⟩⟩ := mem_baseReports_iff.1 hd <;> rfl
  · obtain ⟨-, ⟨-, rfl⟩ | ⟨e, -, -, -, -, rfl⟩⟩ := mem_typeReports_iff.1 hd
    · unfold missingTarget
      split <;> rfl
    · rfl

/-- The declarations of a sort say about the name of one of them what its fate is. -/
theorem filter_round {place : Nat} {node : Node} (hnode : (sort.nodes root)[place]? = some node) :
    (declareAll sort.declare 0 (sort.start root) (sort.nodes root)).2.filter
        (isNameError sort place)
      = (fateAt root sort place node).errors sort place := by
  have hother : ∀ j b, (sort.nodes root)[j]? = some b → j ≠ place →
      ∀ d ∈ (sort.declare (documentAt root sort j) (0 + j) b).2,
        isNameError sort place d = false := by
    intro j b _ hne d hd
    refine isNameError_eq_false ?_
    rcases declarationAt?_of_mem_declare hd with h | h
    · rw [h, Nat.zero_add]
      intro heq
      exact hne (Prod.mk.inj (Option.some.inj heq)).2
    · rw [h]
      exact nofun
  rw [snd_declareAll]
  refine (filter_flatten_mapIdx hnode hother).trans ?_
  rw [Nat.zero_add]
  exact filter_declare fun name => hasTypeName_documentAt

/-- **What is said about the name of a declaration** is settled by its fate. -/
theorem nameErrors_eq {place : Nat} {node : Node} (hnode : (sort.nodes root)[place]? = some node) :
    nameErrors root sort place = (fateAt root sort place node).errors sort place := by
  show ((ofNode root).2 ++ (ofNode root).1.resolveReports).filter _ = _
  rw [List.filter_append, filter_resolveReports_name, List.append_nil, snd_ofNode,
    List.filter_append]
  cases sort with
  | enums => rw [filter_round hnode, filter_declareAll_of_ne (by decide), List.append_nil]
  | classes => rw [filter_round hnode, filter_declareAll_of_ne (by decide), List.nil_append]

/-- A declaration that is not registered leaves the document as it is. -/
theorem documentAt_succ {place : Nat} {node : Node} (hnode : (sort.nodes root)[place]? = some node)
    (h : (fateAt root sort place node).isRegistered = false) :
    documentAt root sort (place + 1) = documentAt root sort place := by
  have htake : (sort.nodes root).take (place + 1) = (sort.nodes root).take place ++ [node] := by
    rw [List.take_add_one, hnode]
    rfl
  rw [documentAt, htake, declareAll_append, documentAt]
  show (sort.declare (documentAt root sort place) _ node).1 = documentAt root sort place
  unfold fateAt Fate.of at h
  cases hname : node.filledAttr? "name" with
  | none => rw [DeclarationSort.declare_of_nameless hname]
  | some name =>
    simp only [hname] at h
    by_cases hin : name ∈ namesBefore root sort place
    · rw [DeclarationSort.declare_of_taken hname (hasTypeName_documentAt.2 hin)]
    · rw [if_neg hin] at h
      cases h

/-! ### What is registered -/

theorem isRegistered_of_iff {taken : List String} {node : Node} :
    (Fate.of taken node).isRegistered = true
      ↔ ∃ name, node.filledAttr? "name" = some name ∧ name ∉ taken := by
  unfold Fate.of
  cases node.filledAttr? "name" with
  | none => simp [Fate.isRegistered]
  | some name => by_cases h : name ∈ taken <;> simp [Fate.isRegistered, h]

def registeredNodes (root : Node) (sort : DeclarationSort) : List Node :=
  ((sort.nodes root).zipIdx.filter fun p => (fateAt root sort p.2 p.1).isRegistered).map Prod.fst

theorem exists_of_mem_registeredNodes {node : Node} (h : node ∈ registeredNodes root sort) :
    ∃ name, node.filledAttr? "name" = some name := by
  obtain ⟨p, hp, rfl⟩ := List.mem_map.1 h
  obtain ⟨name, hname, -⟩ := isRegistered_of_iff.1 (List.mem_filter.1 hp).2
  exact ⟨name, hname⟩

section Declared

variable {α : Type} {ofNode? : Node → Option α} {nameOf : α → String}
  (hname : ∀ node, (ofNode? node).map nameOf = node.filledAttr? "name")

include hname

theorem names_filterMap (nodes : List Node) :
    (nodes.filterMap ofNode?).map nameOf = namesOf nodes := by
  rw [List.map_filterMap, namesOf]
  exact congrArg (List.filterMap · nodes) (funext hname)

/-- **A name goes to the first node that has it**, place by place: a node is left out if its name is
taken from the start or by a node before it. -/
theorem firstNamed_filterMap (taken : List String) (nodes : List Node) :
    firstNamed nameOf taken (nodes.filterMap ofNode?)
      = ((nodes.zipIdx.filter fun p =>
          (Fate.of (taken ++ namesOf (nodes.take p.2)) p.1).isRegistered).map Prod.fst).filterMap
            ofNode? := by
  -- the induction is from the end, where a further node meets the names of all others
  induction nodes using List.reverseRecOn with
  | nil => rfl
  | append_singleton init node ih =>
    have hinit : (init.zipIdx.filter fun p =>
          (Fate.of (taken ++ namesOf ((init ++ [node]).take p.2)) p.1).isRegistered)
        = init.zipIdx.filter fun p =>
          (Fate.of (taken ++ namesOf (init.take p.2)) p.1).isRegistered := by
      refine List.filter_congr fun p hp => ?_
      rw [List.take_append_of_le_length (List.snd_lt_of_mem_zipIdx hp).le]
    rw [List.zipIdx_append, List.filter_append, hinit, List.map_append, List.filterMap_append,
      List.filterMap_append, ← ih, Nat.zero_add, List.zipIdx_singleton, List.filter_singleton]
    have hlast : (init ++ [node]).take init.length = init := List.take_left' rfl
    have hgiven := hname node
    cases hnode : ofNode? node with
    | none =>
      rw [hnode, Option.map_none] at hgiven
      have hfate : (Fate.of (taken ++ namesOf init) node).isRegistered = false := by
        rw [Bool.eq_false_iff]
        intro h
        obtain ⟨name, h, -⟩ := isRegistered_of_iff.1 h
        exact nomatch hgiven.trans h
      simp [hnode, hlast, hfate]
    | some a =>
      rw [hnode, Option.map_some] at hgiven
      have hfate : (Fate.of (taken ++ namesOf init) node).isRegistered = true
          ↔ ¬ (nameOf a ∈ taken ∨ nameOf a ∈ (init.filterMap ofNode?).map nameOf) := by
        rw [isRegistered_of_iff, ← hgiven, names_filterMap hname, ← List.mem_append]
        simp
      rw [List.filterMap_cons_some hnode, List.filterMap_nil, firstNamed_concat, hlast]
      by_cases h : nameOf a ∈ taken ∨ nameOf a ∈ (init.filterMap ofNode?).map nameOf
      · rw [if_pos h, Bool.eq_false_iff.2 (mt hfate.1 (not_not.2 h))]
        rfl
      · rw [if_neg h, hfate.2 h]
        simp [hnode]

end Declared

/-- The enums of a document are those of the nodes that are registered. -/
theorem declaredEnums_eq (root : Node) :
    declaredEnums root = (registeredNodes root .enums).filterMap EnumDecl.ofNode? :=
  firstNamed_filterMap map_name_enum [] (root.childrenTagged "Enum")

/-- The classes of a document before resolution are those of the nodes that are registered. -/
theorem declaredClasses_eq (root : Node) :
    declaredClasses root = (registeredNodes root .classes).filterMap ClassDecl.ofNode? := by
  have htaken : ∀ name, name ∈ (declaredEnums root).map EnumDecl.name
      ↔ name ∈ namesOf (root.childrenTagged "Enum") := fun name => by
    rw [declaredEnums, mem_names_firstNamed, names_filterMap map_name_enum]
    exact and_iff_left List.not_mem_nil
  rw [declaredClasses, firstNamed_congr htaken]
  exact firstNamed_filterMap map_name_class (namesOf (root.childrenTagged "Enum"))
    (root.childrenTagged "Class")

end Document

/-! ### Declarations and their nodes -/

theorem filledAttr?_eq (node : Node) (key : String) :
    node.filledAttr? key = if textOf node key = "" then none else some (textOf node key) := by
  rw [textOf_eq]
  cases hkey : node.filledAttr? key with
  | none => rfl
  | some text => exact (if_neg (filledAttr?_eq_some_iff.1 hkey).1).symm

/-- The name in generated code is the code of a node, or its name if it has no code. -/
theorem codeOf_eq_textOf (node : Node) (name : String) :
    codeOf node name = if textOf node "code" = "" then name else textOf node "code" := by
  rw [codeOf, filledAttr?_eq]
  split <;> rfl

theorem methodOf?_eq (node : Node) :
    methodOf? node
      = if Text.trim (textOf node "declaration") = "" then none
        else some (Text.trim (textOf node "declaration")) := by
  rw [methodOf?, textOf]
  cases node.attr? "declaration" with
  | none => decide
  | some declaration => by_cases h : Text.trim declaration = "" <;> simp [Option.filter_some, h]

/-- Where the texts that are empty are passed over, those that are not are left in order. -/
theorem filterMap_eq_filter {f : Node → Option String} {text : Node → String}
    (h : ∀ node, f node = if text node = "" then none else some (text node)) (nodes : List Node) :
    nodes.filterMap f = (nodes.map text).filter (· ≠ "") := by
  induction nodes with
  | nil => rfl
  | cons node rest ih =>
    rw [List.filterMap_cons, h, List.map_cons, ih, List.filter_cons]
    by_cases hempty : text node = "" <;> simp [hempty]

structure EnumDecl.BuiltFrom (node : Node) (e : EnumDecl) : Prop where
  name : e.name = textOf node "name"
  generatedName : e.generatedName = if textOf node "code" = "" then e.name else textOf node "code"
  generatedName_ne : e.generatedName ≠ ""
  values : e.values
    = ((node.childrenTagged "Value").map (textOf · "name")).filter (· ≠ "")

/-- A member is built from a node.  It may be resolved or not. -/
structure Member.BuiltFrom (node : Node) (m : Member) : Prop where
  name : m.name = textOf node "name"
  generatedName : m.generatedName = if textOf node "code" = "" then m.name else textOf node "code"
  type : m.type = .parse (textOf node "type")
  literal : m.literal = textOf node "default"

/-- A class is built from a node.  It may be resolved or not. -/
structure ClassDecl.BuiltFrom (node : Node) (c : ClassDecl) : Prop where
  name : c.name = textOf node "name"
  generatedName : c.generatedName = if textOf node "code" = "" then c.name else textOf node "code"
  generatedName_ne : c.generatedName ≠ ""
  kind : c.kind = (ClassKind.ofKeyword? (textOf node "type")).getD .datasheet
  base : c.base = Text.trim (textOf node "base")
  isAbstract : c.isAbstract = (flagOf? (textOf node "abstract")).getD true
  methods : c.methods
    = ((node.childrenTagged "Method").map fun child =>
        Text.trim (textOf child "declaration")).filter (· ≠ "")
  members : List.Forall₂ Member.BuiltFrom (node.childrenTagged "Data") c.members

theorem enumDecl_builtFrom {node : Node} {e : EnumDecl} (h : EnumDecl.ofNode? node = some e) :
    e.BuiltFrom node := by
  obtain ⟨name, hname, rfl⟩ := Option.map_eq_some_iff.1 h
  exact
    { name := (textOf_of_filledAttr? hname).symm
      generatedName := codeOf_eq_textOf node name
      generatedName_ne := Document.codeOf_ne_empty (filledAttr?_eq_some_iff.1 hname).1
      values := filterMap_eq_filter (filledAttr?_eq · "name") _ }

theorem member_builtFrom (node : Node) (resolution? : Option Resolution) :
    Member.BuiltFrom node { Member.ofNode node with resolution? := resolution? } where
  name := (textOf_eq node "name").symm
  generatedName := codeOf_eq_textOf node _
  type := by
    rw [textOf_eq]
    show ((node.filledAttr? "type").map TypeSpec.parse).getD .none = _
    cases node.filledAttr? "type" with
    | none => decide
    | some text => rfl
  literal := rfl

/-- A class is built from its node, whatever its parent is and its members are resolved to. -/
theorem classDecl_builtFrom {node : Node} {c : ClassDecl} (h : ClassDecl.ofNode? node = some c)
    (parent? : Option String) (resolution? : Member → Option Resolution) :
    ClassDecl.BuiltFrom node
      { c with
        parent? := parent?
        members := c.members.map fun m => { m with resolution? := resolution? m } } := by
  obtain ⟨name, hname, rfl⟩ := Option.map_eq_some_iff.1 h
  exact
    { name := (textOf_of_filledAttr? hname).symm
      generatedName := codeOf_eq_textOf node name
      generatedName_ne := Document.codeOf_ne_empty (filledAttr?_eq_some_iff.1 hname).1
      kind := by
        rw [textOf_eq node "type"]
        show ((node.filledAttr? "type").bind ClassKind.ofKeyword?).getD .datasheet = _
        cases node.filledAttr? "type" with
        | none => decide
        | some word => rfl
      base := rfl
      isAbstract := abstractOf_eq node
      methods := filterMap_eq_filter methodOf?_eq _
      members := by
        show List.Forall₂ Member.BuiltFrom _ (((node.childrenTagged "Data").map Member.ofNode).map _)
        rw [List.forall₂_map_right_iff, List.forall₂_map_right_iff, List.forall₂_same]
        exact fun data _ => member_builtFrom data _ }

/-- Nodes that all declare something stand beside what they declare. -/
theorem forall₂_filterMap {α β : Type} {f : α → Option β} {R : α → β → Prop} {items : List α}
    (h : ∀ a ∈ items, ∃ b, f a = some b ∧ R a b) : List.Forall₂ R items (items.filterMap f) := by
  have hall : List.Forall₂ R (items.filter fun _ => true) (items.filterMap f) :=
    forall₂_filter_filterMap fun a ha => Or.inr ⟨rfl, h a ha⟩
  rwa [List.filter_true] at hall

namespace Document

/-- **The fates of all declarations of a tree.**  What is said about the name of a declaration is
settled by its fate, and one that is not registered leaves the document as it is.  The enums and the
classes of the document are those that are registered, in order, each built from its own node. -/
theorem fates_load (root : Node) :
    (∀ (sort : DeclarationSort) (place : Nat) (node : Node),
      (sort.nodes root)[place]? = some node →
        nameErrors root sort place = (fateAt root sort place node).errors sort place
        ∧ ((fateAt root sort place node).isRegistered = false →
          documentAt root sort (place + 1) = documentAt root sort place))
    ∧ List.Forall₂ EnumDecl.BuiltFrom (registeredNodes root .enums) (load root).1.enums.items
    ∧ List.Forall₂ ClassDecl.BuiltFrom (registeredNodes root .classes)
        (load root).1.classes.items := by
  refine ⟨fun sort place node hnode => ⟨nameErrors_eq hnode, documentAt_succ hnode⟩, ?_, ?_⟩
  · show List.Forall₂ _ _ (ofNode root).1.enums.items
    rw [enumItems_ofNode, declaredEnums_eq]
    refine forall₂_filterMap fun node hnode => ?_
    obtain ⟨name, hname⟩ := exists_of_mem_registeredNodes hnode
    have hdeclared := congrArg (Option.map fun name =>
      EnumDecl.mk name (codeOf node name) (enumValues node)) hname
    exact ⟨_, hdeclared, enumDecl_builtFrom hdeclared⟩
  · rw [items_load, items_ofNode, declaredClasses_eq, List.map_filterMap]
    refine forall₂_filterMap fun node hnode => ?_
    obtain ⟨name, hname⟩ := exists_of_mem_registeredNodes hnode
    obtain ⟨c, hdeclared, -⟩ : ∃ c, ClassDecl.ofNode? node = some c ∧ c.name = name :=
      Option.map_eq_some_iff.1 ((map_name_class node).trans hname)
    exact ⟨_, congrArg (Option.map _) hdeclared, classDecl_builtFrom hdeclared _ _⟩

/-- A schema of a shop.  The first class has the name of an enum that comes after it, and another enum
and the last class have names that were given before.  One enum and one class have no name. -/
def shopSchema : Node :=
  ⟨"Schema", [],
    [⟨"Class", [("name", "Fruit")], [⟨"Data", [("name", "ripe"), ("type", "bool")], []⟩]⟩,
      ⟨"Enum", [], [⟨"Value", [("name", "Shut")], []⟩]⟩,
      ⟨"Enum", [("name", "Fruit"), ("code", "EFruit")],
        [⟨"Value", [("name", "Apple")], []⟩, ⟨"Value", [], []⟩, ⟨"Value", [("name", "Pear")], []⟩]⟩,
      ⟨"Class", [("code", "Till")], []⟩,
      ⟨"Enum", [("name", "Fruit")], []⟩,
      ⟨"Class", [("name", "Basket")],
        [⟨"Method", [("declaration", " void fill(); ")], []⟩,
          ⟨"Method", [("declaration", " ")], []⟩,
          ⟨"Data", [("name", "fruit"), ("type", "array:Fruit")], []⟩]⟩,
      ⟨"Class", [("name", "Basket"), ("type", "datasave")], []⟩]⟩

theorem fates_load_shopSchema :
    (DeclarationSort.nodes .enums shopSchema).mapIdx (fateAt shopSchema .enums)
      = [.nameless, .registered "Fruit", .rejected "Fruit"]
    ∧ (DeclarationSort.nodes .classes shopSchema).mapIdx (fateAt shopSchema .classes)
      = [.rejected "Fruit", .nameless, .registered "Basket", .rejected "Basket"]
    ∧ nameErrors shopSchema .classes 0
      = [.error (.duplicateType "Fruit") (.classAt 0 "Fruit")]
    ∧ documentAt shopSchema .classes 1 = documentAt shopSchema .classes 0
    ∧ List.Forall₂ EnumDecl.BuiltFrom (registeredNodes shopSchema .enums)
      (load shopSchema).1.enums.items
    ∧ List.Forall₂ ClassDecl.BuiltFrom (registeredNodes shopSchema .classes)
      (load shopSchema).1.classes.items := by
  obtain ⟨hfates, henums, hclasses⟩ := fates_load shopSchema
  obtain ⟨herrors, hkept⟩ := hfates .classes 0 _ rfl
  have hfate : fateAt shopSchema .classes 0
      ⟨"Class", [("name", "Fruit")], [⟨"Data", [("name", "ripe"), ("type", "bool")], []⟩]⟩
        = .rejected "Fruit" := by
    decide
  rw [hfate] at herrors hkept
  exact ⟨by decide, by decide, herrors, hkept rfl, henums, hclasses⟩

end Document

end Schema

end SchemaBinding
