import SchemaBinding.Proofs.Schema.Annotation
import SchemaBinding.Proofs.Schema.ReadingOrder

/-!
# Added declarations

An `Addition` is a tree and a further declaration among the children of its root, at any place, with
a name that no other declaration has.  It takes no name from another declaration and it is found
under its own name only, so it is seen by those alone that name it.

* `firstNamed_filter`: which item a name goes to does not depend on items with other names.
* `Addition.filter_enumItems`, `Addition.filter_classItems`: what stands in the document besides the
  declaration that is added.
* `Addition.enum?_eq`, `Addition.class?_eq`: every other name finds what it found before.
* `Addition.spares_resolveClass`: what becomes of a class.
* `Addition.load_grown`: what becomes of all declarations of a tree.
-/

namespace SchemaBinding.Schema

/-! ### Names and other names -/

section Names

variable {α : Type} {nameOf : α → String} {p : String → Bool}

/-- **Which item a name goes to does not depend on items with other names.** -/
theorem firstNamed_filter {taken others : List String}
    (h : ∀ name, p name = true → (name ∈ taken ↔ name ∈ others)) (items : List α) :
    (firstNamed nameOf taken items).filter (fun a => p (nameOf a))
      = firstNamed nameOf others (items.filter fun a => p (nameOf a)) := by
  induction items generalizing taken others with
  | nil => rfl
  | cons a rest ih =>
    have hcons : ∀ name, p name = true → (name ∈ nameOf a :: taken ↔ name ∈ nameOf a :: others) :=
      fun name hname => by rw [List.mem_cons, List.mem_cons, h name hname]
    by_cases hp : p (nameOf a) = true
    · have hkeep : ∀ items, (a :: items).filter (fun b => p (nameOf b))
          = a :: items.filter fun b => p (nameOf b) := fun _ => List.filter_cons_of_pos hp
      rw [hkeep, firstNamed, firstNamed]
      by_cases hm : nameOf a ∈ taken
      · rw [if_pos hm, if_pos ((h _ hp).1 hm), ih h]
      · rw [if_neg hm, if_neg (mt (h _ hp).2 hm), hkeep, ih hcons]
    · have hdrop : ∀ items, (a :: items).filter (fun b => p (nameOf b))
          = items.filter fun b => p (nameOf b) := fun _ => List.filter_cons_of_neg hp
      -- a name that is passed over may be taken on one side alone
      have htaken : ∀ name, p name = true → (name ∈ nameOf a :: taken ↔ name ∈ others) := by
        intro name hname
        have hne : name ≠ nameOf a := by
          rintro rfl
          exact hp hname
        rw [List.mem_cons, or_iff_right hne, h name hname]
      rw [hdrop, firstNamed]
      split
      · exact ih h
      · rw [hdrop, ih htaken]

theorem mem_names_filter {items : List α} {name : String} (hname : p name = true) :
    name ∈ (items.filter fun a => p (nameOf a)).map nameOf ↔ name ∈ items.map nameOf := by
  rw [List.mem_map, List.mem_map]
  constructor
  · rintro ⟨a, ha, rfl⟩
    exact ⟨a, List.mem_of_mem_filter ha, rfl⟩
  · rintro ⟨a, ha, rfl⟩
    exact ⟨a, List.mem_filter.2 ⟨ha, hname⟩, rfl⟩

section Registry

variable {r r' : Registry α} (h : r.Named nameOf) (h' : r'.Named nameOf)
  (hitems : r'.items.filter (fun a => p (nameOf a)) = r.items) {name : String}

include h h' hitems

/-- What is found is still found among further declarations. -/
theorem find?_of_filter_items {item : α} (hfound : r.find? name = some item) :
    r'.find? name = some item := by
  obtain ⟨hmem, hname⟩ := h.find?_eq_some_iff.1 hfound
  exact h'.find?_eq_some_iff.2 ⟨List.mem_of_mem_filter (hitems ▸ hmem), hname⟩

/-- A name that the further declarations do not have finds nothing else. -/
theorem find?_eq_of_filter_items (hname : p name = true) : r'.find? name = r.find? name := by
  refine Option.ext fun item => ⟨fun hfound => ?_, find?_of_filter_items h h' hitems⟩
  obtain ⟨hmem, rfl⟩ := h'.find?_eq_some_iff.1 hfound
  exact h.find?_eq_some_iff.2 ⟨hitems ▸ List.mem_filter.2 ⟨hmem, hname⟩, rfl⟩

end Registry

end Names

/-- A class is found under no name but those of the class nodes. -/
theorem Document.class?_ofNode_eq_none {root : Node} {name : String}
    (h : ∀ node ∈ DeclarationSort.classes.nodes root, node.filledAttr? "name" ≠ some name) :
    (ofNode root).1.class? name = none := by
  rw [Option.eq_none_iff_forall_ne_some]
  intro c hc
  obtain ⟨hmem, hname⟩ := (wellNamed_ofNode root).classes.find?_eq_some_iff.1 hc
  rw [items_ofNode] at hmem
  obtain ⟨node, hnode, hdecl⟩ := List.mem_filterMap.1 ((firstNamed_sublist _ _ _).subset hmem)
  have hfilled := map_name_class node
  rw [hdecl, Option.map_some, hname] at hfilled
  exact h node hnode hfilled.symm

/-- A tree with a further declaration among the children of its root, between some of them and the
others.  No other declaration has its name. -/
structure Addition where
  root : Node
  before : List Node
  after : List Node
  children_eq : root.children = before ++ after
  sort : DeclarationSort
  child : Node
  tag_eq : child.tag = sort.tag
  name : String
  name_eq : child.filledAttr? "name" = some name
  fresh : name ∉ Document.givenNames root

namespace Addition

open Document

variable (a : Addition)

def grown : Node := { a.root with children := a.before ++ a.child :: a.after }

def isOther (name : String) : Bool := name ≠ a.name

theorem isOther_iff {name : String} : a.isOther name = true ↔ name ≠ a.name := by simp [isOther]

/-! ### What stands in a tree and in its document -/

theorem filledAttr?_ne_of_mem {sort : DeclarationSort} {node : Node}
    (h : node ∈ sort.nodes a.root) : node.filledAttr? "name" ≠ some a.name := by
  intro hname
  refine a.fresh (List.mem_filterMap.2 ⟨node, List.mem_append.2 ?_, hname⟩)
  cases sort with
  | enums => exact Or.inl h
  | classes => exact Or.inr h

/-- The declarations of the tree are those with another name. -/
theorem filter_nodes_grown (sort : DeclarationSort) :
    (sort.nodes a.grown).filter (fun node => node.filledAttr? "name" ≠ some a.name)
      = sort.nodes a.root := by
  have hchildren : a.grown.children.filter (fun node => node.filledAttr? "name" ≠ some a.name)
      = a.root.children.filter fun node => node.filledAttr? "name" ≠ some a.name := by
    rw [grown, a.children_eq, List.filter_append, List.filter_append,
      List.filter_cons_of_neg (by simp [a.name_eq])]
  have hroot : (sort.nodes a.root).filter (fun node => node.filledAttr? "name" ≠ some a.name)
      = sort.nodes a.root :=
    List.filter_eq_self.2 fun node hnode => by simpa using a.filledAttr?_ne_of_mem hnode
  rw [← hroot, DeclarationSort.nodes, DeclarationSort.nodes, Node.childrenTagged,
    Node.childrenTagged, List.filter_comm, hchildren, List.filter_comm]

/-- What the nodes of a sort declare besides the name that is added. -/
theorem filter_declared {α : Type} {ofNode? : Node → Option α} {nameOf : α → String}
    (hname : ∀ node, (ofNode? node).map nameOf = node.filledAttr? "name") (sort : DeclarationSort) :
    ((sort.nodes a.grown).filterMap ofNode?).filter (fun item => a.isOther (nameOf item))
      = (sort.nodes a.root).filterMap ofNode? := by
  rw [← a.filter_nodes_grown, List.filterMap_filter, List.filter_filterMap]
  refine List.filterMap_congr fun node _ => ?_
  rw [← hname]
  cases ofNode? node with
  | none => simp
  | some item => by_cases h : nameOf item = a.name <;> simp [isOther, h]

theorem filter_declaredEnums :
    (declaredEnums a.grown).filter (fun e => a.isOther e.name) = declaredEnums a.root := by
  rw [declaredEnums, firstNamed_filter fun _ _ => Iff.rfl]
  exact congrArg _ (a.filter_declared map_name_enum .enums)

theorem filter_declaredClasses :
    (declaredClasses a.grown).filter (fun c => a.isOther c.name) = declaredClasses a.root := by
  have htaken : ∀ name, a.isOther name = true →
      (name ∈ (declaredEnums a.grown).map EnumDecl.name
        ↔ name ∈ (declaredEnums a.root).map EnumDecl.name) := by
    intro name hname
    rw [← a.filter_declaredEnums, mem_names_filter hname]
  rw [declaredClasses, firstNamed_filter htaken]
  exact congrArg _ (a.filter_declared map_name_class .classes)

theorem filter_enumItems : (ofNode a.grown).1.enums.items.filter (fun e => a.isOther e.name)
    = (ofNode a.root).1.enums.items := by
  rw [enumItems_ofNode, enumItems_ofNode, filter_declaredEnums]

theorem filter_classItems : (ofNode a.grown).1.classes.items.filter (fun c => a.isOther c.name)
    = (ofNode a.root).1.classes.items := by
  rw [items_ofNode, items_ofNode, filter_declaredClasses]

/-! ### Looking names up -/

theorem enum?_eq {name : String} (h : name ≠ a.name) :
    (ofNode a.grown).1.enum? name = (ofNode a.root).1.enum? name :=
  find?_eq_of_filter_items (wellNamed_ofNode a.root).enums (wellNamed_ofNode a.grown).enums
    a.filter_enumItems (a.isOther_iff.2 h)

theorem class?_eq {name : String} (h : name ≠ a.name) :
    (ofNode a.grown).1.class? name = (ofNode a.root).1.class? name :=
  find?_eq_of_filter_items (wellNamed_ofNode a.root).classes (wellNamed_ofNode a.grown).classes
    a.filter_classItems (a.isOther_iff.2 h)

theorem classNodes_grown (h : a.sort = .enums) :
    DeclarationSort.classes.nodes a.grown = DeclarationSort.classes.nodes a.root := by
  refine childrenTagged_insert rfl a.children_eq ?_
  rw [a.tag_eq, h]
  decide

/-- An enum changes nothing about classes, not even under its own name. -/
theorem class?_eq_of_enum (h : a.sort = .enums) (name : String) :
    (ofNode a.grown).1.class? name = (ofNode a.root).1.class? name := by
  by_cases hname : name = a.name
  · have hroot : ∀ node ∈ DeclarationSort.classes.nodes a.root,
        node.filledAttr? "name" ≠ some name := by
      intro node hnode
      rw [hname]
      exact a.filledAttr?_ne_of_mem hnode
    have hgrown : ∀ node ∈ DeclarationSort.classes.nodes a.grown,
        node.filledAttr? "name" ≠ some name := by
      rw [a.classNodes_grown h]
      exact hroot
    rw [class?_ofNode_eq_none hgrown, class?_ofNode_eq_none hroot]
  · exact a.class?_eq hname

/-! ### Resolution -/

theorem target?_eq {spec : TypeSpec} (h : spec.base ≠ a.name) :
    (ofNode a.grown).1.target? spec = (ofNode a.root).1.target? spec := by
  rw [target?, target?, a.class?_eq h, a.enum?_eq h]

theorem resolution?_eq {m : Member} (h : m.type.base ≠ a.name) (kind : ClassKind) :
    (ofNode a.grown).1.resolution? kind m = (ofNode a.root).1.resolution? kind m := by
  rw [resolution?, resolution?, a.target?_eq h]

theorem resolvedParent?_eq {c : ClassDecl} (h : ¬ (a.sort = .classes ∧ c.base = a.name)) :
    (ofNode a.grown).1.resolvedParent? c = (ofNode a.root).1.resolvedParent? c := by
  have hbase : (ofNode a.grown).1.class? c.base = (ofNode a.root).1.class? c.base := by
    cases hsort : a.sort with
    | enums => exact a.class?_eq_of_enum hsort c.base
    | classes => exact a.class?_eq fun hname => h ⟨hsort, hname⟩
  rw [resolvedParent?, resolvedParent?, hbase]

/-- A class of the tree and what became of it: it is declared as before, and its members are
resolved as before and it has the parent it had, but for what names the declaration that was
added. -/
structure Spares (c c' : ClassDecl) : Prop where
  bare_eq : c'.bare = c.bare
  resolution : List.Forall₂ (fun m m' => m'.resolution? ≠ m.resolution? → m.type.base = a.name)
    c.members c'.members
  parent : c'.parent? ≠ c.parent? → a.sort = .classes ∧ c.base = a.name

theorem spares_resolveClass (c : ClassDecl) :
    a.Spares ((ofNode a.root).1.resolveClass c) ((ofNode a.grown).1.resolveClass c) := by
  refine ⟨by rw [bare_resolveClass, bare_resolveClass], ?_, ?_⟩
  · refine List.forall₂_map_left_iff.2 (List.forall₂_map_right_iff.2 (List.forall₂_same.2 ?_))
    intro m _ hne
    by_contra hname
    exact hne (a.resolution?_eq hname c.kind)
  · intro hne
    by_contra hname
    exact hne (a.resolvedParent?_eq hname)

/-- **A declaration that is added affects only those who name it.**  The other declarations are
those that were there before, in the same order and found under the same names.  An enum stays as it
is.  The members of a class are resolved as before unless their base type is the declaration that is
added, and a class has the parent it had unless a class is added and that is its base. -/
theorem load_grown :
    (load a.grown).1.enums.items.filter (fun e => a.isOther e.name) = (load a.root).1.enums.items
    ∧ List.Forall₂ a.Spares (load a.root).1.classes.items
        ((load a.grown).1.classes.items.filter fun c => a.isOther c.name)
    ∧ (∀ name e, (load a.root).1.enum? name = some e → (load a.grown).1.enum? name = some e)
    ∧ ∀ name c, (load a.root).1.class? name = some c →
        ∃ c', (load a.grown).1.class? name = some c' ∧ a.Spares c c' := by
  refine ⟨a.filter_enumItems, ?_, ?_, ?_⟩
  · rw [items_load, items_load, List.filter_map]
    show List.Forall₂ a.Spares _
      (((ofNode a.grown).1.classes.items.filter fun c => a.isOther c.name).map _)
    rw [filter_classItems]
    exact List.forall₂_map_left_iff.2 (List.forall₂_map_right_iff.2
      (List.forall₂_same.2 fun c _ => a.spares_resolveClass c))
  · intro name e he
    exact find?_of_filter_items (wellNamed_ofNode a.root).enums (wellNamed_ofNode a.grown).enums
      a.filter_enumItems he
  · intro name c hc
    have hroot : (load a.root).1.class? name = _ := class?_resolve (ofNode a.root).1 name
    have hgrown : (load a.grown).1.class? name = _ := class?_resolve (ofNode a.grown).1 name
    rw [hroot, Option.map_eq_some_iff] at hc
    obtain ⟨d, hd, rfl⟩ := hc
    have hd' : (ofNode a.grown).1.class? name = some d :=
      find?_of_filter_items (wellNamed_ofNode a.root).classes (wellNamed_ofNode a.grown).classes
        a.filter_classItems hd
    rw [hgrown, hd', Option.map_some]
    exact ⟨_, rfl, a.spares_resolveClass d⟩

/-- A keeper is a person, has a person as boss and looks after an animal.  Persons were not declared,
and their class is added in front of everything else. -/
def personAddition : Addition where
  root :=
    ⟨"Schema", [],
      [⟨"Enum", [("name", "Animal")], [⟨"Value", [("name", "Lion")], []⟩]⟩,
        ⟨"Class", [("name", "Keeper"), ("base", "Person")],
          [⟨"Data", [("name", "boss"), ("type", "reference:Person")], []⟩,
            ⟨"Data", [("name", "animal"), ("type", "Animal")], []⟩]⟩]⟩
  before := []
  after :=
    [⟨"Enum", [("name", "Animal")], [⟨"Value", [("name", "Lion")], []⟩]⟩,
      ⟨"Class", [("name", "Keeper"), ("base", "Person")],
        [⟨"Data", [("name", "boss"), ("type", "reference:Person")], []⟩,
          ⟨"Data", [("name", "animal"), ("type", "Animal")], []⟩]⟩]
  children_eq := rfl
  sort := .classes
  child := ⟨"Class", [("name", "Person")], []⟩
  tag_eq := rfl
  name := "Person"
  name_eq := by decide
  fresh := by decide

/-- The keeper has a parent now and a boss, and the animal is the one it was. -/
theorem load_grown_personAddition :
    ((load personAddition.root).1.class? "Keeper").map (fun c =>
        (c.parent?, c.members.map fun m => m.resolution?.isSome)) = some (none, [false, true])
    ∧ ((load personAddition.grown).1.class? "Keeper").map (fun c =>
        (c.parent?, c.members.map fun m => m.resolution?.isSome))
      = some (some "Person", [true, true])
    ∧ (∃ c c', (load personAddition.root).1.class? "Keeper" = some c
        ∧ (load personAddition.grown).1.class? "Keeper" = some c' ∧ personAddition.Spares c c')
    ∧ (load personAddition.grown).1.enum? "Animal" = some ⟨"Animal", "Animal", ["Lion"]⟩ := by
  obtain ⟨-, -, henums, hclasses⟩ := personAddition.load_grown
  have hkeeper : ((load personAddition.root).1.class? "Keeper").isSome = true := by decide +kernel
  obtain ⟨c, hc⟩ := Option.isSome_iff_exists.1 hkeeper
  obtain ⟨c', hc', hspares⟩ := hclasses "Keeper" c hc
  exact ⟨by decide +kernel, by decide +kernel, ⟨c, c', hc, hc', hspares⟩,
    henums "Animal" _ (by decide +kernel)⟩

end Addition

end SchemaBinding.Schema
