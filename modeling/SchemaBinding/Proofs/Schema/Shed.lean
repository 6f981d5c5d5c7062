import SchemaBinding.Proofs.Schema.Names

/-!
# Trees without bad declarations

`shed` takes from a tree what costs a declaration: enums and classes without a name or with a name
that is taken, values without a name, methods without a declaration, and data whose member does not
take part in generated code.

* `filterMap_shedFrom`: what is left of the declarations of one sort are those whose name is new.
* `enums_shed`: the enums of a tree are left as they are.
* `classes_shed`: the classes of a tree are left without the members that are not emitted.
* `nodup_givenNames_shed`: no name is given twice in what is left.
-/

namespace SchemaBinding.Schema

/-! ### Shedding -/

def declares (tag name : String) (node : Node) : Bool :=
  node.tag = tag && node.filledAttr? "name" = some name

/-- An enum without the values that have no name. -/
def shedEnum (node : Node) : Node :=
  { node with
    children := node.children.filter fun child =>
      !(child.tag = "Value" && child.filledAttr? "name" = none) }

/-- The children of a class without the methods whose declaration is absent or blank, and without
the data whose member is not emitted.  `members` are the members of the data, in order. -/
def shedBody : List Member → List Node → List Node
  | _, [] => []
  | members, child :: rest =>
    if child.tag = "Data" then
      (if (members.head?.bind Member.emitted?).isSome then [child] else [])
        ++ shedBody members.tail rest
    else if child.tag = "Method" ∧ Text.trim (textOf child "declaration") = "" then
      shedBody members rest
    else child :: shedBody members rest

def shedClass (doc : Document) (node : Node) : Node :=
  let decl? := (node.filledAttr? "name").bind doc.class?
  { node with children := shedBody ((decl?.map ClassDecl.members).getD []) node.children }

/-- What is left of a child of a root, if anything is.  `all` are all children of the root and
`before` are those before this one. -/
def shedChild (doc : Document) (all before : List Node) (child : Node) : Option Node :=
  if child.tag = "Enum" then
    (child.filledAttr? "name").bind fun name =>
      if before.any (declares "Enum" name) then none else some (shedEnum child)
  else if child.tag = "Class" then
    (child.filledAttr? "name").bind fun name =>
      if all.any (declares "Enum" name) || before.any (declares "Class" name) then none
      else some (shedClass doc child)
  else some child

/-- What is left of children, where `keep` says it for one of them, given those before it. -/
def shedFrom (keep : List Node → Node → Option Node) : List Node → List Node → List Node
  | _, [] => []
  | before, child :: rest => (keep before child).toList ++ shedFrom keep (before ++ [child]) rest

def shed (root : Node) : Node :=
  { root with
    children := shedFrom (shedChild (Document.load root).1 root.children) [] root.children }

/-! ### What is left of declarations of one sort -/

section First

variable {α : Type} {keep : List Node → Node → Option Node} {read : Node → Option α}
  {nameOf : α → String} {fixed : List String} {trim : Node → Node} {change : α → α} {kept : List α}

/-- **What is left declares what has a new name.**  `read` is what a node declares, and a node that
declares something is trimmed if its name is not fixed and no node before declares the name. -/
theorem filterMap_shedFrom
    (hkeep : ∀ before child, (keep before child).bind read
      = (read child).bind fun a =>
          if nameOf a ∈ fixed ∨ nameOf a ∈ (before.filterMap read).map nameOf then none
          else read (trim child))
    (hchange : ∀ child, ∀ a ∈ read child, a ∈ kept → read (trim child) = some (change a))
    (rest : List Node) {before : List Node} {taken : List String}
    (htaken : ∀ name, name ∈ taken ↔ name ∈ fixed ∨ name ∈ (before.filterMap read).map nameOf)
    (hkept : ∀ a ∈ firstNamed nameOf taken (rest.filterMap read), a ∈ kept) :
    (shedFrom keep before rest).filterMap read
      = (firstNamed nameOf taken (rest.filterMap read)).map change := by
  induction rest generalizing before taken with
  | nil => rfl
  | cons child rest ih =>
    have hleft : (keep before child).toList.filterMap read
        = ((keep before child).bind read).toList := by
      cases keep before child with
      | none => rfl
      | some left => cases h : read left <;> simp [h]
    rw [shedFrom, List.filterMap_append, hleft, hkeep]
    cases hr : read child with
    | none =>
      rw [List.filterMap_cons_none hr] at hkept ⊢
      refine ih (fun name => ?_) hkept
      rw [htaken, List.filterMap_append, List.filterMap_cons_none hr, List.filterMap_nil,
        List.append_nil]
    | some a =>
      rw [List.filterMap_cons_some hr, firstNamed] at hkept ⊢
      have hbefore : ∀ name, name ∈ ((before ++ [child]).filterMap read).map nameOf
          ↔ name ∈ (before.filterMap read).map nameOf ∨ name = nameOf a := by
        intro name
        rw [List.filterMap_append, List.filterMap_cons_some hr, List.filterMap_nil, List.map_append,
          List.mem_append, List.map_singleton, List.mem_singleton]
      rw [Option.bind_some]
      -- a name that is taken costs the node; a new one is taken from here on
      by_cases hm : nameOf a ∈ taken
      · rw [if_pos hm] at hkept ⊢
        rw [if_pos ((htaken _).1 hm)]
        refine ih (fun name => ?_) hkept
        rw [hbefore, ← or_assoc, ← htaken]
        exact ⟨Or.inl, fun h => h.elim id fun hname => hname ▸ hm⟩
      · rw [if_neg hm] at hkept ⊢
        rw [if_neg (mt (htaken _).2 hm), hchange child a hr (hkept a List.mem_cons_self),
          List.map_cons]
        refine congrArg (change a :: ·) (ih (fun name => ?_) fun b hb =>
          hkept b (List.mem_cons_of_mem _ hb))
        rw [List.mem_cons, hbefore, ← or_assoc, ← htaken, or_comm]

end First

/-! ### Declarations that are trimmed -/

variable {α : Type}

def tagged (tag : String) (ofNode? : Node → Option α) (node : Node) : Option α :=
  if node.tag = tag then ofNode? node else none

theorem filterMap_childrenTagged (tag : String) (ofNode? : Node → Option α) (node : Node) :
    (node.childrenTagged tag).filterMap ofNode? = node.children.filterMap (tagged tag ofNode?) := by
  rw [Node.childrenTagged, List.filterMap_filter]
  simp only [tagged, decide_eq_true_eq]
  rfl

theorem any_declares_iff {tag name : String} {ofNode? : Node → Option α} {nameOf : α → String}
    (hname : ∀ node, (ofNode? node).map nameOf = node.filledAttr? "name") {nodes : List Node} :
    nodes.any (declares tag name) = true
      ↔ name ∈ (nodes.filterMap (tagged tag ofNode?)).map nameOf := by
  refine any_iff_mem_names fun node => ?_
  rw [declares, Bool.and_eq_true, decide_eq_true_iff, decide_eq_true_iff, tagged, ← hname]
  split
  · next htag => exact and_iff_right htag
  · next htag => exact iff_of_false (fun h => htag h.1) nofun

theorem ofNode?_shedEnum (node : Node) :
    EnumDecl.ofNode? (shedEnum node) = EnumDecl.ofNode? node := by
  have hvalues : enumValues (shedEnum node) = enumValues node := by
    rw [enumValues, enumValues, filterMap_childrenTagged, filterMap_childrenTagged, shedEnum,
      List.filterMap_filter]
    congr 1
    funext child
    by_cases ht : child.tag = "Value" <;> cases hn : child.filledAttr? "name" <;>
      simp [tagged, ht, hn]
  rw [EnumDecl.ofNode?, EnumDecl.ofNode?, hvalues]
  rfl

/-- What is left of the data of a class, where `memberOf` says which member a node stands for. -/
theorem data_shedBody (memberOf : Node → Member) (children : List Node) :
    (shedBody ((children.filter (·.tag = "Data")).map memberOf) children).filter (·.tag = "Data")
      = (children.filter (·.tag = "Data")).filter fun node => (memberOf node).emitted?.isSome := by
  induction children with
  | nil => rfl
  | cons child rest ih =>
    unfold shedBody
    by_cases ht : child.tag = "Data"
    · rw [if_pos ht, List.filter_cons_of_pos (by simpa using ht), List.map_cons, List.head?_cons,
        List.tail_cons, Option.bind_some, List.filter_append, ih]
      by_cases he : (memberOf child).emitted?.isSome <;> simp [he, ht]
    · rw [if_neg ht, List.filter_cons_of_neg (by simpa using ht)]
      split
      · exact ih
      · rw [List.filter_cons_of_neg (by simpa using ht)]
        exact ih

theorem methodOf?_eq_none_iff {node : Node} :
    methodOf? node = none ↔ Text.trim (textOf node "declaration") = "" := by
  rw [methodOf?, textOf]
  cases node.attr? "declaration" with
  | none => exact iff_of_true rfl (by decide)
  | some declaration => simp

theorem methods_shedBody (members : List Member) (children : List Node) :
    (shedBody members children).filterMap (tagged "Method" methodOf?)
      = children.filterMap (tagged "Method" methodOf?) := by
  induction children generalizing members with
  | nil => rfl
  | cons child rest ih =>
    unfold shedBody
    split
    · next ht =>
      have hnone : tagged "Method" methodOf? child = none := by simp [tagged, ht]
      rw [List.filterMap_append, List.filterMap_cons_none hnone, ih]
      split <;> simp [hnone]
    · split
      · next hm =>
        rw [List.filterMap_cons_none (by simp [tagged, methodOf?_eq_none_iff.2 hm.2]), ih]
      · rw [List.filterMap_cons, List.filterMap_cons, ih]

/-- Whether a member of a class of this kind takes part in generated code. -/
def Document.emits (doc : Document) (kind : ClassKind) (m : Member) : Bool :=
  (Member.emitted? { m with resolution? := doc.resolution? kind m }).isSome

/-- A class without the members that do not take part in generated code. -/
def Document.pruneClass (doc : Document) (c : ClassDecl) : ClassDecl :=
  { c with members := c.members.filter (doc.emits c.kind) }

theorem ofNode?_shedClass {doc : Document} {node : Node} {c : ClassDecl}
    (hc : ClassDecl.ofNode? node = some c) (hfound : doc.class? c.name = some c) :
    ClassDecl.ofNode? (shedClass doc.resolve.1 node) = some (doc.pruneClass c) := by
  obtain ⟨name, hname, rfl⟩ := Option.map_eq_some_iff.1 hc
  have hmethods : ((shedClass doc.resolve.1 node).childrenTagged "Method").filterMap methodOf?
      = (node.childrenTagged "Method").filterMap methodOf? := by
    rw [filterMap_childrenTagged, filterMap_childrenTagged]
    exact methods_shedBody _ _
  have hdata : (shedClass doc.resolve.1 node).childrenTagged "Data"
      = (node.childrenTagged "Data").filter fun child =>
          doc.emits (kindOf node) (Member.ofNode child) := by
    rw [shedClass, hname, Option.bind_some, Document.class?_resolve, hfound, Option.map_some,
      Option.map_some, Option.getD_some]
    simp only [Document.resolveClass, List.map_map]
    exact data_shedBody _ node.children
  have hleft : (shedClass doc.resolve.1 node).filledAttr? "name" = some name := hname
  rw [ClassDecl.ofNode?, hleft, Option.map_some, hmethods, hdata, Document.pruneClass,
    List.filter_map]
  rfl

/-! ### What a tree declares that has been shed -/

section Child

variable {doc : Document} {all before : List Node} {child : Node}

/-- What can be left of a child. -/
theorem shedChild_cases {left : Node} (h : shedChild doc all before child = some left) :
    (child.tag = "Enum" ∧ child.filledAttr? "name" ≠ none ∧ left = shedEnum child)
    ∨ (child.tag = "Class" ∧ child.filledAttr? "name" ≠ none ∧ left = shedClass doc child)
    ∨ child.tag ≠ "Enum" ∧ child.tag ≠ "Class" ∧ left = child := by
  unfold shedChild at h
  split at h
  · next ht =>
    obtain ⟨name, hname, h⟩ := Option.bind_eq_some_iff.1 h
    split at h
    · cases h
    · exact Or.inl ⟨ht, by simp [hname], (Option.some.inj h).symm⟩
  · next hne =>
    split at h
    · next ht =>
      obtain ⟨name, hname, h⟩ := Option.bind_eq_some_iff.1 h
      split at h
      · cases h
      · exact Or.inr (Or.inl ⟨ht, by simp [hname], (Option.some.inj h).symm⟩)
    · next ht => exact Or.inr (Or.inr ⟨hne, ht, (Option.some.inj h).symm⟩)

theorem tag_of_mem_shedChild {left : Node} (h : shedChild doc all before child = some left) :
    left.tag = child.tag := by
  rcases shedChild_cases h with ⟨-, -, rfl⟩ | ⟨-, -, rfl⟩ | ⟨-, -, rfl⟩ <;> rfl

theorem bind_tagged_shedChild_of_ne {tag : String} (ofNode? : Node → Option α)
    (h : child.tag ≠ tag) : (shedChild doc all before child).bind (tagged tag ofNode?) = none := by
  rw [Option.bind_eq_none_iff]
  intro left hleft
  rw [tagged, if_neg]
  rwa [tag_of_mem_shedChild hleft]

theorem enum_shedChild (doc : Document) (all before : List Node) (child : Node) :
    (shedChild doc all before child).bind (tagged "Enum" EnumDecl.ofNode?)
      = (tagged "Enum" EnumDecl.ofNode? child).bind fun e =>
          if e.name ∈ [] ∨ e.name ∈ (before.filterMap (tagged "Enum" EnumDecl.ofNode?)).map
              EnumDecl.name then none
          else tagged "Enum" EnumDecl.ofNode? (shedEnum child) := by
  by_cases ht : child.tag = "Enum"
  · rw [shedChild, if_pos ht, ← map_name_enum, tagged, if_pos ht]
    cases EnumDecl.ofNode? child with
    | none => rfl
    | some e =>
      rw [Option.map_some, Option.bind_some, Option.bind_some]
      by_cases hm : before.any (declares "Enum" e.name) = true
      · rw [if_pos hm, if_pos (Or.inr ((any_declares_iff map_name_enum).1 hm))]
        rfl
      · have hnew := mt (any_declares_iff map_name_enum).2 hm
        rw [if_neg hm, if_neg (by simpa using hnew)]
        rfl
  · rw [bind_tagged_shedChild_of_ne _ ht, tagged, if_neg ht]
    rfl

theorem class_shedChild (doc : Document) (all before : List Node) (child : Node) :
    (shedChild doc all before child).bind (tagged "Class" ClassDecl.ofNode?)
      = (tagged "Class" ClassDecl.ofNode? child).bind fun c =>
          if c.name ∈ (all.filterMap (tagged "Enum" EnumDecl.ofNode?)).map EnumDecl.name
            ∨ c.name ∈ (before.filterMap (tagged "Class" ClassDecl.ofNode?)).map ClassDecl.name
          then none
          else tagged "Class" ClassDecl.ofNode? (shedClass doc child) := by
  by_cases ht : child.tag = "Class"
  · have hne : ¬ child.tag = "Enum" := by
      rw [ht]
      decide
    rw [shedChild, if_neg hne, if_pos ht, ← map_name_class, tagged, if_pos ht]
    cases ClassDecl.ofNode? child with
    | none => rfl
    | some c =>
      rw [Option.map_some, Option.bind_some, Option.bind_some]
      have hiff : (all.any (declares "Enum" c.name) || before.any (declares "Class" c.name)) = true
          ↔ c.name ∈ (all.filterMap (tagged "Enum" EnumDecl.ofNode?)).map EnumDecl.name
            ∨ c.name ∈ (before.filterMap (tagged "Class" ClassDecl.ofNode?)).map
              ClassDecl.name := by
        rw [Bool.or_eq_true, any_declares_iff map_name_enum, any_declares_iff map_name_class]
      by_cases hm : (all.any (declares "Enum" c.name)
          || before.any (declares "Class" c.name)) = true
      · rw [if_pos hm, if_pos (hiff.1 hm)]
        rfl
      · rw [if_neg hm, if_neg (mt hiff.2 hm)]
        rfl
  · rw [bind_tagged_shedChild_of_ne _ ht, tagged, if_neg ht]
    rfl

end Child

namespace Document

def mapClasses (doc : Document) (change : ClassDecl → ClassDecl) : Document :=
  { doc with classes := doc.classes.map change }

/-- A document without the members that do not take part in generated code. -/
def prune (doc : Document) : Document := doc.mapClasses doc.pruneClass

theorem enums_shed (root : Node) :
    ((shed root).childrenTagged "Enum").filterMap EnumDecl.ofNode? = declaredEnums root := by
  rw [declaredEnums, filterMap_childrenTagged, filterMap_childrenTagged]
  have hchange : ∀ child, ∀ e ∈ tagged "Enum" EnumDecl.ofNode? child,
      e ∈ firstNamed EnumDecl.name [] (root.children.filterMap (tagged "Enum" EnumDecl.ofNode?)) →
      tagged "Enum" EnumDecl.ofNode? (shedEnum child) = some (id e) := by
    intro child e he _
    rw [tagged, ofNode?_shedEnum]
    exact he
  refine (filterMap_shedFrom (enum_shedChild (load root).1 root.children) hchange root.children
    (fun name => ?_) fun _ he => he).trans (List.map_id _)
  simp

theorem mem_names_declaredEnums {root : Node} {name : String} :
    name ∈ (declaredEnums root).map EnumDecl.name
      ↔ name ∈ (root.children.filterMap (tagged "Enum" EnumDecl.ofNode?)).map EnumDecl.name := by
  rw [declaredEnums, mem_names_firstNamed, filterMap_childrenTagged]
  simp

theorem class?_ofNode_of_mem {root : Node} {c : ClassDecl} (hc : c ∈ declaredClasses root) :
    (ofNode root).1.class? c.name = some c := by
  refine (wellNamed_ofNode root).classes.find?_of_mem ?_
  rwa [items_ofNode]

theorem classes_shed (root : Node) :
    ((shed root).childrenTagged "Class").filterMap ClassDecl.ofNode?
      = (declaredClasses root).map (ofNode root).1.pruneClass := by
  rw [declaredClasses, filterMap_childrenTagged, filterMap_childrenTagged]
  have hchange : ∀ child, ∀ c ∈ tagged "Class" ClassDecl.ofNode? child,
      c ∈ declaredClasses root →
      tagged "Class" ClassDecl.ofNode? (shedClass (load root).1 child)
        = some ((ofNode root).1.pruneClass c) := by
    intro child c hc hmem
    rw [Option.mem_def, tagged] at hc
    split at hc
    · next ht =>
      exact (if_pos ht).trans (ofNode?_shedClass hc (class?_ofNode_of_mem hmem))
    · cases hc
  refine filterMap_shedFrom (class_shedChild (load root).1 root.children) hchange root.children
    (fun name => ?_) fun c hc => ?_
  · rw [mem_names_declaredEnums]
    simp
  · rwa [declaredClasses, filterMap_childrenTagged]

theorem map_name_pruneClass (doc : Document) (cs : List ClassDecl) :
    (cs.map doc.pruneClass).map ClassDecl.name = cs.map ClassDecl.name := by
  rw [List.map_map]
  rfl

/-- No name is given twice in a tree that has been shed. -/
theorem nodup_givenNames_shed (root : Node) : (givenNames (shed root)).Nodup := by
  rw [givenNames_eq, enums_shed, classes_shed, map_name_pruneClass, List.nodup_append]
  refine ⟨nodup_names_firstNamed _ _ _, nodup_names_firstNamed _ _ _, fun a ha b hb => ?_⟩
  rintro rfl
  exact (mem_names_firstNamed.1 hb).2 ha

/-- **A tree that has been shed has the document without the members that are not emitted.** -/
theorem fst_ofNode_shed (root : Node) : (ofNode (shed root)).1 = (ofNode root).1.prune := by
  have hnodup := nodup_givenNames_shed root
  have hspace : textOf (shed root) "namespace" = textOf root "namespace" := rfl
  rw [fst_ofNode, declaredEnums_of_nodup hnodup, declaredClasses_of_nodup hnodup, enums_shed,
    classes_shed, hspace, prune, mapClasses, fst_ofNode root]
  simp only [Registry.map, Registry.ofItems, map_name_pruneClass]

end Document

end SchemaBinding.Schema
