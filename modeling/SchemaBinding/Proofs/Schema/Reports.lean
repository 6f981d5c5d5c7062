import SchemaBinding.Schema.Resolve

/-!
# What reports say

Each of the functions that report what is wrong with a declaration says one of a few things.  The
lemmas here say which, each with the condition under which it is said.

* `mem_enumReports_iff`, `mem_memberReports_iff`, `mem_methodReports_iff`, `mem_classReports_iff`:
  the reports on single declarations.
* `filter_flatten_mapIdx`: what is reported on one item of a list.
* `mapPlace_enumReports`, `mapPlace_classReports`, `mapPlace_baseReports`: a declaration that stands
  elsewhere is reported on elsewhere, and otherwise alike.
* `snd_declareAll`: a list of nodes is reported on node by node, each with the document that the
  nodes before it leave.
* `problem_of_mem_ofNode`: what may be wrong with the declarations of a tree.
* `location_of_mem_declareEnum`, `location_of_mem_declareClass`: where it is said to be.
* `mem_baseReports_iff`, `mem_typeReports_iff`, `mem_resolveReports_iff`: the reports on what the
  declarations name.
-/

namespace SchemaBinding

/-- A location with the place of the declaration changed, if it is at a declaration. -/
def Location.mapPlace (f : Nat → Nat) : Location → Location
  | enumeration index name => enumeration (f index) name
  | classAt index name => classAt (f index) name
  | location => location

/-- A diagnostic with the place of the declaration changed, if it is at a declaration. -/
def Diagnostic.mapPlace (f : Nat → Nat) (d : Diagnostic) : Diagnostic :=
  { d with location := d.location.mapPlace f }

namespace Schema

variable {d : Diagnostic} {index : Nat} {node : Node} {owner : String} {location : Location}

theorem mem_enumReports_iff :
    d ∈ enumReports index node
      ↔ (EnumDecl.ofNode? node = none
          ∧ d = .error (.missingAttribute "Enum" "name") (.enumeration index ""))
        ∨ ∃ e, EnumDecl.ofNode? node = some e ∧ e.values = []
          ∧ d = .warning (.emptyEnum e.name) (.enumeration index e.name) := by
  unfold enumReports
  cases EnumDecl.ofNode? node with
  | none => simp
  | some e => by_cases h : e.values = [] <;> simp [h]

theorem mem_memberReports_iff :
    d ∈ memberReports owner index node
      ↔ ((Member.ofNode node).name = ""
          ∧ d = .error (.missingAttribute "Data" "name")
            (.member owner index (Member.ofNode node).name))
        ∨ (Member.ofNode node).type.base = ""
          ∧ d = .error (.missingAttribute "Data" "type")
            (.member owner index (Member.ofNode node).name) := by
  unfold memberReports
  by_cases hn : (Member.ofNode node).name = "" <;>
    by_cases hb : (Member.ofNode node).type.base = "" <;> simp [hn, hb]

theorem mem_methodReports_iff :
    d ∈ methodReports owner index node
      ↔ methodOf? node = none
        ∧ d = .warning (.missingAttribute "Method" "declaration") (.method owner index) := by
  unfold methodReports
  cases methodOf? node <;> simp

theorem mem_kindReports_iff :
    d ∈ kindReports location node
      ↔ ∃ word, node.filledAttr? "type" = some word ∧ ClassKind.ofKeyword? word = none
        ∧ d = .error (.invalidAttribute "Class" "type" word) location := by
  unfold kindReports
  cases node.filledAttr? "type" with
  | none => simp
  | some word => cases h : ClassKind.ofKeyword? word <;> simp [h]

theorem mem_abstractReports_iff :
    d ∈ abstractReports location node
      ↔ ∃ text, node.attr? "abstract" = some text ∧ flagOf? text = none
        ∧ d = .warning (.invalidAttribute "Class" "abstract" text) location := by
  unfold abstractReports
  cases node.attr? "abstract" with
  | none => simp
  | some text => cases h : flagOf? text <;> simp [h]

theorem mem_flatten_mapIdx_iff {α : Type} {reports : Nat → α → List Diagnostic} {items : List α} :
    d ∈ (items.mapIdx reports).flatten ↔ ∃ j a, items[j]? = some a ∧ d ∈ reports j a := by
  simp only [List.mem_flatten, List.mem_mapIdx]
  constructor
  · rintro ⟨_, ⟨j, hj, rfl⟩, hd⟩
    exact ⟨j, items[j], List.getElem?_eq_getElem hj, hd⟩
  · rintro ⟨j, a, ha, hd⟩
    obtain ⟨hj, rfl⟩ := List.getElem?_eq_some_iff.1 ha
    exact ⟨_, ⟨j, hj, rfl⟩, hd⟩

/-- Of what is reported on a list, only the reports on one item are looked for. -/
theorem filter_flatten_mapIdx {α : Type} {p : Diagnostic → Bool}
    {reports : Nat → α → List Diagnostic} {items : List α} {i : Nat} {a : α} (ha : items[i]? = some a)
    (hother : ∀ j b, items[j]? = some b → j ≠ i → ∀ d ∈ reports j b, p d = false) :
    (items.mapIdx reports).flatten.filter p = (reports i a).filter p := by
  have hnone : ∀ (rest : List α) (others : Nat → α → List Diagnostic),
      (∀ j b, rest[j]? = some b → ∀ d ∈ others j b, p d = false) →
      (rest.mapIdx others).flatten.filter p = [] := by
    intro rest others h
    rw [List.filter_eq_nil_iff]
    intro d hd
    obtain ⟨j, b, hb, hd⟩ := mem_flatten_mapIdx_iff.1 hd
    rw [h j b hb d hd]
    exact Bool.false_ne_true
  induction items generalizing i reports with
  | nil => cases ha
  | cons b rest ih =>
    rw [List.mapIdx_cons, List.flatten_cons, List.filter_append]
    cases i with
    | zero =>
      obtain rfl : b = a := Option.some.inj ha
      rw [hnone, List.append_nil]
      intro j d hd
      exact hother (j + 1) d hd (Nat.succ_ne_zero j)
    | succ i =>
      have hfirst : (reports 0 b).filter p = [] := by
        rw [List.filter_eq_nil_iff]
        intro d hd
        rw [hother 0 b rfl (Nat.succ_ne_zero i).symm d hd]
        exact Bool.false_ne_true
      rw [hfirst, List.nil_append]
      refine ih ha ?_
      intro j c hc hne
      exact hother (j + 1) c hc (by omega)

theorem mem_classReports_iff :
    d ∈ classReports index node
      ↔ (node.filledAttr? "name" = none
          ∧ d = .error (.missingAttribute "Class" "name") (.classAt index ""))
        ∨ ∃ name, node.filledAttr? "name" = some name
          ∧ (d ∈ kindReports (.classAt index name) node
            ∨ d ∈ abstractReports (.classAt index name) node
            ∨ (∃ j child, (node.childrenTagged "Method")[j]? = some child
                ∧ d ∈ methodReports name j child)
            ∨ ∃ j child, (node.childrenTagged "Data")[j]? = some child
                ∧ d ∈ memberReports name j child) := by
  unfold classReports
  cases node.filledAttr? "name" with
  | none => simp
  | some name =>
    simp only [List.mem_append, mem_flatten_mapIdx_iff, or_assoc, reduceCtorEq, false_and, false_or,
      Option.some.injEq, exists_eq_left']

/-! ### Places of declarations -/

section Place

variable (f : Nat → Nat)

theorem mapPlace_enumReports (index : Nat) (node : Node) :
    (enumReports index node).map (·.mapPlace f) = enumReports (f index) node := by
  unfold enumReports
  cases EnumDecl.ofNode? node with
  | none => rfl
  | some e =>
    dsimp only
    split <;> rfl

theorem mapPlace_kindReports (location : Location) (node : Node) :
    (kindReports location node).map (·.mapPlace f) = kindReports (location.mapPlace f) node := by
  unfold kindReports
  cases node.filledAttr? "type" with
  | none => rfl
  | some word =>
    dsimp only
    cases ClassKind.ofKeyword? word <;> rfl

theorem mapPlace_abstractReports (location : Location) (node : Node) :
    (abstractReports location node).map (·.mapPlace f)
      = abstractReports (location.mapPlace f) node := by
  unfold abstractReports
  cases node.attr? "abstract" with
  | none => rfl
  | some text =>
    dsimp only
    cases flagOf? text <;> rfl

/-- What is located inside a declaration keeps its location. -/
theorem mapPlace_flatten {reports : Nat → Node → List Diagnostic}
    (h : ∀ index node, ∀ d ∈ reports index node, d.mapPlace f = d) (nodes : List Node) :
    (nodes.mapIdx reports).flatten.map (·.mapPlace f) = (nodes.mapIdx reports).flatten := by
  refine (List.map_congr_left fun d hd => ?_).trans (List.map_id _)
  obtain ⟨index, node, -, hd⟩ := mem_flatten_mapIdx_iff.1 hd
  exact h index node d hd

theorem mapPlace_classReports (index : Nat) (node : Node) :
    (classReports index node).map (·.mapPlace f) = classReports (f index) node := by
  unfold classReports
  cases node.filledAttr? "name" with
  | none => rfl
  | some name =>
    have hmethods : ∀ j child, ∀ d ∈ methodReports name j child, d.mapPlace f = d := by
      intro j child d hd
      obtain ⟨-, rfl⟩ := mem_methodReports_iff.1 hd
      rfl
    have hmembers : ∀ j child, ∀ d ∈ memberReports name j child, d.mapPlace f = d := by
      intro j child d hd
      rcases mem_memberReports_iff.1 hd with ⟨-, rfl⟩ | ⟨-, rfl⟩ <;> rfl
    simp only [List.map_append, mapPlace_kindReports, mapPlace_abstractReports,
      mapPlace_flatten f hmethods, mapPlace_flatten f hmembers]
    rfl

theorem mapPlace_baseReports (doc : Document) (index : Nat) (c : ClassDecl) :
    (doc.baseReports index c).map (·.mapPlace f) = doc.baseReports (f index) c := by
  unfold Document.baseReports
  by_cases hbase : c.base = ""
  · simp only [hbase, if_true, List.map_nil]
  · simp only [hbase, if_false]
    cases doc.class? c.base with
    | none => rfl
    | some base =>
      dsimp only
      split <;> rfl

end Place

namespace Document

variable {doc : Document}

theorem mem_declareEnum_iff :
    d ∈ (doc.declareEnum index node).2
      ↔ d ∈ enumReports index node
        ∨ ∃ e, EnumDecl.ofNode? node = some e ∧ doc.hasTypeName e.name = true
          ∧ d = .error (.duplicateType e.name) (.enumeration index e.name) := by
  unfold declareEnum
  cases EnumDecl.ofNode? node with
  | none => simp
  | some e => by_cases h : doc.hasTypeName e.name = true <;> simp [addEnum?, h]

theorem mem_declareClass_iff :
    d ∈ (doc.declareClass index node).2
      ↔ d ∈ classReports index node
        ∨ ∃ c, ClassDecl.ofNode? node = some c ∧ doc.hasTypeName c.name = true
          ∧ d = .error (.duplicateType c.name) (.classAt index c.name) := by
  unfold declareClass
  cases ClassDecl.ofNode? node with
  | none => simp
  | some c => by_cases h : doc.hasTypeName c.name = true <;> simp [addClass?, h]

/-- What is reported on nodes is what is reported on each of them, with the document that the nodes
before it leave. -/
theorem snd_declareAll (declare : Document → Nat → Node → Document × List Diagnostic)
    (nodes : List Node) (index : Nat) (doc : Document) :
    (declareAll declare index doc nodes).2
      = (nodes.mapIdx fun j node =>
          (declare (declareAll declare index doc (nodes.take j)).1 (index + j) node).2).flatten := by
  induction nodes generalizing index doc with
  | nil => rfl
  | cons node rest ih =>
    have hplace : ∀ j, index + 1 + j = index + (j + 1) := fun j => by omega
    rw [declareAll, ih, List.mapIdx_cons, List.flatten_cons]
    simp only [hplace]
    rfl

/-- A report on nodes is one on a node among them. -/
theorem exists_of_mem_declareAll {declare : Document → Nat → Node → Document × List Diagnostic}
    {nodes : List Node} (hd : d ∈ (declareAll declare index doc nodes).2) :
    ∃ j node, nodes[j]? = some node
      ∧ d ∈ (declare (declareAll declare index doc (nodes.take j)).1 (index + j) node).2 := by
  rw [snd_declareAll] at hd
  exact mem_flatten_mapIdx_iff.1 hd

/-- **What reading a tree may find wrong.** -/
theorem problem_of_mem_ofNode {root : Node} {d : Diagnostic} (hd : d ∈ (ofNode root).2) :
    (∃ element key, d.problem = .missingAttribute element key)
    ∨ (∃ key value, (key = "type" ∨ key = "abstract")
      ∧ d.problem = .invalidAttribute "Class" key value)
    ∨ (∃ name, d.problem = .duplicateType name)
    ∨ ∃ name, d.problem = .emptyEnum name := by
  rcases List.mem_append.1 hd with hd | hd
  · obtain ⟨j, node, -, hd⟩ := exists_of_mem_declareAll hd
    rcases mem_declareEnum_iff.1 hd with hd | ⟨e, -, -, rfl⟩
    · rcases mem_enumReports_iff.1 hd with ⟨-, rfl⟩ | ⟨e, -, -, rfl⟩
      · exact Or.inl ⟨_, _, rfl⟩
      · exact Or.inr (Or.inr (Or.inr ⟨_, rfl⟩))
    · exact Or.inr (Or.inr (Or.inl ⟨_, rfl⟩))
  · obtain ⟨j, node, -, hd⟩ := exists_of_mem_declareAll hd
    rcases mem_declareClass_iff.1 hd with hd | ⟨c, -, -, rfl⟩
    · rcases mem_classReports_iff.1 hd with ⟨-, rfl⟩ | ⟨name, -, hd⟩
      · exact Or.inl ⟨_, _, rfl⟩
      · rcases hd with hd | hd | ⟨k, child, -, hd⟩ | ⟨k, child, -, hd⟩
        · obtain ⟨word, -, -, rfl⟩ := mem_kindReports_iff.1 hd
          exact Or.inr (Or.inl ⟨_, _, Or.inl rfl, rfl⟩)
        · obtain ⟨text, -, -, rfl⟩ := mem_abstractReports_iff.1 hd
          exact Or.inr (Or.inl ⟨_, _, Or.inr rfl, rfl⟩)
        · obtain ⟨-, rfl⟩ := mem_methodReports_iff.1 hd
          exact Or.inl ⟨_, _, rfl⟩
        · rcases mem_memberReports_iff.1 hd with ⟨-, rfl⟩ | ⟨-, rfl⟩
          · exact Or.inl ⟨_, _, rfl⟩
          · exact Or.inl ⟨_, _, rfl⟩
    · exact Or.inr (Or.inr (Or.inl ⟨_, rfl⟩))

/-! ### Where reports are located -/

/-- A report on an enum is located at its node. -/
theorem location_of_mem_declareEnum (hd : d ∈ (doc.declareEnum index node).2) :
    d.location = .enumeration index (textOf node "name") := by
  have hname : textOf node "name" = ((EnumDecl.ofNode? node).map EnumDecl.name).getD "" := by
    rw [EnumDecl.ofNode?, Option.map_map, textOf_eq]
    exact congrArg (Option.getD · "") (congrFun Option.map_id_fun _).symm
  rw [hname]
  rcases mem_declareEnum_iff.1 hd with hd | ⟨e, he, -, rfl⟩
  · rcases mem_enumReports_iff.1 hd with ⟨he, rfl⟩ | ⟨e, he, -, rfl⟩
    · rw [he]
      rfl
    · rw [he]
      rfl
  · rw [he]
    rfl

/-- A report on a class is located at its node, or at a method or a member of the class. -/
theorem location_of_mem_declareClass (hd : d ∈ (doc.declareClass index node).2) :
    d.location = .classAt index (textOf node "name")
    ∨ ∃ name, node.filledAttr? "name" = some name
      ∧ ((∃ j, d.location = .method name j) ∨ ∃ j member, d.location = .member name j member) := by
  rcases mem_declareClass_iff.1 hd with hd | ⟨c, hc, -, rfl⟩
  · rcases mem_classReports_iff.1 hd with ⟨hnone, rfl⟩ | ⟨name, h, hd | hd | ⟨j, child, -, hd⟩
      | ⟨j, child, -, hd⟩⟩
    · rw [textOf_eq, hnone]
      exact Or.inl rfl
    · obtain ⟨word, -, -, rfl⟩ := mem_kindReports_iff.1 hd
      rw [textOf_of_filledAttr? h]
      exact Or.inl rfl
    · obtain ⟨text, -, -, rfl⟩ := mem_abstractReports_iff.1 hd
      rw [textOf_of_filledAttr? h]
      exact Or.inl rfl
    · obtain ⟨-, rfl⟩ := mem_methodReports_iff.1 hd
      exact Or.inr ⟨name, h, Or.inl ⟨j, rfl⟩⟩
    · rcases mem_memberReports_iff.1 hd with ⟨-, rfl⟩ | ⟨-, rfl⟩
      · exact Or.inr ⟨name, h, Or.inr ⟨j, _, rfl⟩⟩
      · exact Or.inr ⟨name, h, Or.inr ⟨j, _, rfl⟩⟩
  · obtain ⟨name, h, rfl⟩ := Option.map_eq_some_iff.1 hc
    rw [textOf_of_filledAttr? h]
    exact Or.inl rfl

/-! ### Resolution -/

theorem mem_baseReports_iff {c : ClassDecl} :
    d ∈ doc.baseReports index c
      ↔ c.base ≠ ""
        ∧ ((doc.class? c.base = none
            ∧ d = .warning (.unresolvedBase c.base) (.classAt index c.name))
          ∨ ∃ base, doc.class? c.base = some base ∧ base.kind ≠ c.kind
            ∧ d = .warning (.invalidAttribute "Class" "base" c.base) (.classAt index c.name)) := by
  unfold baseReports
  by_cases hb : c.base = ""
  · simp [hb]
  · cases h : doc.class? c.base with
    | none => simp [hb]
    | some base => by_cases hk : base.kind = c.kind <;> simp [hb, hk]

theorem mem_typeReports_iff {m : Member} :
    d ∈ doc.typeReports owner index m
      ↔ m.isComplete = true
        ∧ ((doc.target? m.type = none
            ∧ d = .error (missingTarget m) (.member owner index m.name))
          ∨ ∃ e, doc.target? m.type = some (.enumeration e) ∧ m.type.isArray = false
            ∧ Text.trim m.literal ≠ "" ∧ Text.trim m.literal ∉ e.values
            ∧ d = .warning (.unknownEnumValue e.name (Text.trim m.literal))
              (.member owner index m.name)) := by
  unfold typeReports
  by_cases hm : m.isComplete = true
  · cases ht : doc.target? m.type with
    | none => simp [hm]
    | some target =>
      cases target with
      | object decl ownership => simp [hm, targetReports]
      | primitive p => simp [hm, targetReports]
      | enumeration e =>
        by_cases ha : m.type.isArray = true <;> by_cases hl : Text.trim m.literal = "" <;>
          by_cases hv : Text.trim m.literal ∈ e.values <;> simp [hm, targetReports, ha, hl, hv]
  · simp [hm]

theorem location_of_mem_typeReports {m : Member} (hd : d ∈ doc.typeReports owner index m) :
    d.location = .member owner index m.name := by
  obtain ⟨-, ⟨-, rfl⟩ | ⟨e, -, -, -, -, rfl⟩⟩ := mem_typeReports_iff.1 hd
  · rfl
  · rfl

theorem mem_resolveReports_iff :
    d ∈ doc.resolveReports
      ↔ d ∈ doc.cycleReports
        ∨ (∃ j c, doc.classes.items[j]? = some c ∧ d ∈ doc.baseReports j c)
        ∨ ∃ c ∈ doc.classes.items, ∃ j m, c.members[j]? = some m
          ∧ d ∈ doc.typeReports c.name j m := by
  simp only [resolveReports, List.mem_append, mem_flatten_mapIdx_iff, List.mem_flatMap, or_assoc]

end Document

end Schema

end SchemaBinding
