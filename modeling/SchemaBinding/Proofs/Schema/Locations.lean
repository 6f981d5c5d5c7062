import SchemaBinding.Proofs.Schema.Parents

/-!
# Where diagnostics are located

A diagnostic about an enum or a class gives a place and a name.  What is said when a tree is read
counts the children of the root, and its place is that of the child.  What is said about bases
counts the registered classes: a class that is passed over, for want of a name or because its name
is taken, moves those behind it one place on, and the diagnostic then points at another child.

* `exists_place_of_declaredBefore`: a registered class stands as many places further on among the
  children as classes before it are passed over.
* `exists_slot_of_mem_resolveReports`: resolution gives the slot of a registered class.
* `location_load`: a diagnostic points at the declaration that it is about exactly if it is not
  about bases or no class before is passed over.
* `not_declaredAt_siteSchema`: which need not be so.
-/

namespace SchemaBinding.Schema.Document

/-- The child of a root at a place, counted among those with its tag, has a name.  One without a
name has the empty one. -/
def DeclaredAt (root : Node) (tag : String) (place : Nat) (name : String) : Prop :=
  ((root.childrenTagged tag)[place]?).map (textOf · "name") = some name

instance (root : Node) (tag : String) (place : Nat) (name : String) :
    Decidable (DeclaredAt root tag place name) :=
  inferInstanceAs (Decidable (_ = _))

/-- Whether the class at a place among the children of a root is passed over: it has no name, or one
that an enum or a class before it has. -/
def passedOver (root : Node) (place : Nat) : Bool :=
  match ((root.childrenTagged "Class")[place]?).bind (·.filledAttr? "name") with
  | none => true
  | some name =>
    (root.childrenTagged "Enum").any (·.filledAttr? "name" = some name)
      || ((root.childrenTagged "Class").take place).any (·.filledAttr? "name" = some name)

/-- How many classes before a place are passed over. -/
def passedBefore (root : Node) (place : Nat) : Nat := (List.range place).countP (passedOver root)

theorem passedBefore_succ (root : Node) (place : Nat) :
    passedBefore root (place + 1)
      = passedBefore root place + if passedOver root place = true then 1 else 0 := by
  rw [passedBefore, List.range_succ, List.countP_append, List.countP_singleton, passedBefore]

/-! ### Places of registered classes -/

/-- What the classes before a place declare that are not passed over. -/
def declaredBefore (root : Node) (place : Nat) : List ClassDecl :=
  firstNamed ClassDecl.name ((declaredEnums root).map EnumDecl.name)
    (((root.childrenTagged "Class").take place).filterMap ClassDecl.ofNode?)

variable {root : Node}

/-- A class is passed over if its name is taken. -/
theorem passedOver_iff {place : Nat} {node : Node}
    (hnode : (root.childrenTagged "Class")[place]? = some node) {c : ClassDecl}
    (hc : ClassDecl.ofNode? node = some c) :
    passedOver root place = true
      ↔ c.name ∈ (declaredEnums root).map EnumDecl.name
        ∨ c.name ∈ (((root.childrenTagged "Class").take place).filterMap
          ClassDecl.ofNode?).map ClassDecl.name := by
  have hname : node.filledAttr? "name" = some c.name := by
    rw [← map_name_class, hc]
    rfl
  have henums : (root.childrenTagged "Enum").any (·.filledAttr? "name" = some c.name) = true
      ↔ c.name ∈ (declaredEnums root).map EnumDecl.name := by
    rw [declaredEnums, mem_names_firstNamed, and_iff_left List.not_mem_nil]
    exact any_iff_mem_names fun node => by rw [map_name_enum, decide_eq_true_iff]
  have hclasses : ((root.childrenTagged "Class").take place).any
        (·.filledAttr? "name" = some c.name) = true
      ↔ c.name ∈ (((root.childrenTagged "Class").take place).filterMap
        ClassDecl.ofNode?).map ClassDecl.name :=
    any_iff_mem_names fun node => by rw [map_name_class, decide_eq_true_iff]
  rw [← henums, ← hclasses, passedOver, hnode, Option.bind_some, hname, Bool.or_eq_true]

/-- One class more is declared, or it is passed over. -/
theorem declaredBefore_succ {place : Nat} {node : Node}
    (hnode : (root.childrenTagged "Class")[place]? = some node) :
    (passedOver root place = true ∧ declaredBefore root (place + 1) = declaredBefore root place)
    ∨ ∃ c, ClassDecl.ofNode? node = some c ∧ passedOver root place = false
      ∧ declaredBefore root (place + 1) = declaredBefore root place ++ [c] := by
  have htake : (root.childrenTagged "Class").take (place + 1)
      = (root.childrenTagged "Class").take place ++ [node] := by
    rw [List.take_add_one, hnode]
    rfl
  rw [declaredBefore, htake, List.filterMap_append]
  cases hc : ClassDecl.ofNode? node with
  | none =>
    have hname : node.filledAttr? "name" = none := by
      rw [← map_name_class, hc]
      rfl
    refine Or.inl ⟨by simp [passedOver, hnode, hname], ?_⟩
    rw [List.filterMap_cons_none hc, List.filterMap_nil, List.append_nil, declaredBefore]
  | some c =>
    have hpassed := passedOver_iff hnode hc
    rw [List.filterMap_cons_some hc, List.filterMap_nil, firstNamed_concat]
    split
    · next h => exact Or.inl ⟨hpassed.2 h, by rw [List.append_nil, declaredBefore]⟩
    · next h => exact Or.inr ⟨c, rfl, Bool.eq_false_iff.2 (mt hpassed.1 h), rfl⟩

/-- **A registered class stands behind its slot by the number of classes that are passed over.** -/
theorem exists_place_of_declaredBefore {count : Nat}
    (hcount : count ≤ (root.childrenTagged "Class").length) :
    (declaredBefore root count).length + passedBefore root count = count
    ∧ ∀ slot c, (declaredBefore root count)[slot]? = some c →
      ∃ (place : Nat) (node : Node), (root.childrenTagged "Class")[place]? = some node
        ∧ ClassDecl.ofNode? node = some c ∧ passedOver root place = false
        ∧ place = slot + passedBefore root place := by
  induction count with
  | zero => exact ⟨rfl, fun slot c h => nomatch h⟩
  | succ count ih =>
    obtain ⟨hlength, hplaces⟩ := ih (by omega)
    have hbound : count < (root.childrenTagged "Class").length := by omega
    have hnode := List.getElem?_eq_getElem hbound
    rw [passedBefore_succ]
    rcases declaredBefore_succ hnode with ⟨hpassed, heq⟩ | ⟨c, hc, hkept, heq⟩
    · rw [heq, if_pos hpassed]
      exact ⟨by omega, hplaces⟩
    · rw [heq, hkept, if_neg Bool.false_ne_true, List.length_append, List.length_singleton]
      refine ⟨by omega, ?_⟩
      intro slot d hd
      by_cases hslot : slot < (declaredBefore root count).length
      · rw [List.getElem?_append_left hslot] at hd
        exact hplaces slot d hd
      · -- the class that comes last has the last slot
        have hlast : slot = (declaredBefore root count).length := by
          have hbound := (List.getElem?_eq_some_iff.1 hd).1
          rw [List.length_append, List.length_singleton] at hbound
          omega
        rw [hlast, List.getElem?_concat_length, Option.some.injEq] at hd
        subst hd
        exact ⟨count, _, hnode, hc, hkept, by omega⟩

/-- The place of the class that has a slot. -/
theorem exists_place_of_slot {slot : Nat} {c : ClassDecl}
    (hc : (ofNode root).1.classes.items[slot]? = some c) :
    ∃ place, DeclaredAt root "Class" place c.name ∧ passedOver root place = false
      ∧ place = slot + passedBefore root place := by
  have hall : declaredBefore root (root.childrenTagged "Class").length = declaredClasses root := by
    rw [declaredBefore, List.take_length, declaredClasses]
  rw [items_ofNode, ← hall] at hc
  obtain ⟨place, node, hnode, hdeclared, hkept, hplace⟩ :=
    (exists_place_of_declaredBefore (Nat.le_refl _)).2 slot c hc
  refine ⟨place, ?_, hkept, hplace⟩
  obtain ⟨name, hname, rfl⟩ := Option.map_eq_some_iff.1 hdeclared
  rw [DeclaredAt, hnode, Option.map_some, textOf_of_filledAttr? hname]

/-! ### What is said about bases -/

def concernsBases : Problem → Bool
  | .cyclicBase _ => true
  | problem => concernsBase problem

theorem concernsBases_of_concernsBase {problem : Problem} (h : concernsBase problem = true) :
    concernsBases problem = true := by
  cases problem with
  | cyclicBase path => rfl
  | _ => exact h

theorem concernsBases_of_mem_ofNode {d : Diagnostic} (hd : d ∈ (ofNode root).2) :
    concernsBases d.problem = false := by
  have hfatal := isFatal_of_mem_ofNode hd
  have hbase := concernsBase_of_mem_ofNode hd
  cases hproblem : d.problem with
  | cyclicBase path => simp [Diagnostic.isFatal, hproblem] at hfatal
  | _ =>
    rw [hproblem] at hbase
    exact hbase

/-- **Resolution gives the slot of a registered class**, and what it says about classes is said
about bases. -/
theorem exists_slot_of_mem_resolveReports {doc : Document} (hnamed : doc.WellNamed) {d : Diagnostic}
    (hd : d ∈ doc.resolveReports) :
    (∃ slot c, doc.classes.items[slot]? = some c ∧ d.location = .classAt slot c.name
      ∧ concernsBases d.problem = true)
    ∨ ∃ owner index name, d.location = .member owner index name := by
  rcases mem_resolveReports_iff.1 hd with hd | ⟨slot, c, hc, hd⟩ | ⟨c, -, j, m, -, hd⟩
  · obtain ⟨cycles, hlead, heq⟩ := exists_cycleReports_eq hnamed
    rw [heq] at hd
    obtain ⟨p, hp, rfl⟩ := List.mem_map.1 hd
    exact Or.inl ⟨p.index, p.first, ((hlead.mem_iff p).1 hp).1.place, rfl, rfl⟩
  · obtain ⟨hproblem, hlocation⟩ := of_mem_baseReports hd
    exact Or.inl ⟨slot, c, hc, hlocation, concernsBases_of_concernsBase hproblem⟩
  · exact Or.inr ⟨_, _, _, location_of_mem_typeReports hd⟩

/-! ### Locations -/

/-- A class with the name of one that stands before it is passed over. -/
theorem passedOver_of_declaredAt {index place : Nat} {name : String} (hlt : index < place)
    (hindex : DeclaredAt root "Class" index name) (hplace : DeclaredAt root "Class" place name) :
    passedOver root place = true := by
  obtain ⟨first, hfirst, hname⟩ := Option.map_eq_some_iff.1 hindex
  obtain ⟨second, hsecond, rfl⟩ := Option.map_eq_some_iff.1 hplace
  cases hgiven : second.filledAttr? "name" with
  | none => simp only [passedOver, hsecond, Option.bind_some, hgiven]
  | some given =>
    obtain ⟨hne, hsecondName⟩ := filledAttr?_eq_some_iff.1 hgiven
    have hsame : first.filledAttr? "name" = some given :=
      filledAttr?_eq_some_iff.2 ⟨hne, hname.trans hsecondName⟩
    have hbefore : first ∈ (root.childrenTagged "Class").take place :=
      List.mem_of_getElem? (by rw [List.getElem?_take_of_lt hlt]; exact hfirst)
    simp only [passedOver, hsecond, Option.bind_some, hgiven, Bool.or_eq_true, List.any_eq_true]
    exact Or.inr ⟨first, hbefore, decide_eq_true hsame⟩

section Pointing

variable {d : Diagnostic} {index : Nat} {name : String}

/-- What reading a tree says about an enum is located at the node of the enum. -/
theorem declaredAt_enum_of_mem_ofNode (hd : d ∈ (ofNode root).2)
    (h : d.location = .enumeration index name) : DeclaredAt root "Enum" index name := by
  rcases List.mem_append.1 hd with hd | hd
  · obtain ⟨j, node, hnode, hd⟩ := exists_of_mem_declareAll hd
    have hlocation := location_of_mem_declareEnum hd
    rw [h, Nat.zero_add] at hlocation
    obtain ⟨rfl, rfl⟩ := Location.enumeration.inj hlocation
    rw [DeclaredAt, hnode, Option.map_some]
  · obtain ⟨j, node, -, hd⟩ := exists_of_mem_declareAll hd
    rcases location_of_mem_declareClass hd with hlocation | ⟨owner, -, ⟨k, hlocation⟩ | hlocation⟩
    · exact nomatch h.symm.trans hlocation
    · exact nomatch h.symm.trans hlocation
    · obtain ⟨k, member, hlocation⟩ := hlocation
      exact nomatch h.symm.trans hlocation

/-- What reading a tree says about a class is located at the node of the class. -/
theorem declaredAt_class_of_mem_ofNode (hd : d ∈ (ofNode root).2)
    (h : d.location = .classAt index name) : DeclaredAt root "Class" index name := by
  rcases List.mem_append.1 hd with hd | hd
  · obtain ⟨j, node, -, hd⟩ := exists_of_mem_declareAll hd
    exact nomatch h.symm.trans (location_of_mem_declareEnum hd)
  · obtain ⟨j, node, hnode, hd⟩ := exists_of_mem_declareAll hd
    rcases location_of_mem_declareClass hd with hlocation | ⟨owner, -, ⟨k, hlocation⟩ | hlocation⟩
    · rw [h, Nat.zero_add] at hlocation
      obtain ⟨rfl, rfl⟩ := Location.classAt.inj hlocation
      rw [DeclaredAt, hnode, Option.map_some]
    · exact nomatch h.symm.trans hlocation
    · obtain ⟨k, member, hlocation⟩ := hlocation
      exact nomatch h.symm.trans hlocation

/-- Resolution says nothing about enums. -/
theorem location_ne_enumeration_of_mem_resolveReports (hd : d ∈ (ofNode root).1.resolveReports) :
    d.location ≠ .enumeration index name := by
  intro h
  rcases exists_slot_of_mem_resolveReports (wellNamed_ofNode root) hd
    with ⟨slot, c, -, hlocation, -⟩ | ⟨owner, k, member, hlocation⟩
  · exact nomatch h.symm.trans hlocation
  · exact nomatch h.symm.trans hlocation

/-- What resolution says about a class is about bases, and gives the slot of the class. -/
theorem exists_place_of_mem_resolveReports (hd : d ∈ (ofNode root).1.resolveReports)
    (h : d.location = .classAt index name) :
    concernsBases d.problem = true
      ∧ ∃ place, DeclaredAt root "Class" place name ∧ passedOver root place = false
        ∧ place = index + passedBefore root place := by
  rcases exists_slot_of_mem_resolveReports (wellNamed_ofNode root) hd
    with ⟨slot, c, hc, hlocation, hbases⟩ | ⟨owner, k, member, hlocation⟩
  · obtain ⟨rfl, rfl⟩ := Location.classAt.inj (h.symm.trans hlocation)
    exact ⟨hbases, exists_place_of_slot hc⟩
  · exact nomatch h.symm.trans hlocation

end Pointing

/-- **What a diagnostic points at.**  One about an enum gives the place of an enum of that name.
One about a class gives the place of a class of that name, less the classes before it that are
passed over if it is about bases; so it points at the class exactly if there are none of these. -/
theorem location_load {d : Diagnostic} (hd : d ∈ (load root).2) :
    (∀ index name, d.location = .enumeration index name → DeclaredAt root "Enum" index name)
    ∧ ∀ index name, d.location = .classAt index name →
      ∃ place, DeclaredAt root "Class" place name
        ∧ (concernsBases d.problem = true → passedOver root place = false)
        ∧ place = index + (if concernsBases d.problem = true then passedBefore root place else 0)
        ∧ (DeclaredAt root "Class" index name
          ↔ (concernsBases d.problem = true → passedBefore root place = 0)) := by
  constructor
  · intro index name h
    rcases List.mem_append.1 hd with hd | hd
    · exact declaredAt_enum_of_mem_ofNode hd h
    · exact absurd h (location_ne_enumeration_of_mem_resolveReports hd)
  · intro index name h
    rcases List.mem_append.1 hd with hd | hd
    · have hdeclared := declaredAt_class_of_mem_ofNode hd h
      have hother : ¬ concernsBases d.problem = true := by
        rw [concernsBases_of_mem_ofNode hd]
        exact Bool.false_ne_true
      refine ⟨index, hdeclared, fun hbases => absurd hbases hother, ?_, ?_⟩
      · rw [if_neg hother, Nat.add_zero]
      · exact iff_of_true hdeclared fun hbases => absurd hbases hother
    · obtain ⟨hbases, place, hdeclared, hkept, hplace⟩ := exists_place_of_mem_resolveReports hd h
      refine ⟨place, hdeclared, fun _ => hkept, by rw [if_pos hbases]; exact hplace, ?_⟩
      constructor
      · intro hindex _
        -- a class of this name before the place would have the one at the place passed over
        by_contra hne
        have hlt : index < place := by omega
        exact Bool.false_ne_true (hkept.symm.trans (passedOver_of_declaredAt hlt hindex hdeclared))
      · intro hzero
        have hsame : place = index := by rw [hplace, hzero hbases, Nat.add_zero]
        exact hsame ▸ hdeclared

/-- A schema of a site.  Its first class has no name, and the base of the second is missing. -/
def siteSchema : Node :=
  ⟨"Schema", [],
    [⟨"Class", [], []⟩,
      ⟨"Class", [("name", "Tower"), ("base", "Castle")], []⟩]⟩

theorem location_load_siteSchema :
    ∃ d ∈ (load siteSchema).2, d.location = .classAt 0 "Tower"
      ∧ ∃ place, DeclaredAt siteSchema "Class" place "Tower"
        ∧ (concernsBases d.problem = true → passedOver siteSchema place = false)
        ∧ place = 0 + (if concernsBases d.problem = true then passedBefore siteSchema place else 0)
        ∧ (DeclaredAt siteSchema "Class" 0 "Tower"
          ↔ (concernsBases d.problem = true → passedBefore siteSchema place = 0)) := by
  obtain ⟨d, hd, hlocation⟩ : ∃ d ∈ (load siteSchema).2, d.location = .classAt 0 "Tower" := by
    decide +kernel
  exact ⟨d, hd, hlocation, (location_load hd).2 0 "Tower" hlocation⟩

/-- The warning about the base of the tower gives the place of the class without a name. -/
theorem not_declaredAt_siteSchema :
    .warning (.unresolvedBase "Castle") (.classAt 0 "Tower") ∈ (load siteSchema).2
      ∧ ¬ DeclaredAt siteSchema "Class" 0 "Tower" ∧ DeclaredAt siteSchema "Class" 1 "Tower" := by
  decide +kernel

end SchemaBinding.Schema.Document
