import SchemaBinding.Proofs.Schema.BaseCycle
import Mathlib.Data.List.Cycle

/-!
# Trees in another order

If no name is given twice, the order of the children of a root carries no meaning.  Two documents
are `Rearranged` if they have the same namespace and the same declarations; each name then finds the
same declaration in both, so resolution does the same to each class, says the same about it and
finds the same cycles.

* `rearranged_ofNode`: trees with the same children have rearranged documents.
* `Rearranged.resolveClass_eq`: resolution looks names up and nothing else.
* `Rearranged.cycles_perm`: a cycle is reported once, wherever it starts.
* `sameOutcome_load`: what is loaded and what is found wrong, for each order of the children.
-/

namespace SchemaBinding

/-- What is said about a declaration, wherever it stands. -/
def Diagnostic.finding (d : Diagnostic) : Severity × Problem := (d.severity, d.problem)

/-- The cycle that is reported: the path without its last name, which is the first again. -/
def Diagnostic.cycle? (d : Diagnostic) : Option (Cycle String) :=
  match d.problem with
  | .cyclicBase path => some (path.dropLast : List String)
  | _ => none

namespace Schema

/-! ### Findings -/

theorem map_flatten_mapIdx {α β : Type} {f : Diagnostic → β} {reports : Nat → α → List Diagnostic}
    (h : ∀ i a, (reports i a).map f = (reports 0 a).map f) (items : List α) :
    (items.mapIdx reports).flatten.map f = items.flatMap fun a => (reports 0 a).map f := by
  induction items generalizing reports with
  | nil => rfl
  | cons a rest ih =>
    have htail := ih fun i b => (h (i + 1) b).trans (h 1 b).symm
    rw [List.mapIdx_cons, List.flatten_cons, List.map_append, htail, List.flatMap_cons]
    simp only [h (0 + 1)]

theorem finding_enumReports (index : Nat) (node : Node) :
    (enumReports index node).map Diagnostic.finding
      = (enumReports 0 node).map Diagnostic.finding := by
  rw [← mapPlace_enumReports (fun _ => 0) index node, List.map_map]
  rfl

theorem finding_classReports (index : Nat) (node : Node) :
    (classReports index node).map Diagnostic.finding
      = (classReports 0 node).map Diagnostic.finding := by
  rw [← mapPlace_classReports (fun _ => 0) index node, List.map_map]
  rfl

namespace Document

theorem finding_baseReports (doc : Document) (index : Nat) (c : ClassDecl) :
    (doc.baseReports index c).map Diagnostic.finding
      = (doc.baseReports 0 c).map Diagnostic.finding := by
  rw [← mapPlace_baseReports (fun _ => 0) doc index c, List.map_map]
  rfl

/-! ### Rearranged documents -/

/-- The same namespace and declarations in any order, each declaration found by its name. -/
structure Rearranged (doc doc' : Document) : Prop where
  nameSpace : doc'.nameSpace = doc.nameSpace
  enums : doc'.enums.items.Perm doc.enums.items
  classes : doc'.classes.items.Perm doc.classes.items
  wellNamed : doc.WellNamed
  wellNamed' : doc'.WellNamed

theorem find?_eq_of_perm {α : Type} {r r' : Registry α} {nameOf : α → String} (h : r.Named nameOf)
    (h' : r'.Named nameOf) (hperm : r'.items.Perm r.items) (name : String) :
    r'.find? name = r.find? name := by
  refine Option.ext fun item => ?_
  rw [h.find?_eq_some_iff, h'.find?_eq_some_iff, hperm.mem_iff]

namespace Rearranged

variable {doc doc' : Document} (h : doc.Rearranged doc')

include h

theorem enum?_eq (name : String) : doc'.enum? name = doc.enum? name :=
  find?_eq_of_perm h.wellNamed.enums h.wellNamed'.enums h.enums name

theorem class?_eq (name : String) : doc'.class? name = doc.class? name :=
  find?_eq_of_perm h.wellNamed.classes h.wellNamed'.classes h.classes name

theorem target?_eq (spec : TypeSpec) : doc'.target? spec = doc.target? spec := by
  rw [target?, target?, h.class?_eq, h.enum?_eq]

/-- Resolution looks names up and nothing else. -/
theorem resolveClass_eq : doc'.resolveClass = doc.resolveClass := by
  funext c
  simp only [resolveClass, resolvedParent?, resolution?, h.class?_eq, h.target?_eq]

theorem resolve : doc.resolve.1.Rearranged doc'.resolve.1 := by
  refine ⟨h.nameSpace, h.enums, ?_, h.wellNamed.resolve, h.wellNamed'.resolve⟩
  rw [items_resolve, items_resolve, h.resolveClass_eq]
  exact h.classes.map _

theorem baseReports_eq : doc'.baseReports = doc.baseReports := by
  funext index c
  rw [baseReports, baseReports, h.class?_eq]

theorem typeReports_eq : doc'.typeReports = doc.typeReports := by
  funext owner index m
  rw [typeReports, typeReports, h.target?_eq]

/-! ### Cycles -/

theorem baseStep_eq : doc'.BaseStep = doc.BaseStep := by
  funext c d
  rw [BaseStep, BaseStep, h.class?_eq]

theorem baseCycle_iff {first : ClassDecl} {others : List ClassDecl} :
    doc'.BaseCycle first others ↔ doc.BaseCycle first others := by
  constructor
  · rintro ⟨hchain, hnodup⟩
    exact ⟨h.baseStep_eq ▸ hchain, hnodup⟩
  · rintro ⟨hchain, hnodup⟩
    exact ⟨h.baseStep_eq.symm ▸ hchain, hnodup⟩

end Rearranged

/-- The names along a cycle, wherever it starts. -/
def PlacedCycle.cycle (p : PlacedCycle) : Cycle String := (p.classes.map ClassDecl.name : List String)

theorem PlacedCycle.cycle?_report (p : PlacedCycle) : p.report.cycle? = some p.cycle := by
  show some ((p.classes.map ClassDecl.name ++ [p.first.name]).dropLast : Cycle String) = _
  rw [List.dropLast_concat]
  rfl

section Cycles

variable {doc : Document} {cycles : List PlacedCycle}

theorem index_le_of_cycle_eq (hd : doc.WellNamed) {p q : PlacedCycle} (hp : p.Leads doc)
    (hq : q.Leads doc) (heq : p.cycle = q.cycle) : p.index ≤ q.index := by
  have hrot : (p.classes.map ClassDecl.name) ~r (q.classes.map ClassDecl.name) :=
    Cycle.coe_eq_coe.1 heq
  have hname : q.first.name ∈ q.classes.map ClassDecl.name :=
    List.mem_map_of_mem List.mem_cons_self
  obtain ⟨c, hc, hname⟩ := List.mem_map.1 (hrot.mem_iff.2 hname)
  obtain rfl : c = q.first :=
    hd.classes.eq_of_name_eq (hp.cycle.mem_items hc) (hq.cycle.mem_items List.mem_cons_self) hname
  exact hp.earliest _ _ hq.place hc

/-- No two reports are on one cycle. -/
theorem LeadingFrom.nodup_cycles (hd : doc.WellNamed) (h : doc.LeadingFrom 0 cycles) :
    (cycles.map PlacedCycle.cycle).Nodup := by
  refine List.pairwise_map.2 (h.sorted.imp_of_mem fun {p q} hp hq hlt heq => ?_)
  have hle := index_le_of_cycle_eq hd ((h.mem_iff q).1 hq).1 ((h.mem_iff p).1 hp).1 heq.symm
  omega

theorem LeadingFrom.mem_cycles_iff (h : doc.LeadingFrom 0 cycles) {names : Cycle String} :
    names ∈ cycles.map PlacedCycle.cycle
      ↔ ∃ first others, doc.BaseCycle first others
        ∧ names = ((first :: others).map ClassDecl.name : List String) := by
  constructor
  · intro hm
    obtain ⟨p, hp, rfl⟩ := List.mem_map.1 hm
    exact ⟨p.first, p.others, ((h.mem_iff p).1 hp).1.cycle, rfl⟩
  · rintro ⟨first, others, hcycle, rfl⟩
    obtain ⟨p, hp, hrot⟩ := exists_leads hcycle
    exact List.mem_map.2
      ⟨p, (h.mem_iff p).2 ⟨hp, Nat.zero_le _⟩, Cycle.coe_eq_coe.2 (hrot.map ClassDecl.name)⟩

/-- The cycles that are reported, in the order of the reports. -/
theorem exists_filterMap_cycle?_load (root : Node) :
    ∃ cycles, (ofNode root).1.LeadingFrom 0 cycles
      ∧ (load root).2.filterMap Diagnostic.cycle? = cycles.map PlacedCycle.cycle := by
  obtain ⟨cycles, hlead, heq⟩ := exists_cycleReports_eq (wellNamed_ofNode root)
  refine ⟨cycles, hlead, ?_⟩
  have hfatal : (load root).2.filterMap Diagnostic.cycle?
      = ((load root).2.filter Diagnostic.isFatal).filterMap Diagnostic.cycle? := by
    rw [List.filterMap_filter]
    congr 1
    funext d
    obtain ⟨severity, problem, location⟩ := d
    cases problem <;> rfl
  rw [hfatal, filter_isFatal_load, heq, List.filterMap_map]
  have hsome : Diagnostic.cycle? ∘ PlacedCycle.report = some ∘ PlacedCycle.cycle :=
    funext PlacedCycle.cycle?_report
  rw [hsome, List.filterMap_eq_map]

end Cycles

/-- **A cycle is reported once, wherever it starts.** -/
theorem cycles_perm {root root' : Node}
    (h : (ofNode root).1.Rearranged (ofNode root').1) :
    ((load root').2.filterMap Diagnostic.cycle?).Perm
      ((load root).2.filterMap Diagnostic.cycle?) := by
  obtain ⟨cycles, hlead, heq⟩ := exists_filterMap_cycle?_load root
  obtain ⟨cycles', hlead', heq'⟩ := exists_filterMap_cycle?_load root'
  rw [heq, heq']
  refine (List.perm_ext_iff_of_nodup (hlead'.nodup_cycles h.wellNamed')
    (hlead.nodup_cycles h.wellNamed)).2 fun names => ?_
  rw [hlead.mem_cycles_iff, hlead'.mem_cycles_iff]
  simp only [h.baseCycle_iff]

/-! ### Loading -/

/-- What is found wrong besides cycles. -/
theorem filter_not_isFatal_load (root : Node) :
    (load root).2.filter (!·.isFatal)
      = (ofNode root).2
        ++ (((ofNode root).1.classes.items.mapIdx (ofNode root).1.baseReports).flatten
          ++ (ofNode root).1.classes.items.flatMap fun c =>
            (c.members.mapIdx ((ofNode root).1.typeReports c.name)).flatten) := by
  have hall : ∀ ds : List Diagnostic, (∀ d ∈ ds, d.isFatal = false) →
      ds.filter (!·.isFatal) = ds := fun ds h =>
    List.filter_eq_self.2 fun d hd => by simp [h d hd]
  have hcycles : (ofNode root).1.cycleReports.filter (!·.isFatal) = [] := by
    refine List.filter_eq_nil_iff.2 fun d hd => ?_
    rw [← filter_isFatal_load] at hd
    simp [(List.mem_filter.1 hd).2]
  rw [load, resolve, resolveReports, List.filter_append, List.filter_append, List.filter_append,
    hall (ofNode root).2 fun d hd => isFatal_of_mem_ofNode hd, hcycles, List.nil_append,
    hall _ fun d hd => isFatal_of_mem_flatten_baseReports hd,
    hall _ fun d hd => isFatal_of_mem_flatMap_typeReports hd]

section Order

variable {root : Node} {children : List Node} (hperm : children.Perm root.children)

include hperm

theorem childrenTagged_perm (tag : String) :
    (({ root with children := children } : Node).childrenTagged tag).Perm
      (root.childrenTagged tag) :=
  hperm.filter _

theorem givenNames_perm :
    (givenNames { root with children := children }).Perm (givenNames root) :=
  ((childrenTagged_perm hperm "Enum").append (childrenTagged_perm hperm "Class")).filterMap _

variable (hnodup : (givenNames root).Nodup)

include hnodup

theorem rearranged_ofNode :
    (ofNode root).1.Rearranged (ofNode { root with children := children }).1 := by
  have hnodup' := (givenNames_perm hperm).nodup_iff.2 hnodup
  refine ⟨?_, ?_, ?_, wellNamed_ofNode _, wellNamed_ofNode _⟩
  · rw [fst_ofNode, fst_ofNode]
    rfl
  · rw [enumItems_ofNode, enumItems_ofNode, declaredEnums_of_nodup hnodup,
      declaredEnums_of_nodup hnodup']
    exact (childrenTagged_perm hperm "Enum").filterMap _
  · rw [items_ofNode, items_ofNode, declaredClasses_of_nodup hnodup,
      declaredClasses_of_nodup hnodup']
    exact (childrenTagged_perm hperm "Class").filterMap _

theorem findings_ofNode_perm :
    ((ofNode { root with children := children }).2.map Diagnostic.finding).Perm
      ((ofNode root).2.map Diagnostic.finding) := by
  have hnodup' := (givenNames_perm hperm).nodup_iff.2 hnodup
  rw [snd_ofNode_of_nodup hnodup, snd_ofNode_of_nodup hnodup', List.map_append, List.map_append]
  simp only [map_flatten_mapIdx finding_enumReports, map_flatten_mapIdx finding_classReports]
  exact ((childrenTagged_perm hperm "Enum").flatMap_right _).append
    ((childrenTagged_perm hperm "Class").flatMap_right _)

theorem findings_load_perm :
    (((load { root with children := children }).2.filter (!·.isFatal)).map
        Diagnostic.finding).Perm
      (((load root).2.filter (!·.isFatal)).map Diagnostic.finding) := by
  have h := rearranged_ofNode hperm hnodup
  rw [filter_not_isFatal_load, filter_not_isFatal_load, h.baseReports_eq, h.typeReports_eq,
    List.map_append, List.map_append, List.map_append, List.map_append,
    map_flatten_mapIdx (finding_baseReports _), map_flatten_mapIdx (finding_baseReports _)]
  exact (findings_ofNode_perm hperm hnodup).append
    ((h.classes.flatMap_right _).append ((h.classes.flatMap_right _).map _))

theorem anyFatal_load_of_perm :
    Diagnostic.anyFatal (load { root with children := children }).2
      = Diagnostic.anyFatal (load root).2 := by
  rw [Bool.eq_iff_iff, anyFatal_load_iff, anyFatal_load_iff,
    (rearranged_ofNode hperm hnodup).baseStep_eq]

end Order

/-- What is loaded and what is found wrong, but for the order of the declarations, the places in the
reports and the class from which a cycle is told. -/
structure SameOutcome (first second : Document × List Diagnostic) : Prop where
  document : first.1.Rearranged second.1
  /-- Under each name stands the same enum. -/
  enum? : ∀ name, second.1.enum? name = first.1.enum? name
  /-- Under each name stands the same class, with its parent and the resolutions of its members. -/
  class? : ∀ name, second.1.class? name = first.1.class? name
  findings : ((second.2.filter (!·.isFatal)).map Diagnostic.finding).Perm
    ((first.2.filter (!·.isFatal)).map Diagnostic.finding)
  cycles : (second.2.filterMap Diagnostic.cycle?).Perm (first.2.filterMap Diagnostic.cycle?)
  anyFatal : Diagnostic.anyFatal second.2 = Diagnostic.anyFatal first.2

/-- **The order of declarations carries no meaning**, if no name is given twice. -/
theorem sameOutcome_load {root : Node} {children : List Node}
    (hperm : children.Perm root.children) (hnodup : (givenNames root).Nodup) :
    SameOutcome (load root) (load { root with children := children }) := by
  have h := rearranged_ofNode hperm hnodup
  exact
    { document := h.resolve
      enum? := h.resolve.enum?_eq
      class? := h.resolve.class?_eq
      findings := findings_load_perm hperm hnodup
      cycles := cycles_perm h
      anyFatal := anyFatal_load_of_perm hperm hnodup }

/-- Two classes that are the base of each other, and a class of their enum. -/
def knotSchema : Node :=
  ⟨"Schema", [],
    [⟨"Class", [("name", "A"), ("base", "B")], [⟨"Data", [("name", "d"), ("type", "D")], []⟩]⟩,
      ⟨"Class", [("name", "B"), ("base", "A")], [⟨"Data", [("name", "x"), ("type", "int")], []⟩]⟩,
      ⟨"Enum", [("name", "D")], []⟩]⟩

theorem sameOutcome_load_knotSchema :
    knotSchema.children.reverse.Perm knotSchema.children ∧ (givenNames knotSchema).Nodup
      ∧ SameOutcome (load knotSchema)
        (load { knotSchema with children := knotSchema.children.reverse }) := by
  have hperm := List.reverse_perm knotSchema.children
  have hnodup : (givenNames knotSchema).Nodup := by decide
  exact ⟨hperm, hnodup, sameOutcome_load hperm hnodup⟩

end Document

end Schema

end SchemaBinding
