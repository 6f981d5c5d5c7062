import SchemaBinding.Proofs.Schema.Shed
import SchemaBinding.Proofs.Schema.Translation

/-!
# Documents without idle members

A member that does not take part in generated code is seen by nothing else: without it the
resolution of the other members, the parents and the cycles of bases are what they were.

* `fst_load_shed`: the resolved document of a tree that has been shed.
* `cycleReports_shed`: the reports on cycles of bases stay.
-/

namespace SchemaBinding.Schema

/-- A resolved class without the members that do not take part in generated code. -/
def ClassDecl.prune (c : ClassDecl) : ClassDecl :=
  { c with members := c.members.filter (·.emitted?.isSome) }

theorem ClassDecl.emittedMembers_prune (c : ClassDecl) :
    c.prune.emittedMembers = c.emittedMembers := by
  rw [emittedMembers, emittedMembers, prune, List.filterMap_filter]
  congr 1
  funext m
  cases m.emitted? <;> rfl

namespace Document

variable {doc : Document}

theorem class?_mapClasses (change : ClassDecl → ClassDecl) (name : String) :
    (doc.mapClasses change).class? name = (doc.class? name).map change :=
  Registry.find?_map _ _ _

theorem items_mapClasses (change : ClassDecl → ClassDecl) :
    (doc.mapClasses change).classes.items = doc.classes.items.map change :=
  Registry.items_map _ _

/-! ### Resolution -/

/-- A member is resolved by the generated names of classes alone. -/
theorem resolution?_mapClasses (change : ClassDecl → ClassDecl)
    (hgen : ∀ c, (change c).generatedName = c.generatedName) (kind : ClassKind) (m : Member) :
    (doc.mapClasses change).resolution? kind m = doc.resolution? kind m := by
  have hsignature : ∀ decl ownership, (Target.object (change decl) ownership).signature kind
      = (Target.object decl ownership).signature kind := by
    intro decl ownership
    cases ownership <;> cases kind <;> simp only [Target.signature, hgen]
  rw [resolution?, resolution?]
  split
  · rw [target?, target?, class?_mapClasses]
    cases m.type.ownership? with
    | none => rfl
    | some ownership =>
      cases doc.class? m.type.base with
      | none => rfl
      | some decl =>
        simp only [Option.map_some, Target.resolution, hsignature]
        rfl
  · rfl

/-- The parent of a class is found by the kinds of classes alone. -/
theorem resolvedParent?_mapClasses (change : ClassDecl → ClassDecl)
    (hkind : ∀ c, (change c).kind = c.kind) (c : ClassDecl) :
    (doc.mapClasses change).resolvedParent? c = doc.resolvedParent? c := by
  rw [resolvedParent?, resolvedParent?, class?_mapClasses]
  cases doc.class? c.base with
  | none => rfl
  | some base => simp only [Option.map_some, hkind]

theorem resolution?_prune (kind : ClassKind) (m : Member) :
    doc.prune.resolution? kind m = doc.resolution? kind m :=
  resolution?_mapClasses doc.pruneClass (fun _ => rfl) kind m

theorem resolvedParent?_prune (c : ClassDecl) :
    doc.prune.resolvedParent? (doc.pruneClass c) = doc.resolvedParent? c :=
  resolvedParent?_mapClasses doc.pruneClass (fun _ => rfl) (doc.pruneClass c)

theorem resolveClass_prune (c : ClassDecl) :
    doc.prune.resolveClass (doc.pruneClass c) = (doc.resolveClass c).prune := by
  rw [resolveClass, resolvedParent?_prune, resolveClass, ClassDecl.prune, List.filter_map]
  simp only [resolution?_prune]
  rfl

theorem fst_resolve_prune (doc : Document) :
    doc.prune.resolve.1 = doc.resolve.1.mapClasses ClassDecl.prune := by
  have hmap : (doc.classes.map doc.pruneClass).map doc.prune.resolveClass
      = (doc.classes.map doc.resolveClass).map ClassDecl.prune := by
    rw [Registry.map_map, Registry.map_map]
    exact congrArg doc.classes.map (funext fun c => resolveClass_prune c)
  rw [fst_resolve, fst_resolve, mapClasses, ← hmap]
  rfl

/-- **Shedding leaves the resolved document as it is, without its idle members.** -/
theorem fst_load_shed (root : Node) :
    (load (shed root)).1 = (load root).1.mapClasses ClassDecl.prune := by
  show (ofNode (shed root)).1.resolve.1 = _
  rw [fst_ofNode_shed, fst_resolve_prune]
  rfl

/-! ### Cycles -/

/-- Cycles are seen by names and bases alone. -/
theorem cycleReports_mapClasses {change : ClassDecl → ClassDecl}
    (hname : ∀ c, (change c).name = c.name) (hbase : ∀ c, (change c).base = c.base) :
    (doc.mapClasses change).cycleReports = doc.cycleReports := by
  have h : doc.Translation (doc.mapClasses change) id change :=
    { injective := Function.injective_id
      name := hname
      base := fun c => by rw [hbase, class?_mapClasses]
      items := items_mapClasses change }
  rw [cycleReports, cycleReports, h.baseCycles_eq, List.map_id_fun, Prod.map_id, List.map_id]

/-- **Shedding leaves the cycles of bases.** -/
theorem cycleReports_shed (root : Node) :
    (ofNode (shed root)).1.cycleReports = (ofNode root).1.cycleReports := by
  rw [fst_ofNode_shed]
  exact cycleReports_mapClasses (fun _ => rfl) fun _ => rfl

end Document

end SchemaBinding.Schema
