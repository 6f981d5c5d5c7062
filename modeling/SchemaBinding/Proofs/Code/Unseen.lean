import SchemaBinding.Binding
import SchemaBinding.Proofs.Code.Header
import SchemaBinding.Proofs.Schema.ShedReports

/-!
# What generated code does not show

Generated code shows of a class its names, its kind, whether it is abstract, its methods, its parent
and the members that are emitted.  A change of the classes that keeps these is `Unseen`.

* `header_mapClasses`, `source_mapClasses`: such a change leaves both files as they are.
* `Binding.generate_shed`: so a bad declaration costs nothing but itself.
-/

namespace SchemaBinding.Code

open Schema

/-- A change of classes that leaves what generated code shows. -/
structure Unseen (change : ClassDecl → ClassDecl) : Prop where
  name : ∀ c, (change c).name = c.name
  generatedName : ∀ c, (change c).generatedName = c.generatedName
  kind : ∀ c, (change c).kind = c.kind
  isAbstract : ∀ c, (change c).isAbstract = c.isAbstract
  methods : ∀ c, (change c).methods = c.methods
  parent : ∀ c, (change c).parent? = c.parent?
  emittedMembers : ∀ c, (change c).emittedMembers = c.emittedMembers

theorem unseen_prune : Unseen ClassDecl.prune :=
  ⟨fun _ => rfl, fun _ => rfl, fun _ => rfl, fun _ => rfl, fun _ => rfl, fun _ => rfl,
    ClassDecl.emittedMembers_prune⟩

variable {change : ClassDecl → ClassDecl} (settings : Settings) (doc : Document)

/-- A header shows less than the source. -/
theorem Unseen.sameOutline (h : Unseen change) :
    SameOutline doc (doc.mapClasses change) change where
  items := Document.items_mapClasses change
  parentOf? c := by
    rw [Document.parentOf?, Document.parentOf?, h.parent, Option.map_bind]
    congr 1
    funext name
    exact Document.class?_mapClasses change name
  generatedName := h.generatedName
  kind := h.kind
  methods := h.methods
  fieldLines c := by rw [h.emittedMembers]

namespace ClassBlock

theorem accesses_change (h : Unseen change) (direction : Direction) (c : ClassDecl) :
    accesses direction (change c) = accesses direction c := by
  rw [accesses, accesses, h.emittedMembers, h.kind]

theorem accessFunction_mapClasses (h : Unseen change) (signature : Signature)
    (direction : Direction) (c : ClassDecl) :
    accessFunction settings (doc.mapClasses change) signature direction (change c)
      = accessFunction settings doc signature direction c := by
  rw [accessFunction, accessFunction, parentCall?_eq (h.sameOutline doc), accesses_change h,
    h.emittedMembers]

theorem functions_mapClasses (h : Unseen change) (c : ClassDecl) :
    functions settings (doc.mapClasses change) (change c) = functions settings doc c := by
  rw [functions, functions, parse, parse, serialize, serialize, accessFunction_mapClasses _ _ h,
    accessFunction_mapClasses _ _ h, h.kind, constructor, constructor, constructorSignature,
    constructorSignature, destructor, destructor, destructorSignature, destructorSignature,
    assignments, assignments, releases, releases, h.emittedMembers, h.generatedName, instanceType,
    instanceType, h.name]

theorem definition_mapClasses (h : Unseen change) (c : ClassDecl) :
    definition settings (doc.mapClasses change) (change c) = definition settings doc c := by
  rw [definition, definition, functions_mapClasses settings doc h, h.generatedName]

end ClassBlock

theorem factoryBranches_mapClasses (h : Unseen change) :
    factoryBranches (doc.mapClasses change) = factoryBranches doc := by
  rw [factoryBranches, factoryBranches, Document.items_mapClasses, List.filter_map, List.map_map]
  have habstract : ((fun c : ClassDecl => !c.isAbstract) ∘ change) = fun c => !c.isAbstract := by
    funext c
    rw [Function.comp_apply, h.isAbstract]
  rw [habstract]
  congr 1
  funext c
  rw [Function.comp_apply, h.name, h.generatedName]

/-- **An unseen change leaves the header.** -/
theorem header_mapClasses (h : Unseen change) :
    header settings (doc.mapClasses change) = header settings doc :=
  header_eq settings (h.sameOutline doc) rfl rfl

/-- **An unseen change leaves the source.** -/
theorem source_mapClasses (h : Unseen change) :
    source settings (doc.mapClasses change) = source settings doc := by
  have hclasses : (doc.mapClasses change).classes.items.flatMap (fun c =>
        [banner] ++ ClassBlock.definition settings (doc.mapClasses change) c)
      = doc.classes.items.flatMap fun c =>
        [banner] ++ ClassBlock.definition settings doc c := by
    rw [Document.items_mapClasses, List.flatMap_map]
    simp only [ClassBlock.definition_mapClasses settings doc h]
  rw [source, source, sourceLines, sourceLines, hclasses, factoryFunction, factoryFunction,
    factoryBranches_mapClasses doc h]
  rfl

end SchemaBinding.Code

namespace SchemaBinding.Binding

open Schema
open Schema.Document (load ofNode filter_isFatal_load fst_load_shed cycleReports_shed
  not_loss_of_mem_load_shed)

variable (settings : Code.Settings) (root : Node)

theorem filter_isFatal_shed : (load (shed root)).2.filter Diagnostic.isFatal
    = (load root).2.filter Diagnostic.isFatal := by
  rw [filter_isFatal_load, filter_isFatal_load, cycleReports_shed]

theorem anyFatal_shed :
    Diagnostic.anyFatal (load (shed root)).2 = Diagnostic.anyFatal (load root).2 := by
  have hany : ∀ ds : List Diagnostic,
      Diagnostic.anyFatal ds = !(ds.filter Diagnostic.isFatal).isEmpty := by
    intro ds
    rw [Diagnostic.anyFatal, Bool.eq_iff_iff]
    simp
  rw [hany, hany, filter_isFatal_shed]

/-- **A bad declaration costs nothing but itself.**  Without what is left out of generated code a
tree has the same generated code, or the same cycles, and no report on it is a loss. -/
theorem generate_shed :
    ((∃ b b', generate settings root = .ok b ∧ generate settings (shed root) = .ok b'
        ∧ b'.header = b.header ∧ b'.source = b.source)
      ∨ ∃ ds ds', generate settings root = .error ds ∧ generate settings (shed root) = .error ds'
        ∧ ds'.filter Diagnostic.isFatal = ds.filter Diagnostic.isFatal)
    ∧ ∀ d ∈ (load (shed root)).2, d.problem.isLoss = false := by
  refine ⟨?_, fun d hd => not_loss_of_mem_load_shed hd⟩
  cases hfatal : Diagnostic.anyFatal (load root).2 with
  | false =>
    have hshed : Diagnostic.anyFatal (load (shed root)).2 = false := by
      rw [anyFatal_shed, hfatal]
    refine Or.inl ⟨_, _, generate_eq_ok_iff.2 ⟨hfatal, rfl⟩, generate_eq_ok_iff.2 ⟨hshed, rfl⟩,
      ?_, ?_⟩
    · rw [fst_load_shed]
      exact Code.header_mapClasses settings _ Code.unseen_prune
    · rw [fst_load_shed]
      exact Code.source_mapClasses settings _ Code.unseen_prune
  | true =>
    have hshed : Diagnostic.anyFatal (load (shed root)).2 = true := by
      rw [anyFatal_shed, hfatal]
    exact Or.inr ⟨(load root).2, (load (shed root)).2, by simp [generate, hfatal],
      by simp [generate, hshed], filter_isFatal_shed root⟩

end SchemaBinding.Binding
