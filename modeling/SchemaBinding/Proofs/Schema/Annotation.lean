import SchemaBinding.Schema.History
import SchemaBinding.Proofs.Schema.Lineage
import SchemaBinding.Proofs.Schema.Prune

/-!
# Annotations

What resolution writes into a document, the parent of each class and the resolution of each member,
is read by no later resolution.  A document is judged by what is left without its annotations.

* `resolve_bare`: the outcome is the same without annotations.
* `bare_resolve`: nothing but annotations is written.
* `bare_next`, `bare_after`: a step, and a history, in which no change looks at annotations leaves
  declarations that do not depend on them, so resolutions in between can be left out.
-/

namespace SchemaBinding.Schema

def Member.bare (m : Member) : Member := { m with resolution? := none }

def ClassDecl.bare (c : ClassDecl) : ClassDecl :=
  { c with parent? := none, members := c.members.map Member.bare }

/-- A document as it is declared: its namespace, its enums, and its classes without parents and
without resolutions, each in its place and under the name it is found by. -/
def Document.bare (doc : Document) : Document := doc.mapClasses ClassDecl.bare

/-- Whether a step can do more than write annotations. -/
def Step.declares : Step → Bool
  | resolve => false
  | _ => true

/-- What a step leaves of the declarations does not depend on annotations.  A change may still write
annotations of its own. -/
def Step.Blind : Step → Prop
  | changeClass _ change => ∀ c d : ClassDecl, c.bare = d.bare → (change c).bare = (change d).bare
  | changeMember _ _ change => ∀ m n : Member, m.bare = n.bare → (change m).bare = (change n).bare
  | _ => True

theorem Member.bare_bare (m : Member) : m.bare.bare = m.bare := rfl

theorem ClassDecl.bare_bare (c : ClassDecl) : c.bare.bare = c.bare := by
  simp [bare, Member.bare]

/-- A change at a place of a list, seen through a map that can be made before as well. -/
theorem map_modify_map {α : Type} {f change : α → α} (hf : ∀ a, f (change (f a)) = f (change a))
    (hff : ∀ a, f (f a) = f a) (items : List α) (slot : Nat) :
    ((items.map f).modify slot change).map f = (items.modify slot change).map f := by
  refine List.ext_getElem? fun i => ?_
  simp only [List.getElem?_map, List.getElem?_modify]
  cases items[i]? with
  | none => rfl
  | some a => by_cases h : slot = i <;> simp [h, hf, hff]

namespace Registry

variable {α : Type}

theorem map_modify_map {f change : α → α} (hf : ∀ a, f (change (f a)) = f (change a))
    (hff : ∀ a, f (f a) = f a) (r : Registry α) (slot : Nat) :
    ((r.map f).modify slot change).map f = (r.modify slot change).map f := by
  simp only [map, modify, Schema.map_modify_map hf hff]

theorem map_add (r : Registry α) (f : α → α) (name : String) (item : α) :
    (r.add name item).map f = (r.map f).add name (f item) := by
  simp [map, add, lead, push]

end Registry

namespace Document

variable {doc doc' : Document}

theorem bare_bare (doc : Document) : doc.bare.bare = doc.bare := by
  rw [bare, bare, mapClasses, mapClasses, Registry.map_map]
  simp only [ClassDecl.bare_bare]

/-! ### Resolution reads no annotation -/

theorem resolution?_bare (kind : ClassKind) (m : Member) :
    doc.bare.resolution? kind m.bare = doc.resolution? kind m :=
  resolution?_mapClasses ClassDecl.bare (fun _ => rfl) kind m

theorem resolvedParent?_bare (c : ClassDecl) :
    doc.bare.resolvedParent? c.bare = doc.resolvedParent? c :=
  resolvedParent?_mapClasses ClassDecl.bare (fun _ => rfl) c.bare

theorem resolveClass_bare (c : ClassDecl) : doc.bare.resolveClass c.bare = doc.resolveClass c := by
  have hmembers : c.bare.members.map (fun m =>
      { m with resolution? := doc.bare.resolution? c.bare.kind m })
      = c.members.map fun m => { m with resolution? := doc.resolution? c.kind m } := by
    rw [ClassDecl.bare, List.map_map]
    refine List.map_congr_left fun m _ => ?_
    rw [Function.comp_apply, resolution?_bare]
    rfl
  rw [resolveClass, resolveClass, resolvedParent?_bare, hmembers]
  rfl

theorem baseReports_bare (index : Nat) (c : ClassDecl) :
    doc.bare.baseReports index c.bare = doc.baseReports index c := by
  have hbase : c.bare.base = c.base := rfl
  rw [baseReports, baseReports, hbase, bare, class?_mapClasses]
  cases doc.class? c.base <;> rfl

theorem typeReports_bare (owner : String) (index : Nat) (m : Member) :
    doc.bare.typeReports owner index m.bare = doc.typeReports owner index m := by
  have htype : m.bare.type = m.type := rfl
  rw [typeReports, typeReports, htype, target?, target?, bare, class?_mapClasses]
  cases m.type.ownership? with
  | none => rfl
  | some ownership => cases doc.class? m.type.base <;> rfl

theorem mapIdx_map_eq {α β : Type} {f : α → α} {g h : Nat → α → β} (items : List α)
    (heq : ∀ i a, g i (f a) = h i a) : (items.map f).mapIdx g = items.mapIdx h := by
  refine List.ext_getElem? fun i => ?_
  rw [List.getElem?_mapIdx, List.getElem?_mapIdx, List.getElem?_map]
  cases items[i]? with
  | none => rfl
  | some a => exact congrArg some (heq i a)

theorem resolveReports_bare (doc : Document) : doc.bare.resolveReports = doc.resolveReports := by
  have hcycles : doc.bare.cycleReports = doc.cycleReports :=
    cycleReports_mapClasses (fun _ => rfl) fun _ => rfl
  have hitems : doc.bare.classes.items = doc.classes.items.map ClassDecl.bare :=
    items_mapClasses _
  have hbases : (doc.classes.items.map ClassDecl.bare).mapIdx doc.bare.baseReports
      = doc.classes.items.mapIdx doc.baseReports := mapIdx_map_eq _ baseReports_bare
  have hmembers : ∀ c : ClassDecl, c.bare.members.mapIdx (doc.bare.typeReports c.bare.name)
      = c.members.mapIdx (doc.typeReports c.name) :=
    fun c => mapIdx_map_eq _ (typeReports_bare c.name)
  rw [resolveReports, resolveReports, hcycles, hitems, hbases, List.flatMap_map]
  simp only [hmembers]

/-- **The outcome of a resolution is the same without annotations.** -/
theorem resolve_bare (doc : Document) : doc.bare.resolve = doc.resolve := by
  have hclasses : doc.bare.classes.map doc.bare.resolveClass
      = doc.classes.map doc.resolveClass := by
    rw [bare, mapClasses, Registry.map_map]
    exact congrArg doc.classes.map (funext fun c => resolveClass_bare c)
  have hdocument : doc.bare.resolve.1 = doc.resolve.1 := by
    rw [fst_resolve, hclasses, fst_resolve]
    rfl
  exact Prod.ext hdocument (resolveReports_bare doc)

theorem bare_resolveClass (doc : Document) (c : ClassDecl) : (doc.resolveClass c).bare = c.bare := by
  simp [resolveClass, ClassDecl.bare, Member.bare]

/-- **Nothing but annotations is written.** -/
theorem bare_resolve (doc : Document) : doc.resolve.1.bare = doc.bare := by
  rw [fst_resolve, bare, mapClasses, Registry.map_map]
  simp only [bare_resolveClass]
  rfl

/-- Every annotation is the one that the declarations give. -/
structure Fresh (doc : Document) : Prop where
  parent : ∀ c ∈ doc.classes.items, c.parent? = doc.bare.resolvedParent? c.bare
  resolution : ∀ c ∈ doc.classes.items, ∀ m ∈ c.members,
    m.resolution? = doc.bare.resolution? c.kind m.bare

theorem fresh_resolve (doc : Document) : doc.resolve.1.Fresh := by
  have hmem : ∀ c ∈ doc.resolve.1.classes.items, ∃ b, doc.resolveClass b = c := by
    intro c hc
    obtain ⟨b, -, rfl⟩ := mem_items_resolve_iff.1 hc
    exact ⟨b, rfl⟩
  constructor
  · intro c hc
    obtain ⟨b, rfl⟩ := hmem c hc
    rw [bare_resolve, resolvedParent?_bare]
    rfl
  · intro c hc m hm
    obtain ⟨b, rfl⟩ := hmem c hc
    obtain ⟨n, -, rfl⟩ := List.mem_map.1 hm
    rw [bare_resolve, resolution?_bare]
    rfl

/-- A document is fresh if resolution leaves it as it is. -/
theorem fresh_iff_resolve_eq : doc.Fresh ↔ doc.resolve.1 = doc := by
  constructor
  · intro h
    have hclass : ∀ c ∈ doc.classes.items, doc.resolveClass c = c := by
      intro c hc
      have hparent : doc.resolvedParent? c = c.parent? := by
        rw [h.parent c hc, resolvedParent?_bare]
      have hmembers : c.members.map (fun m => { m with resolution? := doc.resolution? c.kind m })
          = c.members := by
        refine (List.map_congr_left fun m hm => ?_).trans (List.map_id _)
        rw [← resolution?_bare, ← h.resolution c hc m hm]
        rfl
      rw [resolveClass, hparent, hmembers]
    have hclasses : doc.classes.map doc.resolveClass = doc.classes := by
      rw [Registry.map, List.map_congr_left hclass, List.map_id']
    rw [fst_resolve, hclasses]
  · intro h
    rw [← h]
    exact fresh_resolve doc

/-! ### Histories -/

theorem hasTypeName_bare (doc : Document) (name : String) :
    doc.bare.hasTypeName name = doc.hasTypeName name := by
  rw [hasTypeName, hasTypeName, bare, mapClasses, Registry.contains, Registry.contains,
    Registry.contains, Registry.names_map]

theorem bare_modifyClass {change : ClassDecl → ClassDecl}
    (h : ∀ c, (change c.bare).bare = (change c).bare) (doc : Document) (slot : Nat) :
    (doc.bare.modifyClass slot change).bare = (doc.modifyClass slot change).bare := by
  simp only [bare, mapClasses, modifyClass]
  rw [Registry.map_modify_map h ClassDecl.bare_bare]

theorem bare_modifyMembers {change : Member → Member}
    (h : ∀ m, (change m.bare).bare = (change m).bare) (c : ClassDecl) (member : Nat) :
    ClassDecl.bare { c.bare with members := c.bare.members.modify member change }
      = ClassDecl.bare { c with members := c.members.modify member change } := by
  have hmembers : ((c.members.map Member.bare).modify member change).map Member.bare
      = (c.members.modify member change).map Member.bare :=
    map_modify_map h Member.bare_bare c.members member
  exact congrArg (fun members => { c with parent? := none, members := members }) hmembers

/-- A step that looks at no annotation does the same without them. -/
theorem bare_next {step : Step} (h : step.Blind) (doc : Document) :
    (step.next doc.bare).bare = (step.next doc).bare := by
  cases step with
  | offerEnum e =>
    simp only [Step.next, offerEnum, addEnum?, hasTypeName_bare]
    cases doc.hasTypeName e.name with
    | true => exact bare_bare doc
    | false => exact bare_bare { doc with enums := doc.enums.add e.name e }
  | offerClass c =>
    simp only [Step.next, offerClass, addClass?, hasTypeName_bare]
    cases doc.hasTypeName c.name with
    | true => exact bare_bare doc
    | false =>
      have hadd : (doc.bare.classes.add c.name c).map ClassDecl.bare
          = (doc.classes.add c.name c).map ClassDecl.bare := by
        rw [Registry.map_add, Registry.map_add]
        exact congrArg (·.add c.name c.bare) (congrArg Document.classes (bare_bare doc))
      exact congrArg (fun classes => { doc with classes := classes }) hadd
  | changeEnum slot change => exact bare_bare (doc.modifyEnum slot change)
  | changeClass slot change =>
    exact bare_modifyClass (fun c => h _ _ c.bare_bare) doc slot
  | changeMember slot member change =>
    exact bare_modifyClass (bare_modifyMembers (fun m => h _ _ m.bare_bare) · member) doc slot
  | resolve => rw [Step.next, Step.next, resolve_bare]

theorem bare_next_congr {step : Step} (h : step.Blind) (hbare : doc.bare = doc'.bare) :
    (step.next doc).bare = (step.next doc').bare := by
  rw [← bare_next h doc, hbare, bare_next h doc']

/-- **Resolutions in between leave no trace in the declarations**, as long as no step looks at what
they wrote. -/
theorem bare_after {steps : List Step} (h : ∀ step ∈ steps, step.Blind)
    (hbare : doc.bare = doc'.bare) :
    (doc.after steps).bare = (doc'.after (steps.filter Step.declares)).bare := by
  induction steps generalizing doc doc' with
  | nil => exact hbare
  | cons step rest ih =>
    have hstep : step.Blind := h step List.mem_cons_self
    have hrest : ∀ later ∈ rest, later.Blind := fun later hl => h later (List.mem_cons_of_mem _ hl)
    by_cases hd : step.declares = true
    · rw [List.filter_cons_of_pos hd]
      exact ih hrest (bare_next_congr hstep hbare)
    · -- what is left out writes annotations alone
      have hnext : (step.next doc).bare = doc.bare := by
        cases step with
        | resolve => exact bare_resolve doc
        | _ => exact absurd rfl hd
      rw [List.filter_cons_of_neg hd]
      exact ih hrest (hnext.trans hbare)

/-- **Resolution is a function of the declarations.**  Documents that are declared alike have the
same outcome, document and diagnostics; nothing but annotations is written; a second resolution
changes and says nothing new; no annotation is left over from an earlier one.  So it does not matter
where in a history resolutions stand, as long as no change looks at what they wrote. -/
theorem resolve_of_declarations :
    (∀ doc doc' : Document, doc.bare = doc'.bare → doc.resolve = doc'.resolve)
    ∧ (∀ doc : Document, doc.resolve.1.bare = doc.bare)
    ∧ (∀ doc : Document, doc.resolve.1.resolve = doc.resolve)
    ∧ (∀ doc : Document, doc.resolve.1.Fresh)
    ∧ ∀ (doc : Document) (steps steps' : List Step),
        (∀ step ∈ steps, step.Blind) → (∀ step ∈ steps', step.Blind) →
        steps.filter Step.declares = steps'.filter Step.declares →
        (doc.after steps).resolve = (doc.after steps').resolve := by
  have halike : ∀ doc doc' : Document, doc.bare = doc'.bare → doc.resolve = doc'.resolve := by
    intro doc doc' h
    rw [← resolve_bare doc, h, resolve_bare doc']
  refine ⟨halike, bare_resolve, ?_, fresh_resolve, ?_⟩
  · intro doc
    exact halike _ _ (bare_resolve doc)
  · intro doc steps steps' hblind hblind' hsame
    have hsteps : (doc.after steps).bare = (doc.after (steps.filter Step.declares)).bare :=
      bare_after hblind rfl
    have hsteps' : (doc.after steps').bare = (doc.after (steps'.filter Step.declares)).bare :=
      bare_after hblind' rfl
    refine halike _ _ ?_
    rw [hsteps, hsame, hsteps']

/-- A circle is a shape and has a size.  Later on it stands alone, and its size is a fraction. -/
def circleSteps (between : List Step) : List Step :=
  [.offerClass (.named "Shape" "Shape"),
    .offerClass { ClassDecl.named "Circle" "Circle" with
      base := "Shape", members := [.named "size" (.parse "int")] }]
    ++ between
    ++ [.changeClass 1 fun c => { c with base := "" },
      .changeMember 1 0 fun m => { m with type := .parse "float" }]

theorem blind_circleSteps {between : List Step} (h : ∀ step ∈ between, step.Blind) :
    ∀ step ∈ circleSteps between, step.Blind := by
  intro step hstep
  simp only [circleSteps, List.mem_append, List.mem_cons, List.not_mem_nil, or_false] at hstep
  rcases hstep with ((rfl | rfl) | hbetween) | rfl | rfl
  · trivial
  · trivial
  · exact h step hbetween
  · intro c d hcd
    exact congrArg (fun c : ClassDecl => { c with base := "" }) hcd
  · intro m n hmn
    exact congrArg (fun m : Member => { m with type := .parse "float" }) hmn

/-- What a resolution in between wrote is stale behind the changes, and makes no difference. -/
theorem resolve_of_declarations_circleSteps :
    (empty "").after (circleSteps [.resolve]) ≠ (empty "").after (circleSteps [])
    ∧ ((empty "").after (circleSteps [.resolve])).bare = ((empty "").after (circleSteps [])).bare
    ∧ ((empty "").after (circleSteps [.resolve])).resolve
      = ((empty "").after (circleSteps [])).resolve
    ∧ ((empty "").after (circleSteps [.resolve, .resolve])).resolve
      = ((empty "").after (circleSteps [])).resolve
    ∧ ¬ ((empty "").after (circleSteps [.resolve])).Fresh := by
  obtain ⟨halike, -, -, -, hhistory⟩ := resolve_of_declarations
  have hbare : ((empty "").after (circleSteps [.resolve])).bare
      = ((empty "").after (circleSteps [])).bare := by decide +kernel
  refine ⟨by decide +kernel, hbare, halike _ _ hbare, ?_, ?_⟩
  · refine hhistory (empty "") _ _ (blind_circleSteps ?_) (blind_circleSteps ?_) rfl
    · intro step hstep
      simp only [List.mem_cons, List.not_mem_nil, or_false, or_self] at hstep
      subst hstep
      trivial
    · intro step hstep
      cases hstep
  · rw [fresh_iff_resolve_eq]
    decide +kernel

end Document

end SchemaBinding.Schema
