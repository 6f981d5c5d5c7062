import SchemaBinding.Schema.History
import SchemaBinding.Proofs.Schema.Names

/-!
# Slots of declarations

A declaration that is stored gets the next slot of its registry, and the name that it has at that
time leads there whatever is done to the document later on, even if the declaration is given
another name.  Items and index are changed apart from each other, so that every step has to keep
them in step.

* `next_cases`: what a step can do to the slots.
* `InStep.next`, `InStep.after`: a step keeps items and index in step, and so does a history.
* `enumIndex_next`, `index_after`: the index holds what was stored, step by step and in a whole
  history.
* `Registry.slotted_of_inStep`: in step, a name leads to the item at its slot and to no slot that
  does not exist.
* `Registry.extends_add`: an item under a new name gets the next slot.
* `WellNamed.after`: while no declaration is given another name, it stands under its own.
* `slotted_after`: a name that was stored leads to its slot from then on, and is refused from then
  on.
-/

namespace SchemaBinding.Schema

variable {α : Type}

/-! ### Registries -/

namespace Registry

/-- Names with their slots are those by which the items of a registry are found: each name has one
slot, each slot is that of one item and has one name, and other names lead nowhere. -/
structure Slotted (r : Registry α) (slots : List (String × Nat)) : Prop where
  leads : ∀ name slot, (name, slot) ∈ slots ↔ r.slot? name = some slot
  found : ∀ name slot, (name, slot) ∈ slots →
    ∃ item, r.items[slot]? = some item ∧ r.lookUp name = .found item
  absent : ∀ name, name ∉ slots.map Prod.fst → r.lookUp name = .missing
  inside : ∀ name slot, r.lookUp name ≠ .outside slot
  nodup : (slots.map Prod.fst).Nodup
  full : slots.map Prod.snd = List.range r.items.length

/-- One item more: it stands in the slot behind the others, its name leads there, and every other
name comes to what it came to before. -/
structure Extends (r r' : Registry α) (name : String) (item : α) : Prop where
  items : r'.items = r.items ++ [item]
  leads : r'.slot? name = some r.items.length
  found : r'.lookUp name = .found item
  others : ∀ other, other ≠ name → r'.lookUp other = r.lookUp other

variable {r : Registry α} {name : String}

theorem InStep.lt_length (h : r.InStep) {slot : Nat} (hslot : r.slot? name = some slot) :
    slot < r.items.length := by
  rw [← h.length_names]
  exact (List.getElem?_eq_some_iff.1 (h.slot?_eq_some_iff.1 hslot)).1

theorem InStep.exists_item (h : r.InStep) {slot : Nat} (hslot : r.slot? name = some slot) :
    ∃ item, r.items[slot]? = some item ∧ r.lookUp name = .found item := by
  have hlt : slot < r.items.length := h.lt_length hslot
  have hitem : r.items[slot]? = some r.items[slot] := List.getElem?_eq_getElem hlt
  refine ⟨_, hitem, ?_⟩
  rw [lookUp_of_slot hslot, hitem, Option.elim_some]

/-- **While index and items are in step, the index says where an item is found.** -/
theorem slotted_of_inStep (h : r.InStep) : r.Slotted r.index := by
  refine ⟨fun _ _ => h.mem_index_iff, ?_, ?_, ?_, h.nodup, h.slots⟩
  · intro name slot hmem
    exact h.exists_item (h.mem_index_iff.1 hmem)
  · intro name hname
    exact lookUp_of_missing (slot?_eq_none_iff.2 hname)
  · intro name slot houtside
    cases hslot : r.slot? name with
    | none => simp [lookUp_of_missing hslot] at houtside
    | some place =>
      obtain ⟨item, -, hfound⟩ := h.exists_item hslot
      simp [hfound] at houtside

/-- **An item under a new name gets the next slot.** -/
theorem extends_add (h : r.InStep) (hn : name ∉ r.names) (item : α) :
    r.Extends (r.add name item) name item := by
  have hleads : (r.add name item).slot? name = some r.items.length := slot?_lead_self hn _
  refine ⟨items_add _ _ _, hleads, ?_, ?_⟩
  · rw [lookUp_of_slot hleads, items_add, List.getElem?_concat_length, Option.elim_some]
  · intro other hne
    have hslot : (r.add name item).slot? other = r.slot? other := slot?_lead_of_ne hn _ hne
    cases hold : r.slot? other with
    | none => rw [lookUp_of_missing hold, lookUp_of_missing (hslot.trans hold)]
    | some slot =>
      rw [lookUp_of_slot hold, lookUp_of_slot (hslot.trans hold), items_add,
        List.getElem?_append_left (h.lt_length hold)]

theorem Named.modify {nameOf : α → String} (h : r.Named nameOf) {slot : Nat} {change : α → α}
    (hc : ∀ item, r.items[slot]? = some item → nameOf (change item) = nameOf item) :
    (r.modify slot change).Named nameOf := by
  refine ⟨h.toInStep.of_sameSlots (sameSlots_modify _ _ _), ?_⟩
  rw [names_modify, h.names_eq]
  refine List.ext_getElem? fun i => ?_
  rw [List.getElem?_map, List.getElem?_map, Registry.modify, List.getElem?_modify]
  cases hitem : r.items[i]? with
  | none => rfl
  | some item =>
    by_cases hslot : slot = i
    · subst hslot
      simp [hc item hitem]
    · simp [hslot]

end Registry

namespace Document

/-! ### One step -/

section Offer

variable {doc : Document}

theorem offerEnum_of_taken {e : EnumDecl} (h : doc.hasTypeName e.name = true) :
    doc.offerEnum e = (doc, some e) := by
  simp [offerEnum, addEnum?, h]

theorem offerEnum_of_free {e : EnumDecl} (h : doc.hasTypeName e.name = false) :
    doc.offerEnum e = (doc.withEnum e, none) := by
  simp [offerEnum, addEnum?, h, withEnum]

theorem offerClass_of_taken {c : ClassDecl} (h : doc.hasTypeName c.name = true) :
    doc.offerClass c = (doc, some c) := by
  simp [offerClass, addClass?, h]

theorem offerClass_of_free {c : ClassDecl} (h : doc.hasTypeName c.name = false) :
    doc.offerClass c = (doc.withClass c, none) := by
  simp [offerClass, addClass?, h, withClass]

end Offer

/-- **What a step can do to slots.**  It stores an enum whose name is new, or a class whose name is
new, or it leaves every slot as it is. -/
theorem next_cases (doc : Document) (step : Step) :
    (∃ e, doc.hasTypeName e.name = false ∧ step.next doc = doc.withEnum e
      ∧ step.enumSlot? doc = some (e.name, doc.enums.items.length) ∧ step.classSlot? doc = none)
    ∨ (∃ c, doc.hasTypeName c.name = false ∧ step.next doc = doc.withClass c
      ∧ step.enumSlot? doc = none ∧ step.classSlot? doc = some (c.name, doc.classes.items.length))
    ∨ (doc.enums.SameSlots (step.next doc).enums ∧ doc.classes.SameSlots (step.next doc).classes
      ∧ step.enumSlot? doc = none ∧ step.classSlot? doc = none) := by
  cases step with
  | offerEnum e =>
    cases h : doc.hasTypeName e.name with
    | true =>
      refine Or.inr (Or.inr ?_)
      simp [Step.next, Step.enumSlot?, Step.classSlot?, offerEnum_of_taken h,
        Registry.SameSlots.refl]
    | false =>
      refine Or.inl ⟨e, h, ?_, ?_, rfl⟩
      · rw [Step.next, offerEnum_of_free h]
      · simp [Step.enumSlot?, offerEnum_of_free h]
  | offerClass c =>
    cases h : doc.hasTypeName c.name with
    | true =>
      refine Or.inr (Or.inr ?_)
      simp [Step.next, Step.enumSlot?, Step.classSlot?, offerClass_of_taken h,
        Registry.SameSlots.refl]
    | false =>
      refine Or.inr (Or.inl ⟨c, h, ?_, rfl, ?_⟩)
      · rw [Step.next, offerClass_of_free h]
      · simp [Step.classSlot?, offerClass_of_free h]
  | changeEnum slot change =>
    exact Or.inr (Or.inr ⟨Registry.sameSlots_modify _ _ _, .refl _, rfl, rfl⟩)
  | changeClass slot change =>
    exact Or.inr (Or.inr ⟨.refl _, Registry.sameSlots_modify _ _ _, rfl, rfl⟩)
  | changeMember slot member change =>
    exact Or.inr (Or.inr ⟨.refl _, Registry.sameSlots_modify _ _ _, rfl, rfl⟩)
  | resolve =>
    refine Or.inr (Or.inr ⟨.refl _, ?_, rfl, rfl⟩)
    rw [Step.next, fst_resolve]
    exact Registry.sameSlots_map _ _

theorem enumIndex_next (doc : Document) (step : Step) :
    (step.next doc).enums.index = doc.enums.index ++ (step.enumSlot? doc).toList := by
  rcases next_cases doc step with ⟨e, hnew, hnext, hslot, -⟩ | ⟨c, -, hnext, hslot, -⟩
    | ⟨hsame, -, hslot, -⟩
  · rw [hnext, hslot, withEnum, Registry.index_add (hasTypeName_eq_false_iff.1 hnew).1,
      Option.toList_some]
  · rw [hnext, hslot, withClass, Option.toList_none, List.append_nil]
  · rw [hsame.index, hslot, Option.toList_none, List.append_nil]

theorem classIndex_next (doc : Document) (step : Step) :
    (step.next doc).classes.index = doc.classes.index ++ (step.classSlot? doc).toList := by
  rcases next_cases doc step with ⟨e, -, hnext, -, hslot⟩ | ⟨c, hnew, hnext, -, hslot⟩
    | ⟨-, hsame, -, hslot⟩
  · rw [hnext, hslot, withEnum, Option.toList_none, List.append_nil]
  · rw [hnext, hslot, withClass, Registry.index_add (hasTypeName_eq_false_iff.1 hnew).2,
      Option.toList_some]
  · rw [hsame.index, hslot, Option.toList_none, List.append_nil]

/-- **A step keeps items and index in step**, for a name is stored only if it is new, together with
the slot that its item is given. -/
theorem InStep.next {doc : Document} (h : doc.InStep) (step : Step) : (step.next doc).InStep := by
  rcases next_cases doc step with ⟨e, hnew, hnext, -⟩ | ⟨c, hnew, hnext, -⟩ | ⟨henums, hclasses, -⟩
  · rw [hnext]
    exact h.withEnum hnew
  · rw [hnext]
    exact h.withClass hnew
  · refine ⟨h.enums.of_sameSlots henums, h.classes.of_sameSlots hclasses, ?_⟩
    rw [henums.names, hclasses.names]
    exact h.disjoint

/-- A step that gives no declaration another name leaves each under its own. -/
theorem WellNamed.next {doc : Document} (h : doc.WellNamed) {step : Step}
    (hkeeps : step.KeepsNames doc) : (step.next doc).WellNamed := by
  cases step with
  | offerEnum e =>
    rw [Step.next]
    cases ht : doc.hasTypeName e.name with
    | true => rwa [offerEnum_of_taken ht]
    | false =>
      rw [offerEnum_of_free ht]
      exact h.withEnum ht
  | offerClass c =>
    rw [Step.next]
    cases ht : doc.hasTypeName c.name with
    | true => rwa [offerClass_of_taken ht]
    | false =>
      rw [offerClass_of_free ht]
      exact h.withClass ht
  | changeEnum slot change => exact ⟨h.enums.modify hkeeps, h.classes, h.disjoint⟩
  | changeClass slot change => exact ⟨h.enums, h.classes.modify hkeeps, h.disjoint⟩
  | changeMember slot member change =>
    have hclasses : (doc.classes.modify slot fun c =>
        { c with members := c.members.modify member change }).Named ClassDecl.name :=
      h.classes.modify fun _ _ => rfl
    exact ⟨h.enums, hclasses, h.disjoint⟩
  | resolve => exact h.resolve

/-! ### Histories -/

/-- What a history stores stands behind what was there before. -/
theorem index_after {index : Document → List (String × Nat)}
    {slot? : Document → Step → Option (String × Nat)}
    (hnext : ∀ doc step, index (step.next doc) = index doc ++ (slot? doc step).toList)
    (doc : Document) (steps : List Step) :
    index (doc.after steps) = index doc ++ stored slot? doc steps := by
  induction steps generalizing doc with
  | nil => simp [after, stored]
  | cons step rest ih =>
    have hrest : index (doc.after (step :: rest))
        = index (step.next doc) ++ stored slot? (step.next doc) rest := ih _
    rw [hrest, hnext, List.append_assoc, stored]

theorem enumIndex_after (nameSpace : String) (steps : List Step) :
    ((empty nameSpace).after steps).enums.index = (empty nameSpace).storedEnums steps :=
  @index_after (fun doc => doc.enums.index) Step.enumSlot? enumIndex_next (empty nameSpace) steps

theorem classIndex_after (nameSpace : String) (steps : List Step) :
    ((empty nameSpace).after steps).classes.index = (empty nameSpace).storedClasses steps :=
  @index_after (fun doc => doc.classes.index) Step.classSlot? classIndex_next (empty nameSpace)
    steps

/-- **A history keeps items and index in step.** -/
theorem InStep.after {doc : Document} (h : doc.InStep) (steps : List Step) :
    (doc.after steps).InStep := by
  induction steps generalizing doc with
  | nil => exact h
  | cons step rest ih => exact ih (h.next step)

theorem WellNamed.after {doc : Document} (h : doc.WellNamed) {steps : List Step}
    (hkept : doc.NamesKept steps) : (doc.after steps).WellNamed := by
  induction steps generalizing doc with
  | nil => exact h
  | cons step rest ih => exact ih (h.next hkept.1) hkept.2

/-- What a part of a history stores stays stored. -/
theorem stored_past (slot? : Document → Step → Option (String × Nat)) (doc : Document)
    {past steps : List Step} (h : past <+: steps) :
    stored slot? doc past <+: stored slot? doc steps := by
  induction past generalizing doc steps with
  | nil => exact List.nil_prefix
  | cons step past ih =>
    obtain ⟨later, rfl⟩ := h
    rw [List.cons_append, stored, stored]
    exact (List.prefix_append_right_inj _).2 (ih _ (List.prefix_append _ _))

/-- The slots of the enums and of the classes of a document.  No name has a slot of both sorts, and
exactly the names with a slot are in use.  What is offered under a name in use comes back and changes
nothing; what is offered under another name is taken, into the next slot of its sort. -/
structure Slotted (doc : Document) (enumSlots classSlots : List (String × Nat)) : Prop where
  enums : doc.enums.Slotted enumSlots
  classes : doc.classes.Slotted classSlots
  apart : ∀ name ∈ enumSlots.map Prod.fst, name ∉ classSlots.map Prod.fst
  inUse : ∀ name, doc.hasTypeName name = true
    ↔ name ∈ enumSlots.map Prod.fst ∨ name ∈ classSlots.map Prod.fst
  refusesEnum : ∀ e : EnumDecl, e.name ∈ enumSlots.map Prod.fst ∨ e.name ∈ classSlots.map Prod.fst →
    doc.offerEnum e = (doc, some e)
  refusesClass : ∀ c : ClassDecl,
    c.name ∈ enumSlots.map Prod.fst ∨ c.name ∈ classSlots.map Prod.fst →
    doc.offerClass c = (doc, some c)
  takesEnum : ∀ e : EnumDecl,
    e.name ∉ enumSlots.map Prod.fst → e.name ∉ classSlots.map Prod.fst →
    ∃ enums, doc.offerEnum e = ({ doc with enums }, none) ∧ doc.enums.Extends enums e.name e
  takesClass : ∀ c : ClassDecl,
    c.name ∉ enumSlots.map Prod.fst → c.name ∉ classSlots.map Prod.fst →
    ∃ classes, doc.offerClass c = ({ doc with classes }, none)
      ∧ doc.classes.Extends classes c.name c

/-- A name leads to the one declaration that has it. -/
structure FoundByName (doc : Document) : Prop where
  enum?_iff : ∀ name e, doc.enum? name = some e ↔ e ∈ doc.enums.items ∧ e.name = name
  class?_iff : ∀ name c, doc.class? name = some c ↔ c ∈ doc.classes.items ∧ c.name = name
  nodup : (doc.enums.items.map EnumDecl.name ++ doc.classes.items.map ClassDecl.name).Nodup

theorem InStep.slotted {doc : Document} (h : doc.InStep) :
    doc.Slotted doc.enums.index doc.classes.index :=
  { enums := Registry.slotted_of_inStep h.enums
    classes := Registry.slotted_of_inStep h.classes
    apart := h.disjoint
    inUse := fun _ => hasTypeName_eq_true_iff
    refusesEnum := fun _ hused => offerEnum_of_taken (hasTypeName_eq_true_iff.2 hused)
    refusesClass := fun _ hused => offerClass_of_taken (hasTypeName_eq_true_iff.2 hused)
    takesEnum := fun e henum hclass =>
      ⟨_, offerEnum_of_free (hasTypeName_eq_false_iff.2 ⟨henum, hclass⟩),
        Registry.extends_add h.enums henum e⟩
    takesClass := fun c henum hclass =>
      ⟨_, offerClass_of_free (hasTypeName_eq_false_iff.2 ⟨henum, hclass⟩),
        Registry.extends_add h.classes hclass c⟩ }

theorem WellNamed.foundByName {doc : Document} (h : doc.WellNamed) : doc.FoundByName := by
  refine ⟨fun _ _ => h.enums.find?_eq_some_iff, fun _ _ => h.classes.find?_eq_some_iff, ?_⟩
  rw [← h.enums.names_eq, ← h.classes.names_eq, List.nodup_append]
  refine ⟨h.enums.nodup, h.classes.nodup, ?_⟩
  intro a ha b hb
  rintro rfl
  exact h.disjoint a ha hb

/-- **A name that was stored leads to its slot from then on.**  What a history stores stays stored
whatever comes later, and the names that were stored are the names with a slot, which exists and is
that of one item.  While no declaration is given another name, a name leads to the one declaration
that has it. -/
theorem slotted_after (nameSpace : String) (steps : List Step) :
    (∀ past, past <+: steps →
      (empty nameSpace).storedEnums past <+: (empty nameSpace).storedEnums steps
      ∧ (empty nameSpace).storedClasses past <+: (empty nameSpace).storedClasses steps)
    ∧ ((empty nameSpace).after steps).Slotted ((empty nameSpace).storedEnums steps)
        ((empty nameSpace).storedClasses steps)
    ∧ ((empty nameSpace).NamesKept steps → ((empty nameSpace).after steps).FoundByName) := by
  refine ⟨?_, ?_, ?_⟩
  · intro past hpast
    exact ⟨stored_past _ _ hpast, stored_past _ _ hpast⟩
  · rw [← enumIndex_after, ← classIndex_after]
    exact ((wellNamed_empty nameSpace).inStep.after steps).slotted
  · intro hkept
    exact ((wellNamed_empty nameSpace).after hkept).foundByName

/-- A colour and a brush are stored, the brush gets a tint, and a class that is called like the
colour is refused. -/
def paintSteps : List Step :=
  [.offerEnum ⟨"Colour", "EColour", ["Red", "Blue"]⟩,
    .offerClass (.named "Brush" "Brush"),
    .changeClass 0 fun c => { c with members := [.named "tint" (.parse "Colour")] },
    .offerClass (.named "Colour" "Paint"),
    .resolve]

theorem slotted_after_paintSteps :
    (empty "").storedEnums (paintSteps.take 1) = [("Colour", 0)]
    ∧ ("Colour", 0) ∈ (empty "").storedEnums paintSteps
    ∧ (∃ e, ((empty "").after paintSteps).enums.items[0]? = some e
      ∧ ((empty "").after paintSteps).enum? "Colour" = some e)
    ∧ (empty "").NamesKept paintSteps
    ∧ ∀ c, ((empty "").after paintSteps).class? "Brush" = some c
      ↔ c ∈ ((empty "").after paintSteps).classes.items ∧ c.name = "Brush" := by
  have hpast : (empty "").storedEnums (paintSteps.take 1) = [("Colour", 0)] := by decide +kernel
  have hkept : (empty "").NamesKept paintSteps :=
    ⟨trivial, trivial, fun _ _ => rfl, trivial, trivial, trivial⟩
  obtain ⟨hpasts, hslots, hfound⟩ := slotted_after "" paintSteps
  have hmem : ("Colour", 0) ∈ (empty "").storedEnums paintSteps := by
    refine (hpasts _ (List.take_prefix 1 _)).1.subset ?_
    rw [hpast]
    exact List.mem_singleton.2 rfl
  obtain ⟨e, hitem, hlookUp⟩ := hslots.enums.found _ _ hmem
  exact ⟨hpast, hmem, ⟨e, hitem, Registry.find?_of_found hlookUp⟩, hkept,
    (hfound hkept).class?_iff "Brush"⟩

end Document

end SchemaBinding.Schema
