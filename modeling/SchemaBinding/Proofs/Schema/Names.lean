import SchemaBinding.Schema.Resolve
import Mathlib.Data.List.Nodup

/-!
# Names in a document

A registry is in step if its index leads to each slot by one name.  It is `Named` if moreover every
declaration is found under its own name; then the look-up is the search for the declaration with
that name (`Named.find?_eq_some_iff`).  A document is `WellNamed` if both of its registries are
named and share no name.

* `InStep.add`, `InStep.of_sameSlots`: what keeps a registry in step.
* `Named.eq_ofItems`: a named registry is given by its items.
* `wellNamed_ofNode`, `wellNamed_load`: the document of a tree is well named.
* `firstNamed`: what is left of a list when every name goes to the first item that has it.
* `fst_ofNode`: the document of a tree holds the `declaredEnums` and the `declaredClasses`.
* `snd_ofNode_of_nodup`: if no name is given twice, each declaration is reported on by itself.
-/

namespace SchemaBinding.Schema

variable {α : Type}

/-! ### Registries -/

namespace Registry

/-- The index is in step with the items: no name has two slots, and the slots are those of the
items, in order. -/
structure InStep (r : Registry α) : Prop where
  nodup : r.names.Nodup
  slots : r.index.map Prod.snd = List.range r.items.length

/-- The same names lead to the same slots, and there are as many items. -/
structure SameSlots (r r' : Registry α) : Prop where
  index : r'.index = r.index
  length : r'.items.length = r.items.length

theorem SameSlots.refl (r : Registry α) : r.SameSlots r := ⟨rfl, rfl⟩

theorem sameSlots_modify (r : Registry α) (slot : Nat) (change : α → α) :
    r.SameSlots (r.modify slot change) :=
  ⟨rfl, List.length_modify ..⟩

theorem sameSlots_map (r : Registry α) (change : α → α) : r.SameSlots (r.map change) :=
  ⟨rfl, List.length_map _⟩

variable {r r' : Registry α} {nameOf : α → String}

theorem SameSlots.names (h : r.SameSlots r') : r'.names = r.names := by
  rw [Registry.names, Registry.names, h.index]

theorem inStep_empty : (empty : Registry α).InStep := ⟨List.nodup_nil, rfl⟩

theorem InStep.of_sameSlots (h : r.InStep) (hsame : r.SameSlots r') : r'.InStep := by
  constructor
  · rw [hsame.names]
    exact h.nodup
  · rw [hsame.index, hsame.length]
    exact h.slots

/-- **Adding keeps step.**  A name that is new leads to the slot that the item is given. -/
theorem InStep.add (h : r.InStep) {name : String} (hn : name ∉ r.names) (item : α) :
    (r.add name item).InStep := by
  constructor
  · rw [names_add hn]
    exact List.nodup_append.2 ⟨h.nodup, List.nodup_singleton _, fun a ha b hb => by
      rw [List.mem_singleton.1 hb]
      rintro rfl
      exact hn ha⟩
  · rw [index_add hn, List.map_append, List.map_singleton, h.slots, items_add, List.length_append,
      List.length_singleton, List.range_succ]

theorem InStep.length_names (h : r.InStep) : r.names.length = r.items.length := by
  rw [← List.length_range (n := r.items.length), ← h.slots, Registry.names, List.length_map,
    List.length_map]

/-- The names with their places are the index. -/
theorem InStep.index_eq (h : r.InStep) : r.index = r.names.zipIdx := by
  rw [List.zipIdx_eq_zip_range', ← List.range_eq_range', h.length_names, ← h.slots, Registry.names,
    List.zip_map']
  exact (List.map_id _).symm

theorem InStep.mem_index_iff (h : r.InStep) {name : String} {slot : Nat} :
    (name, slot) ∈ r.index ↔ r.slot? name = some slot := by
  constructor
  · intro hmem
    obtain ⟨before, after, hindex⟩ := List.append_of_mem hmem
    have hnodup := h.nodup
    rw [Registry.names, hindex, List.map_append, List.map_cons] at hnodup
    refine List.lookup_eq_some_iff.2 ⟨before, after, hindex, fun entry hentry => ?_⟩
    have hne : entry.1 ≠ name := (List.nodup_append.1 hnodup).2.2 entry.1
      (List.mem_map_of_mem hentry) name List.mem_cons_self
    rw [bne_iff_ne]
    exact hne.symm
  · intro hslot
    obtain ⟨before, after, hindex, -⟩ := List.lookup_eq_some_iff.1 hslot
    rw [hindex]
    simp

/-- A name leads to the place where it stands among the names. -/
theorem InStep.slot?_eq_some_iff (h : r.InStep) {name : String} {slot : Nat} :
    r.slot? name = some slot ↔ r.names[slot]? = some name := by
  rw [← h.mem_index_iff, ← List.mk_mem_zipIdx_iff_getElem?, ← h.index_eq]

/-- The index is in step, and every item is found under its own name. -/
structure Named (r : Registry α) (nameOf : α → String) : Prop extends r.InStep where
  names_eq : r.names = r.items.map nameOf

theorem named_empty (nameOf : α → String) : (empty : Registry α).Named nameOf :=
  ⟨inStep_empty, rfl⟩

theorem map_map (r : Registry α) (first second : α → α) :
    (r.map first).map second = r.map fun item => second (first item) := by
  simp [map]

theorem Named.add (h : r.Named nameOf) {item : α} (hn : nameOf item ∉ r.names) :
    (r.add (nameOf item) item).Named nameOf := by
  refine ⟨h.toInStep.add hn item, ?_⟩
  rw [names_add hn, h.names_eq, items_add, List.map_append, List.map_singleton]

theorem Named.map (h : r.Named nameOf) {change : α → α}
    (hc : ∀ item, nameOf (change item) = nameOf item) : (r.map change).Named nameOf := by
  refine ⟨h.toInStep.of_sameSlots (sameSlots_map _ _), ?_⟩
  rw [names_map, items_map, List.map_map, h.names_eq]
  exact List.map_congr_left fun item _ => (hc item).symm

/-- **The look-up searches for the declaration with a name.** -/
theorem Named.find?_eq_some_iff (h : r.Named nameOf) {name : String} {item : α} :
    r.find? name = some item ↔ item ∈ r.items ∧ nameOf item = name := by
  have hplace : ∀ slot, r.slot? name = some slot ↔ (r.items.map nameOf)[slot]? = some name := by
    rw [← h.names_eq]
    exact fun _ => h.slot?_eq_some_iff
  simp only [find?_eq, Option.bind_eq_some_iff, hplace, List.getElem?_map, Option.map_eq_some_iff]
  constructor
  · rintro ⟨slot, ⟨a, ha, hname⟩, hitem⟩
    obtain rfl : a = item := Option.some.inj (ha.symm.trans hitem)
    exact ⟨List.mem_of_getElem? hitem, hname⟩
  · rintro ⟨hmem, hname⟩
    obtain ⟨slot, hitem⟩ := List.mem_iff_getElem?.1 hmem
    exact ⟨slot, ⟨item, hitem, hname⟩, hitem⟩

theorem Named.find?_of_mem (h : r.Named nameOf) {item : α} (hi : item ∈ r.items) :
    r.find? (nameOf item) = some item :=
  h.find?_eq_some_iff.2 ⟨hi, rfl⟩

/-- Declarations with the same name are the same. -/
theorem Named.eq_of_name_eq (h : r.Named nameOf) {a b : α} (ha : a ∈ r.items) (hb : b ∈ r.items)
    (hab : nameOf a = nameOf b) : a = b := by
  have hfind := h.find?_of_mem ha
  rw [hab, h.find?_of_mem hb] at hfind
  exact (Option.some.inj hfind).symm

/-- Among the declarations of one sort there is the one that is found, if it is of that sort. -/
theorem Named.find?_filter_items (h : r.Named nameOf) (p : α → Bool) (name : String) :
    (r.items.filter p).find? (nameOf · = name) = (r.find? name).filter p := by
  cases hfound : (r.items.filter p).find? (nameOf · = name) with
  | some a =>
    obtain ⟨ha, hp⟩ := List.mem_filter.1 (List.mem_of_find?_eq_some hfound)
    have hname : nameOf a = name := by simpa using List.find?_some hfound
    rw [h.find?_eq_some_iff.2 ⟨ha, hname⟩, Option.filter_some, if_pos hp]
  | none =>
    rw [List.find?_eq_none] at hfound
    cases hr : r.find? name with
    | none => rfl
    | some a =>
      obtain ⟨ha, hname⟩ := h.find?_eq_some_iff.1 hr
      rw [Option.filter_some, if_neg]
      intro hp
      exact hfound a (List.mem_filter.2 ⟨ha, hp⟩) (decide_eq_true hname)

theorem Named.nodup_items (h : r.Named nameOf) : r.items.Nodup := by
  have hn := h.nodup
  rw [h.names_eq] at hn
  exact hn.of_map nameOf

/-- The registry that finds each item under its own name. -/
def ofItems (nameOf : α → String) (items : List α) : Registry α :=
  ⟨items, (items.map nameOf).zipIdx⟩

/-- **A named registry is given by its items.** -/
theorem Named.eq_ofItems (h : r.Named nameOf) : r = ofItems nameOf r.items := by
  rw [ofItems, ← h.names_eq, ← h.index_eq]

end Registry

/-! ### Documents -/

namespace Document

/-- Both registries are in step, and no enum has the name of a class. -/
structure InStep (doc : Document) : Prop where
  enums : doc.enums.InStep
  classes : doc.classes.InStep
  disjoint : ∀ name ∈ doc.enums.names, name ∉ doc.classes.names

/-- Both registries are named, and no enum has the name of a class. -/
structure WellNamed (doc : Document) : Prop where
  enums : doc.enums.Named EnumDecl.name
  classes : doc.classes.Named ClassDecl.name
  disjoint : ∀ name ∈ doc.enums.names, name ∉ doc.classes.names

theorem hasTypeName_eq_true_iff {doc : Document} {name : String} :
    doc.hasTypeName name = true ↔ name ∈ doc.enums.names ∨ name ∈ doc.classes.names := by
  simp [hasTypeName, Registry.contains_eq_true_iff]

theorem hasTypeName_eq_false_iff {doc : Document} {name : String} :
    doc.hasTypeName name = false ↔ name ∉ doc.enums.names ∧ name ∉ doc.classes.names := by
  rw [← Bool.not_eq_true, hasTypeName_eq_true_iff, not_or]

theorem wellNamed_empty (nameSpace : String) : (empty nameSpace).WellNamed :=
  ⟨Registry.named_empty _, Registry.named_empty _, by simp [empty]⟩

def withEnum (doc : Document) (e : EnumDecl) : Document :=
  { doc with enums := doc.enums.add e.name e }

def withClass (doc : Document) (c : ClassDecl) : Document :=
  { doc with classes := doc.classes.add c.name c }

theorem InStep.withEnum {doc : Document} (h : doc.InStep) {e : EnumDecl}
    (hn : doc.hasTypeName e.name = false) : (doc.withEnum e).InStep := by
  have hfree := hasTypeName_eq_false_iff.1 hn
  refine ⟨h.enums.add hfree.1 e, h.classes, fun name hm => ?_⟩
  rcases Registry.mem_names_add.1 hm with hm | rfl
  · exact h.disjoint name hm
  · exact hfree.2

theorem InStep.withClass {doc : Document} (h : doc.InStep) {c : ClassDecl}
    (hn : doc.hasTypeName c.name = false) : (doc.withClass c).InStep := by
  have hfree := hasTypeName_eq_false_iff.1 hn
  refine ⟨h.enums, h.classes.add hfree.2 c, fun name hm hc => ?_⟩
  rcases Registry.mem_names_add.1 hc with hc | rfl
  · exact h.disjoint name hm hc
  · exact hfree.1 hm

theorem WellNamed.inStep {doc : Document} (h : doc.WellNamed) : doc.InStep :=
  ⟨h.enums.toInStep, h.classes.toInStep, h.disjoint⟩

theorem WellNamed.withEnum {doc : Document} (h : doc.WellNamed) {e : EnumDecl}
    (hn : doc.hasTypeName e.name = false) : (doc.withEnum e).WellNamed :=
  ⟨h.enums.add (hasTypeName_eq_false_iff.1 hn).1, h.classes, (h.inStep.withEnum hn).disjoint⟩

theorem WellNamed.withClass {doc : Document} (h : doc.WellNamed) {c : ClassDecl}
    (hn : doc.hasTypeName c.name = false) : (doc.withClass c).WellNamed :=
  ⟨h.enums, h.classes.add (hasTypeName_eq_false_iff.1 hn).2, (h.inStep.withClass hn).disjoint⟩

theorem class?_resolve (doc : Document) (name : String) :
    doc.resolve.1.class? name = (doc.class? name).map doc.resolveClass := by
  rw [fst_resolve]
  exact Registry.find?_map _ _ _

theorem WellNamed.resolve {doc : Document} (h : doc.WellNamed) : doc.resolve.1.WellNamed := by
  rw [fst_resolve]
  exact ⟨h.enums, h.classes.map fun _ => rfl, h.disjoint⟩

/-! ### Declarations one after the other -/

theorem fst_declareEnum (doc : Document) (index : Nat) (node : Node) :
    (doc.declareEnum index node).1
      = (EnumDecl.ofNode? node).elim doc fun e =>
          if doc.hasTypeName e.name then doc else doc.withEnum e := by
  unfold declareEnum
  cases EnumDecl.ofNode? node with
  | none => rfl
  | some e =>
    by_cases h : doc.hasTypeName e.name = true
    · simp [addEnum?, h]
    · simp [addEnum?, h, withEnum]

theorem fst_declareClass (doc : Document) (index : Nat) (node : Node) :
    (doc.declareClass index node).1
      = (ClassDecl.ofNode? node).elim doc fun c =>
          if doc.hasTypeName c.name then doc else doc.withClass c := by
  unfold declareClass
  cases ClassDecl.ofNode? node with
  | none => rfl
  | some c =>
    by_cases h : doc.hasTypeName c.name = true
    · simp [addClass?, h]
    · simp [addClass?, h, withClass]

/-- What one declaration keeps, all of them keep. -/
theorem declareAll_keeps {P : Document → Prop}
    {declare : Document → Nat → Node → Document × List Diagnostic}
    (hstep : ∀ doc index node, P doc → P (declare doc index node).1) (nodes : List Node)
    (index : Nat) {doc : Document} (h : P doc) : P (declareAll declare index doc nodes).1 := by
  induction nodes generalizing index doc with
  | nil => exact h
  | cons node rest ih => exact ih (index + 1) (hstep doc index node h)

theorem WellNamed.declareEnum {doc : Document} (h : doc.WellNamed) (index : Nat) (node : Node) :
    (doc.declareEnum index node).1.WellNamed := by
  rw [fst_declareEnum]
  cases EnumDecl.ofNode? node with
  | none => exact h
  | some e =>
    rw [Option.elim_some]
    split
    · exact h
    · next hn => exact h.withEnum (by simpa using hn)

theorem WellNamed.declareClass {doc : Document} (h : doc.WellNamed) (index : Nat) (node : Node) :
    (doc.declareClass index node).1.WellNamed := by
  rw [fst_declareClass]
  cases ClassDecl.ofNode? node with
  | none => exact h
  | some c =>
    rw [Option.elim_some]
    split
    · exact h
    · next hn => exact h.withClass (by simpa using hn)

/-- **The document of a tree is well named.** -/
theorem wellNamed_ofNode (root : Node) : (ofNode root).1.WellNamed :=
  declareAll_keeps (fun _ index node h => h.declareClass index node) _ _
    (declareAll_keeps (fun _ index node h => h.declareEnum index node) _ _ (wellNamed_empty _))

theorem wellNamed_load (root : Node) : (load root).1.WellNamed := (wellNamed_ofNode root).resolve

/-! ### What a tree declares -/

theorem hasTypeName_withEnum (doc : Document) (e : EnumDecl) (name : String) :
    (doc.withEnum e).hasTypeName name = true ↔ doc.hasTypeName name = true ∨ name = e.name := by
  simp only [hasTypeName_eq_true_iff, withEnum, Registry.mem_names_add]
  exact or_right_comm

theorem hasTypeName_withClass (doc : Document) (c : ClassDecl) (name : String) :
    (doc.withClass c).hasTypeName name = true ↔ doc.hasTypeName name = true ∨ name = c.name := by
  simp only [hasTypeName_eq_true_iff, withClass, Registry.mem_names_add]
  exact or_assoc.symm

end Document

theorem map_name_enum (node : Node) :
    (EnumDecl.ofNode? node).map EnumDecl.name = node.filledAttr? "name" := by
  rw [EnumDecl.ofNode?, Option.map_map]
  exact congrFun Option.map_id_fun _

theorem map_name_class (node : Node) :
    (ClassDecl.ofNode? node).map ClassDecl.name = node.filledAttr? "name" := by
  rw [ClassDecl.ofNode?, Option.map_map]
  exact congrFun Option.map_id_fun _

/-- Whether one of some nodes declares a name. -/
theorem any_iff_mem_names {ofNode? : Node → Option α} {nameOf : α → String} {p : Node → Bool}
    {name : String} (hp : ∀ node, p node = true ↔ (ofNode? node).map nameOf = some name)
    {nodes : List Node} :
    nodes.any p = true ↔ name ∈ (nodes.filterMap ofNode?).map nameOf := by
  simp only [List.any_eq_true, hp, Option.map_eq_some_iff, List.mem_map, List.mem_filterMap]
  constructor
  · rintro ⟨node, hmem, a, ha, rfl⟩
    exact ⟨a, ⟨node, hmem, ha⟩, rfl⟩
  · rintro ⟨a, ⟨node, hmem, ha⟩, rfl⟩
    exact ⟨node, hmem, a, ha, rfl⟩

/-- Where no value is found twice, it is found at one place. -/
theorem eq_of_nodup_filterMap {β : Type} {f : α → Option β} {items : List α}
    (hnodup : (items.filterMap f).Nodup) {i j : Nat} {a b : α} (ha : items[i]? = some a)
    (hb : items[j]? = some b) {value : β} (hfa : f a = some value) (hfb : f b = some value) :
    i = j := by
  rw [List.Nodup, List.pairwise_filterMap, List.pairwise_iff_getElem] at hnodup
  obtain ⟨hi, rfl⟩ := List.getElem?_eq_some_iff.1 ha
  obtain ⟨hj, rfl⟩ := List.getElem?_eq_some_iff.1 hb
  rcases Nat.lt_trichotomy i j with h | h | h
  · exact absurd rfl (hnodup i j hi hj h value hfa value hfb)
  · exact h
  · exact absurd rfl (hnodup j i hj hi h value hfb value hfa)

/-- What is found in a list stands beside the items that count, if it is found in these alone. -/
theorem forall₂_filter_filterMap {β : Type} {p : α → Bool} {f : α → Option β} {R : α → β → Prop}
    {items : List α}
    (h : ∀ a ∈ items, (p a = false ∧ f a = none) ∨ (p a = true ∧ ∃ b, f a = some b ∧ R a b)) :
    List.Forall₂ R (items.filter p) (items.filterMap f) := by
  induction items with
  | nil => exact .nil
  | cons a rest ih =>
    have hrest := ih fun c hc => h c (List.mem_cons_of_mem _ hc)
    rcases h a List.mem_cons_self with ⟨hskip, hnone⟩ | ⟨hcount, b, hsome, hR⟩
    · rw [List.filter_cons_of_neg (by simp [hskip]), List.filterMap_cons_none hnone]
      exact hrest
    · rw [List.filter_cons_of_pos hcount, List.filterMap_cons_some hsome]
      exact .cons hR hrest

/-- The items whose name is new: it is not taken from the start, and no item before has it. -/
def firstNamed (nameOf : α → String) : List String → List α → List α
  | _, [] => []
  | taken, a :: rest =>
    if nameOf a ∈ taken then firstNamed nameOf taken rest
    else a :: firstNamed nameOf (nameOf a :: taken) rest

theorem mem_names_firstNamed {nameOf : α → String} {name : String} {taken : List String}
    {items : List α} :
    name ∈ (firstNamed nameOf taken items).map nameOf
      ↔ name ∈ items.map nameOf ∧ name ∉ taken := by
  induction items generalizing taken with
  | nil => simp [firstNamed]
  | cons a rest ih =>
    unfold firstNamed
    by_cases ha : nameOf a ∈ taken
    · rw [if_pos ha, ih, List.map_cons, List.mem_cons]
      constructor
      · exact fun h => ⟨Or.inr h.1, h.2⟩
      · rintro ⟨rfl | h, hn⟩
        · exact absurd ha hn
        · exact ⟨h, hn⟩
    · rw [if_neg ha, List.map_cons, List.map_cons, List.mem_cons, List.mem_cons, ih, List.mem_cons,
        not_or]
      by_cases hname : name = nameOf a
      · simp [hname, ha]
      · simp [hname]

theorem nodup_names_firstNamed (nameOf : α → String) (taken : List String) (items : List α) :
    ((firstNamed nameOf taken items).map nameOf).Nodup := by
  induction items generalizing taken with
  | nil => exact List.nodup_nil
  | cons a rest ih =>
    unfold firstNamed
    split
    · exact ih taken
    · rw [List.map_cons, List.nodup_cons, mem_names_firstNamed]
      exact ⟨fun h => h.2 List.mem_cons_self, ih _⟩

theorem firstNamed_sublist (nameOf : α → String) (taken : List String) (items : List α) :
    (firstNamed nameOf taken items).Sublist items := by
  induction items generalizing taken with
  | nil => exact List.Sublist.refl _
  | cons a rest ih =>
    unfold firstNamed
    split
    · exact (ih taken).cons a
    · exact (ih _).cons_cons a

/-- A further item is left out if its name is taken or some item before has it. -/
theorem firstNamed_concat (nameOf : α → String) (taken : List String) (items : List α) (a : α) :
    firstNamed nameOf taken (items ++ [a])
      = firstNamed nameOf taken items
        ++ if nameOf a ∈ taken ∨ nameOf a ∈ items.map nameOf then [] else [a] := by
  induction items generalizing taken with
  | nil => by_cases h : nameOf a ∈ taken <;> simp [firstNamed, h]
  | cons b rest ih =>
    rw [List.cons_append, firstNamed, firstNamed]
    by_cases hb : nameOf b ∈ taken
    · have hiff : (nameOf a ∈ taken ∨ nameOf a ∈ rest.map nameOf)
          ↔ nameOf a ∈ taken ∨ nameOf a ∈ (b :: rest).map nameOf := by
        rw [List.map_cons, List.mem_cons]
        constructor
        · exact Or.imp_right Or.inr
        · rintro (h | h | h)
          · exact Or.inl h
          · exact Or.inl (h ▸ hb)
          · exact Or.inr h
      rw [if_pos hb, if_pos hb, ih]
      simp only [hiff]
    · have hiff : (nameOf a ∈ nameOf b :: taken ∨ nameOf a ∈ rest.map nameOf)
          ↔ nameOf a ∈ taken ∨ nameOf a ∈ (b :: rest).map nameOf := by
        rw [List.map_cons, List.mem_cons, List.mem_cons, or_assoc, or_left_comm]
      rw [if_neg hb, if_neg hb, ih]
      simp only [hiff, List.cons_append]

/-- Only which names are taken counts. -/
theorem firstNamed_congr {nameOf : α → String} {taken others : List String}
    (h : ∀ name, name ∈ taken ↔ name ∈ others) (items : List α) :
    firstNamed nameOf taken items = firstNamed nameOf others items := by
  induction items generalizing taken others with
  | nil => rfl
  | cons a rest ih =>
    have hcons : ∀ name, name ∈ nameOf a :: taken ↔ name ∈ nameOf a :: others := fun name => by
      rw [List.mem_cons, List.mem_cons, h]
    simp only [firstNamed, h, ih h, ih hcons]

theorem firstNamed_eq_self {nameOf : α → String} {taken : List String} {items : List α}
    (hnodup : (items.map nameOf).Nodup) (hnew : ∀ a ∈ items, nameOf a ∉ taken) :
    firstNamed nameOf taken items = items := by
  induction items generalizing taken with
  | nil => rfl
  | cons a rest ih =>
    rw [List.map_cons, List.nodup_cons] at hnodup
    rw [firstNamed, if_neg (hnew a List.mem_cons_self)]
    refine congrArg (a :: ·) (ih hnodup.2 fun b hb => ?_)
    rw [List.mem_cons, not_or]
    refine ⟨fun h => hnodup.1 ?_, hnew b (List.mem_cons_of_mem _ hb)⟩
    rw [← h]
    exact List.mem_map_of_mem hb

namespace Document

/-- **A name goes to the first node that has it.**  `add` is what a declaration does when its name
is new. -/
theorem fst_declareAll {declare : Document → Nat → Node → Document × List Diagnostic}
    {ofNode? : Node → Option α} {nameOf : α → String} {add : Document → α → Document}
    (hdeclare : ∀ doc index node, (declare doc index node).1
      = (ofNode? node).elim doc fun a =>
          if doc.hasTypeName (nameOf a) then doc else add doc a)
    (hadd : ∀ doc a name,
      (add doc a).hasTypeName name = true ↔ doc.hasTypeName name = true ∨ name = nameOf a)
    (nodes : List Node) (index : Nat) {doc : Document} {taken : List String}
    (htaken : ∀ name, doc.hasTypeName name = true ↔ name ∈ taken) :
    (declareAll declare index doc nodes).1
      = (firstNamed nameOf taken (nodes.filterMap ofNode?)).foldl add doc := by
  induction nodes generalizing index doc taken with
  | nil => rfl
  | cons node rest ih =>
    have hfirst := hdeclare doc index node
    cases hn : ofNode? node with
    | none =>
      rw [hn, Option.elim_none] at hfirst
      rw [declareAll, hfirst, List.filterMap_cons_none hn]
      exact ih (index + 1) htaken
    | some a =>
      rw [hn, Option.elim_some] at hfirst
      rw [declareAll, hfirst, List.filterMap_cons_some hn, firstNamed]
      by_cases hm : nameOf a ∈ taken
      · rw [if_pos hm, if_pos ((htaken _).2 hm)]
        exact ih (index + 1) htaken
      · rw [if_neg hm, if_neg (mt (htaken _).1 hm), List.foldl_cons]
        refine ih (index + 1) fun name => ?_
        rw [hadd, htaken, List.mem_cons, or_comm]

/-- **Where every name is new, each node is reported on by itself.** -/
theorem snd_declareAll_of_new {declare : Document → Nat → Node → Document × List Diagnostic}
    {ofNode? : Node → Option α} {nameOf : α → String} {add : Document → α → Document}
    {reports : Nat → Node → List Diagnostic}
    (hdeclare : ∀ doc index node, (declare doc index node).1
      = (ofNode? node).elim doc fun a =>
          if doc.hasTypeName (nameOf a) then doc else add doc a)
    (hadd : ∀ doc a name,
      (add doc a).hasTypeName name = true ↔ doc.hasTypeName name = true ∨ name = nameOf a)
    (hreports : ∀ doc index node,
      (∀ a, ofNode? node = some a → ¬ doc.hasTypeName (nameOf a) = true) →
        (declare doc index node).2 = reports index node)
    {nodes : List Node} {index : Nat} {doc : Document}
    (hnodup : ((nodes.filterMap ofNode?).map nameOf).Nodup)
    (hnew : ∀ a ∈ nodes.filterMap ofNode?, ¬ doc.hasTypeName (nameOf a) = true) :
    (declareAll declare index doc nodes).2
      = (nodes.mapIdx fun j node => reports (index + j) node).flatten := by
  induction nodes generalizing index doc with
  | nil => rfl
  | cons node rest ih =>
    have hfirst := hdeclare doc index node
    have hhead : (declare doc index node).2 = reports index node :=
      hreports doc index node fun a ha =>
        hnew a (List.mem_filterMap.2 ⟨node, List.mem_cons_self, ha⟩)
    have htail : (declareAll declare (index + 1) (declare doc index node).1 rest).2
        = (rest.mapIdx fun j node => reports (index + 1 + j) node).flatten := by
      -- behind a node the names of the others are still new, for it declares another one
      cases hn : ofNode? node with
      | none =>
        rw [hn, Option.elim_none] at hfirst
        rw [List.filterMap_cons_none hn] at hnodup hnew
        rw [hfirst]
        exact ih hnodup hnew
      | some a =>
        rw [List.filterMap_cons_some hn] at hnodup hnew
        rw [List.map_cons, List.nodup_cons] at hnodup
        rw [hn, Option.elim_some, if_neg (hnew a List.mem_cons_self)] at hfirst
        rw [hfirst]
        refine ih hnodup.2 fun b hb => ?_
        rw [hadd, not_or]
        refine ⟨hnew b (List.mem_cons_of_mem _ hb), fun hname => hnodup.1 ?_⟩
        rw [← hname]
        exact List.mem_map_of_mem hb
    rw [declareAll, hhead, htail, List.mapIdx_cons, List.flatten_cons]
    simp only [Nat.add_zero, Nat.add_assoc, Nat.add_comm 1]

/-- Declarations that are put behind the others change nothing else. -/
theorem foldl_withEnum (es : List EnumDecl) (doc : Document) :
    (es.foldl withEnum doc).nameSpace = doc.nameSpace
      ∧ (es.foldl withEnum doc).enums.items = doc.enums.items ++ es
      ∧ (es.foldl withEnum doc).classes = doc.classes := by
  induction es generalizing doc with
  | nil => exact ⟨rfl, (List.append_nil _).symm, rfl⟩
  | cons e rest ih =>
    obtain ⟨hspace, hitems, hclasses⟩ := ih (doc.withEnum e)
    refine ⟨hspace, hitems.trans ?_, hclasses⟩
    rw [withEnum, Registry.items_add, List.append_assoc, List.singleton_append]

theorem foldl_withClass (cs : List ClassDecl) (doc : Document) :
    (cs.foldl withClass doc).nameSpace = doc.nameSpace
      ∧ (cs.foldl withClass doc).enums = doc.enums
      ∧ (cs.foldl withClass doc).classes.items = doc.classes.items ++ cs := by
  induction cs generalizing doc with
  | nil => exact ⟨rfl, rfl, (List.append_nil _).symm⟩
  | cons c rest ih =>
    obtain ⟨hspace, henums, hitems⟩ := ih (doc.withClass c)
    refine ⟨hspace, henums, hitems.trans ?_⟩
    rw [withClass, Registry.items_add, List.append_assoc, List.singleton_append]

/-- The enums among the children of a root whose name no enum before has. -/
def declaredEnums (root : Node) : List EnumDecl :=
  firstNamed EnumDecl.name [] ((root.childrenTagged "Enum").filterMap EnumDecl.ofNode?)

/-- The classes among the children of a root whose name no enum and no class before has. -/
def declaredClasses (root : Node) : List ClassDecl :=
  firstNamed ClassDecl.name ((declaredEnums root).map EnumDecl.name)
    ((root.childrenTagged "Class").filterMap ClassDecl.ofNode?)

/-- The document of a tree before its classes. -/
def ofEnums (root : Node) : Document × List Diagnostic :=
  declareAll declareEnum 0 (empty (Text.trim (textOf root "namespace")))
    (root.childrenTagged "Enum")

theorem hasTypeName_empty (nameSpace name : String) :
    (empty nameSpace).hasTypeName name = true ↔ name ∈ [] := by
  simp [hasTypeName_eq_true_iff, empty]

theorem fst_ofEnums (root : Node) :
    (ofEnums root).1
      = (declaredEnums root).foldl withEnum (empty (Text.trim (textOf root "namespace"))) :=
  fst_declareAll fst_declareEnum hasTypeName_withEnum _ _ (hasTypeName_empty _)

theorem wellNamed_ofEnums (root : Node) : (ofEnums root).1.WellNamed :=
  declareAll_keeps (fun _ index node h => h.declareEnum index node) _ _ (wellNamed_empty _)

theorem enumItems_ofEnums (root : Node) : (ofEnums root).1.enums.items = declaredEnums root := by
  rw [fst_ofEnums, (foldl_withEnum _ _).2.1]
  rfl

theorem hasTypeName_ofEnums {root : Node} (name : String) :
    (ofEnums root).1.hasTypeName name = true ↔ name ∈ (declaredEnums root).map EnumDecl.name := by
  have hclasses : (ofEnums root).1.classes = .empty := by
    rw [fst_ofEnums, (foldl_withEnum _ _).2.2]
    rfl
  rw [hasTypeName_eq_true_iff, (wellNamed_ofEnums root).enums.names_eq, enumItems_ofEnums,
    hclasses]
  exact or_iff_left List.not_mem_nil

theorem fst_ofNode_eq_foldl (root : Node) :
    (ofNode root).1 = (declaredClasses root).foldl withClass (ofEnums root).1 :=
  fst_declareAll fst_declareClass hasTypeName_withClass _ _ hasTypeName_ofEnums

theorem enumItems_ofNode (root : Node) : (ofNode root).1.enums.items = declaredEnums root := by
  rw [fst_ofNode_eq_foldl, (foldl_withClass _ _).2.1, enumItems_ofEnums]

theorem items_ofNode (root : Node) : (ofNode root).1.classes.items = declaredClasses root := by
  rw [fst_ofNode_eq_foldl, (foldl_withClass _ _).2.2, fst_ofEnums, (foldl_withEnum _ _).2.2]
  rfl

/-- **The document of a tree holds what the tree declares**, each under its own name. -/
theorem fst_ofNode (root : Node) :
    (ofNode root).1
      = { nameSpace := Text.trim (textOf root "namespace")
          enums := .ofItems EnumDecl.name (declaredEnums root)
          classes := .ofItems ClassDecl.name (declaredClasses root) } := by
  have hspace : (ofNode root).1.nameSpace = Text.trim (textOf root "namespace") := by
    rw [fst_ofNode_eq_foldl, (foldl_withClass _ _).1, fst_ofEnums, (foldl_withEnum _ _).1]
    rfl
  have hnamed := wellNamed_ofNode root
  rw [← hspace, ← enumItems_ofNode, ← items_ofNode, ← hnamed.enums.eq_ofItems,
    ← hnamed.classes.eq_ofItems]

/-! ### Names that are all distinct -/

theorem snd_declareEnum_of_new {doc : Document} {index : Nat} {node : Node}
    (h : ∀ e, EnumDecl.ofNode? node = some e → ¬ doc.hasTypeName e.name = true) :
    (doc.declareEnum index node).2 = enumReports index node := by
  unfold declareEnum
  cases he : EnumDecl.ofNode? node with
  | none => rfl
  | some e => simp only [addEnum?, if_neg (h e he)]

theorem snd_declareClass_of_new {doc : Document} {index : Nat} {node : Node}
    (h : ∀ c, ClassDecl.ofNode? node = some c → ¬ doc.hasTypeName c.name = true) :
    (doc.declareClass index node).2 = classReports index node := by
  unfold declareClass
  cases hc : ClassDecl.ofNode? node with
  | none => rfl
  | some c => simp only [addClass?, if_neg (h c hc)]

/-- The names that the enums and the classes among the children of a root have. -/
def givenNames (root : Node) : List String :=
  (root.childrenTagged "Enum" ++ root.childrenTagged "Class").filterMap (·.filledAttr? "name")

theorem givenNames_eq (root : Node) :
    givenNames root
      = ((root.childrenTagged "Enum").filterMap EnumDecl.ofNode?).map EnumDecl.name
        ++ ((root.childrenTagged "Class").filterMap ClassDecl.ofNode?).map ClassDecl.name := by
  rw [givenNames, List.filterMap_append, List.map_filterMap, List.map_filterMap]
  simp only [map_name_enum, map_name_class]

section Distinct

variable {root : Node} (h : (givenNames root).Nodup)

include h

theorem declaredEnums_of_nodup :
    declaredEnums root = (root.childrenTagged "Enum").filterMap EnumDecl.ofNode? := by
  rw [givenNames_eq, List.nodup_append] at h
  exact firstNamed_eq_self h.1 fun _ _ => List.not_mem_nil

theorem declaredClasses_of_nodup :
    declaredClasses root = (root.childrenTagged "Class").filterMap ClassDecl.ofNode? := by
  rw [declaredClasses, declaredEnums_of_nodup h]
  rw [givenNames_eq, List.nodup_append] at h
  exact firstNamed_eq_self h.2.1 fun c hc hm => h.2.2 _ hm _ (List.mem_map_of_mem hc) rfl

/-- If no name is given twice, each declaration is reported on by itself. -/
theorem snd_ofNode_of_nodup :
    (ofNode root).2
      = ((root.childrenTagged "Enum").mapIdx enumReports).flatten
        ++ ((root.childrenTagged "Class").mapIdx classReports).flatten := by
  have hdeclared := declaredEnums_of_nodup h
  rw [givenNames_eq, List.nodup_append] at h
  have henums : (ofEnums root).2
      = ((root.childrenTagged "Enum").mapIdx fun j node => enumReports (0 + j) node).flatten :=
    snd_declareAll_of_new fst_declareEnum hasTypeName_withEnum
      (fun _ _ _ => snd_declareEnum_of_new) h.1 fun e _ => by
        rw [hasTypeName_empty]
        exact List.not_mem_nil
  have hclasses : (declareAll declareClass 0 (ofEnums root).1 (root.childrenTagged "Class")).2
      = ((root.childrenTagged "Class").mapIdx fun j node => classReports (0 + j) node).flatten :=
    snd_declareAll_of_new fst_declareClass hasTypeName_withClass
      (fun _ _ _ => snd_declareClass_of_new) h.2.1 fun c hc => by
        rw [hasTypeName_ofEnums, hdeclared]
        exact fun hm => h.2.2 _ hm _ (List.mem_map_of_mem hc) rfl
  simp only [Nat.zero_add] at henums hclasses
  rw [← henums, ← hclasses]
  rfl

end Distinct

end Document

end SchemaBinding.Schema
