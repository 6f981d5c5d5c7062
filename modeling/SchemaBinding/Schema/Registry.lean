/-!
# Registries

A registry holds items in the order in which they were added and, apart from them, an index that
leads from names to slots.  An item is looked up through the index, under the name it was added
with: a change of the items leaves the index alone.  Nothing in a registry says that the two fit
together, and a name may lead to a slot that no item has (`Lookup.outside`).

* `index_lead`, `index_add`: what adding does to the index.
* `lookUp_lead_length`: an item is not yet found when its name has been put into the index.
* `find?_eq`: the look-up, by the slot that the name leads to.
* `find?_map`: a change leaves the slots alone.
-/

namespace SchemaBinding.Schema

variable {α : Type}

inductive Lookup (α : Type) where
  | missing
  | found (item : α)
  /-- The name leads to a slot that no item has. -/
  | outside (slot : Nat)
deriving DecidableEq, Repr

def Lookup.item? : Lookup α → Option α
  | missing => none
  | found item => some item
  | outside _ => none

/-- Items in order, and the slots that names lead to. -/
structure Registry (α : Type) where
  items : List α
  index : List (String × Nat)
deriving DecidableEq, Repr

namespace Registry

def empty : Registry α := ⟨[], []⟩

/-- The names under which items are found. -/
def names (r : Registry α) : List String := r.index.map Prod.fst

def slot? (r : Registry α) (name : String) : Option Nat := r.index.lookup name

def lookUp (r : Registry α) (name : String) : Lookup α :=
  match r.slot? name with
  | none => .missing
  | some slot =>
    match r.items[slot]? with
    | some item => .found item
    | none => .outside slot

def find? (r : Registry α) (name : String) : Option α := (r.lookUp name).item?

def contains (r : Registry α) (name : String) : Bool := r.names.contains name

/-- Makes a name lead to a slot, wherever it led before. -/
def lead (r : Registry α) (name : String) (slot : Nat) : Registry α :=
  { r with index := r.index.filter (·.1 ≠ name) ++ [(name, slot)] }

def push (r : Registry α) (item : α) : Registry α := { r with items := r.items ++ [item] }

/-- Adds an item.  Its name leads to the slot behind the last one before the item stands there. -/
def add (r : Registry α) (name : String) (item : α) : Registry α :=
  (r.lead name r.items.length).push item

def modify (r : Registry α) (slot : Nat) (change : α → α) : Registry α :=
  { r with items := r.items.modify slot change }

def map (r : Registry α) (change : α → α) : Registry α := { r with items := r.items.map change }

@[simp] theorem names_empty : (empty : Registry α).names = [] := rfl

@[simp] theorem items_add (r : Registry α) (name : String) (item : α) :
    (r.add name item).items = r.items ++ [item] := rfl

@[simp] theorem items_map (r : Registry α) (change : α → α) :
    (r.map change).items = r.items.map change := rfl

@[simp] theorem names_map (r : Registry α) (change : α → α) : (r.map change).names = r.names := rfl

@[simp] theorem names_modify (r : Registry α) (slot : Nat) (change : α → α) :
    (r.modify slot change).names = r.names := rfl

variable {r : Registry α} {name : String}

theorem contains_eq_true_iff : r.contains name = true ↔ name ∈ r.names := by
  simp [contains]

theorem mem_names_add {other : String} {item : α} :
    other ∈ (r.add name item).names ↔ other ∈ r.names ∨ other = name := by
  by_cases h : other = name <;> simp [names, add, lead, push, h]

/-- A name that is new is put at the end of the index. -/
theorem index_lead (h : name ∉ r.names) (slot : Nat) :
    (r.lead name slot).index = r.index ++ [(name, slot)] := by
  have hkept : r.index.filter (·.1 ≠ name) = r.index := by
    rw [List.filter_eq_self]
    intro entry hentry
    rw [decide_eq_true_eq]
    rintro rfl
    exact h (List.mem_map_of_mem hentry)
  rw [lead, hkept]

theorem index_add (h : name ∉ r.names) (item : α) :
    (r.add name item).index = r.index ++ [(name, r.items.length)] :=
  index_lead h _

theorem names_add (h : name ∉ r.names) (item : α) :
    (r.add name item).names = r.names ++ [name] := by
  rw [names, index_add h, List.map_append, List.map_singleton, names]

theorem slot?_eq_none_iff : r.slot? name = none ↔ name ∉ r.names := by
  simp only [slot?, names, List.lookup_eq_none_iff, bne_iff_ne, List.mem_map, not_exists, not_and]
  exact forall₂_congr fun _ _ => ne_comm

theorem slot?_lead (h : name ∉ r.names) (slot : Nat) (other : String) :
    (r.lead name slot).slot? other = (r.slot? other).or ([(name, slot)].lookup other) := by
  rw [slot?, index_lead h, List.lookup_append, slot?]

theorem slot?_lead_self (h : name ∉ r.names) (slot : Nat) :
    (r.lead name slot).slot? name = some slot := by
  rw [slot?_lead h, slot?_eq_none_iff.2 h, List.lookup_cons_self, Option.none_or]

theorem slot?_lead_of_ne (h : name ∉ r.names) (slot : Nat) {other : String} (hne : other ≠ name) :
    (r.lead name slot).slot? other = r.slot? other := by
  rw [slot?_lead h, List.lookup_cons, beq_false_of_ne hne, List.lookup_nil, Option.or_none]

theorem lookUp_of_missing (h : r.slot? name = none) : r.lookUp name = .missing := by
  rw [lookUp, h]

theorem lookUp_of_slot {slot : Nat} (h : r.slot? name = some slot) :
    r.lookUp name = (r.items[slot]?).elim (.outside slot) .found := by
  rw [lookUp, h]
  dsimp only
  cases r.items[slot]? <;> rfl

/-- **Between the two halves of adding, the name leads to a slot that no item has.** -/
theorem lookUp_lead_length (h : name ∉ r.names) :
    (r.lead name r.items.length).lookUp name = .outside r.items.length := by
  rw [lookUp_of_slot (slot?_lead_self h _), lead, List.getElem?_eq_none (Nat.le_refl _)]
  rfl

theorem find?_of_found {item : α} (h : r.lookUp name = .found item) : r.find? name = some item := by
  rw [find?, h, Lookup.item?]

theorem find?_eq (r : Registry α) (name : String) :
    r.find? name = (r.slot? name).bind fun slot => r.items[slot]? := by
  cases hslot : r.slot? name with
  | none =>
    rw [find?, lookUp_of_missing hslot]
    rfl
  | some slot =>
    rw [find?, lookUp_of_slot hslot, Option.bind_some]
    cases r.items[slot]? <;> rfl

theorem find?_map (r : Registry α) (change : α → α) (name : String) :
    (r.map change).find? name = (r.find? name).map change := by
  rw [find?_eq, find?_eq, items_map, Option.map_bind]
  exact congrArg _ (funext fun slot => List.getElem?_map ..)

theorem mem_items_of_find? {item : α} (h : r.find? name = some item) : item ∈ r.items := by
  rw [find?_eq, Option.bind_eq_some_iff] at h
  obtain ⟨slot, -, hitem⟩ := h
  exact List.mem_of_getElem? hitem

end Registry

end SchemaBinding.Schema
