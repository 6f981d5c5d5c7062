/-!
# Trees of named nodes

A `Node` has a tag, attributes and children, in the order they were written.  Attributes are a
list of pairs and not a map: a list may hold a key twice, and a look-up then finds the first.

* `attr?_setAttr_self`, `attr?_setAttr_of_ne`: what `setAttr` does to the look-up.
* `keys_setAttr`: a key keeps the place where it first appeared.
-/

namespace SchemaBinding

structure Node where
  tag : String
  attributes : List (String × String)
  children : List Node
deriving Repr, Inhabited

namespace Node

mutual

def decEq : (a b : Node) → Decidable (a = b)
  | ⟨tag, attributes, children⟩, ⟨tag', attributes', children'⟩ =>
    match decEqAll children children' with
    | isFalse h => isFalse fun e => h (Node.mk.inj e).2.2
    | isTrue hc =>
      if h : tag = tag' ∧ attributes = attributes' then
        isTrue (by rw [h.1, h.2, hc])
      else
        isFalse fun e => h ⟨(Node.mk.inj e).1, (Node.mk.inj e).2.1⟩

def decEqAll : (as bs : List Node) → Decidable (as = bs)
  | [], [] => isTrue rfl
  | [], _ :: _ => isFalse nofun
  | _ :: _, [] => isFalse nofun
  | a :: as, b :: bs =>
    match decEq a b, decEqAll as bs with
    | isTrue ha, isTrue has => isTrue (by rw [ha, has])
    | isFalse h, _ => isFalse fun e => h (List.cons.inj e).1
    | _, isFalse h => isFalse fun e => h (List.cons.inj e).2

end

instance : DecidableEq Node := decEq

def leaf (tag : String) : Node := ⟨tag, [], []⟩

/-- The value of the first attribute with this key. -/
def attr? (n : Node) (key : String) : Option String := n.attributes.lookup key

/-- The value of the first attribute with this key, if it is not empty. -/
def filledAttr? (n : Node) (key : String) : Option String :=
  (n.attr? key).filter (· ≠ "")

/-- Replaces the value at the first pair with this key, or adds the pair at the end. -/
def insertPair (key value : String) : List (String × String) → List (String × String)
  | [] => [(key, value)]
  | (k, v) :: rest => if k = key then (k, value) :: rest else (k, v) :: insertPair key value rest

/-- Sets an attribute: in place if the node has the key, at the end if not. -/
def setAttr (n : Node) (key value : String) : Node :=
  { n with attributes := insertPair key value n.attributes }

def setAttrs (n : Node) (pairs : List (String × String)) : Node :=
  pairs.foldl (fun n pair => n.setAttr pair.1 pair.2) n

def pushChild (n child : Node) : Node := { n with children := n.children ++ [child] }

def childrenTagged (n : Node) (tag : String) : List Node := n.children.filter (·.tag = tag)

def keys (n : Node) : List String := n.attributes.map Prod.fst

/-! ### Attributes as a map -/

theorem lookup_insertPair_self (key value : String) (pairs : List (String × String)) :
    (insertPair key value pairs).lookup key = some value := by
  induction pairs with
  | nil => simp [insertPair]
  | cons pair rest ih =>
    obtain ⟨k, v⟩ := pair
    by_cases h : k = key
    · subst h; simp [insertPair]
    · simp [insertPair, h, List.lookup_cons, beq_false_of_ne (Ne.symm h), ih]

theorem lookup_insertPair_of_ne {key other : String} (h : other ≠ key) (value : String)
    (pairs : List (String × String)) :
    (insertPair key value pairs).lookup other = pairs.lookup other := by
  induction pairs with
  | nil => simp [insertPair, List.lookup_cons, beq_false_of_ne h]
  | cons pair rest ih =>
    obtain ⟨k, v⟩ := pair
    by_cases hk : k = key
    · subst hk; simp [insertPair, List.lookup_cons, beq_false_of_ne h]
    · simp [insertPair, hk, List.lookup_cons, ih]

@[simp] theorem attr?_setAttr_self (n : Node) (key value : String) :
    (n.setAttr key value).attr? key = some value :=
  lookup_insertPair_self key value n.attributes

theorem attr?_setAttr_of_ne (n : Node) {key other : String} (h : other ≠ key) (value : String) :
    (n.setAttr key value).attr? other = n.attr? other :=
  lookup_insertPair_of_ne h value n.attributes

theorem keys_insertPair (key value : String) (pairs : List (String × String)) :
    (insertPair key value pairs).map Prod.fst
      = if key ∈ pairs.map Prod.fst then pairs.map Prod.fst else pairs.map Prod.fst ++ [key] := by
  induction pairs with
  | nil => simp [insertPair]
  | cons pair rest ih =>
    obtain ⟨k, v⟩ := pair
    by_cases h : k = key
    · simp [insertPair, h]
    · by_cases hr : key ∈ rest.map Prod.fst
      · simp only [insertPair, h, if_false, List.map_cons, ih, hr, if_true, List.mem_cons, or_true]
      · simp only [insertPair, h, if_false, List.map_cons, ih, hr, List.mem_cons,
          Ne.symm h, or_self, List.cons_append]

theorem keys_setAttr (n : Node) (key value : String) :
    (n.setAttr key value).keys = if key ∈ n.keys then n.keys else n.keys ++ [key] :=
  keys_insertPair key value n.attributes

end Node

end SchemaBinding
