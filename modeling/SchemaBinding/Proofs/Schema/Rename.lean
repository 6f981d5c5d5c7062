import SchemaBinding.Proofs.Schema.Names
import Mathlib.Logic.Equiv.Basic

/-!
# Trees under other names

A `Renaming` takes no two names to one and leaves the words that have a meaning of their own.
`renameRoot` writes the new names into a tree wherever it names an enum or a class: at the
declarations, at the bases and at the end of the types of members.

* `parse_renameType`: a type string is read as before, but for the word at its end.
* `ofNode?_renameEnum`, `ofNode_renameData`, `ofNode?_renameClass`: a node declares what it declared
  before, with the new names; a declaration with a code keeps it.
-/

namespace SchemaBinding

/-! ### Attributes -/

def Node.mapAttr (key : String) (change : String → String) (n : Node) : Node :=
  { n with
    attributes := n.attributes.map fun pair =>
      if pair.1 = key then (pair.1, change pair.2) else pair }

namespace Node

variable {key other : String} {change : String → String}

theorem attr?_mapAttr_self (key : String) (change : String → String) (n : Node) :
    (n.mapAttr key change).attr? key = (n.attr? key).map change := by
  obtain ⟨tag, attributes, children⟩ := n
  simp only [mapAttr, attr?]
  induction attributes with
  | nil => rfl
  | cons pair rest ih =>
    obtain ⟨k, v⟩ := pair
    rw [List.map_cons]
    by_cases h : k = key
    · simp [h]
    · simp [h, List.lookup_cons, beq_false_of_ne (Ne.symm h), ih]

theorem attr?_mapAttr_of_ne (h : other ≠ key) (change : String → String) (n : Node) :
    (n.mapAttr key change).attr? other = n.attr? other := by
  obtain ⟨tag, attributes, children⟩ := n
  simp only [mapAttr, attr?]
  induction attributes with
  | nil => rfl
  | cons pair rest ih =>
    obtain ⟨k, v⟩ := pair
    rw [List.map_cons, List.lookup_cons]
    by_cases hk : k = key
    · simp [hk, List.lookup_cons, beq_false_of_ne h, ih]
    · simp [hk, List.lookup_cons, ih]

theorem filledAttr?_mapAttr_self (hempty : ∀ value, change value = "" ↔ value = "")
    (key : String) (n : Node) :
    (n.mapAttr key change).filledAttr? key = (n.filledAttr? key).map change := by
  rw [filledAttr?, filledAttr?, attr?_mapAttr_self]
  cases n.attr? key with
  | none => rfl
  | some value => by_cases h : value = "" <;> simp [Option.filter_some, h, hempty]

theorem filledAttr?_mapAttr_of_ne (h : other ≠ key) (change : String → String) (n : Node) :
    (n.mapAttr key change).filledAttr? other = n.filledAttr? other := by
  rw [filledAttr?, filledAttr?, attr?_mapAttr_of_ne h]

/-- A change of the children that keeps their tags is one of the children with a tag. -/
theorem childrenTagged_map {change : Node → Node} (htag : ∀ child, (change child).tag = child.tag)
    (n : Node) (tag : String) :
    ({ n with children := n.children.map change } : Node).childrenTagged tag
      = (n.childrenTagged tag).map change := by
  rw [childrenTagged, childrenTagged, List.filter_map]
  simp only [Function.comp_def, htag]

end Node

namespace Schema

/-! ### Renamings -/

/-- A word as it may stand at the end of a type string: trimmed and without colons. -/
def IsWord (s : String) : Prop := Text.trim s = s ∧ ':' ∉ s.toList

instance (s : String) : Decidable (IsWord s) :=
  inferInstanceAs (Decidable (Text.trim s = s ∧ ':' ∉ s.toList))

/-- A map of names that takes no two to one, leaves what means something in a type string, and makes
words of words. -/
structure Renaming (r : String → String) : Prop where
  injective : r.Injective
  empty : r "" = ""
  keyword : ∀ p : Primitive, r p.keyword = p.keyword
  array : r "array" = "array"
  reference : r "reference" = "reference"
  owned : r "instance" = "instance"
  word : ∀ s, IsWord s → IsWord (r s)

namespace Renaming

variable {r : String → String} (h : Renaming r)

include h

/-- Only a fixed word becomes one. -/
theorem eq_iff {fixed : String} (hfixed : r fixed = fixed) (s : String) :
    r s = fixed ↔ s = fixed := by
  constructor
  · exact fun hs => h.injective (hs.trans hfixed.symm)
  · rintro rfl
    exact hfixed

theorem eq_empty_iff (s : String) : r s = "" ↔ s = "" := h.eq_iff h.empty s

theorem ofKeyword? (s : String) : Primitive.ofKeyword? (r s) = Primitive.ofKeyword? s := by
  refine Option.ext fun p => ?_
  rw [Primitive.ofKeyword?_eq_some_iff, Primitive.ofKeyword?_eq_some_iff,
    h.eq_iff (h.keyword p)]

end Renaming

/-- Two words may trade their meanings, if they have none of their own. -/
theorem renaming_swap {a b : String} (ha : IsWord a) (hb : IsWord b)
    (hfixed : ∀ word ∈ ["", "string", "int", "float", "bool", "array", "reference", "instance"],
      word ≠ a ∧ word ≠ b) : Renaming (Equiv.swap a b) := by
  have hkeep : ∀ word ∈ ["", "string", "int", "float", "bool", "array", "reference", "instance"],
      Equiv.swap a b word = word := fun word hword =>
    Equiv.swap_apply_of_ne_of_ne (hfixed word hword).1 (hfixed word hword).2
  exact
    { injective := (Equiv.swap a b).injective
      empty := hkeep _ (by decide)
      keyword := fun p => hkeep _ (by cases p <;> decide)
      array := hkeep _ (by decide)
      reference := hkeep _ (by decide)
      owned := hkeep _ (by decide)
      word := fun s hs => by
        rw [Equiv.swap_apply_def]
        split
        · exact hb
        · split
          · exact ha
          · exact hs }

/-! ### Type strings -/

/-- What stands before the last colon of a type string, piece by piece. -/
def typeFlags (text : String) : List (List Char) := (Text.fields ':' text.toList).dropLast

/-- What stands behind the last colon of a type string. -/
def typeWord (text : String) : String :=
  String.ofList ((Text.fields ':' text.toList).getLast?.getD [])

/-- A type string with another word at its end. -/
def renameType (r : String → String) (text : String) : String :=
  String.ofList ((typeFlags text).flatMap (· ++ [':']) ++ (r (typeWord text)).toList)

def TypeSpec.rename (r : String → String) (spec : TypeSpec) : TypeSpec :=
  { spec with base := r spec.base }

theorem fields_eq (text : String) :
    Text.fields ':' text.toList = typeFlags text ++ [(typeWord text).toList] := by
  have hne := Text.fields_ne_nil ':' text.toList
  rw [typeFlags, typeWord, String.toList_ofList, List.getLast?_eq_some_getLast hne,
    Option.getD_some, List.dropLast_concat_getLast]

theorem notMem_typeFlags (text : String) : ∀ f ∈ typeFlags text, ':' ∉ f := fun _ hf =>
  Text.notMem_of_mem_fields (List.dropLast_subset _ hf)

theorem tokens_eq {text : String} (hword : IsWord (typeWord text)) :
    TypeSpec.tokens text
      = (typeFlags text).map (fun f => String.ofList (Text.trimList f)) ++ [typeWord text] := by
  rw [TypeSpec.tokens, fields_eq, List.map_append, List.map_singleton]
  exact congrArg (_ ++ [·]) hword.1

section Types

variable {r : String → String} (h : Renaming r) {text : String} (hword : IsWord (typeWord text))

include h hword

theorem typeFlags_renameType : typeFlags (renameType r text) = typeFlags text := by
  have hcut := Text.fields_flatMap (notMem_typeFlags text) (h.word _ hword).2
  rw [typeFlags, renameType, String.toList_ofList, hcut, List.dropLast_concat]

theorem typeWord_renameType : typeWord (renameType r text) = r (typeWord text) := by
  have hcut := Text.fields_flatMap (notMem_typeFlags text) (h.word _ hword).2
  rw [typeWord, renameType, String.toList_ofList, hcut, List.getLast?_concat, Option.getD_some,
    String.ofList_toList]

/-- **A type string is read as before**, but for the word at its end. -/
theorem parse_renameType : TypeSpec.parse (renameType r text) = (TypeSpec.parse text).rename r := by
  have hword' : IsWord (typeWord (renameType r text)) := by
    rw [typeWord_renameType h hword]
    exact h.word _ hword
  have htokens := tokens_eq hword'
  rw [typeFlags_renameType h hword, typeWord_renameType h hword] at htokens
  have hcontains : ∀ flag, r flag = flag →
      (TypeSpec.tokens (renameType r text)).contains flag
        = (TypeSpec.tokens text).contains flag := by
    intro flag hflag
    rw [htokens, tokens_eq hword, List.contains_eq_mem, List.contains_eq_mem, decide_eq_decide,
      List.mem_append, List.mem_append, List.mem_singleton, List.mem_singleton,
      eq_comm (a := flag), h.eq_iff hflag, eq_comm (a := flag)]
  rw [TypeSpec.parse, TypeSpec.parse, TypeSpec.rename, hcontains _ h.array,
    hcontains _ h.reference, hcontains _ h.owned, htokens, tokens_eq hword,
    List.getLast?_concat, List.getLast?_concat]
  rfl

omit hword

theorem renameType_eq_empty_iff (text : String) : renameType r text = "" ↔ text = "" := by
  constructor
  · intro hempty
    have hnil := congrArg String.toList hempty
    rw [renameType, String.toList_ofList, String.toList_empty, List.append_eq_nil_iff,
      List.flatMap_eq_nil_iff, String.toList_eq_nil_iff, h.eq_empty_iff] at hnil
    have hflags : typeFlags text = [] := List.eq_nil_iff_forall_not_mem.2 fun f hf => by
      simpa using hnil.1 f hf
    have hfields := fields_eq text
    rw [hflags, hnil.2] at hfields
    exact String.toList_eq_nil_iff.1 (Text.eq_nil_of_fields hfields)
  · rintro rfl
    have hword : typeWord "" = "" := rfl
    rw [renameType, hword, h.empty]
    rfl

end Types

/-! ### Trees -/

/-- A member node with another word at the end of its type. -/
def renameData (r : String → String) (node : Node) : Node := node.mapAttr "type" (renameType r)

def renameEnum (r : String → String) (node : Node) : Node := node.mapAttr "name" r

/-- A class node under another name, with other names for its base and in its types. -/
def renameClass (r : String → String) (node : Node) : Node :=
  let renamed := (node.mapAttr "name" r).mapAttr "base" r
  { renamed with
    children := renamed.children.map fun child =>
      if child.tag = "Data" then renameData r child else child }

/-- A tree whose enums and classes have other names wherever they are named. -/
def renameRoot (r : String → String) (root : Node) : Node :=
  { root with
    children := root.children.map fun child =>
      if child.tag = "Enum" then renameEnum r child
      else if child.tag = "Class" then renameClass r child
      else child }

theorem childrenTagged_renameClass (r : String → String) (node : Node) (tag : String) :
    (renameClass r node).childrenTagged tag
      = (node.childrenTagged tag).map fun child =>
        if child.tag = "Data" then renameData r child else child := by
  refine Node.childrenTagged_map (fun child => ?_) node tag
  split <;> rfl

theorem data_renameClass (r : String → String) (node : Node) :
    (renameClass r node).childrenTagged "Data"
      = (node.childrenTagged "Data").map (renameData r) := by
  rw [childrenTagged_renameClass]
  exact List.map_congr_left fun child hc => if_pos (of_decide_eq_true (List.mem_filter.1 hc).2)

theorem childrenTagged_renameClass_of_ne (r : String → String) (node : Node) {tag : String}
    (h : tag ≠ "Data") : (renameClass r node).childrenTagged tag = node.childrenTagged tag := by
  rw [childrenTagged_renameClass]
  refine (List.map_congr_left fun child hc => if_neg ?_).trans (List.map_id _)
  rwa [of_decide_eq_true (List.mem_filter.1 hc).2]

theorem childrenTagged_renameRoot (r : String → String) (root : Node) (tag : String) :
    (renameRoot r root).childrenTagged tag
      = (root.childrenTagged tag).map fun child =>
        if child.tag = "Enum" then renameEnum r child
        else if child.tag = "Class" then renameClass r child
        else child := by
  refine Node.childrenTagged_map (fun child => ?_) root tag
  split
  · rfl
  · split <;> rfl

theorem enums_renameRoot (r : String → String) (root : Node) :
    (renameRoot r root).childrenTagged "Enum"
      = (root.childrenTagged "Enum").map (renameEnum r) := by
  rw [childrenTagged_renameRoot]
  exact List.map_congr_left fun child hc => if_pos (of_decide_eq_true (List.mem_filter.1 hc).2)

theorem classes_renameRoot (r : String → String) (root : Node) :
    (renameRoot r root).childrenTagged "Class"
      = (root.childrenTagged "Class").map (renameClass r) := by
  rw [childrenTagged_renameRoot]
  refine List.map_congr_left fun child hc => ?_
  have htag : child.tag = "Class" := of_decide_eq_true (List.mem_filter.1 hc).2
  rw [if_neg (by rw [htag]; decide), if_pos htag]

/-- A tree that says nothing by its names: what is declared has a code, and bases and the ends of
types are words. -/
structure Coded (root : Node) : Prop where
  code : ∀ node ∈ root.childrenTagged "Enum" ++ root.childrenTagged "Class",
    node.filledAttr? "code" ≠ none
  base : ∀ node ∈ root.childrenTagged "Class", IsWord (textOf node "base")
  type : ∀ node ∈ root.childrenTagged "Class", ∀ data ∈ node.childrenTagged "Data",
    IsWord (typeWord (textOf data "type"))

/-! ### Declarations -/

def EnumDecl.rename (r : String → String) (e : EnumDecl) : EnumDecl := { e with name := r e.name }

def Category.rename (r : String → String) : Category → Category
  | .primitive p => .primitive p
  | .enumeration name => .enumeration (r name)
  | .object name ownership => .object (r name) ownership

def Resolution.rename (r : String → String) (resolution : Resolution) : Resolution :=
  { resolution with category := resolution.category.rename r }

def Member.rename (r : String → String) (m : Member) : Member :=
  { m with type := m.type.rename r, resolution? := m.resolution?.map (Resolution.rename r) }

def ClassDecl.rename (r : String → String) (c : ClassDecl) : ClassDecl :=
  { c with
    name := r c.name
    base := r c.base
    members := c.members.map (Member.rename r)
    parent? := c.parent?.map r }

theorem codeOf_eq {node renamed : Node} (hcode : node.filledAttr? "code" ≠ none)
    (heq : renamed.filledAttr? "code" = node.filledAttr? "code") (name name' : String) :
    codeOf renamed name' = codeOf node name := by
  obtain ⟨code, hcode⟩ := Option.ne_none_iff_exists'.1 hcode
  rw [codeOf, codeOf, heq, hcode]
  rfl

theorem attr?_renameClass_of_ne (r : String → String) (node : Node) {key : String}
    (hname : key ≠ "name") (hbase : key ≠ "base") :
    (renameClass r node).attr? key = node.attr? key := by
  rw [← Node.attr?_mapAttr_of_ne hname r node]
  exact Node.attr?_mapAttr_of_ne hbase r (node.mapAttr "name" r)

theorem filledAttr?_renameClass_of_ne (r : String → String) (node : Node) {key : String}
    (hname : key ≠ "name") (hbase : key ≠ "base") :
    (renameClass r node).filledAttr? key = node.filledAttr? key := by
  rw [Node.filledAttr?, Node.filledAttr?, attr?_renameClass_of_ne r node hname hbase]

section Declarations

variable {r : String → String} (h : Renaming r) {node : Node}

include h

theorem ofNode?_renameEnum (hcode : node.filledAttr? "code" ≠ none) :
    EnumDecl.ofNode? (renameEnum r node) = (EnumDecl.ofNode? node).map (EnumDecl.rename r) := by
  have hsame : (renameEnum r node).filledAttr? "code" = node.filledAttr? "code" :=
    Node.filledAttr?_mapAttr_of_ne (by decide) r node
  have hname : (renameEnum r node).filledAttr? "name" = (node.filledAttr? "name").map r :=
    Node.filledAttr?_mapAttr_self h.eq_empty_iff "name" node
  rw [EnumDecl.ofNode?, EnumDecl.ofNode?, hname, Option.map_map, Option.map_map]
  congr 1
  funext name
  simp only [Function.comp_apply, EnumDecl.rename, codeOf_eq hcode hsame name (r name)]
  rfl

theorem ofNode_renameData (hword : IsWord (typeWord (textOf node "type"))) :
    Member.ofNode (renameData r node) = (Member.ofNode node).rename r := by
  have hother : ∀ key, key ≠ "type" → (renameData r node).attr? key = node.attr? key :=
    fun key hkey => Node.attr?_mapAttr_of_ne hkey _ node
  have hfilled : ∀ key, key ≠ "type" → (renameData r node).filledAttr? key = node.filledAttr? key :=
    fun key hkey => Node.filledAttr?_mapAttr_of_ne hkey _ node
  have htype : (renameData r node).filledAttr? "type"
      = (node.filledAttr? "type").map (renameType r) :=
    Node.filledAttr?_mapAttr_self (renameType_eq_empty_iff h) "type" node
  have hspec : (((node.filledAttr? "type").map (renameType r)).map TypeSpec.parse).getD .none
      = (((node.filledAttr? "type").map TypeSpec.parse).getD .none).rename r := by
    cases hfound : node.filledAttr? "type" with
    | none =>
      rw [TypeSpec.rename]
      simp [TypeSpec.none, h.empty]
    | some text =>
      rw [textOf_of_filledAttr? hfound] at hword
      exact parse_renameType h hword
  rw [Member.ofNode, Member.ofNode, Member.rename, hfilled "name" (by decide), htype, hspec]
  simp only [codeOf, textOf, hfilled "code" (by decide), hother "default" (by decide)]
  rfl

theorem filledAttr?_name_renameClass :
    (renameClass r node).filledAttr? "name" = (node.filledAttr? "name").map r := by
  rw [← Node.filledAttr?_mapAttr_self h.eq_empty_iff "name" node]
  exact Node.filledAttr?_mapAttr_of_ne (by decide) r (node.mapAttr "name" r)

theorem textOf_base_renameClass :
    textOf (renameClass r node) "base" = r (textOf node "base") := by
  have hbase : (renameClass r node).attr? "base" = (node.attr? "base").map r := by
    rw [← Node.attr?_mapAttr_of_ne (by decide : "base" ≠ "name") r node]
    exact Node.attr?_mapAttr_self "base" r (node.mapAttr "name" r)
  rw [textOf, textOf, hbase]
  cases node.attr? "base" with
  | none => exact h.empty.symm
  | some base => rfl

theorem ofNode?_renameClass (hcode : node.filledAttr? "code" ≠ none)
    (hbase : IsWord (textOf node "base"))
    (htypes : ∀ data ∈ node.childrenTagged "Data", IsWord (typeWord (textOf data "type"))) :
    ClassDecl.ofNode? (renameClass r node) = (ClassDecl.ofNode? node).map (ClassDecl.rename r) := by
  have hcodeOf := codeOf_eq hcode (filledAttr?_renameClass_of_ne r node (by decide) (by decide))
  have hkind : kindOf (renameClass r node) = kindOf node := by
    rw [kindOf, kindOf, filledAttr?_renameClass_of_ne r node (by decide) (by decide)]
  have habstract : abstractOf (renameClass r node) = abstractOf node := by
    rw [abstractOf, abstractOf, attr?_renameClass_of_ne r node (by decide) (by decide)]
  have hbase' : Text.trim (textOf (renameClass r node) "base")
      = r (Text.trim (textOf node "base")) := by
    rw [textOf_base_renameClass h, (h.word _ hbase).1, hbase.1]
  have hmembers : ((renameClass r node).childrenTagged "Data").map Member.ofNode
      = ((node.childrenTagged "Data").map Member.ofNode).map (Member.rename r) := by
    rw [data_renameClass, List.map_map, List.map_map]
    exact List.map_congr_left fun data hdata => ofNode_renameData h (htypes data hdata)
  rw [ClassDecl.ofNode?, ClassDecl.ofNode?, filledAttr?_name_renameClass h, Option.map_map,
    Option.map_map]
  congr 1
  funext name
  simp only [Function.comp_apply, ClassDecl.rename, hcodeOf name (r name), hkind, habstract, hbase',
    hmembers, childrenTagged_renameClass_of_ne r node (by decide : "Method" ≠ "Data")]
  rfl

end Declarations

end Schema

end SchemaBinding
