import SchemaBinding.Proofs.Schema.Rename

/-!
# Documents under other names

Names are only looked up and compared, so declarations are read under other names as they are read
under their own: what is found has the new names, and what is reported is reported at the same place
in the list with the new names.

* `find?_rename`: what is found under a name is found under the new one.
* `declareAll_rename`: what holds of each declaration holds of all of them.
* `ofNode_renameRoot`: the document of a renamed tree, and what is wrong with its declarations.
-/

namespace SchemaBinding

/-! ### Diagnostics -/

/-- A problem under other names.  Of the attribute values that are reported only a base is a
name. -/
def Problem.rename (r : String → String) : Problem → Problem
  | missingAttribute element key => missingAttribute element key
  | invalidAttribute element key value =>
    invalidAttribute element key (if key = "base" then r value else value)
  | duplicateType name => duplicateType (r name)
  | unresolvedReference member typeName => unresolvedReference member (r typeName)
  | unknownType member typeName => unknownType member (r typeName)
  | cyclicBase path => cyclicBase (path.map r)
  | unresolvedBase base => unresolvedBase (r base)
  | emptyEnum name => emptyEnum (r name)
  | unknownEnumValue enumName value => unknownEnumValue (r enumName) value

def Location.rename (r : String → String) : Location → Location
  | document => document
  | enumeration index name => enumeration index (r name)
  | classAt index name => classAt index (r name)
  | method owner index => method (r owner) index
  | member owner index name => member (r owner) index name

def Diagnostic.rename (r : String → String) (d : Diagnostic) : Diagnostic :=
  ⟨d.severity, d.problem.rename r, d.location.rename r⟩

theorem Diagnostic.isFatal_rename (r : String → String) (d : Diagnostic) :
    (d.rename r).isFatal = d.isFatal := by
  obtain ⟨severity, problem, location⟩ := d
  cases problem <;> rfl

namespace Schema

/-! ### Registries -/

def Registry.rename {α : Type} (r : String → String) (change : α → α) (reg : Registry α) :
    Registry α :=
  ⟨reg.items.map change, reg.index.map fun entry => (r entry.1, entry.2)⟩

section Registries

variable {α : Type} {r : String → String} (change : α → α) (reg : Registry α)

theorem items_rename : (reg.rename r change).items = reg.items.map change := rfl

theorem names_rename : (reg.rename r change).names = reg.names.map r := by
  rw [Registry.names, Registry.names, Registry.rename, List.map_map, List.map_map]
  rfl

section Injective

variable (h : r.Injective)

include h

theorem slot?_rename (name : String) : (reg.rename r change).slot? (r name) = reg.slot? name := by
  obtain ⟨items, index⟩ := reg
  simp only [Registry.slot?, Registry.rename]
  induction index with
  | nil => rfl
  | cons entry rest ih =>
    obtain ⟨key, slot⟩ := entry
    rw [List.map_cons, List.lookup_cons, List.lookup_cons]
    by_cases hkey : name = key
    · simp [hkey]
    · rw [beq_false_of_ne hkey, beq_false_of_ne (h.ne hkey)]
      exact ih

/-- **What is found under a name is found under the new one.** -/
theorem find?_rename (name : String) :
    (reg.rename r change).find? (r name) = (reg.find? name).map change := by
  rw [Registry.find?_eq, Registry.find?_eq, slot?_rename change reg h, items_rename,
    Option.map_bind]
  exact congrArg _ (funext fun slot => List.getElem?_map ..)

theorem contains_rename (name : String) :
    (reg.rename r change).contains (r name) = reg.contains name := by
  rw [Bool.eq_iff_iff, Registry.contains_eq_true_iff, Registry.contains_eq_true_iff, names_rename,
    List.mem_map_of_injective h]

theorem rename_add (name : String) (item : α) :
    (reg.add name item).rename r change = (reg.rename r change).add (r name) (change item) := by
  have hindex : (reg.index.filter (·.1 ≠ name)).map (fun entry => (r entry.1, entry.2))
      = (reg.index.map fun entry => (r entry.1, entry.2)).filter (·.1 ≠ r name) := by
    rw [List.filter_map]
    refine congrArg _ (List.filter_congr fun entry _ => ?_)
    exact decide_eq_decide.2 (h.ne_iff).symm
  simp only [Registry.add, Registry.push, Registry.lead, Registry.rename, List.map_append,
    hindex, List.length_map, List.map_singleton]

end Injective

end Registries

namespace Document

def rename (r : String → String) (doc : Document) : Document :=
  { doc with
    enums := doc.enums.rename r (EnumDecl.rename r)
    classes := doc.classes.rename r (ClassDecl.rename r) }

variable {r : String → String} (h : Renaming r) (doc : Document)

/-! ### Looking names up -/

section Lookup

include h

theorem enum?_rename (name : String) :
    (doc.rename r).enum? (r name) = (doc.enum? name).map (EnumDecl.rename r) :=
  find?_rename _ _ h.injective name

theorem class?_rename (name : String) :
    (doc.rename r).class? (r name) = (doc.class? name).map (ClassDecl.rename r) :=
  find?_rename _ _ h.injective name

theorem hasTypeName_rename (name : String) :
    (doc.rename r).hasTypeName (r name) = doc.hasTypeName name := by
  rw [hasTypeName, hasTypeName, rename, contains_rename _ _ h.injective,
    contains_rename _ _ h.injective]

theorem addEnum?_rename (e : EnumDecl) :
    (doc.rename r).addEnum? (e.rename r) = (doc.addEnum? e).map (rename r) := by
  have hadd : { doc.rename r with
        enums := (doc.rename r).enums.add (e.rename r).name (e.rename r) }
      = ({ doc with enums := doc.enums.add e.name e } : Document).rename r := by
    simp only [rename, rename_add _ _ h.injective]
    rfl
  have htaken : (doc.rename r).hasTypeName (e.rename r).name = doc.hasTypeName e.name :=
    hasTypeName_rename h doc e.name
  rw [addEnum?, addEnum?, htaken, hadd]
  split <;> rfl

theorem addClass?_rename (c : ClassDecl) :
    (doc.rename r).addClass? (c.rename r) = (doc.addClass? c).map (rename r) := by
  have hadd : { doc.rename r with
        classes := (doc.rename r).classes.add (c.rename r).name (c.rename r) }
      = ({ doc with classes := doc.classes.add c.name c } : Document).rename r := by
    simp only [rename, rename_add _ _ h.injective]
    rfl
  have htaken : (doc.rename r).hasTypeName (c.rename r).name = doc.hasTypeName c.name :=
    hasTypeName_rename h doc c.name
  rw [addClass?, addClass?, htaken, hadd]
  split <;> rfl

end Lookup

end Document

/-! ### Reports on declarations -/

section Reports

variable {r : String → String} (h : Renaming r) {node : Node} (index : Nat)

/-- Reports on renamed items are the renamed reports. -/
theorem flatten_mapIdx_rename {α β : Type} {change : α → β} {items : List α}
    {reports : Nat → α → List Diagnostic} {reports' : Nat → β → List Diagnostic}
    (hstep : ∀ a ∈ items, ∀ j,
      reports' j (change a) = (reports j a).map (Diagnostic.rename r)) :
    ((items.map change).mapIdx reports').flatten
      = (items.mapIdx reports).flatten.map (Diagnostic.rename r) := by
  induction items generalizing reports reports' with
  | nil => rfl
  | cons a rest ih =>
    have hrest := ih fun b hb j => hstep b (List.mem_cons_of_mem _ hb) (j + 1)
    rw [List.map_cons, List.mapIdx_cons, List.mapIdx_cons, List.flatten_cons, List.flatten_cons,
      List.map_append, hrest, hstep a List.mem_cons_self]

theorem methodReports_rename (owner : String) :
    methodReports (r owner) index node
      = (methodReports owner index node).map (Diagnostic.rename r) := by
  rw [methodReports, methodReports]
  cases methodOf? node <;> rfl

theorem kindReports_renameClass (location : Location) :
    kindReports (location.rename r) (renameClass r node)
      = (kindReports location node).map (Diagnostic.rename r) := by
  rw [kindReports, kindReports, filledAttr?_renameClass_of_ne r node (by decide) (by decide)]
  cases node.filledAttr? "type" with
  | none => rfl
  | some word =>
    dsimp only
    cases ClassKind.ofKeyword? word <;> rfl

theorem abstractReports_renameClass (location : Location) :
    abstractReports (location.rename r) (renameClass r node)
      = (abstractReports location node).map (Diagnostic.rename r) := by
  rw [abstractReports, abstractReports, attr?_renameClass_of_ne r node (by decide) (by decide)]
  cases node.attr? "abstract" with
  | none => rfl
  | some text =>
    dsimp only
    cases flagOf? text <;> rfl

include h

theorem enumReports_renameEnum (hcode : node.filledAttr? "code" ≠ none) :
    enumReports index (renameEnum r node)
      = (enumReports index node).map (Diagnostic.rename r) := by
  rw [enumReports, enumReports, ofNode?_renameEnum h hcode]
  cases EnumDecl.ofNode? node with
  | none => simp [Diagnostic.rename, Diagnostic.error, Problem.rename, Location.rename, h.empty]
  | some e =>
    by_cases hvalues : e.values = [] <;>
      simp [Diagnostic.rename, Diagnostic.warning, Problem.rename, Location.rename, EnumDecl.rename,
        hvalues]

theorem memberReports_renameData (owner : String)
    (hword : IsWord (typeWord (textOf node "type"))) :
    memberReports (r owner) index (renameData r node)
      = (memberReports owner index node).map (Diagnostic.rename r) := by
  have hname : ((Member.ofNode node).rename r).name = (Member.ofNode node).name := rfl
  have hbase : ((Member.ofNode node).rename r).type.base = ""
      ↔ (Member.ofNode node).type.base = "" := h.eq_empty_iff _
  simp only [memberReports, ofNode_renameData h hword, hname, hbase, List.map_append]
  congr 1 <;> split <;> rfl

theorem classReports_renameClass
    (htypes : ∀ data ∈ node.childrenTagged "Data", IsWord (typeWord (textOf data "type"))) :
    classReports index (renameClass r node)
      = (classReports index node).map (Diagnostic.rename r) := by
  rw [classReports, classReports, filledAttr?_name_renameClass h]
  cases node.filledAttr? "name" with
  | none => simp [Diagnostic.rename, Diagnostic.error, Problem.rename, Location.rename, h.empty]
  | some name =>
    have hmethods := childrenTagged_renameClass_of_ne r node (by decide : "Method" ≠ "Data")
    have hlocation : Location.classAt index (r name) = (Location.classAt index name).rename r := rfl
    have hmethodReports :
        (((node.childrenTagged "Method").map id).mapIdx (methodReports (r name))).flatten
          = ((node.childrenTagged "Method").mapIdx (methodReports name)).flatten.map
            (Diagnostic.rename r) :=
      flatten_mapIdx_rename fun child _ j => methodReports_rename j name
    have hmemberReports :
        (((node.childrenTagged "Data").map (renameData r)).mapIdx (memberReports (r name))).flatten
          = ((node.childrenTagged "Data").mapIdx (memberReports name)).flatten.map
            (Diagnostic.rename r) :=
      flatten_mapIdx_rename fun data hdata j =>
        memberReports_renameData h j name (htypes data hdata)
    rw [List.map_id] at hmethodReports
    simp only [Option.map_some, hlocation, kindReports_renameClass, abstractReports_renameClass,
      hmethods, data_renameClass, List.map_append]
    rw [hmethodReports, hmemberReports]

end Reports

namespace Document

variable {r : String → String} (h : Renaming r)

/-- What holds of each declaration holds of all of them. -/
theorem declareAll_rename {declare : Document → Nat → Node → Document × List Diagnostic}
    {change : Node → Node} {nodes : List Node}
    (hstep : ∀ node ∈ nodes, ∀ (doc : Document) index,
      declare (doc.rename r) index (change node)
        = ((declare doc index node).1.rename r,
          (declare doc index node).2.map (Diagnostic.rename r)))
    (doc : Document) (index : Nat) :
    declareAll declare index (doc.rename r) (nodes.map change)
      = ((declareAll declare index doc nodes).1.rename r,
        (declareAll declare index doc nodes).2.map (Diagnostic.rename r)) := by
  induction nodes generalizing doc index with
  | nil => rfl
  | cons node rest ih =>
    have hfirst := hstep node List.mem_cons_self doc index
    have hrest := ih (fun other hm => hstep other (List.mem_cons_of_mem _ hm))
      (declare doc index node).1 (index + 1)
    rw [List.map_cons, declareAll, declareAll, hfirst]
    simp only [hrest, List.map_append]

include h

theorem declareEnum_rename {node : Node} (hcode : node.filledAttr? "code" ≠ none) (doc : Document)
    (index : Nat) :
    (doc.rename r).declareEnum index (renameEnum r node)
      = ((doc.declareEnum index node).1.rename r,
        (doc.declareEnum index node).2.map (Diagnostic.rename r)) := by
  rw [declareEnum, declareEnum, ofNode?_renameEnum h hcode, enumReports_renameEnum h index hcode]
  cases EnumDecl.ofNode? node with
  | none => rfl
  | some e =>
    simp only [Option.map_some, addEnum?_rename h]
    cases doc.addEnum? e with
    | some extended => rfl
    | none =>
      simp only [Option.map_none, List.map_append]
      rfl

theorem declareClass_rename {node : Node} (hcode : node.filledAttr? "code" ≠ none)
    (hbase : IsWord (textOf node "base"))
    (htypes : ∀ data ∈ node.childrenTagged "Data", IsWord (typeWord (textOf data "type")))
    (doc : Document) (index : Nat) :
    (doc.rename r).declareClass index (renameClass r node)
      = ((doc.declareClass index node).1.rename r,
        (doc.declareClass index node).2.map (Diagnostic.rename r)) := by
  rw [declareClass, declareClass, ofNode?_renameClass h hcode hbase htypes,
    classReports_renameClass h index htypes]
  cases ClassDecl.ofNode? node with
  | none => rfl
  | some c =>
    simp only [Option.map_some, addClass?_rename h]
    cases doc.addClass? c with
    | some extended => rfl
    | none =>
      simp only [Option.map_none, List.map_append]
      rfl

/-- **The document of a renamed tree has the new names**, and so has what is wrong with its
declarations. -/
theorem ofNode_renameRoot {root : Node} (hroot : Coded root) :
    ofNode (renameRoot r root)
      = ((ofNode root).1.rename r, (ofNode root).2.map (Diagnostic.rename r)) := by
  have hspace : empty (Text.trim (textOf (renameRoot r root) "namespace"))
      = (empty (Text.trim (textOf root "namespace"))).rename r := rfl
  have henums : ofEnums (renameRoot r root)
      = ((ofEnums root).1.rename r, (ofEnums root).2.map (Diagnostic.rename r)) := by
    rw [ofEnums, enums_renameRoot, hspace]
    exact declareAll_rename (fun node hm => declareEnum_rename h
      (hroot.code node (List.mem_append_left _ hm))) _ 0
  have hclasses := declareAll_rename (fun node hm => declareClass_rename h
    (hroot.code node (List.mem_append_right _ hm)) (hroot.base node hm) (hroot.type node hm))
    (ofEnums root).1 0
  rw [← classes_renameRoot] at hclasses
  have hfst := congrArg Prod.fst henums
  have hsnd := congrArg Prod.snd henums
  have hofNode : ∀ root, ofNode root
      = ((declareAll declareClass 0 (ofEnums root).1 (root.childrenTagged "Class")).1,
        (ofEnums root).2
          ++ (declareAll declareClass 0 (ofEnums root).1 (root.childrenTagged "Class")).2) :=
    fun _ => rfl
  rw [hofNode, hofNode, hfst, hsnd, hclasses, List.map_append]

end Document

end Schema

end SchemaBinding
