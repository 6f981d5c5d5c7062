import SchemaBinding.Binding
import SchemaBinding.Proofs.Schema.Fates

/-!
# What a schema is read by

The format of schemas names the attributes that a node may have and the tags that its children may
have.  Nodes are `ReadAlike` if they agree in what the format names of them: in the texts of these
attributes, and, tag by tag and in order, in these children.  All else may differ: other attributes
and children, how children with different tags are mixed, and the tag of the root.

* `AlikeEnum.declare_eq`, `AlikeClass.declare_eq`: declarations that are read alike are declared and
  reported on alike, at any place and in any document.
* `declareAll_congr`: so are declarations one after the other.
* `AlikeSchema.ofNode_eq`: schemas that are read alike have one document.
* `Binding.load_generate_of_alike`: and one outcome of loading and of generating.
-/

namespace SchemaBinding.Schema

/-- Nodes agree in the texts of some attributes, an absent one counting as empty, and in the
children with some tags, each tag with what it means for two of its nodes to be read alike. -/
structure ReadAlike (keys : List String) (parts : List (String × (Node → Node → Prop)))
    (a b : Node) : Prop where
  texts : ∀ key ∈ keys, textOf a key = textOf b key
  parts : ∀ part ∈ parts, List.Forall₂ part.2 (a.childrenTagged part.1) (b.childrenTagged part.1)

section ReadAlike

variable {keys : List String} {parts : List (String × (Node → Node → Prop))}
  {R : Node → Node → Prop} {tag : String} {a b : Node}

theorem readAlike_nil_iff : ReadAlike keys [] a b ↔ ∀ key ∈ keys, textOf a key = textOf b key :=
  ⟨fun h => h.texts, fun h => ⟨h, fun _ hpart => absurd hpart List.not_mem_nil⟩⟩

theorem readAlike_cons_iff :
    ReadAlike keys ((tag, R) :: parts) a b
      ↔ List.Forall₂ R (a.childrenTagged tag) (b.childrenTagged tag)
        ∧ ReadAlike keys parts a b := by
  constructor
  · intro h
    obtain ⟨hfirst, hrest⟩ := List.forall_mem_cons.1 h.parts
    exact ⟨hfirst, h.texts, hrest⟩
  · rintro ⟨hfirst, h⟩
    exact ⟨h.texts, List.forall_mem_cons.2 ⟨hfirst, h.parts⟩⟩

instance : Decidable (ReadAlike keys [] a b) := decidable_of_iff _ readAlike_nil_iff.symm

instance [∀ c d, Decidable (R c d)] [Decidable (ReadAlike keys parts a b)] :
    Decidable (ReadAlike keys ((tag, R) :: parts) a b) :=
  decidable_of_iff _ readAlike_cons_iff.symm

end ReadAlike

/-! ### The format -/

abbrev AlikeValue : Node → Node → Prop := ReadAlike ["name"] []

abbrev AlikeEnum : Node → Node → Prop := ReadAlike ["name", "code"] [("Value", AlikeValue)]

abbrev AlikeMethod : Node → Node → Prop := ReadAlike ["declaration"] []

abbrev AlikeData : Node → Node → Prop := ReadAlike ["name", "code", "type", "default"] []

abbrev AlikeClass : Node → Node → Prop :=
  ReadAlike ["name", "code", "type", "base", "abstract"]
    [("Method", AlikeMethod), ("Data", AlikeData)]

/-- The roots of schemas that differ at most in what the format does not name. -/
abbrev AlikeSchema : Node → Node → Prop :=
  ReadAlike ["namespace"] [("Enum", AlikeEnum), ("Class", AlikeClass)]

/-! ### Lists of nodes -/

section Forall₂

variable {α β : Type} {R : α → α → Prop} {as bs : List α} (h : List.Forall₂ R as bs)

include h

theorem map_congr_of_forall₂ {f : α → β} (hf : ∀ a b, R a b → f a = f b) : as.map f = bs.map f := by
  induction h with
  | nil => rfl
  | cons hab _ ih => rw [List.map_cons, List.map_cons, hf _ _ hab, ih]

theorem filterMap_congr_of_forall₂ {f : α → Option β} (hf : ∀ a b, R a b → f a = f b) :
    as.filterMap f = bs.filterMap f := by
  induction h with
  | nil => rfl
  | cons hab _ ih => rw [List.filterMap_cons, List.filterMap_cons, hf _ _ hab, ih]

theorem mapIdx_congr_of_forall₂ {f : Nat → α → β} (hf : ∀ i a b, R a b → f i a = f i b) :
    as.mapIdx f = bs.mapIdx f := by
  induction h generalizing f with
  | nil => rfl
  | cons hab _ ih =>
    have htail := ih fun i a b hab => hf (i + 1) a b hab
    rw [List.mapIdx_cons, List.mapIdx_cons, hf 0 _ _ hab, htail]

end Forall₂

/-! ### Attributes -/

section Attributes

variable {keys : List String} {parts : List (String × (Node → Node → Prop))} {a b : Node}

theorem ReadAlike.filledAttr?_eq (h : ReadAlike keys parts a b) (key : String) (hkey : key ∈ keys) :
    a.filledAttr? key = b.filledAttr? key := by
  rw [Schema.filledAttr?_eq, Schema.filledAttr?_eq, h.texts key hkey]

theorem ReadAlike.codeOf_eq (h : ReadAlike keys parts a b) (hkey : "code" ∈ keys) (name : String) :
    codeOf a name = codeOf b name := by
  rw [codeOf, codeOf, h.filledAttr?_eq "code" hkey]

theorem abstractReports_eq (location : Location) (node : Node) :
    abstractReports location node
      = if flagOf? (textOf node "abstract") = none then
          [.warning (.invalidAttribute "Class" "abstract" (textOf node "abstract")) location]
        else [] := by
  unfold abstractReports textOf
  cases node.attr? "abstract" with
  | none => exact (if_neg (by decide)).symm
  | some text => cases h : flagOf? text <;> simp [h]

end Attributes

/-! ### Declarations -/

section Declarations

variable {a b : Node}

theorem AlikeEnum.ofNode?_eq (h : AlikeEnum a b) : EnumDecl.ofNode? a = EnumDecl.ofNode? b := by
  have hvalues : enumValues a = enumValues b :=
    filterMap_congr_of_forall₂ (h.parts _ List.mem_cons_self) fun _ _ hvalue =>
      hvalue.filledAttr?_eq "name" List.mem_cons_self
  have hcode : codeOf a = codeOf b := funext (h.codeOf_eq (by simp))
  rw [EnumDecl.ofNode?, EnumDecl.ofNode?, h.filledAttr?_eq "name" (by simp), hcode, hvalues]

/-- **Enums that are read alike are declared alike.** -/
theorem AlikeEnum.declare_eq (h : AlikeEnum a b) (doc : Document) (index : Nat) :
    doc.declareEnum index a = doc.declareEnum index b := by
  simp only [Document.declareEnum, enumReports, h.ofNode?_eq]

theorem AlikeMethod.methodOf?_eq (h : AlikeMethod a b) : methodOf? a = methodOf? b := by
  rw [Schema.methodOf?_eq, Schema.methodOf?_eq, h.texts _ List.mem_cons_self]

theorem AlikeData.member_eq (h : AlikeData a b) : Member.ofNode a = Member.ofNode b := by
  have hcode : codeOf a = codeOf b := funext (h.codeOf_eq (by simp))
  simp only [Member.ofNode, h.filledAttr?_eq "name" (by simp),
    h.filledAttr?_eq "type" (by simp), hcode, h.texts "default" (by simp)]

namespace AlikeClass

variable (h : AlikeClass a b)

include h

theorem methods :
    List.Forall₂ AlikeMethod (a.childrenTagged "Method") (b.childrenTagged "Method") :=
  h.parts _ List.mem_cons_self

theorem data : List.Forall₂ AlikeData (a.childrenTagged "Data") (b.childrenTagged "Data") :=
  h.parts _ (List.mem_cons_of_mem _ List.mem_cons_self)

theorem ofNode?_eq : ClassDecl.ofNode? a = ClassDecl.ofNode? b := by
  have hcode : codeOf a = codeOf b := funext (h.codeOf_eq (by simp))
  have hkind : kindOf a = kindOf b := by
    rw [kindOf, kindOf, h.filledAttr?_eq "type" (by simp)]
  have hmethods := filterMap_congr_of_forall₂ h.methods fun _ _ => AlikeMethod.methodOf?_eq
  have hmembers := map_congr_of_forall₂ h.data fun _ _ => AlikeData.member_eq
  rw [ClassDecl.ofNode?, ClassDecl.ofNode?, h.filledAttr?_eq "name" (by simp), hcode, hkind,
    h.texts "base" (by simp), abstractOf_eq, abstractOf_eq, h.texts "abstract" (by simp), hmethods,
    hmembers]

theorem reports_eq (index : Nat) : classReports index a = classReports index b := by
  have hkind : ∀ location, kindReports location a = kindReports location b := by
    intro location
    rw [kindReports, kindReports, h.filledAttr?_eq "type" (by simp)]
  have habstract : ∀ location, abstractReports location a = abstractReports location b := by
    intro location
    rw [abstractReports_eq, abstractReports_eq, h.texts "abstract" (by simp)]
  have hmethods : ∀ name, (a.childrenTagged "Method").mapIdx (methodReports name)
      = (b.childrenTagged "Method").mapIdx (methodReports name) := by
    intro name
    refine mapIdx_congr_of_forall₂ h.methods fun i c d hcd => ?_
    rw [methodReports, methodReports, hcd.methodOf?_eq]
  have hmembers : ∀ name, (a.childrenTagged "Data").mapIdx (memberReports name)
      = (b.childrenTagged "Data").mapIdx (memberReports name) := by
    intro name
    refine mapIdx_congr_of_forall₂ h.data fun i c d hcd => ?_
    rw [memberReports, memberReports, hcd.member_eq]
  simp only [classReports, h.filledAttr?_eq "name" (by simp), hkind, habstract, hmethods,
    hmembers]

/-- **Classes that are read alike are declared alike.** -/
theorem declare_eq (doc : Document) (index : Nat) :
    doc.declareClass index a = doc.declareClass index b := by
  simp only [Document.declareClass, h.ofNode?_eq, h.reports_eq]

end AlikeClass

end Declarations

namespace Document

/-- Nodes that are declared alike one by one are declared alike one after the other. -/
theorem declareAll_congr {declare : Document → Nat → Node → Document × List Diagnostic}
    {R : Node → Node → Prop}
    (hdeclare : ∀ doc index a b, R a b → declare doc index a = declare doc index b)
    {as bs : List Node} (h : List.Forall₂ R as bs) (index : Nat) (doc : Document) :
    declareAll declare index doc as = declareAll declare index doc bs := by
  induction h generalizing index doc with
  | nil => rfl
  | cons hab _ ih => rw [declareAll, declareAll, hdeclare doc index _ _ hab, ih]

end Document

/-- **Schemas that are read alike have one document**, and the same is wrong with them. -/
theorem AlikeSchema.ofNode_eq {a b : Node} (h : AlikeSchema a b) :
    Document.ofNode a = Document.ofNode b := by
  have hspace : textOf a "namespace" = textOf b "namespace" :=
    h.texts "namespace" List.mem_cons_self
  have henums := Document.declareAll_congr (fun doc index _ _ hab => hab.declare_eq doc index)
    (h.parts _ List.mem_cons_self)
  have hclasses := Document.declareAll_congr (fun doc index _ _ hab => hab.declare_eq doc index)
    (h.parts _ (List.mem_cons_of_mem _ List.mem_cons_self))
  rw [Document.ofNode, Document.ofNode, hspace, henums, hclasses]

end SchemaBinding.Schema

namespace SchemaBinding.Binding

open Schema

/-- **Nothing but what the format names is seen.**  Schemas that are read alike have the same
resolved document and the same diagnostics, with the same places, and in all settings the same
binding or the same refusal. -/
theorem load_generate_of_alike {a b : Node} (h : AlikeSchema a b) :
    Document.load a = Document.load b ∧ ∀ settings, generate settings a = generate settings b := by
  have hload : Document.load a = Document.load b := by
    rw [Document.load, Document.load, h.ofNode_eq]
  refine ⟨hload, fun settings => ?_⟩
  rw [generate, generate, hload]

/-- A schema of a port.  One enum has no name, and the type of the berth is not declared. -/
def portSchema : Node :=
  ⟨"Schema", [("namespace", "port")],
    [⟨"Enum", [("name", "Cargo")], [⟨"Value", [("name", "Grain")], []⟩]⟩,
      ⟨"Enum", [], []⟩,
      ⟨"Class", [("name", "Ship"), ("abstract", "")],
        [⟨"Method", [("declaration", "void sail();")], []⟩,
          ⟨"Data", [("name", "cargo"), ("type", "Cargo")], []⟩,
          ⟨"Data", [("name", "berth"), ("type", "reference:Berth")], []⟩]⟩]⟩

/-- The same schema with remarks all over it, and with its parts in another order. -/
def remarkedPortSchema : Node :=
  ⟨"Port", [("edition", "2"), ("namespace", "port")],
    [⟨"Remark", [], [⟨"Enum", [("name", "Cargo")], []⟩]⟩,
      ⟨"Class", [("remark", "afloat"), ("name", "Ship")],
        [⟨"Data", [("name", "cargo"), ("type", "Cargo")], [⟨"Value", [("name", "Coal")], []⟩]⟩,
          ⟨"Value", [("name", "Tug")], []⟩,
          ⟨"Method", [("declaration", "void sail();"), ("name", "sail")], [⟨"Remark", [], []⟩]⟩,
          ⟨"Data", [("type", "reference:Berth"), ("name", "berth")], []⟩]⟩,
      ⟨"Enum", [("name", "Cargo"), ("base", "Goods")],
        [⟨"Data", [("name", "load")], []⟩,
          ⟨"Value", [("name", "Grain"), ("code", "EGrain")], [⟨"Remark", [], []⟩]⟩]⟩,
      ⟨"Remark", [], []⟩,
      ⟨"Enum", [("remark", "later")], []⟩]⟩

theorem load_generate_of_alike_portSchema :
    AlikeSchema portSchema remarkedPortSchema
    ∧ portSchema ≠ remarkedPortSchema
    ∧ (Document.load portSchema).2
      = [.error (.missingAttribute "Enum" "name") (.enumeration 1 ""),
        .error (.unresolvedReference "berth" "Berth") (.member "Ship" 1 "berth")]
    ∧ Document.load portSchema = Document.load remarkedPortSchema
    ∧ ∀ settings, generate settings portSchema = generate settings remarkedPortSchema := by
  have halike : AlikeSchema portSchema remarkedPortSchema := by decide +kernel
  obtain ⟨hload, hgenerate⟩ := load_generate_of_alike halike
  exact ⟨halike, by decide, by decide +kernel, hload, hgenerate⟩

end SchemaBinding.Binding
