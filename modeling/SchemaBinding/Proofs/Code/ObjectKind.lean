import SchemaBinding.Proofs.Code.Plain
import SchemaBinding.Proofs.Code.Source

/-!
# Kinds of objects

A routine that handles objects is made for objects of one kind and is named after that kind.  Which
routine is called for a member follows from the class that the member belongs to: a link is taken
for a link to a datasheet, and an object that a class owns is taken for an object of the kind of its
owner.  The kind of the class that the member names plays no part.

* `Routine.objectKind?_eq_datasheet_iff`, `Routine.objectKind?_eq_datasave_iff`: the kind of the
  objects that a routine handles can be read off its name.
* `function?_eq_some_iff`: which classes read their members and which ones write them.
* `Binding.performs_access_iff`: each member is accessed in the source by these functions.
* `Binding.objectKind_suits_iff`: the routines called for a member suit the class that it names
  exactly if that class is of the kind that the member is taken for.
* `Binding.not_objectKind_suits_armorySchema`: which it need not be.
-/

namespace SchemaBinding

open Schema

/-- The kind of object that a class of kind `owner` takes a member for. -/
def Schema.Ownership.presumedKind (owner : ClassKind) : Ownership → ClassKind
  | .reference => .datasheet
  | .owned => owner

theorem Schema.Document.class?_of_target? {doc : Document} {spec : TypeSpec} {decl : ClassDecl}
    {ownership : Ownership} (h : doc.target? spec = some (.object decl ownership)) :
    doc.class? spec.base = some decl := by
  rw [Document.target?] at h
  split at h
  · obtain ⟨found, hfound, hobject⟩ := Option.map_eq_some_iff.1 h
    cases hobject
    exact hfound
  · -- without a flag for objects an enum or a primitive is named
    split at h
    · cases h
    · simp at h

namespace Code

namespace Routine

/-- The kind of the objects that a routine handles, if it handles objects. -/
def objectKind? (r : Routine) : Option ClassKind :=
  match r.shape, r.direction with
  | .datasheetReference, _ => some .datasheet
  | .datasheetInstance, .read => some .datasheet
  | .datasheetInstance, .write => some .datasave
  | .datasaveInstance, _ => some .datasave
  | _, _ => none

theorem objectKind?_eq_datasheet_iff {r : Routine} :
    r.objectKind? = some .datasheet
      ↔ stem r.direction r.shape = "DatasheetReference"
        ∨ stem r.direction r.shape = "DatasheetInstance" := by
  obtain ⟨direction, shape, isArray⟩ := r
  cases shape <;> cases direction <;> simp [objectKind?, stem]

theorem objectKind?_eq_datasave_iff {r : Routine} :
    r.objectKind? = some .datasave ↔ stem r.direction r.shape = "DatasaveInstance" := by
  obtain ⟨direction, shape, isArray⟩ := r
  cases shape <;> cases direction <;> simp [objectKind?, stem]

/-- In a function that a class has, the routine for an object is made for the kind of object that the
class takes the member for. -/
theorem objectKind?_select {direction : Direction} {owner : ClassKind}
    (h : direction = .read ∨ owner = .datasave) (name : String) (ownership : Ownership)
    (isArray : Bool) :
    (select direction (.object name ownership) isArray owner).objectKind?
      = some (ownership.presumedKind owner) := by
  cases ownership with
  | reference => rfl
  | owned =>
    rcases h with rfl | rfl
    · cases owner <;> rfl
    · cases direction <;> rfl

end Routine

/-! ### Functions that access members -/

/-- The name of the function that reads or writes the members of a class. -/
def Direction.functionName : Direction → String
  | read => "ParseMembers"
  | write => "SerializeMembers"

def Direction.signature (settings : Settings) : Direction → Signature
  | read => ClassBlock.parseSignature settings
  | write => ClassBlock.serializeSignature settings

variable {settings : Settings} {doc : Document} {c : ClassDecl}

theorem function?_serialize_datasheet (h : c.kind = .datasheet) :
    function? settings doc c "SerializeMembers" = none := by
  rw [function?, ClassBlock.functions, h]
  rfl

/-- **Every class reads its members, and a datasave writes them too.** -/
theorem function?_eq_some_iff {direction : Direction} {f : Function} :
    function? settings doc c direction.functionName = some f
      ↔ (direction = .read ∨ c.kind = .datasave)
        ∧ f = ClassBlock.accessFunction settings doc (direction.signature settings) direction c := by
  cases direction with
  | read =>
    show function? settings doc c "ParseMembers" = some f ↔ _
    rw [function?_parse, Option.some.injEq, eq_comm]
    exact (and_iff_right (Or.inl rfl)).symm
  | write =>
    show function? settings doc c "SerializeMembers" = some f ↔ _
    cases hkind : c.kind with
    | datasheet => simp [function?_serialize_datasheet hkind]
    | datasave =>
      rw [function?_serialize hkind, Option.some.injEq, eq_comm]
      exact (and_iff_right (Or.inr rfl)).symm

/-- In a text a class accesses a member in a function of its own: the function is there, and the
access is one of its lines. -/
def Performs (source : String) (settings : Settings) (doc : Document) (c : ClassDecl)
    (direction : Direction) (a : Access) : Prop :=
  ∃ f, function? settings doc c direction.functionName = some f
    ∧ StandIn (f.lines (c.generatedName ++ "::")) source ∧ a.text settings ∈ f.body

theorem text_mem_body {m : Member} {r : Resolution} (hm : (m, r) ∈ c.emittedMembers)
    (signature : Signature) (direction : Direction) :
    (ClassBlock.access direction c.kind m r).text settings
      ∈ (ClassBlock.accessFunction settings doc signature direction c).body := by
  refine List.mem_append_right _ (List.mem_map_of_mem ?_)
  rw [ClassBlock.accesses, List.mem_map]
  exact ⟨(m, r), hm, rfl⟩

end Code

namespace Binding

open Schema.Document (load ofNode class?_resolve class?_of_target?)
open Code (Performs ClassBlock.access)

variable {settings : Code.Settings} {root : Node} {b : Binding}

/-- The class that an emitted member names is declared. -/
theorem exists_class_of_object {c : ClassDecl} (hc : c ∈ (load root).1.classes.items) {m : Member}
    {r : Resolution} (hm : (m, r) ∈ c.emittedMembers) {name : String} {ownership : Ownership}
    (hobject : r.category = .object name ownership) :
    ∃ target, (load root).1.class? name = some target := by
  obtain ⟨t, ht, rfl⟩ := Code.exists_target_of_mem_emittedMembers hc hm
  have hcategory : t.category m.type.base = .object name ownership := hobject
  cases t with
  | enumeration e => cases hcategory
  | primitive p => cases hcategory
  | object decl =>
    have hname : m.type.base = name := (Category.object.inj hcategory).1
    have hfound : (ofNode root).1.class? name = some decl := hname ▸ class?_of_target? ht
    refine ⟨(ofNode root).1.resolveClass decl, ?_⟩
    show (ofNode root).1.resolve.1.class? name = _
    rw [class?_resolve, hfound, Option.map_some]

/-- **Every emitted member is read in the source, and written there by a datasave.** -/
theorem performs_access_iff (hgen : generate settings root = .ok b) {c : ClassDecl}
    (hc : c ∈ (load root).1.classes.items) {m : Member} {r : Resolution}
    (hm : (m, r) ∈ c.emittedMembers) (direction : Code.Direction) :
    Performs b.source settings (load root).1 c direction (ClassBlock.access direction c.kind m r)
      ↔ direction = .read ∨ c.kind = .datasave := by
  constructor
  · rintro ⟨f, hf, -, -⟩
    exact (Code.function?_eq_some_iff.1 hf).1
  · intro h
    have hf : Code.function? settings (load root).1 c direction.functionName = some _ :=
      Code.function?_eq_some_iff.2 ⟨h, rfl⟩
    exact ⟨_, hf, functions_standIn hgen hc (List.mem_of_find?_eq_some hf),
      Code.text_mem_body hm _ direction⟩

/-- **The routines called for a member suit the class that it names exactly if that class is of the
kind that the member is taken for**: for a link a datasheet, and for an object that a class owns a
class of the same kind.  Whatever class it names, they are those for this kind. -/
theorem objectKind_suits_iff (hgen : generate settings root = .ok b) {c : ClassDecl}
    (hc : c ∈ (load root).1.classes.items) {m : Member} {r : Resolution}
    (hm : (m, r) ∈ c.emittedMembers) {name : String} {ownership : Ownership}
    (hobject : r.category = .object name ownership) :
    ∃ target, (load root).1.class? name = some target
      ∧ (∀ direction, Performs b.source settings (load root).1 c direction
          (ClassBlock.access direction c.kind m r)
        ↔ direction = .read ∨ c.kind = .datasave)
      ∧ (∀ direction, Performs b.source settings (load root).1 c direction
          (ClassBlock.access direction c.kind m r)
        → (ClassBlock.access direction c.kind m r).routine.objectKind?
          = some (ownership.presumedKind c.kind))
      ∧ ((∀ direction, Performs b.source settings (load root).1 c direction
            (ClassBlock.access direction c.kind m r)
          → (ClassBlock.access direction c.kind m r).routine.objectKind? = some target.kind)
        ↔ target.kind = ownership.presumedKind c.kind) := by
  obtain ⟨target, htarget⟩ := exists_class_of_object hc hm hobject
  have hperforms := performs_access_iff hgen hc hm
  have hpresumed : ∀ direction, Performs b.source settings (load root).1 c direction
        (ClassBlock.access direction c.kind m r)
      → (ClassBlock.access direction c.kind m r).routine.objectKind?
        = some (ownership.presumedKind c.kind) := by
    intro direction hdirection
    show (Code.Routine.select direction r.category r.isArray c.kind).objectKind? = _
    rw [hobject]
    exact Code.Routine.objectKind?_select ((hperforms direction).1 hdirection) name ownership _
  refine ⟨target, htarget, hperforms, hpresumed, ?_⟩
  constructor
  · intro hsuits
    -- every class has a function that reads
    have hread := (hperforms .read).2 (Or.inl rfl)
    exact Option.some.inj ((hsuits .read hread).symm.trans (hpresumed .read hread))
  · intro hkind direction hdirection
    rw [hkind]
    exact hpresumed direction hdirection

/-- A schema of a hero, who is saved, and of swords, which are not.  The hero has a sword and a link
to another one. -/
def armorySchema : Node :=
  ⟨"Schema", [],
    [⟨"Class", [("name", "Sword"), ("type", "datasheet")], []⟩,
      ⟨"Class", [("name", "Hero"), ("type", "datasave")],
        [⟨"Data", [("name", "own"), ("type", "instance:Sword")], []⟩,
          ⟨"Data", [("name", "wanted"), ("type", "reference:Sword")], []⟩]⟩]⟩

theorem objectKind_suits_armorySchema :
    ∃ b c m r target, generate .standard armorySchema = .ok b
      ∧ c ∈ (load armorySchema).1.classes.items ∧ (m, r) ∈ c.emittedMembers
      ∧ r.category = .object "Sword" .reference
      ∧ (load armorySchema).1.class? "Sword" = some target
      ∧ ∀ direction, Performs b.source .standard (load armorySchema).1 c direction
          (ClassBlock.access direction c.kind m r)
        → (ClassBlock.access direction c.kind m r).routine.objectKind? = some target.kind := by
  have hfatal : Diagnostic.anyFatal (load armorySchema).2 = false := by decide +kernel
  have hmember : ∃ c ∈ (load armorySchema).1.classes.items, ∃ emitted ∈ c.emittedMembers,
      emitted.2.category = .object "Sword" .reference := by decide +kernel
  have hsword : ((load armorySchema).1.class? "Sword").map ClassDecl.kind = some .datasheet := by
    decide +kernel
  obtain ⟨b, hgen⟩ : ∃ b, generate .standard armorySchema = .ok b :=
    ⟨_, generate_eq_ok_iff.2 ⟨hfatal, rfl⟩⟩
  obtain ⟨c, hc, ⟨m, r⟩, hm, hobject⟩ := hmember
  obtain ⟨target, htarget, -, -, hsuits⟩ := objectKind_suits_iff hgen hc hm hobject
  refine ⟨b, c, m, r, target, hgen, hc, hm, hobject, htarget, hsuits.2 ?_⟩
  rw [htarget, Option.map_some] at hsword
  exact Option.some.inj hsword

/-- **The routines need not suit the class**: the sword that a hero has is a datasheet, and it is
read and written by the routines for datasaves. -/
theorem not_objectKind_suits_armorySchema :
    ∃ b c m r target, generate .standard armorySchema = .ok b
      ∧ c ∈ (load armorySchema).1.classes.items ∧ (m, r) ∈ c.emittedMembers
      ∧ r.category = .object "Sword" .owned
      ∧ (load armorySchema).1.class? "Sword" = some target ∧ target.kind = .datasheet
      ∧ ∀ direction, Performs b.source .standard (load armorySchema).1 c direction
          (ClassBlock.access direction c.kind m r)
        ∧ (ClassBlock.access direction c.kind m r).routine.objectKind? = some .datasave := by
  have hfatal : Diagnostic.anyFatal (load armorySchema).2 = false := by decide +kernel
  have hmember : ∃ c ∈ (load armorySchema).1.classes.items, ∃ emitted ∈ c.emittedMembers,
      emitted.2.category = .object "Sword" .owned ∧ c.kind = .datasave := by decide +kernel
  have hsword : ∃ target ∈ (load armorySchema).1.class? "Sword", target.kind = .datasheet := by
    decide +kernel
  obtain ⟨b, hgen⟩ : ∃ b, generate .standard armorySchema = .ok b :=
    ⟨_, generate_eq_ok_iff.2 ⟨hfatal, rfl⟩⟩
  obtain ⟨c, hc, ⟨m, r⟩, hm, hobject, hkind⟩ := hmember
  obtain ⟨target, htarget, hdatasheet⟩ := hsword
  refine ⟨b, c, m, r, target, hgen, hc, hm, hobject, htarget, hdatasheet, ?_⟩
  intro direction
  refine ⟨(performs_access_iff hgen hc hm direction).2 (Or.inr hkind), ?_⟩
  show (Code.Routine.select direction r.category r.isArray c.kind).objectKind? = _
  rw [show r.category = _ from hobject, hkind]
  exact Code.Routine.objectKind?_select (Or.inr rfl) "Sword" .owned _

end Binding

end SchemaBinding
