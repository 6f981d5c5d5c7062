import SchemaBinding.Proofs.Code.Action
import SchemaBinding.Proofs.Code.Source
import SchemaBinding.Proofs.Schema.Lineage

/-!
# Functions along a lineage

The functions that read and write members call the function of the same name of the parent first.
`run` replaces such a call by what the function of the parent does, and so on, and leaves the calls
of the runtime.

* `run_of_lineage`: what is left is the accesses of every class of the lineage, one class after the
  other.
* `accesses_write`: a datasave is written as it is read.
* `Binding.run_parse_serialize`: so the members are read from the eldest ancestor down, each once,
  and written in the same order under the same keys.
-/

namespace SchemaBinding.Code

open Schema

variable {settings : Settings} {doc : Document} {c : ClassDecl}

/-- What an action of a function of a class comes to; `parentRun` is what the function of the same
name of another class comes to. -/
def Action.expand (doc : Document) (parentRun : ClassDecl → Option (List BoundCall))
    (c : ClassDecl) : Action → Option (List BoundCall)
  | .bind call => some [call]
  | .chain className => do
    let parent ← doc.parentOf? c
    if parent.generatedName = className then parentRun parent else none

/-- The calls of the runtime that a function of a class comes to, if it ends within a depth. -/
def run (settings : Settings) (doc : Document) (name : String) :
    Nat → ClassDecl → Option (List BoundCall)
  | 0, _ => none
  | depth + 1, c => do
    let f ← function? settings doc c name
    let actions ← f.actions? settings name
    let parts ← actions.mapM (Action.expand doc (run settings doc name depth) c)
    return parts.flatten

/-! ### Runs -/

/-- The function of this name reads or writes the members of a class, those of the parent first. -/
def DoesAccesses (settings : Settings) (doc : Document) (name : String) (direction : Direction)
    (c : ClassDecl) : Prop :=
  (function? settings doc c name).bind (Function.actions? settings name)
    = some (((doc.parentOf? c).map fun p => .chain p.generatedName).toList
      ++ (ClassBlock.accesses direction c).map fun a => .bind (.ofAccess a))

variable {name : String} {direction : Direction}

theorem mapM_expand_accesses (parentRun : ClassDecl → Option (List BoundCall))
    (accesses : List Access) :
    (accesses.map fun a => Action.bind (.ofAccess a)).mapM (Action.expand doc parentRun c)
      = some (accesses.map fun a => [.ofAccess a]) :=
  mapM_map_eq_some fun _ _ => rfl

theorem expand_chain {p : ClassDecl} (parentRun : ClassDecl → Option (List BoundCall))
    (hp : doc.parentOf? c = some p) :
    Action.expand doc parentRun c (.chain p.generatedName) = parentRun p := by
  show (doc.parentOf? c).bind _ = _
  rw [hp, Option.bind_some, if_pos rfl]

theorem run_succ (h : DoesAccesses settings doc name direction c) (depth : Nat) :
    run settings doc name (depth + 1) c
      = ((doc.parentOf? c).elim (some []) (run settings doc name depth)).map
          (· ++ (ClassBlock.accesses direction c).map .ofAccess) := by
  obtain ⟨f, hf, hactions⟩ := Option.bind_eq_some_iff.1 h
  have hflatten : ((ClassBlock.accesses direction c).map fun a => [BoundCall.ofAccess a]).flatten
      = (ClassBlock.accesses direction c).map .ofAccess := by
    rw [← List.flatMap_def, ← List.map_eq_flatMap]
  rw [run, hf]
  show (f.actions? settings name).bind _ = _
  rw [hactions]
  show Option.bind (List.mapM _ _) _ = _
  rw [List.mapM_append, mapM_expand_accesses]
  cases hp : doc.parentOf? c with
  | none => exact congrArg some hflatten
  | some p =>
    rw [Option.map_some, Option.toList_some, List.mapM_cons, expand_chain _ hp, Option.elim_some]
    cases run settings doc name depth p with
    | none => rfl
    | some reads => exact congrArg (fun own => some (reads ++ own)) hflatten

/-- **The expansion ends, and what is left is the accesses along the lineage.** -/
theorem run_of_lineage {l : List ClassDecl} (h : doc.Lineage c l)
    (hl : ∀ a ∈ l, DoesAccesses settings doc name direction a) {depth : Nat}
    (hdepth : l.length ≤ depth) :
    run settings doc name depth c
      = some (l.flatMap fun a => (ClassBlock.accesses direction a).map .ofAccess) := by
  induction h generalizing depth with
  | root hp =>
    obtain ⟨n, rfl⟩ := Nat.exists_eq_add_of_lt hdepth
    rw [run_succ (hl _ (by simp)), hp]
    simp
  | @child c p l hp hlineage ih =>
    rw [List.length_append, List.length_singleton] at hdepth
    obtain ⟨n, rfl⟩ := Nat.exists_eq_add_of_lt hdepth
    rw [run_succ (hl c (by simp)), hp, Option.elim_some,
      ih (fun a ha => hl a (List.mem_append_left _ ha)) (by omega)]
    simp

/-! ### Reading and writing -/

def BoundCall.reading (owner : ClassKind) (m : Member) (r : Resolution) : BoundCall where
  routine := .select .read r.category r.isArray owner
  key := .ofText m.name
  typeName? :=
    match r.category with
    | .enumeration name | .object name .owned => some (.ofText name)
    | _ => none
  field := m.generatedName

def BoundCall.written (call : BoundCall) : BoundCall :=
  { call with routine := { call.routine with direction := .write } }

theorem ofAccess_read (owner : ClassKind) (m : Member) (r : Resolution) :
    .ofAccess (ClassBlock.access .read owner m r) = BoundCall.reading owner m r := by
  obtain ⟨category, signature, default, isArray⟩ := r
  cases category with
  | primitive p => cases p <;> rfl
  | enumeration name => rfl
  | object name ownership => cases ownership <;> cases owner <;> rfl

theorem ofAccess_write (m : Member) (r : Resolution) :
    .ofAccess (ClassBlock.access .write .datasave m r)
      = (BoundCall.reading .datasave m r).written := by
  obtain ⟨category, signature, default, isArray⟩ := r
  cases category with
  | primitive p => cases p <;> rfl
  | enumeration name => rfl
  | object name ownership => cases ownership <;> rfl

def readings (c : ClassDecl) : List BoundCall :=
  c.emittedMembers.map fun (m, r) => .reading c.kind m r

theorem accesses_read (c : ClassDecl) :
    (ClassBlock.accesses .read c).map .ofAccess = readings c := by
  rw [ClassBlock.accesses, readings, List.map_map]
  exact List.map_congr_left fun entry _ => ofAccess_read c.kind entry.1 entry.2

theorem accesses_write (h : c.kind = .datasave) :
    (ClassBlock.accesses .write c).map .ofAccess = (readings c).map BoundCall.written := by
  rw [ClassBlock.accesses, readings, List.map_map, List.map_map, h]
  exact List.map_congr_left fun entry _ => ofAccess_write entry.1 entry.2

/-! ### The functions of a document -/

theorem isIdentifier_field_of_mem_accesses
    (hfields : ∀ m r, (m, r) ∈ c.emittedMembers → isIdentifier m.generatedName = true) :
    ∀ a ∈ ClassBlock.accesses direction c, isIdentifier a.field = true := by
  intro a ha
  obtain ⟨⟨m, r⟩, hm, rfl⟩ := List.mem_map.1 ha
  exact hfields m r hm

theorem doesAccesses_parse (hs : settings.HasPlainScope)
    (hparent : ∀ p ∈ doc.parentOf? c, isIdentifier p.generatedName = true)
    (hfields : ∀ m r, (m, r) ∈ c.emittedMembers → isIdentifier m.generatedName = true) :
    DoesAccesses settings doc "ParseMembers" .read c := by
  have hname : isIdentifier (ClassBlock.parseSignature settings).name = true := by
    show isIdentifier "ParseMembers" = true
    decide
  rw [DoesAccesses, function?_parse]
  exact ClassBlock.actions?_accessFunction hs hname hparent
    (isIdentifier_field_of_mem_accesses hfields)

theorem doesAccesses_serialize (hs : settings.HasPlainScope) (hkind : c.kind = .datasave)
    (hparent : ∀ p ∈ doc.parentOf? c, isIdentifier p.generatedName = true)
    (hfields : ∀ m r, (m, r) ∈ c.emittedMembers → isIdentifier m.generatedName = true) :
    DoesAccesses settings doc "SerializeMembers" .write c := by
  have hname : isIdentifier (ClassBlock.serializeSignature settings).name = true := by
    show isIdentifier "SerializeMembers" = true
    decide
  rw [DoesAccesses, function?_serialize hkind]
  exact ClassBlock.actions?_accessFunction hs hname hparent
    (isIdentifier_field_of_mem_accesses hfields)

end SchemaBinding.Code

namespace SchemaBinding.Binding

open Schema
open Schema.Document (load Lineage parentOf?_load exists_lineage)
open Code (isIdentifier function? run readings DefinedIn)

variable {settings : Code.Settings} {root : Node} {b : Binding}

/-- **Members are read from the eldest ancestor down, and a datasave is written as it is read.**
Every class of the lineage defines the functions; the expansion of the calls of parents ends, within
as many steps as there are classes; and what is left of writing is what is left of reading, call by
call, with the routine that writes in place of the one that reads. -/
theorem run_parse_serialize (hgen : generate settings root = .ok b) (hs : settings.HasPlainScope)
    (hclasses : ∀ a ∈ (load root).1.classes.items, isIdentifier a.generatedName = true)
    (hfields : ∀ a ∈ (load root).1.classes.items, ∀ m r, (m, r) ∈ a.emittedMembers →
      isIdentifier m.generatedName = true)
    {c : ClassDecl} (hc : c ∈ (load root).1.classes.items) :
    ∃ lineage, (load root).1.Lineage c lineage
      ∧ (∀ a ∈ lineage, DefinedIn b.source settings (load root).1 a "ParseMembers")
      ∧ (∀ depth, (load root).1.classes.items.length ≤ depth →
        run settings (load root).1 "ParseMembers" depth c = some (lineage.flatMap readings))
      ∧ (c.kind = .datasave →
        (∀ a ∈ lineage, DefinedIn b.source settings (load root).1 a "SerializeMembers")
        ∧ ∀ depth, (load root).1.classes.items.length ≤ depth →
          run settings (load root).1 "SerializeMembers" depth c
            = some ((lineage.flatMap readings).map Code.BoundCall.written)) := by
  obtain ⟨lineage, hlineage, hlength⟩ := exists_lineage (generate_eq_ok_iff.1 hgen).1 hc
  have hmem := hlineage.mem_items hc
  have hkind := hlineage.kind_eq hc
  have hparent : ∀ a ∈ lineage, ∀ p ∈ (load root).1.parentOf? a,
      isIdentifier p.generatedName = true :=
    fun a ha p hp => hclasses p (parentOf?_load (hmem a ha) hp).1
  refine ⟨lineage, hlineage, ?_, ?_, fun hsave => ⟨?_, ?_⟩⟩
  · exact fun a ha => definedIn_source hgen (hmem a ha) Code.function?_parse
  · intro depth hdepth
    rw [Code.run_of_lineage hlineage (fun a ha => Code.doesAccesses_parse hs (hparent a ha)
      (hfields a (hmem a ha))) (hlength.trans hdepth)]
    exact congrArg some (List.flatMap_congr fun a _ => Code.accesses_read a)
  · intro a ha
    exact definedIn_source hgen (hmem a ha) (Code.function?_serialize ((hkind a ha).trans hsave))
  · intro depth hdepth
    rw [Code.run_of_lineage hlineage (fun a ha => Code.doesAccesses_serialize hs
      ((hkind a ha).trans hsave) (hparent a ha) (hfields a (hmem a ha))) (hlength.trans hdepth),
      List.map_flatMap]
    exact congrArg some
      (List.flatMap_congr fun a ha => Code.accesses_write ((hkind a ha).trans hsave))

/-- A schema in which a hero is an actor that has rivals. -/
def heroSchema : Node :=
  ⟨"Schema", [],
    [⟨"Class", [("name", "Actor"), ("type", "datasave")],
        [⟨"Data", [("name", "display \"name\""), ("code", "m_name"), ("type", "string")], []⟩]⟩,
      ⟨"Class", [("name", "Hero"), ("type", "datasave"), ("base", "Actor")],
        [⟨"Data", [("name", "rivals"), ("type", "array:instance:Actor")], []⟩]⟩]⟩

theorem run_parse_serialize_heroSchema :
    ∃ b, generate .standard heroSchema = .ok b
      ∧ ∃ c ∈ (load heroSchema).1.classes.items, c.name = "Hero"
        ∧ ∃ lineage, (load heroSchema).1.Lineage c lineage
          ∧ ∀ depth, 2 ≤ depth →
            run .standard (load heroSchema).1 "ParseMembers" depth c
                = some (lineage.flatMap readings)
              ∧ run .standard (load heroSchema).1 "SerializeMembers" depth c
                = some ((lineage.flatMap readings).map Code.BoundCall.written) := by
  have hfatal : Diagnostic.anyFatal (load heroSchema).2 = false := by decide +kernel
  have hclasses : ∀ a ∈ (load heroSchema).1.classes.items, isIdentifier a.generatedName = true := by
    decide +kernel
  have hfields : ∀ a ∈ (load heroSchema).1.classes.items, ∀ entry ∈ a.emittedMembers,
      isIdentifier entry.1.generatedName = true := by
    decide +kernel
  have hlength : (load heroSchema).1.classes.items.length = 2 := by decide +kernel
  obtain ⟨c, hc, hname, hkind⟩ : ∃ c ∈ (load heroSchema).1.classes.items,
      c.name = "Hero" ∧ c.kind = .datasave := by
    decide +kernel
  obtain ⟨b, hgen⟩ : ∃ b, generate .standard heroSchema = .ok b :=
    ⟨_, generate_eq_ok_iff.2 ⟨hfatal, rfl⟩⟩
  obtain ⟨lineage, hlineage, -, hparse, hsave⟩ :=
    run_parse_serialize hgen (Or.inr (by decide)) hclasses
      (fun a ha m r hm => hfields a ha (m, r) hm) hc
  rw [hlength] at hparse
  have hserialize := (hsave hkind).2
  rw [hlength] at hserialize
  exact ⟨b, hgen, c, hc, hname, lineage, hlineage,
    fun depth hdepth => ⟨hparse depth hdepth, hserialize depth hdepth⟩⟩

end SchemaBinding.Binding
