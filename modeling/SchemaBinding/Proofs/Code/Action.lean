import SchemaBinding.Code.ClassBlock
import SchemaBinding.Proofs.Code.Call

/-!
# What a body does

A function that reads or writes the members of a class does two things: it calls the function of the
same name of the parent, and it calls routines of the runtime, each with the key of a member, a
field and for some the name of a type.  `actions?` reads this off the text of the function.

* `Routine.ofName?_name_select`: a chosen routine is known by its name.
* `ClassBlock.actions?_accessFunction`: the text of such a function says what `ClassBlock.accesses`
  says, behind the call of the parent.
-/

namespace SchemaBinding.Code

open Schema

/-! ### Routines by name -/

namespace Routine

/-- The routines of the runtime.  A name that two of them share is that of the first. -/
def all : List Routine :=
  [Direction.read, Direction.write].flatMap fun direction =>
    [Shape.string, .int, .float, .bool, .enumeration, .datasheetReference, .datasaveInstance,
      .datasheetInstance].flatMap fun shape => [⟨direction, shape, false⟩, ⟨direction, shape, true⟩]

def ofName? (word : String) : Option Routine := all.find? (·.name = word)

theorem ofName?_name {direction : Direction} {shape : Shape} {isArray : Bool}
    (h : direction = .write → shape ≠ .datasheetInstance) :
    ofName? (name ⟨direction, shape, isArray⟩) = some ⟨direction, shape, isArray⟩ := by
  cases direction <;> cases shape <;> cases isArray <;>
    first
      | decide
      | exact absurd rfl (h rfl)

/-- Nothing writes a datasheet. -/
theorem shapeOf_write_ne (owner : ClassKind) (category : Category) :
    shapeOf .write owner category ≠ .datasheetInstance := by
  cases category with
  | primitive p => cases p <;> exact nofun
  | enumeration n => exact nofun
  | object n o => cases o <;> cases owner <;> exact nofun

/-- A routine that is chosen is known by its name. -/
theorem ofName?_name_select (direction : Direction) (category : Category) (isArray : Bool)
    (owner : ClassKind) :
    ofName? (select direction category isArray owner).name
      = some (select direction category isArray owner) := by
  have hshape : direction = .write → shapeOf direction owner category ≠ .datasheetInstance := by
    rintro rfl
    exact shapeOf_write_ne owner category
  unfold select
  exact ofName?_name hshape

theorem isIdentifier_name (r : Routine) : isIdentifier r.name = true := by
  obtain ⟨direction, shape, isArray⟩ := r
  cases direction <;> cases shape <;> cases isArray <;> decide

end Routine

/-! ### What a call does -/

/-- The scopes that the runtime stands in. -/
def Settings.scopes (s : Settings) : List String :=
  if s.runtimeNamespace = "" then [] else [s.runtimeNamespace]

structure BoundCall where
  routine : Routine
  key : Literal
  typeName? : Option Literal
  field : String
deriving DecidableEq, Repr

inductive Action where
  /-- The function of the same name of a class is called. -/
  | chain (className : String)
  | bind (call : BoundCall)
deriving DecidableEq, Repr

namespace Call

/-- The routine of the runtime that is called, if one is. -/
def routine? (settings : Settings) (c : Call) : Option Routine :=
  (c.callee.getLast?.bind Routine.ofName?).filter fun r =>
    c.callee = settings.scopes ++ ["binding", r.name]

/-- What a call does in a function of this name. -/
def action? (settings : Settings) (name : String) (c : Call) : Option Action :=
  match c.arguments with
  | [.name "context"] =>
    match c.callee with
    | [className, function] => if function = name then some (.chain className) else none
    | _ => none
  | [.name "context", .literal key, .name field] =>
    (c.routine? settings).map fun r => .bind ⟨r, key, none, field⟩
  | [.name "context", .literal key, .literal typeName, .name field] =>
    (c.routine? settings).map fun r => .bind ⟨r, key, some typeName, field⟩
  | _ => none

def ofParent (className name : String) : Call := ⟨[className, name], [.name "context"]⟩

def ofAccess (settings : Settings) (a : Access) : Call where
  callee := settings.scopes ++ ["binding", a.routine.name]
  arguments :=
    .name "context" :: .literal (.ofText a.key)
      :: ((a.typeName?.map fun typeName => .literal (.ofText typeName)).toList ++ [.name a.field])

end Call

def BoundCall.ofAccess (a : Access) : BoundCall :=
  ⟨a.routine, .ofText a.key, a.typeName?.map .ofText, a.field⟩

variable {settings : Settings}

theorem Call.action?_ofParent (settings : Settings) (className name : String) :
    (ofParent className name).action? settings name = some (.chain className) := by
  simp [ofParent, action?]

theorem Call.action?_ofAccess (settings : Settings) (name : String) {a : Access}
    (h : Routine.ofName? a.routine.name = some a.routine) :
    (ofAccess settings a).action? settings name = some (.bind (.ofAccess a)) := by
  have hroutine : (ofAccess settings a).routine? settings = some a.routine := by
    simp [ofAccess, routine?, h]
  obtain ⟨routine, key, typeName?, field⟩ := a
  cases typeName? with
  | none =>
    show ((ofAccess settings ⟨routine, key, none, field⟩).routine? settings).map _ = _
    rw [hroutine]
    rfl
  | some typeName =>
    show ((ofAccess settings ⟨routine, key, some typeName, field⟩).routine? settings).map _ = _
    rw [hroutine]
    rfl

/-! ### The lines of such a function -/

theorem reads_parentCall {className name : String} (hc : isIdentifier className = true)
    (hn : isIdentifier name = true) :
    Reads (className ++ "::" ++ name ++ "(context);")
      ((Call.ofParent className name).tokens ++ [.mark ';']) := by
  have hscope : Reads "::" [.mark ':', .mark ':'] :=
    reads_of_tokens? (by cbv) (by decide) (by decide)
  have hend : Reads "(context);" [.mark '(', .word "context", .mark ')', .mark ';'] :=
    reads_of_tokens? (by cbv) (by decide) (by decide)
  have hsplit : className ++ "::" ++ name ++ "(context);"
      = (className ++ "::") ++ (name ++ "(context);") := String.append_assoc
  rw [hsplit]
  exact (Reads.word hc hscope ⟨':', by decide, by decide⟩).append
    (Reads.word hn hend ⟨'(', by decide, by decide⟩)

/-- What is empty or an identifier can stand before a name of the runtime. -/
def Settings.HasPlainScope (s : Settings) : Prop :=
  s.runtimeNamespace = "" ∨ isIdentifier s.runtimeNamespace = true

theorem reads_runtime (hs : settings.HasPlainScope) {item b : String} {us : List Token}
    (h : Reads (item ++ b) us) :
    Reads (settings.runtime item ++ b)
      (settings.scopes.flatMap (fun scope => [.word scope, .mark ':', .mark ':']) ++ us) := by
  rw [Settings.runtime, Settings.scopes]
  by_cases he : settings.runtimeNamespace = ""
  · rw [if_pos he, if_pos he]
    exact h
  · have hscope : Reads "::" [.mark ':', .mark ':'] :=
      reads_of_tokens? (by cbv) (by decide) (by decide)
    have hsplit : settings.runtimeNamespace ++ "::" ++ item ++ b
        = (settings.runtimeNamespace ++ "::") ++ (item ++ b) := String.append_assoc
    rw [if_neg he, if_neg he, hsplit]
    exact (Reads.word (hs.resolve_left he) hscope ⟨':', by decide, by decide⟩).append h

theorem reads_typeName (typeName? : Option String) :
    Reads (match typeName? with
      | some typeName => quoted typeName ++ ", "
      | none => "")
      (typeName?.elim [] fun typeName => [.literal (.ofText typeName), .mark ',']) := by
  have hcomma : Reads ", " [.mark ','] := reads_of_tokens? (by cbv) (by decide) (by decide)
  cases typeName? with
  | none => exact reads_empty
  | some typeName => exact (reads_quoted typeName).append hcomma

theorem reads_access (hs : settings.HasPlainScope) {a : Access}
    (hfield : isIdentifier a.field = true) :
    Reads (a.text settings) ((Call.ofAccess settings a).tokens ++ [.mark ';']) := by
  have hbinding : Reads "binding::" [.word "binding", .mark ':', .mark ':'] :=
    reads_of_tokens? (by cbv) (by decide) (by decide)
  have hopen : Reads "(context, " [.mark '(', .word "context", .mark ','] :=
    reads_of_tokens? (by cbv) (by decide) (by decide)
  have hcomma : Reads ", " [.mark ','] := reads_of_tokens? (by cbv) (by decide) (by decide)
  have hclose : Reads ");" [.mark ')', .mark ';'] :=
    reads_of_tokens? (by cbv) (by decide) (by decide)
  have hroutine : Reads ("binding::" ++ a.routine.name ++ "(context, ")
      [.word "binding", .mark ':', .mark ':', .word a.routine.name, .mark '(', .word "context",
        .mark ','] := by
    rw [String.append_assoc]
    exact hbinding.append
      (Reads.word a.routine.isIdentifier_name hopen ⟨'(', by decide, by decide⟩)
  have hend := Reads.word hfield hclose ⟨')', by decide, by decide⟩
  have hall := ((((reads_runtime hs hroutine).append (reads_quoted a.key)).append hcomma).append
    (reads_typeName a.typeName?)).append hend
  rw [← String.append_assoc] at hall
  refine hall.of_eq ?_
  rw [Call.tokens, Call.ofAccess, Settings.scopes]
  obtain ⟨routine, key, typeName?, field⟩ := a
  by_cases he : settings.runtimeNamespace = "" <;> cases typeName? <;>
    simp [he, Call.calleeTokens, Call.argumentTokens, Argument.token]

/-- What a function of this name does, if all of it can be told from its text. -/
def Function.actions? (settings : Settings) (name : String) (f : Function) :
    Option (List Action) := do
  let calls ← f.calls?
  calls.mapM (Call.action? settings name)

namespace ClassBlock

variable {doc : Document} {signature : Signature} {direction : Direction} {c : ClassDecl}

/-- The call of the parent, if there is one, and the accesses to the members. -/
def calls (settings : Settings) (doc : Document) (signature : Signature) (direction : Direction)
    (c : ClassDecl) : List Call :=
  ((doc.parentOf? c).map fun parent => Call.ofParent parent.generatedName signature.name).toList
    ++ (accesses direction c).map (Call.ofAccess settings)

theorem readsBody_accesses (hs : settings.HasPlainScope) {accesses : List Access}
    (hfields : ∀ a ∈ accesses, isIdentifier a.field = true) :
    ReadsBody (accesses.map (Access.text settings))
      ((accesses.map (Call.ofAccess settings)).flatMap fun c => c.tokens ++ [.mark ';']) := by
  induction accesses with
  | nil => exact readsBody_nil
  | cons a rest ih =>
    rw [List.map_cons, List.map_cons, List.flatMap_cons]
    exact ReadsBody.cons (reads_access hs (hfields a List.mem_cons_self))
      (ih fun b hb => hfields b (List.mem_cons_of_mem _ hb))

theorem readsBody_accessFunction (hs : settings.HasPlainScope)
    (hname : isIdentifier signature.name = true)
    (hparent : ∀ p ∈ doc.parentOf? c, isIdentifier p.generatedName = true)
    (hfields : ∀ a ∈ accesses direction c, isIdentifier a.field = true) :
    ReadsBody (accessFunction settings doc signature direction c).body
      ((calls settings doc signature direction c).flatMap fun c => c.tokens ++ [.mark ';']) := by
  have haccesses := readsBody_accesses hs hfields
  rw [accessFunction, parentCall?, calls]
  cases hp : doc.parentOf? c with
  | none => exact haccesses
  | some p =>
    have hcall := reads_parentCall (hparent p hp) hname
    have hblank : ReadsBody (if c.emittedMembers = [] then [] else [""]) [] := by
      split
      · exact readsBody_nil
      · exact ReadsBody.cons reads_empty readsBody_nil
    have hall := (ReadsBody.cons hcall hblank).append haccesses
    rw [List.append_nil] at hall
    rw [Option.map_some, Option.map_some, Option.toList_some, List.flatMap_append,
      List.flatMap_singleton]
    exact hall

theorem ofName?_name_of_mem_accesses {a : Access} (h : a ∈ accesses direction c) :
    Routine.ofName? a.routine.name = some a.routine := by
  obtain ⟨⟨m, r⟩, -, rfl⟩ := List.mem_map.1 h
  exact Routine.ofName?_name_select _ _ _ _

/-- **The text of a function that reads or writes members says what it does.** -/
theorem actions?_accessFunction (hs : settings.HasPlainScope)
    (hname : isIdentifier signature.name = true)
    (hparent : ∀ p ∈ doc.parentOf? c, isIdentifier p.generatedName = true)
    (hfields : ∀ a ∈ accesses direction c, isIdentifier a.field = true) :
    (accessFunction settings doc signature direction c).actions? settings signature.name
      = some (((doc.parentOf? c).map fun p => .chain p.generatedName).toList
        ++ (accesses direction c).map fun a => .bind (.ofAccess a)) := by
  have hcalls : (accessFunction settings doc signature direction c).calls?
      = some (calls settings doc signature direction c) := by
    refine Function.calls?_eq (readsBody_accessFunction hs hname hparent hfields) ?_
    intro call hcall
    rcases List.mem_append.1 hcall with hcall | hcall
    · obtain ⟨p, -, rfl⟩ := Option.map_eq_some_iff.1 (Option.mem_toList.1 hcall)
      exact ⟨List.cons_ne_nil _ _, List.cons_ne_nil _ _⟩
    · obtain ⟨a, -, rfl⟩ := List.mem_map.1 hcall
      exact ⟨by simp [Call.ofAccess], List.cons_ne_nil _ _⟩
  have haccesses : ((accesses direction c).map (Call.ofAccess settings)).mapM
      (Call.action? settings signature.name)
      = some ((accesses direction c).map fun a => .bind (.ofAccess a)) :=
    mapM_map_eq_some fun a ha => Call.action?_ofAccess _ _ (ofName?_name_of_mem_accesses ha)
  rw [Function.actions?, hcalls]
  show (calls settings doc signature direction c).mapM _ = _
  rw [calls, List.mapM_append, haccesses]
  cases doc.parentOf? c with
  | none => rfl
  | some p =>
    rw [Option.map_some, Option.toList_some, List.mapM_cons, Call.action?_ofParent]
    rfl

end ClassBlock

end SchemaBinding.Code
