import SchemaBinding.Proofs.Code.Chaining
import SchemaBinding.Proofs.Code.Factory
import SchemaBinding.Proofs.Code.Line
import SchemaBinding.Proofs.Code.ObjectKind

/-!
# Keys of look-ups

At run time a value of an enum is found by the name of the enum, and an object is made by the name
of its class.  A call that reads or writes such a member is given the name as a literal, and
elsewhere the generated code makes the enum or the class known under its name: an enum by its block
and by the routine that registers, a class by its branch of the factory.

* `boundCalls_accessFunction`: the calls of the runtime are read off the lines of a function, for
  any namespace of the runtime.
* `EnumBlock.registeredKey?_eq`, `EnumBlock.requestedKey?_eq`: the block of an enum registers it,
  and asks for it, under its name in the schema.
* `registrations_registerFunction`: the routine that registers calls every enum by its block.
* `Binding.keys_registered`: what a call looks up has been registered.
-/

namespace SchemaBinding

open Schema

theorem Schema.Registry.Named.filter_name_eq {α : Type} {r : Registry α} {nameOf : α → String}
    (h : r.Named nameOf) {item : α} (hi : item ∈ r.items) :
    r.items.filter (nameOf · = nameOf item) = [item] := by
  have honly : ∀ a, a ∈ r.items.filter (nameOf · = nameOf item) ↔ a ∈ [item] := by
    intro a
    rw [List.mem_filter, List.mem_singleton, decide_eq_true_eq]
    constructor
    · rintro ⟨ha, hname⟩
      exact h.eq_of_name_eq ha hi hname
    · rintro rfl
      exact ⟨hi, rfl⟩
  exact List.perm_singleton.1
    ((List.perm_ext_iff_of_nodup (h.nodup_items.filter _) (List.nodup_singleton _)).2 honly)

theorem Schema.Document.enum?_of_target? {doc : Document} {spec : TypeSpec} {e : EnumDecl}
    (h : doc.target? spec = some (.enumeration e)) : doc.enum? spec.base = some e := by
  rw [Document.target?] at h
  split at h
  · obtain ⟨found, -, henum⟩ := Option.map_eq_some_iff.1 h
    cases henum
  · split at h
    · next found hfound =>
      cases Option.some.inj h
      exact hfound
    · simp at h

/-- A default that is a value of an enum is one of the enum that the type names. -/
theorem Schema.Target.eq_enumeration_of_default {t : Target} {owner : ClassKind} {m : Member}
    {enumName value : String} (h : (t.resolution owner m).default = .enumerator enumName value) :
    ∃ e, t = .enumeration e ∧ enumName = e.generatedName := by
  have hsingle : (if m.type.isArray then .emptySequence else t.defaultValue m.literal)
      = DefaultValue.enumerator enumName value := h
  split at hsingle
  · cases hsingle
  · cases t with
    | object decl ownership => cases hsingle
    | primitive p => cases p <;> cases hsingle
    | enumeration e =>
      refine ⟨e, rfl, ?_⟩
      simp only [Target.defaultValue, EnumDecl.defaultValue] at hsingle
      grind

namespace Code

/-! ### Calls of the runtime, line by line -/

def Settings.scope (s : Settings) : String :=
  if s.runtimeNamespace = "" then "" else s.runtimeNamespace ++ "::"

def Settings.unscoped (s : Settings) : Settings := s.withRuntimeNamespace ""

theorem Settings.runtime_eq (s : Settings) (item : String) : s.runtime item = s.scope ++ item := by
  unfold runtime scope
  split
  · exact String.empty_append.symm
  · rfl

/-- Reads a line as a call of an item of the runtime. -/
def Call.ofRuntimeLine? (settings : Settings) (line : String) : Option Call := do
  let rest ← behind? settings.scope line.toList
  let ts ← tokens? rest
  let [statement] ← statements? [] ts | none
  ofTokens? statement

/-- The routine that an action calls, if it is no call of another class. -/
def Action.boundCall? : Action → Option BoundCall
  | .chain _ => none
  | .bind call => some call

def BoundCall.ofLine? (settings : Settings) (line : String) : Option BoundCall := do
  let call ← Call.ofRuntimeLine? settings line
  let action ← call.action? settings.unscoped ""
  action.boundCall?

def Function.boundCalls (settings : Settings) (f : Function) : List BoundCall :=
  f.body.filterMap (BoundCall.ofLine? settings)

variable {settings : Settings} {doc : Document} {c : ClassDecl}

theorem Access.text_eq (settings : Settings) (a : Access) :
    a.text settings = settings.scope ++ a.text settings.unscoped := by
  have hunscoped : settings.unscoped.scope = "" := rfl
  simp only [Access.text, Settings.runtime_eq, hunscoped, String.empty_append, String.append_assoc]

theorem BoundCall.ofLine?_access (settings : Settings) {a : Access}
    (hfield : isIdentifier a.field = true)
    (hroutine : Routine.ofName? a.routine.name = some a.routine) :
    BoundCall.ofLine? settings (a.text settings) = some (.ofAccess a) := by
  have htokens : tokens? (a.text settings.unscoped).toList
      = some ((Call.ofAccess settings.unscoped a).tokens ++ [.mark ';']) :=
    (reads_access (Or.inl rfl) hfield).tokens?
  have hcall : Call.ofRuntimeLine? settings (a.text settings)
      = some (Call.ofAccess settings.unscoped a) := by
    rw [Call.ofRuntimeLine?, Access.text_eq, String.toList_append, behind?_append]
    show (tokens? _).bind _ = _
    rw [htokens, Option.bind_some, statements?_append (Call.semicolon_notMem_tokens _)]
    exact Call.ofTokens?_tokens (c := Call.ofAccess settings.unscoped a) (List.cons_ne_nil _ _)
      (List.cons_ne_nil _ _)
  rw [BoundCall.ofLine?, hcall]
  show (Call.action? _ _ _).bind _ = _
  rw [Call.action?_ofAccess _ _ hroutine]
  rfl

/-! ### Lines without literals -/

theorem literal_notMem_of_tokens? {cs : List Char} {ts : List Token} (h : tokens? cs = some ts)
    (hquote : '"' ∉ cs) : ∀ l, .literal l ∉ ts := by
  fun_induction tokens? cs generalizing ts with
  | case1 =>
    rw [← Option.some.inj h]
    exact fun l => List.not_mem_nil
  | case2 c tail _ ih => exact ih h fun hm => hquote (List.mem_cons_of_mem _ hm)
  | case3 => cases h
  | case4 => exact absurd List.mem_cons_self hquote
  | case5 c tail _ _ _ _ ih =>
    obtain ⟨us, hus, rfl⟩ := Option.map_eq_some_iff.1 h
    have hrest := ih hus fun hm =>
      hquote (List.mem_cons_of_mem _ ((List.dropWhile_sublist _).subset hm))
    intro l hl
    rcases List.mem_cons.1 hl with heq | hl
    · cases heq
    · exact hrest l hl
  | case6 c tail _ _ _ ih =>
    obtain ⟨us, hus, rfl⟩ := Option.map_eq_some_iff.1 h
    have hrest := ih hus fun hm => hquote (List.mem_cons_of_mem _ hm)
    intro l hl
    rcases List.mem_cons.1 hl with heq | hl
    · cases heq
    · exact hrest l hl

theorem mem_of_mem_statements? {current ts : List Token} {statements : List (List Token)}
    (h : statements? current ts = some statements) {statement : List Token}
    (hs : statement ∈ statements) : ∀ t ∈ statement, t ∈ current ∨ t ∈ ts := by
  induction ts generalizing current statements with
  | nil =>
    rw [statements?] at h
    split at h
    · rw [← Option.some.inj h] at hs
      cases hs
    · cases h
  | cons u rest ih =>
    rw [statements?] at h
    intro t ht
    split at h
    · obtain ⟨others, hothers, rfl⟩ := Option.map_eq_some_iff.1 h
      rcases List.mem_cons.1 hs with rfl | hs
      · exact Or.inl ht
      · rcases ih hothers hs t ht with hnone | hrest
        · cases hnone
        · exact Or.inr (List.mem_cons_of_mem _ hrest)
    · rcases ih h hs t ht with hcurrent | hrest
      · rcases List.mem_append.1 hcurrent with hcurrent | hu
        · exact Or.inl hcurrent
        · exact Or.inr (List.mem_singleton.1 hu ▸ List.mem_cons_self)
      · exact Or.inr (List.mem_cons_of_mem _ hrest)

namespace Call

theorem mem_of_readCallee {ts rest : List Token} {callee : List String}
    (h : readCallee ts = some (callee, rest)) : ∀ t ∈ rest, t ∈ ts := by
  fun_induction readCallee ts generalizing callee rest with
  | case1 w tail ih =>
    obtain ⟨⟨inner, after⟩, hinner, heq⟩ := Option.map_eq_some_iff.1 h
    obtain ⟨rfl, rfl⟩ := Prod.mk.inj heq
    intro t ht
    have hmem := ih hinner t ht
    simp [hmem]
  | case2 w tail =>
    obtain ⟨rfl, rfl⟩ := Prod.mk.inj (Option.some.inj h)
    intro t ht
    simp [ht]
  | case3 => cases h

theorem token_of_ofToken? {t : Token} {a : Argument} (h : Argument.ofToken? t = some a) :
    a.token = t := by
  cases t with
  | word w => rw [← Option.some.inj h]; rfl
  | literal l => rw [← Option.some.inj h]; rfl
  | mark d => cases h

theorem token_mem_of_readArguments {ts : List Token} {arguments : List Argument}
    (h : readArguments ts = some arguments) : ∀ a ∈ arguments, a.token ∈ ts := by
  fun_induction readArguments ts generalizing arguments with
  | case1 t =>
    obtain ⟨b, hb, rfl⟩ := Option.map_eq_some_iff.1 h
    intro a ha
    rw [List.mem_singleton.1 ha, token_of_ofToken? hb]
    exact List.mem_cons_self
  | case2 t rest ih =>
    obtain ⟨first, hfirst, h⟩ := Option.bind_eq_some_iff.1 h
    obtain ⟨others, hothers, h⟩ := Option.bind_eq_some_iff.1 h
    cases Option.some.inj h
    intro a ha
    rcases List.mem_cons.1 ha with rfl | ha
    · rw [token_of_ofToken? hfirst]
      exact List.mem_cons_self
    · have hmem := ih hothers a ha
      simp [hmem]
  | case3 => cases h

theorem token_mem_of_ofTokens? {ts : List Token} {call : Call} (h : ofTokens? ts = some call) :
    ∀ a ∈ call.arguments, a.token ∈ ts := by
  obtain ⟨⟨callee, rest⟩, hcallee, h⟩ := Option.bind_eq_some_iff.1 h
  obtain ⟨arguments, harguments, h⟩ := Option.bind_eq_some_iff.1 h
  cases Option.some.inj h
  exact fun a ha => mem_of_readCallee hcallee _ (token_mem_of_readArguments harguments a ha)

/-- A routine of the runtime is given a key. -/
theorem exists_literal_of_action? {call : Call} {name : String} {b : BoundCall}
    (h : call.action? settings name = some (.bind b)) : ∃ l, .literal l ∈ call.arguments := by
  unfold action? at h
  split at h
  · split at h
    · split at h <;> cases h
    · cases h
  · next key field heq =>
    rw [heq]
    exact ⟨key, by simp⟩
  · next key typeName field heq =>
    rw [heq]
    exact ⟨key, by simp⟩
  · cases h

end Call

/-- A line without a literal calls no routine of the runtime. -/
theorem BoundCall.ofLine?_of_noQuote (settings : Settings) {line : String}
    (h : '"' ∉ line.toList) : BoundCall.ofLine? settings line = none := by
  cases hline : BoundCall.ofLine? settings line with
  | none => rfl
  | some b =>
    obtain ⟨call, hcall, hb⟩ := Option.bind_eq_some_iff.1 hline
    obtain ⟨action, haction, hb⟩ := Option.bind_eq_some_iff.1 hb
    cases action with
    | chain className => cases hb
    | bind bound =>
      obtain ⟨rest, hrest, hcall⟩ := Option.bind_eq_some_iff.1 hcall
      obtain ⟨ts, hts, hcall⟩ := Option.bind_eq_some_iff.1 hcall
      obtain ⟨statements, hstatements, hcall⟩ := Option.bind_eq_some_iff.1 hcall
      split at hcall
      · next statement =>
        obtain ⟨l, hl⟩ := Call.exists_literal_of_action? haction
        have hmem := Call.token_mem_of_ofTokens? hcall _ hl
        have hquote : '"' ∉ rest := by
          rw [behind?_eq_some_iff.1 hrest, List.mem_append, not_or] at h
          exact h.2
        rcases mem_of_mem_statements? hstatements List.mem_cons_self _ hmem with hnone | hmem
        · cases hnone
        · exact absurd hmem (literal_notMem_of_tokens? hts hquote l)
      · cases hcall

theorem filterMap_map_eq {α β γ : Type} {f : β → Option γ} {g : α → β} {h : α → γ} {items : List α}
    (hf : ∀ a ∈ items, f (g a) = some (h a)) : (items.map g).filterMap f = items.map h := by
  rw [List.filterMap_map, ← List.filterMap_eq_map]
  exact List.filterMap_congr hf

/-- **The routines that a function calls are read off its lines**, whatever the namespace of the
runtime is. -/
theorem boundCalls_accessFunction {signature : Signature} {direction : Direction}
    (hname : isIdentifier signature.name = true)
    (hparent : ∀ p ∈ doc.parentOf? c, isIdentifier p.generatedName = true)
    (hfields : ∀ a ∈ ClassBlock.accesses direction c, isIdentifier a.field = true) :
    (ClassBlock.accessFunction settings doc signature direction c).boundCalls settings
      = (ClassBlock.accesses direction c).map .ofAccess := by
  have hcalls : ((ClassBlock.accesses direction c).map (Access.text settings)).filterMap
      (BoundCall.ofLine? settings) = (ClassBlock.accesses direction c).map .ofAccess :=
    filterMap_map_eq fun a ha => BoundCall.ofLine?_access settings (hfields a ha)
      (ClassBlock.ofName?_name_of_mem_accesses ha)
  rw [Function.boundCalls, ClassBlock.accessFunction, ClassBlock.parentCall?,
    List.filterMap_append, hcalls]
  refine List.append_left_eq_self.2 ?_
  cases hp : doc.parentOf? c with
  | none => rfl
  | some p =>
    have hquote : ∀ {s : String}, isIdentifier s = true → '"' ∉ s.toList := fun h =>
      notMem_of_isIdentifier h (by decide)
    have hchain : BoundCall.ofLine? settings
        (p.generatedName ++ "::" ++ signature.name ++ "(context);") = none := by
      refine BoundCall.ofLine?_of_noQuote settings ?_
      simp [hquote (hparent p hp), hquote hname]
    rw [Option.map_some, List.filterMap_cons_none hchain]
    split
    · rfl
    · exact List.filterMap_cons_none (BoundCall.ofLine?_of_noQuote settings (by simp))

/-! ### Enums -/

namespace EnumBlock

/-- The name under which the block of an enum registers it. -/
def registeredKey? (settings : Settings) (e : EnumDecl) : Option String :=
  (register settings e).body.getLast?.bind
    (literalBehind? (resources settings ++ "->RegisterDataEnumInfos("))

/-- The name by which the block of an enum asks for its description. -/
def requestedKey? (settings : Settings) (e : EnumDecl) : Option String :=
  (getInfos settings e).body.getLast?.bind
    (literalBehind? ("return " ++ resources settings ++ "->GetDataEnumInfos("))

theorem registeredKey?_eq (settings : Settings) (e : EnumDecl) :
    registeredKey? settings e = some e.name := by
  rw [registeredKey?, register, List.getLast?_concat]
  exact literalBehind?_quoted _ e.name ", enumInfos);"

theorem requestedKey?_eq (settings : Settings) (e : EnumDecl) :
    requestedKey? settings e = some e.name :=
  literalBehind?_quoted _ e.name ");"

end EnumBlock

def Function.registrations (f : Function) : List String :=
  f.body.filterMap (nameBetween? "" "::Register();")

/-- **The routine that registers calls every enum by its block, in order, and nothing else by that
name.** -/
theorem registrations_registerFunction (settings : Settings)
    (h : ∀ e ∈ doc.enums.items, isIdentifier e.generatedName = true) :
    (registerFunction settings doc).registrations
      = doc.enums.items.map EnumDecl.generatedName := by
  have henums : (doc.enums.items.map fun e => e.generatedName ++ "::Register();").filterMap
      (nameBetween? "" "::Register();") = doc.enums.items.map EnumDecl.generatedName :=
    filterMap_map_eq fun e he => by
      have hself := nameBetween?_self (h e he) "" "::Register();"
      rwa [String.empty_append] at hself
  have hblank : nameBetween? "" "::Register();" "" = none :=
    nameBetween?_of_missing (Or.inr (by decide : ';' ∈ "::Register();".toList)) (by simp)
  have hfactory : nameBetween? "" "::Register();" (settings.runtime "GetResources"
      ++ "()->RegisterDataObjectFactory(" ++ settings.factoryRoutine ++ ");") = none :=
    nameBetween?_of_foreign (c := '>') (by decide) (by simp) (by decide) (by simp)
  rw [Function.registrations, registerFunction, List.filterMap_append, List.filterMap_append,
    henums, List.filterMap_cons_none hfactory]
  split <;> simp [hblank]

theorem registerFunction_infix (settings : Settings) (doc : Document) :
    (registerFunction settings doc).lines "" <:+: sourceLines settings doc := by
  unfold sourceLines
  iterate 4 apply List.infix_append_of_infix_left
  exact List.infix_append_right

theorem enumDefinition_infix {e : EnumDecl} (he : e ∈ doc.enums.items) :
    EnumBlock.definition settings e <:+: sourceLines settings doc := by
  have hblock : [banner] ++ EnumBlock.definition settings e ++ [""]
      <:+: doc.enums.items.flatMap fun e => [banner] ++ EnumBlock.definition settings e ++ [""] :=
    infix_flatMap_of_mem (f := fun e => [banner] ++ EnumBlock.definition settings e ++ [""]) he
  have hinner : EnumBlock.definition settings e
      <:+: [banner] ++ EnumBlock.definition settings e ++ [""] := ⟨[banner], [""], rfl⟩
  unfold sourceLines
  -- the blocks of the classes, the free routines and the end of the namespace come behind
  iterate 7 apply List.infix_append_of_infix_left
  exact List.infix_append_of_infix_right (hinner.trans hblock)

/-! ### What is looked up -/

/-- The type of a field that holds one value, or a sequence of values. -/
def fieldType (isArray : Bool) (single : String) : String :=
  if isArray then "std::vector<" ++ single ++ ">" else single

/-- The enum that a call finds by a key: it alone is registered and asked for under that key, in a
block that stands in the source, and it is the enum of the field.  If no two enums have the same
generated name, it is registered once. -/
structure FindsEnum (settings : Settings) (doc : Document) (source key : String) (r : Resolution)
    (e : EnumDecl) : Prop where
  registered : doc.enums.items.filter (EnumBlock.registeredKey? settings · = some key) = [e]
  requested : doc.enums.items.filter (EnumBlock.requestedKey? settings · = some key) = [e]
  block : StandIn (EnumBlock.definition settings e) source
  signature : r.signature = fieldType r.isArray (e.generatedName ++ "::Type")
  default : ∀ enumName value, r.default = .enumerator enumName value → enumName = e.generatedName
  once : (doc.enums.items.map EnumDecl.generatedName).Nodup →
    (registerFunction settings doc).registrations.count e.generatedName = 1

/-- The class that a call in a class of kind `owner` makes an object of by a key: it alone has that
name, it is the class of the field, and unless it is abstract the factory makes it. -/
structure FindsClass (settings : Settings) (doc : Document) (owner : ClassKind) (key : String)
    (r : Resolution) (target : ClassDecl) : Prop where
  only : doc.classes.items.filter (ClassDecl.name · = key) = [target]
  signature : r.signature = fieldType r.isArray (match owner with
    | .datasave => target.generatedName ++ "*"
    | .datasheet => "const " ++ target.generatedName ++ "*")
  branch : target.isAbstract = false → ∃ branches,
    (factoryFunction settings doc).branches? = some branches
      ∧ ∃ branch ∈ branches, branch.key.value = key ∧ branch.className = target.generatedName

/-- What a call in a class of kind `owner` looks up for a member has been registered. -/
structure KeyRegistered (settings : Settings) (doc : Document) (source : String) (owner : ClassKind)
    (emitted : Member × Resolution) (call : BoundCall) : Prop where
  enumeration : call.routine.shape = .enumeration →
    ∃ l ∈ call.typeName?, ∃ e, FindsEnum settings doc source l.value emitted.2 e
  object : call.routine.shape = .datasheetInstance ∨ call.routine.shape = .datasaveInstance →
    ∃ l ∈ call.typeName?, ∃ target, FindsClass settings doc owner l.value emitted.2 target

end Code

namespace Binding

open Schema.Document (load ofNode wellNamed_load class?_resolve class?_of_target? enum?_of_target?)
open Code (isIdentifier function? StandIn ClassBlock.access EnumBlock.registeredKey?
  EnumBlock.requestedKey?)

variable {settings : Code.Settings} {root : Node} {b : Binding}

theorem registration_standsIn (hgen : generate settings root = .ok b) :
    StandIn ((Code.registerFunction settings (load root).1).lines "") b.source := by
  rw [(generate_eq_ok_iff.1 hgen).2]
  exact Code.standIn_unlines (Code.registerFunction_infix _ _)

theorem enumDefinition_standsIn (hgen : generate settings root = .ok b) {e : EnumDecl}
    (he : e ∈ (load root).1.enums.items) :
    StandIn (Code.EnumBlock.definition settings e) b.source := by
  rw [(generate_eq_ok_iff.1 hgen).2]
  exact Code.standIn_unlines (Code.enumDefinition_infix he)

/-- The enum that the type of a member names. -/
theorem findsEnum_of_enum? (hgen : generate settings root = .ok b)
    (henums : ∀ e ∈ (load root).1.enums.items, isIdentifier e.generatedName = true)
    {e : EnumDecl} {m : Member} (owner : ClassKind)
    (hfound : (load root).1.enum? m.type.base = some e) :
    Code.FindsEnum settings (load root).1 b.source m.type.base
      (Target.resolution owner m (.enumeration e)) e := by
  have hnamed := (wellNamed_load root).enums
  obtain ⟨he, hname⟩ := hnamed.find?_eq_some_iff.1 hfound
  have honly : (load root).1.enums.items.filter (fun d => some d.name = some m.type.base)
      = [e] := by
    simp only [Option.some.injEq, ← hname]
    exact hnamed.filter_name_eq he
  refine ⟨?_, ?_, enumDefinition_standsIn hgen he, rfl, ?_, ?_⟩
  · simpa only [Code.EnumBlock.registeredKey?_eq] using honly
  · simpa only [Code.EnumBlock.requestedKey?_eq] using honly
  · intro enumName value hdefault
    obtain ⟨d, heq, hname⟩ := Target.eq_enumeration_of_default hdefault
    cases heq
    exact hname
  · intro hnodup
    rw [Code.registrations_registerFunction settings henums]
    exact List.count_eq_one_of_mem hnodup (List.mem_map_of_mem he)

/-- The class that an object is made of. -/
theorem findsClass_of_class?
    (hclasses : ∀ a ∈ (load root).1.classes.items, isIdentifier a.generatedName = true)
    {decl : ClassDecl} {m : Member} (owner : ClassKind)
    (hfound : (ofNode root).1.class? m.type.base = some decl) :
    Code.FindsClass settings (load root).1 owner m.type.base
      (Target.resolution owner m (.object decl .owned)) ((ofNode root).1.resolveClass decl) := by
  have hnamed := (wellNamed_load root).classes
  have htarget : (load root).1.class? m.type.base
      = some ((ofNode root).1.resolveClass decl) := by
    show (ofNode root).1.resolve.1.class? m.type.base = _
    rw [class?_resolve, hfound, Option.map_some]
  obtain ⟨hmem, hname⟩ := hnamed.find?_eq_some_iff.1 htarget
  refine ⟨?_, ?_, ?_⟩
  · rw [← hname]
    exact hnamed.filter_name_eq hmem
  · cases owner <;> rfl
  · intro habstract
    refine ⟨_, Code.branches?_factoryFunction hclasses,
      Code.FactoryBranch.read ⟨m.type.base, decl.generatedName⟩, ?_, rfl, rfl⟩
    refine List.mem_map_of_mem (List.mem_map.2 ⟨_, List.mem_filter.2 ⟨hmem, ?_⟩, ?_⟩)
    · rw [habstract]
      rfl
    · rw [hname]
      rfl

/-- The call that reads or writes a member, by what the type of the member names. -/
theorem keyRegistered_access (hgen : generate settings root = .ok b)
    (henums : ∀ e ∈ (load root).1.enums.items, isIdentifier e.generatedName = true)
    (hclasses : ∀ a ∈ (load root).1.classes.items, isIdentifier a.generatedName = true)
    {m : Member} {t : Target} (ht : (ofNode root).1.target? m.type = some t)
    (direction : Code.Direction) (owner : ClassKind) :
    Code.KeyRegistered settings (load root).1 b.source owner (m, t.resolution owner m)
      (.ofAccess (ClassBlock.access direction owner m (t.resolution owner m))) := by
  cases t with
  | primitive p =>
    constructor
    · intro hshape
      cases p <;> cases hshape
    · intro hshape
      cases p <;> rcases hshape with hshape | hshape <;> cases hshape
  | enumeration e =>
    have hfound := enum?_of_target? ht
    constructor
    · intro _
      exact ⟨.ofText m.type.base, rfl, e, findsEnum_of_enum? hgen henums owner hfound⟩
    · intro hshape
      rcases hshape with hshape | hshape <;> cases hshape
  | object decl ownership =>
    cases ownership with
    | reference =>
      constructor
      · intro hshape
        cases hshape
      · intro hshape
        rcases hshape with hshape | hshape <;> cases hshape
    | owned =>
      constructor
      · intro hshape
        cases direction <;> cases owner <;> cases hshape
      · intro _
        refine ⟨.ofText m.type.base, ?_, _,
          findsClass_of_class? hclasses owner (class?_of_target? ht)⟩
        cases direction <;> cases owner <;> rfl

/-- **What a call looks up has been registered.**  The calls of the runtime in a function that reads
or writes the members of a class are in step with the members, and each call that is given the name
of an enum finds the enum of its field by it, and each that is given the name of a class finds the
class of its field. -/
theorem keys_registered (hgen : generate settings root = .ok b)
    (henums : ∀ e ∈ (load root).1.enums.items, isIdentifier e.generatedName = true)
    (hclasses : ∀ a ∈ (load root).1.classes.items, isIdentifier a.generatedName = true)
    (hfields : ∀ a ∈ (load root).1.classes.items, ∀ m r, (m, r) ∈ a.emittedMembers →
      isIdentifier m.generatedName = true)
    {c : ClassDecl} (hc : c ∈ (load root).1.classes.items) {direction : Code.Direction}
    {f : Code.Function}
    (hf : function? settings (load root).1 c direction.functionName = some f) :
    StandIn (f.lines (c.generatedName ++ "::")) b.source
    ∧ StandIn ((Code.registerFunction settings (load root).1).lines "") b.source
    ∧ StandIn ((Code.factoryFunction settings (load root).1).lines "") b.source
    ∧ List.Forall₂ (Code.KeyRegistered settings (load root).1 b.source c.kind) c.emittedMembers
        (f.boundCalls settings) := by
  refine ⟨functions_standIn hgen hc (List.mem_of_find?_eq_some hf), registration_standsIn hgen,
    factory_standsIn hgen, ?_⟩
  obtain ⟨hdirection, rfl⟩ := Code.function?_eq_some_iff.1 hf
  have hname : isIdentifier (direction.signature settings).name = true := by
    cases direction
    · show isIdentifier "ParseMembers" = true
      decide
    · show isIdentifier "SerializeMembers" = true
      decide
  have hparent : ∀ p ∈ (load root).1.parentOf? c, isIdentifier p.generatedName = true :=
    fun p hp => hclasses p (Document.parentOf?_load hc hp).1
  rw [Code.boundCalls_accessFunction hname hparent
    (Code.isIdentifier_field_of_mem_accesses (hfields c hc)), Code.ClassBlock.accesses,
    List.map_map, List.forall₂_map_right_iff, List.forall₂_same]
  rintro ⟨m, r⟩ hm
  obtain ⟨t, ht, rfl⟩ := Code.exists_target_of_mem_emittedMembers hc hm
  exact keyRegistered_access hgen henums hclasses ht direction c.kind

/-- A schema of a chest and the gems in it, with a kind of gem and a class that no identifier could
name. -/
def chestSchema : Node :=
  ⟨"Schema", [],
    [⟨"Enum", [("name", "cut \"A\""), ("code", "ECut")], [⟨"Value", [("name", "Round")], []⟩]⟩,
      ⟨"Class", [("name", "precious gem"), ("code", "Gem"), ("type", "datasave")],
        [⟨"Data", [("name", "cut"), ("type", "cut \"A\""), ("default", "Round")], []⟩]⟩,
      ⟨"Class", [("name", "Chest"), ("type", "datasave")],
        [⟨"Data", [("name", "cuts"), ("type", "array:cut \"A\"")], []⟩,
          ⟨"Data", [("name", "gem"), ("type", "instance:precious gem")], []⟩]⟩]⟩

theorem keys_registered_chestSchema :
    ∃ b, generate .standard chestSchema = .ok b
      ∧ ∃ c ∈ (load chestSchema).1.classes.items, c.name = "Chest" ∧ c.emittedMembers.length = 2
        ∧ ∃ f, function? .standard (load chestSchema).1 c "SerializeMembers" = some f
          ∧ List.Forall₂ (Code.KeyRegistered .standard (load chestSchema).1 b.source c.kind)
              c.emittedMembers (f.boundCalls .standard) := by
  have hfatal : Diagnostic.anyFatal (load chestSchema).2 = false := by decide +kernel
  have henums : ∀ e ∈ (load chestSchema).1.enums.items, isIdentifier e.generatedName = true := by
    decide +kernel
  have hclasses : ∀ a ∈ (load chestSchema).1.classes.items,
      isIdentifier a.generatedName = true := by
    decide +kernel
  have hfields : ∀ a ∈ (load chestSchema).1.classes.items, ∀ entry ∈ a.emittedMembers,
      isIdentifier entry.1.generatedName = true := by
    decide +kernel
  obtain ⟨c, hc, hname, hmembers, hkind⟩ : ∃ c ∈ (load chestSchema).1.classes.items,
      c.name = "Chest" ∧ c.emittedMembers.length = 2 ∧ c.kind = .datasave := by
    decide +kernel
  obtain ⟨b, hgen⟩ : ∃ b, generate .standard chestSchema = .ok b :=
    ⟨_, generate_eq_ok_iff.2 ⟨hfatal, rfl⟩⟩
  have hf : function? .standard (load chestSchema).1 c Code.Direction.write.functionName = some _ :=
    Code.function?_eq_some_iff.2 ⟨Or.inr hkind, rfl⟩
  obtain ⟨-, -, -, hkeys⟩ := keys_registered hgen henums hclasses
    (fun a ha m r hm => hfields a ha (m, r) hm) hc hf
  exact ⟨b, hgen, c, hc, hname, hmembers, _, hf, hkeys⟩

end Binding

end SchemaBinding
