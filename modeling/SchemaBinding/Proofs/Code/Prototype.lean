import SchemaBinding.Proofs.Code.Contents

/-!
# Prototypes

A function is declared in one file and defined in the other.  There its text differs: a declaration
may be virtual and an override, and the definition of a function of a class is qualified by the
class.  `Entry.prototype?` reads from either text the same `Prototype`, which is the signature with
the enum or the class that it belongs to.

* `Signature.read?_text`: a signature is read back from its text.
* `map_prototype?_headerEntries`, `map_prototype?_sourceEntries`: what is declared and what is
  defined.
* `filter_isOuter_headerEntries`, `filter_isOuter_sourceEntries`: what stands around the blocks.
* `declared_perm_defined`: the files of a schema declare and define the same functions, in the same
  namespace.
-/

namespace SchemaBinding.Code

open Schema
open Schema.Document (load ofNode)

/-! ### Reading signatures -/

/-- What stands before the last blank, if there is one, and what stands behind it. -/
def lastWord (cs : List Char) : Option (List Char) × List Char :=
  let word := (cs.reverse.takeWhile (· ≠ ' ')).reverse
  match cs.reverse.dropWhile (· ≠ ' ') with
  | [] => (none, word)
  | _ :: front => (some front.reverse, word)

/-- Reads a signature.  Its name stands before the parenthesis, with a scope if it has one. -/
def Signature.read? (cs : List Char) : Option Signature := do
  let isConst := (before? " const" cs).isSome
  let inner ← before? ")" ((before? " const" cs).getD cs)
  let '(' :: parameter ← inner.dropWhile (· ≠ '(') | none
  let (result?, name) := lastWord (inner.takeWhile (· ≠ '('))
  return ⟨result?.map String.ofList, String.ofList name, String.ofList parameter, isConst⟩

/-- A function without its body, with the enum or the class that it belongs to. -/
structure Prototype where
  scope? : Option String
  signature : Signature
deriving DecidableEq, Repr

/-- Reads the text of a declaration, which may be virtual and an override. -/
def Prototype.ofDeclaration? (scope? : Option String) (text : String) : Option Prototype := do
  let cs ← before? ";" ((behind? "virtual " text.toList).getD text.toList)
  let signature ← Signature.read? ((before? " override" cs).getD cs)
  return ⟨scope?, signature⟩

def Prototype.qualified (p : Prototype) : Prototype :=
  match behind? "::" (p.signature.name.toList.dropWhile (· ≠ ':')) with
  | none => p
  | some name =>
    ⟨some (String.ofList (p.signature.name.toList.takeWhile (· ≠ ':'))),
      { p.signature with name := String.ofList name }⟩

/-- Reads the text above a body, which may be qualified. -/
def Prototype.ofDefinition? (scope? : Option String) (text : String) : Option Prototype :=
  (Signature.read? text.toList).map fun signature => Prototype.qualified ⟨scope?, signature⟩

namespace Entry

def isDeclared : Entry → Bool
  | declared _ _ => true
  | _ => false

def isDefined : Entry → Bool
  | defined _ _ => true
  | _ => false

def prototype? : Entry → Option Prototype
  | declared scope? text => Prototype.ofDeclaration? scope? text
  | defined scope? text => Prototype.ofDefinition? scope? text
  | _ => none

/-- An included file, or the beginning or the end of the namespace. -/
def isOuter : Entry → Bool
  | included _ | opened _ | closed _ => true
  | _ => false

end Entry

/-! ### Signatures are read back -/

theorem lastWord_of_notMem {word : List Char} (h : ' ' ∉ word) : lastWord word = (none, word) := by
  have hall : ∀ c ∈ word.reverse, decide (c ≠ ' ') = true := by
    intro c hc
    rw [decide_eq_true_eq]
    rintro rfl
    exact h (List.mem_reverse.1 hc)
  rw [lastWord, List.takeWhile_eq_self_iff.2 hall, List.dropWhile_eq_nil_iff.2 hall,
    List.reverse_reverse]

theorem lastWord_append (front : List Char) {word : List Char} (h : ' ' ∉ word) :
    lastWord (front ++ ' ' :: word) = (some front, word) := by
  have hall : ∀ c ∈ word.reverse, decide (c ≠ ' ') = true := by
    intro c hc
    rw [decide_eq_true_eq]
    rintro rfl
    exact h (List.mem_reverse.1 hc)
  have hreverse : (front ++ ' ' :: word).reverse = word.reverse ++ ' ' :: front.reverse := by simp
  rw [lastWord, hreverse, takeWhile_append_of_all hall (by simp),
    dropWhile_append_of_all hall (by simp), List.reverse_reverse]
  show (some front.reverse.reverse, word) = _
  rw [List.reverse_reverse]

/-- A text that ends in another way is left as it is. -/
theorem before?_of_last {back : String} {cs : List Char} {c d : Char}
    (hback : back.toList.getLast? = some c) (hcs : cs.getLast? = some d) (hne : c ≠ d) :
    before? back cs = none := by
  cases hfound : before? back cs with
  | none => rfl
  | some inner =>
    rw [before?_eq_some_iff.1 hfound, List.getLast?_append, hback] at hcs
    exact absurd (Option.some.inj hcs) hne

namespace Signature

/-- A signature whose name is no more than a name, and whose result has no parameters. -/
structure Plain (s : Signature) : Prop where
  result : ∀ result ∈ s.result?, '(' ∉ result.toList
  paren : '(' ∉ s.name.toList
  blank : ' ' ∉ s.name.toList
  colon : ':' ∉ s.name.toList

/-- What stands before the parenthesis. -/
def head (s : Signature) (scope : String) : List Char :=
  (match s.result? with
    | some result => result.toList ++ [' ']
    | none => []) ++ (scope ++ s.name).toList

theorem lastWord_head {s : Signature} (h : s.Plain) {scope : String} (hblank : ' ' ∉ scope.toList) :
    lastWord (s.head scope) = (s.result?.map String.toList, (scope ++ s.name).toList) := by
  have hword : ' ' ∉ (scope ++ s.name).toList := by simp [hblank, h.blank]
  unfold head
  cases s.result? with
  | none => exact lastWord_of_notMem hword
  | some result =>
    rw [List.append_assoc, List.singleton_append]
    exact lastWord_append _ hword

theorem paren_notMem_head {s : Signature} (h : s.Plain) {scope : String}
    (hparen : '(' ∉ scope.toList) : '(' ∉ s.head scope := by
  have hresult := h.result
  unfold head
  cases hr : s.result? with
  | none => simp [hparen, h.paren]
  | some result => simp [hresult result hr, hparen, h.paren]

/-- The word behind the parameters is told from the signature. -/
theorem before?_const (s : Signature) (scope : String) :
    (before? " const" (s.text scope).toList).isSome = s.isConst
      ∧ (before? " const" (s.text scope).toList).getD (s.text scope).toList
        = s.head scope ++ '(' :: s.parameter.toList ++ ")".toList := by
  obtain ⟨result?, name, parameter, isConst⟩ := s
  have htext : (Signature.text ⟨result?, name, parameter, isConst⟩ scope).toList
      = head ⟨result?, name, parameter, isConst⟩ scope ++ '(' :: parameter.toList ++ ")".toList
        ++ (if isConst then " const".toList else []) := by
    cases result? <;> cases isConst <;> simp [Signature.text, head]
  rw [htext]
  cases isConst with
  | true =>
    rw [if_pos rfl, before?_eq_some_iff.2 rfl]
    exact ⟨rfl, rfl⟩
  | false =>
    have hlast : (head ⟨result?, name, parameter, false⟩ scope ++ '(' :: parameter.toList
        ++ ")".toList).getLast? = some ')' := by
      rw [List.getLast?_append]
      rfl
    rw [if_neg (by decide), List.append_nil,
      before?_of_last (by decide : _ = some 't') hlast (by decide)]
    exact ⟨rfl, rfl⟩

/-- **A signature is read back from its text**, with the scope before its name. -/
theorem read?_text {s : Signature} (h : s.Plain) {scope : String} (hparen : '(' ∉ scope.toList)
    (hblank : ' ' ∉ scope.toList) :
    read? (s.text scope).toList = some { s with name := scope ++ s.name } := by
  have hall : ∀ c ∈ s.head scope, decide (c ≠ '(') = true := by
    intro c hc
    rw [decide_eq_true_eq]
    rintro rfl
    exact paren_notMem_head h hparen hc
  obtain ⟨hconst, hinner⟩ := before?_const s scope
  rw [read?, hconst, hinner, before?_eq_some_iff.2 rfl]
  simp only [Option.bind_eq_bind, Option.bind_some]
  rw [dropWhile_append_of_all hall (by simp), takeWhile_append_of_all hall (by simp),
    lastWord_head h hblank]
  have hresult : (s.result?.map String.toList).map String.ofList = s.result? := by
    cases s.result? <;> simp
  simp only [hresult, String.ofList_toList]
  rfl

theorem read?_self {s : Signature} (h : s.Plain) : read? (s.text "").toList = some s := by
  rw [read?_text h (by decide) (by decide), String.empty_append]

end Signature

namespace Prototype

variable {s : Signature}

/-! ### Definitions -/

theorem ofDefinition?_self (h : s.Plain) (scope? : Option String) :
    ofDefinition? scope? (s.text "") = some ⟨scope?, s⟩ := by
  have hall : ∀ c ∈ s.name.toList, decide (c ≠ ':') = true := by
    intro c hc
    rw [decide_eq_true_eq]
    rintro rfl
    exact h.colon hc
  rw [ofDefinition?, Signature.read?_self h, Option.map_some, qualified,
    List.dropWhile_eq_nil_iff.2 hall]
  rfl

theorem ofDefinition?_qualified (h : s.Plain) {name : String} (hname : isIdentifier name = true)
    (scope? : Option String) :
    ofDefinition? scope? (s.text (name ++ "::")) = some ⟨some name, s⟩ := by
  have hall : ∀ c ∈ name.toList, decide (c ≠ ':') = true := by
    intro c hc
    rw [decide_eq_true_eq]
    exact isWordCharacter_ne (isWordCharacter_of_isIdentifier hname c hc) (by decide)
  have hlist : (name ++ "::" ++ s.name).toList = name.toList ++ ("::".toList ++ s.name.toList) := by
    simp only [String.toList_append, List.append_assoc]
  have hparen : '(' ∉ (name ++ "::").toList := by
    simp [notMem_of_isIdentifier hname (by decide : isWordCharacter '(' = false)]
  have hblank : ' ' ∉ (name ++ "::").toList := by
    simp [notMem_of_isIdentifier hname (by decide : isWordCharacter ' ' = false)]
  have hread := Signature.read?_text h hparen hblank
  have hrest : ∀ c ∈ ("::".toList ++ s.name.toList).head?, decide (c ≠ ':') = false := by
    intro c hc
    cases Option.some.inj hc
    decide
  rw [ofDefinition?, hread, Option.map_some, qualified, hlist, dropWhile_append_of_all hall hrest,
    behind?_append, takeWhile_append_of_all hall hrest]
  simp only [String.ofList_toList]

/-! ### Declarations -/

/-- Neither a signature nor what is left of it looks like an override. -/
theorem before?_override (s : Signature) (scope : String) :
    before? " override" (s.text scope).toList = none := by
  rcases getLast?_text s scope with h | h
  · exact before?_of_last (by decide : _ = some 'e') h (by decide)
  · exact before?_of_last (by decide : _ = some 'e') h (by decide)

theorem ofDeclaration?_self (h : s.Plain)
    (hvirtual : ¬ "virtual ".toList <+: (s.text "" ++ ";").toList) (scope? : Option String) :
    ofDeclaration? scope? (s.text "" ++ ";") = some ⟨scope?, s⟩ := by
  rw [ofDeclaration?, behind?, if_neg hvirtual, Option.getD_none, String.toList_append,
    before?_eq_some_iff.2 rfl, Option.bind_eq_bind, Option.bind_some, before?_override,
    Option.getD_none, Signature.read?_self h]
  rfl

theorem ofDeclaration?_virtual (h : s.Plain) (scope? : Option String) :
    ofDeclaration? scope? ("virtual " ++ s.text "" ++ ";") = some ⟨scope?, s⟩ := by
  rw [ofDeclaration?, String.append_assoc, String.toList_append, behind?_append, Option.getD_some,
    String.toList_append, before?_eq_some_iff.2 rfl, Option.bind_eq_bind, Option.bind_some,
    before?_override, Option.getD_none, Signature.read?_self h]
  rfl

theorem ofDeclaration?_override (h : s.Plain) (scope? : Option String) :
    ofDeclaration? scope? ("virtual " ++ s.text "" ++ " override;") = some ⟨scope?, s⟩ := by
  have hback : " override;".toList = " override".toList ++ ";".toList := by decide
  rw [ofDeclaration?, String.append_assoc, String.toList_append, behind?_append, Option.getD_some,
    String.toList_append, hback, ← List.append_assoc, before?_eq_some_iff.2 rfl,
    Option.bind_eq_bind, Option.bind_some, before?_eq_some_iff.2 rfl, Option.getD_some,
    Signature.read?_self h]
  rfl

/-- A text whose first word is another one is not virtual. -/
theorem not_virtual_of_first {first : String} (hblank : ' ' ∉ first.toList)
    (hne : first ≠ "virtual") (rest : List Char) :
    ¬ "virtual ".toList <+: first.toList ++ ' ' :: rest := by
  rintro ⟨tail, htail⟩
  have hall : ∀ w : String, ' ' ∉ w.toList → ∀ c ∈ w.toList, decide (c ≠ ' ') = true := by
    intro w hw c hc
    rw [decide_eq_true_eq]
    rintro rfl
    exact hw hc
  have hword : "virtual ".toList ++ tail = "virtual".toList ++ ' ' :: tail := rfl
  have htake := congrArg (List.takeWhile (decide <| · ≠ ' ')) htail
  rw [hword, takeWhile_append_of_all (hall _ (by decide)) (by simp),
    takeWhile_append_of_all (hall _ hblank) (by simp), String.toList_inj] at htake
  exact hne htake.symm

end Prototype

/-! ### What is declared and defined -/

/-- Settings that names and routines can be made from: the base name is an identifier, the namespace
of the runtime is one or there is none, and no path is broken. -/
structure Settings.Regular (s : Settings) : Prop where
  baseName : isIdentifier s.baseName = true
  scope : s.HasPlainScope
  headerIncludes : ∀ file ∈ s.headerIncludes, '\n' ∉ file.toList
  sourceIncludes : ∀ file ∈ s.sourceIncludes, '\n' ∉ file.toList

theorem Settings.HasPlainScope.notMem_runtime {s : Settings} (h : s.HasPlainScope) {c : Char}
    (hword : isWordCharacter c = false) (hcolon : c ∉ "::".toList) {item : String}
    (hitem : c ∉ item.toList) : c ∉ (s.runtime item).toList := by
  rw [Settings.runtime]
  split
  · exact hitem
  · next hne =>
    rw [String.toList_append, String.toList_append, List.mem_append, List.mem_append, not_or,
      not_or]
    exact ⟨⟨notMem_of_isIdentifier (h.resolve_left hne) hword, hcolon⟩, hitem⟩

theorem Settings.Regular.unbroken {s : Settings} (h : s.Regular) : s.Unbroken where
  baseName := unbroken_of_isIdentifier h.baseName
  runtimeNamespace := by
    rcases h.scope with hnone | hscope
    · rw [hnone]
      decide
    · exact unbroken_of_isIdentifier hscope
  headerIncludes := h.headerIncludes
  sourceIncludes := h.sourceIncludes

variable {settings : Settings} {doc : Document} {c : ClassDecl} {e : EnumDecl}

/-- The signatures of the functions of a class: only a datasave is written. -/
def ClassBlock.signatures (settings : Settings) (c : ClassDecl) : List Signature :=
  [constructorSignature c, destructorSignature c, parseSignature settings]
    ++ match c.kind with
      | .datasheet => []
      | .datasave => [serializeSignature settings, instanceTypeSignature]

/-- The functions of the two files, in the order in which they are declared. -/
def prototypes (settings : Settings) (doc : Document) : List Prototype :=
  doc.enums.items.flatMap (fun e =>
      (EnumBlock.declaredSignatures settings e).map (⟨some e.generatedName, ·⟩))
    ++ doc.classes.items.flatMap (fun c =>
      (ClassBlock.signatures settings c).map (⟨some c.generatedName, ·⟩))
    ++ [⟨none, registerSignature settings⟩, ⟨none, factorySignature settings⟩]

/-! ### Signatures that are plain -/

theorem plain_of_isIdentifier {result? : Option String}
    (hresult : ∀ result ∈ result?, '(' ∉ result.toList) {name : String}
    (hname : isIdentifier name = true) (parameter : String) (isConst : Bool) :
    Signature.Plain ⟨result?, name, parameter, isConst⟩ :=
  ⟨hresult, notMem_of_isIdentifier hname (by decide), notMem_of_isIdentifier hname (by decide),
    notMem_of_isIdentifier hname (by decide)⟩

theorem isIdentifier_append {name back : String} (h : isIdentifier name = true)
    (hback : back.toList.all isWordCharacter = true) : isIdentifier (name ++ back) = true := by
  unfold isIdentifier at h ⊢
  rw [String.toList_append]
  split at h
  · cases h
  · next c rest hlist =>
    rw [Bool.and_eq_true] at h
    simp only [hlist, List.cons_append, Bool.and_eq_true, h.1, true_and]
    rw [← List.cons_append, List.all_append, Bool.and_eq_true]
    exact ⟨h.2, hback⟩

theorem plain_enumSignatures (hs : settings.HasPlainScope) (e : EnumDecl) :
    ∀ s ∈ EnumBlock.declaredSignatures settings e, s.Plain := by
  have hinfos : '(' ∉ (EnumBlock.infos settings).toList :=
    hs.notMem_runtime (by decide) (by decide) (by decide)
  simp only [EnumBlock.declaredSignatures, List.forall_mem_cons, List.not_mem_nil, false_imp_iff,
    implies_true, and_true]
  exact ⟨plain_of_isIdentifier (by simp [hinfos]) (by decide) _ _,
    plain_of_isIdentifier (by simp) (by decide) _ _,
    plain_of_isIdentifier (by simp) (by decide) _ _,
    plain_of_isIdentifier (by simp) (by decide) _ _⟩

theorem plain_classSignatures (settings : Settings) (hname : isIdentifier c.generatedName = true) :
    ∀ s ∈ ClassBlock.signatures settings c, s.Plain := by
  have hdestructor : (ClassBlock.destructorSignature c).Plain := by
    refine ⟨by simp [ClassBlock.destructorSignature], ?_, ?_, ?_⟩
    · exact notMem_behind hname (by decide) (by decide)
    · exact notMem_behind hname (by decide) (by decide)
    · exact notMem_behind hname (by decide) (by decide)
  intro s hmem
  rcases List.mem_append.1 hmem with hmem | hmem
  · simp only [List.mem_cons, List.not_mem_nil, or_false] at hmem
    rcases hmem with rfl | rfl | rfl
    · exact plain_of_isIdentifier (by simp) hname _ _
    · exact hdestructor
    · exact plain_of_isIdentifier (by simp) (by decide) _ _
  · split at hmem
    · cases hmem
    · simp only [List.mem_cons, List.not_mem_nil, or_false] at hmem
      rcases hmem with rfl | rfl
      · exact plain_of_isIdentifier (by simp) (by decide) _ _
      · exact plain_of_isIdentifier (by simp) (by decide) _ _

theorem plain_registerSignature (hs : settings.Regular) : (registerSignature settings).Plain :=
  plain_of_isIdentifier (by simp) (isIdentifier_append hs.baseName (by decide)) _ _

theorem plain_factorySignature (hs : settings.Regular) : (factorySignature settings).Plain := by
  have hresult : '(' ∉ (settings.runtime "DataObject").toList :=
    hs.scope.notMem_runtime (by decide) (by decide) (by decide)
  exact plain_of_isIdentifier (by simp [hresult]) (isIdentifier_append hs.baseName (by decide)) _ _

/-! ### What the header declares -/

/-- A signature with a result of one word is not virtual. -/
theorem not_virtual_of_result {first name parameter : String} (hblank : ' ' ∉ first.toList)
    (hne : first ≠ "virtual") (isConst : Bool) :
    ¬ "virtual ".toList
      <+: (Signature.text ⟨some first, name, parameter, isConst⟩ "" ++ ";").toList := by
  have htext : (Signature.text ⟨some first, name, parameter, isConst⟩ "" ++ ";").toList
      = first.toList ++ ' ' :: (name ++ "(" ++ parameter ++ ")"
        ++ (if isConst then " const" else "") ++ ";").toList := by
    simp [Signature.text]
  rw [htext]
  exact Prototype.not_virtual_of_first hblank hne _

theorem prototype?_enum (hs : settings.HasPlainScope) (e : EnumDecl) (scope? : Option String) :
    ∀ s ∈ EnumBlock.declaredSignatures settings e,
      Entry.prototype? (.declared scope? (s.text "" ++ ";")) = some ⟨scope?, s⟩ := by
  have hinfos : ¬ "virtual ".toList
      <+: ((EnumBlock.infosSignature settings).text "" ++ ";").toList := by
    simp [EnumBlock.infosSignature, Signature.text]
  intro s hmem
  refine Prototype.ofDeclaration?_self (plain_enumSignatures hs e s hmem) ?_ scope?
  simp only [EnumBlock.declaredSignatures, List.mem_cons, List.not_mem_nil, or_false] at hmem
  rcases hmem with rfl | rfl | rfl | rfl
  · exact hinfos
  · exact not_virtual_of_result (by decide) (by decide) _
  · exact not_virtual_of_result (by decide) (by decide) _
  · exact not_virtual_of_result (by decide) (by decide) _

theorem ClassBlock.signatures_eq (settings : Settings) (c : ClassDecl) :
    signatures settings c
      = [constructorSignature c, destructorSignature c] ++ overrideSignatures settings c := by
  rw [signatures, overrideSignatures]
  cases c.kind <;> rfl

/-- The declarations of a class are those of its functions. -/
theorem map_prototype?_class (settings : Settings) (doc : Document)
    (hname : isIdentifier c.generatedName = true) :
    ((ClassBlock.declarationEntries settings doc c).filter Entry.isDeclared).map Entry.prototype?
      = (ClassBlock.signatures settings c).map fun s => some ⟨some c.generatedName, s⟩ := by
  have hplain := plain_classSignatures settings hname
  rw [ClassBlock.signatures_eq] at hplain ⊢
  have hblank : ' ' ∉ ((ClassBlock.constructorSignature c).text "" ++ ";").toList := by
    simp [ClassBlock.constructorSignature, Signature.text,
      notMem_of_isIdentifier hname (by decide : isWordCharacter ' ' = false)]
  have hconstructor := Prototype.ofDeclaration?_self (hplain _ List.mem_cons_self)
    (fun hvirtual => hblank (hvirtual.subset (by decide))) (some c.generatedName)
  have hdestructor := Prototype.ofDeclaration?_virtual (hplain (ClassBlock.destructorSignature c)
    (by simp)) (some c.generatedName)
  have hoverrides : (ClassBlock.overrideSignatures settings c).map (fun s =>
        Entry.prototype?
          (.declared (some c.generatedName) ("virtual " ++ s.text "" ++ " override;")))
      = (ClassBlock.overrideSignatures settings c).map fun s => some ⟨some c.generatedName, s⟩ :=
    List.map_congr_left fun s hs =>
      Prototype.ofDeclaration?_override (hplain s (List.mem_append_right _ hs)) _
  have hfirst : [Entry.classBlock c.generatedName (ClassBlock.parentType settings doc c),
        .declared (some c.generatedName) ((ClassBlock.constructorSignature c).text "" ++ ";"),
        .declared (some c.generatedName)
          ("virtual " ++ (ClassBlock.destructorSignature c).text "" ++ ";")].filter Entry.isDeclared
      = [.declared (some c.generatedName) ((ClassBlock.constructorSignature c).text "" ++ ";"),
        .declared (some c.generatedName)
          ("virtual " ++ (ClassBlock.destructorSignature c).text "" ++ ";")] := rfl
  rw [ClassBlock.declarationEntries, List.filter_append, List.filter_append, hfirst,
    filter_map_none fun _ => rfl, filter_map_all fun _ => rfl, List.append_nil, List.map_append,
    List.map_append, List.map_map, Function.comp_def, hoverrides]
  simp only [List.map_cons, List.map_nil, Entry.prototype?, hconstructor, hdestructor]

theorem map_prototype?_enum (hs : settings.HasPlainScope) (e : EnumDecl) :
    ((EnumBlock.declarationEntries settings e).filter Entry.isDeclared).map Entry.prototype?
      = (EnumBlock.declaredSignatures settings e).map fun s => some ⟨some e.generatedName, s⟩ := by
  rw [EnumBlock.declarationEntries, List.filter_append, filter_map_all fun _ => rfl,
    List.filter_cons_of_neg Bool.false_ne_true, filter_map_none fun _ => rfl, List.nil_append,
    List.map_map]
  exact List.map_congr_left fun s hmem => prototype?_enum hs e (some e.generatedName) s hmem

theorem prototype?_free (hs : settings.Regular) :
    Entry.prototype? (.declared none ((registerSignature settings).text "" ++ ";"))
        = some ⟨none, registerSignature settings⟩
      ∧ Entry.prototype? (.declared none ((factorySignature settings).text "" ++ ";"))
        = some ⟨none, factorySignature settings⟩ := by
  have hblank : ' ' ∉ (settings.runtime "DataObject" ++ "*").toList := by
    have hscope : ' ' ∉ (settings.runtime "DataObject").toList :=
      hs.scope.notMem_runtime (by decide) (by decide) (by decide)
    simp [hscope]
  have hstar : settings.runtime "DataObject" ++ "*" ≠ "virtual" := by
    intro heq
    have hmem : '*' ∈ (settings.runtime "DataObject" ++ "*").toList := by simp
    rw [heq] at hmem
    exact absurd hmem (by decide)
  exact ⟨Prototype.ofDeclaration?_self (plain_registerSignature hs)
      (not_virtual_of_result (by decide) (by decide) _) none,
    Prototype.ofDeclaration?_self (plain_factorySignature hs)
      (not_virtual_of_result hblank hstar _) none⟩

/-- **What the header declares** is read as the prototypes of the document. -/
theorem map_prototype?_headerEntries (hs : settings.Regular)
    (hclasses : ∀ c ∈ doc.classes.items, isIdentifier c.generatedName = true) :
    ((headerEntries settings doc).filter Entry.isDeclared).map Entry.prototype?
      = (prototypes settings doc).map some := by
  have hopening : (openingEntries doc.nameSpace).filter Entry.isDeclared = [] := by
    unfold openingEntries
    split <;> rfl
  have hclosing : (closingEntries doc.nameSpace).filter Entry.isDeclared = [] := by
    unfold closingEntries
    split <;> rfl
  have hclass : (doc.classes.items.flatMap fun c =>
        ((ClassBlock.declarationEntries settings doc c).filter Entry.isDeclared).map
          Entry.prototype?)
      = doc.classes.items.flatMap fun c =>
        (ClassBlock.signatures settings c).map fun s => some ⟨some c.generatedName, s⟩ :=
    List.flatMap_congr fun c hc => map_prototype?_class settings doc (hclasses c hc)
  obtain ⟨hregister, hfactory⟩ := prototype?_free hs
  have hfree : ([Entry.declared none ((registerSignature settings).text "" ++ ";"),
        Entry.declared none ((factorySignature settings).text "" ++ ";")].filter
          Entry.isDeclared).map Entry.prototype?
      = [some ⟨none, registerSignature settings⟩, some ⟨none, factorySignature settings⟩] := by
    show [_, _] = _
    rw [hregister, hfactory]
  simp only [headerEntries, prototypes, List.filter_append, List.map_append, List.filter_flatMap,
    List.map_flatMap, hopening, hclosing, hclass, map_prototype?_enum hs.scope, hfree, List.map_map]
  rw [filter_map_none fun _ => rfl, filter_map_none fun _ => rfl]
  simp [Function.comp_def]

/-! ### What the source defines -/

theorem ClassBlock.map_signature_functions (settings : Settings) (doc : Document) (c : ClassDecl) :
    (functions settings doc c).map Function.signature = signatures settings c := by
  rw [functions, signatures]
  cases c.kind <;> rfl

theorem EnumBlock.signature_functions_perm (settings : Settings) (e : EnumDecl) :
    ((functions settings e).map Function.signature).Perm (declaredSignatures settings e) := by
  show ([registerSignature] ++ [infosSignature settings, valuesSignature e, sizeSignature]).Perm _
  exact List.perm_append_comm

theorem map_prototype?_enumFunctions (hs : settings.HasPlainScope) (e : EnumDecl) :
    ((EnumBlock.functions settings e).map fun f =>
        Entry.prototype? (.defined (some e.generatedName) (f.signature.text ""))).Perm
      ((EnumBlock.declaredSignatures settings e).map fun s => some ⟨some e.generatedName, s⟩) := by
  have hperm := EnumBlock.signature_functions_perm settings e
  have hread : (EnumBlock.functions settings e).map (fun f =>
        Entry.prototype? (.defined (some e.generatedName) (f.signature.text "")))
      = ((EnumBlock.functions settings e).map Function.signature).map fun s =>
        some ⟨some e.generatedName, s⟩ := by
    rw [List.map_map]
    refine List.map_congr_left fun f hf => ?_
    have hplain := plain_enumSignatures hs e f.signature (hperm.subset (List.mem_map_of_mem hf))
    exact Prototype.ofDefinition?_self hplain _
  rw [hread]
  exact hperm.map _

theorem map_prototype?_classFunctions (settings : Settings) (doc : Document)
    (hname : isIdentifier c.generatedName = true) :
    ((ClassBlock.functions settings doc c).map fun f =>
        Entry.prototype? (.defined none (f.signature.text (c.generatedName ++ "::"))))
      = (ClassBlock.signatures settings c).map fun s => some ⟨some c.generatedName, s⟩ := by
  rw [← ClassBlock.map_signature_functions settings doc, List.map_map]
  refine List.map_congr_left fun f hf => ?_
  have hmem : f.signature ∈ ClassBlock.signatures settings c := by
    rw [← ClassBlock.map_signature_functions settings doc]
    exact List.mem_map_of_mem hf
  exact Prototype.ofDefinition?_qualified (plain_classSignatures settings hname _ hmem) hname none

/-- The functions that are defined are among the headings. -/
theorem filter_isDefined_sourceEntries (settings : Settings) (doc : Document) :
    (sourceEntries settings doc).filter Entry.isDefined
      = doc.enums.items.flatMap (fun e => (EnumBlock.functions settings e).map fun f =>
          .defined (some e.generatedName) (f.signature.text ""))
        ++ doc.classes.items.flatMap (fun c => (ClassBlock.functions settings doc c).map fun f =>
          .defined none (f.signature.text (c.generatedName ++ "::")))
        ++ [.defined none ((registerSignature settings).text ""),
          .defined none ((factorySignature settings).text "")] := by
  have hheading : ∀ entries : List Entry, entries.filter Entry.isDefined
      = (entries.filter Entry.isHeading).filter Entry.isDefined := by
    intro entries
    rw [List.filter_filter]
    refine List.filter_congr fun entry _ => ?_
    cases entry <;> rfl
  rw [hheading, filter_isHeading_sourceEntries, List.filter_append, List.filter_append,
    List.filter_flatMap, List.filter_flatMap]
  have henum : ∀ e : EnumDecl, (Entry.enumBlock e.generatedName
        :: (EnumBlock.functions settings e).map fun f =>
          Entry.defined (some e.generatedName) (f.signature.text "")).filter Entry.isDefined
      = (EnumBlock.functions settings e).map fun f =>
        .defined (some e.generatedName) (f.signature.text "") := by
    intro e
    rw [List.filter_cons_of_neg Bool.false_ne_true, filter_map_all fun _ => rfl]
  have hclass : ∀ c : ClassDecl, ((ClassBlock.functions settings doc c).map fun f =>
        Entry.defined none (f.signature.text (c.generatedName ++ "::"))).filter Entry.isDefined
      = (ClassBlock.functions settings doc c).map fun f =>
        .defined none (f.signature.text (c.generatedName ++ "::")) :=
    fun c => filter_map_all (fun _ => rfl) _
  simp only [henum, hclass]
  rfl

/-- **What the source defines** is read as the same prototypes, in another order. -/
theorem map_prototype?_sourceEntries (hs : settings.Regular)
    (hclasses : ∀ c ∈ doc.classes.items, isIdentifier c.generatedName = true) :
    (((sourceEntries settings doc).filter Entry.isDefined).map Entry.prototype?).Perm
      ((prototypes settings doc).map some) := by
  rw [filter_isDefined_sourceEntries]
  simp only [prototypes, List.map_append, List.map_flatMap, List.map_map, Function.comp_def]
  refine (List.Perm.append ?enums ?classes).append ?free
  case enums => exact List.Perm.flatMap_left _ fun e _ => map_prototype?_enumFunctions hs.scope e
  case classes =>
    refine .of_eq (List.flatMap_congr fun c hc => ?_)
    exact map_prototype?_classFunctions settings doc (hclasses c hc)
  case free =>
    refine .of_eq ?_
    show [Prototype.ofDefinition? _ _, Prototype.ofDefinition? _ _] = _
    rw [Prototype.ofDefinition?_self (plain_registerSignature hs),
      Prototype.ofDefinition?_self (plain_factorySignature hs)]
    rfl

/-! ### What stands around the blocks -/

theorem filter_isOuter_functions (scope? : Option String) (qualifier : String)
    (fs : List Function) :
    (fs.flatMap (Function.entries scope? qualifier)).filter Entry.isOuter = [] := by
  rw [List.filter_flatMap, List.flatMap_eq_nil_iff]
  intro f _
  rw [Function.entries, List.filter_cons_of_neg Bool.false_ne_true, statements]
  exact filter_map_none (fun _ => rfl) _

theorem filter_isOuter_spaces (nameSpace : String) :
    (openingEntries nameSpace).filter Entry.isOuter = openingEntries nameSpace
      ∧ (closingEntries nameSpace).filter Entry.isOuter = closingEntries nameSpace := by
  unfold openingEntries closingEntries
  split <;> exact ⟨rfl, rfl⟩

theorem filter_isOuter_headerEntries (settings : Settings) (doc : Document) :
    (headerEntries settings doc).filter Entry.isOuter
      = settings.headerIncludes.map .included ++ openingEntries doc.nameSpace
        ++ closingEntries doc.nameSpace := by
  have henums : (doc.enums.items.flatMap (EnumBlock.declarationEntries settings)).filter
      Entry.isOuter = [] := by
    rw [List.filter_flatMap, List.flatMap_eq_nil_iff]
    intro e _
    rw [EnumBlock.declarationEntries, List.filter_append,
      List.filter_cons_of_neg Bool.false_ne_true, filter_map_none fun _ => rfl,
      filter_map_none fun _ => rfl]
    rfl
  have hclasses : (doc.classes.items.flatMap (ClassBlock.declarationEntries settings doc)).filter
      Entry.isOuter = [] := by
    rw [List.filter_flatMap, List.flatMap_eq_nil_iff]
    intro c _
    rw [ClassBlock.declarationEntries, List.filter_append, List.filter_append,
      filter_map_none fun _ => rfl, filter_map_none fun _ => rfl]
    rfl
  obtain ⟨hopening, hclosing⟩ := filter_isOuter_spaces doc.nameSpace
  simp only [headerEntries, List.filter_append, hopening, hclosing, henums, hclasses,
    List.append_nil]
  rw [filter_map_all fun _ => rfl, filter_map_none fun _ => rfl, List.append_nil]
  show _ ++ [] ++ _ = _
  rw [List.append_nil]

theorem filter_isOuter_sourceEntries (settings : Settings) (doc : Document) :
    (sourceEntries settings doc).filter Entry.isOuter
      = .included settings.headerFile :: settings.sourceIncludes.map .included
        ++ openingEntries doc.nameSpace ++ closingEntries doc.nameSpace := by
  have hincludes : (Entry.included settings.headerFile
        :: settings.sourceIncludes.map Entry.included).filter Entry.isOuter
      = .included settings.headerFile :: settings.sourceIncludes.map .included :=
    filter_map_all (fun _ => rfl) (settings.headerFile :: settings.sourceIncludes)
  have henums : (doc.enums.items.flatMap (EnumBlock.definitionEntries settings)).filter
      Entry.isOuter = [] := by
    rw [List.filter_flatMap, List.flatMap_eq_nil_iff]
    intro e _
    rw [EnumBlock.definitionEntries, List.filter_cons_of_neg Bool.false_ne_true]
    exact filter_isOuter_functions _ _ _
  have hclasses : (doc.classes.items.flatMap (ClassBlock.definitionEntries settings doc)).filter
      Entry.isOuter = [] := by
    rw [List.filter_flatMap, List.flatMap_eq_nil_iff]
    exact fun c _ => filter_isOuter_functions _ _ _
  have hregister : ((registerFunction settings doc).entries none "").filter Entry.isOuter = [] := by
    have hfunction := filter_isOuter_functions none "" [registerFunction settings doc]
    rwa [List.flatMap_singleton] at hfunction
  have hfactory : (factoryEntries settings doc).filter Entry.isOuter = [] := by
    rw [factoryEntries, List.filter_append, List.filter_cons_of_neg Bool.false_ne_true,
      List.filter_flatMap, List.append_eq_nil_iff, List.flatMap_eq_nil_iff]
    exact ⟨fun b _ => rfl, rfl⟩
  obtain ⟨hopening, hclosing⟩ := filter_isOuter_spaces doc.nameSpace
  simp only [sourceEntries, List.filter_append, hincludes, hopening, hclosing, henums, hclasses,
    hregister, hfactory, List.append_nil]

/-! ### The files of a schema -/

/-- **The files of a schema declare and define the same functions.**  What the header declares is
read as the prototypes of the document, what the source defines is read as the same ones in another
order, and around that both open and close one namespace, if there is one, and the source includes
the header by its name before all else. -/
theorem declared_perm_defined (hs : settings.Regular) {root : Node}
    (h : RegularDocument (load root).1) :
    ((outline (header settings (load root).1)).filter Entry.isDeclared).map Entry.prototype?
        = (prototypes settings (load root).1).map some
    ∧ (((outline (source settings (load root).1)).filter Entry.isDefined).map Entry.prototype?).Perm
        ((outline (header settings (load root).1)).filter Entry.isDeclared |>.map Entry.prototype?)
    ∧ (outline (header settings (load root).1)).filter Entry.isOuter
        = settings.headerIncludes.map .included ++ openingEntries (load root).1.nameSpace
          ++ closingEntries (load root).1.nameSpace
    ∧ (outline (source settings (load root).1)).filter Entry.isOuter
        = .included settings.headerFile :: settings.sourceIncludes.map .included
          ++ openingEntries (load root).1.nameSpace ++ closingEntries (load root).1.nameSpace := by
  have hheader : outline (header settings (load root).1) = headerEntries settings (load root).1 :=
    outline_header (ofNode root).1 hs.unbroken h
  have hsource : outline (source settings (load root).1) = sourceEntries settings (load root).1 :=
    outline_source (ofNode root).1 hs.unbroken h
  rw [hheader, hsource]
  have hdeclared := map_prototype?_headerEntries hs h.className
  refine ⟨hdeclared, ?_, filter_isOuter_headerEntries settings _,
    filter_isOuter_sourceEntries settings _⟩
  rw [hdeclared]
  exact map_prototype?_sourceEntries hs h.className

theorem declared_perm_defined_marketSchema :
    (((outline (source .standard (load marketSchema).1)).filter Entry.isDefined).map
        Entry.prototype?).Perm ((prototypes .standard (load marketSchema).1).map some)
    ∧ (prototypes .standard (load marketSchema).1).length = 18
    ∧ (outline (source .standard (load marketSchema).1)).filter Entry.isOuter
        = [.included "DataBinding.h", .included "Gugu/Resources/ManagerResources.h",
          .included "Gugu/System/SystemUtility.h", .opened "market", .closed "market"] := by
  have hs : Settings.standard.Regular :=
    ⟨by decide, Or.inr (by decide), by decide +kernel, by decide +kernel⟩
  obtain ⟨hdeclared, hdefined, -, houter⟩ := declared_perm_defined hs regularDocument_marketSchema
  rw [hdeclared] at hdefined
  rw [houter]
  exact ⟨hdefined, by decide +kernel, by decide +kernel⟩

end SchemaBinding.Code
