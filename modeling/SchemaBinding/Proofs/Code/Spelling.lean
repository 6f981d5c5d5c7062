import SchemaBinding.Proofs.Code.Plain
import SchemaBinding.Proofs.Code.Source

/-!
# How texts are spelled in code

Between the quotes of a literal stands a spelling of its text.  Whatever code follows, the literal
ends at the quote behind the spelling and is read as the text: no quote before that one ends it, and
no octal escape takes a digit that is not its own.

* `spells_escape`: an escaped text spells the text.
* `IsLiteral.eq`: no code is a literal of two texts, so no two texts are escaped alike.
* `default_eq_text_iff`: which defaults are texts.
* `Binding.strings_spelled`: constructors set the fields of texts to literals of their defaults.
-/

namespace SchemaBinding

open Schema

namespace Code

/-- Whether a quote stands in a text without a backslash that escapes it.  The flag says whether the
first character is escaped. -/
def hasBareQuote : Bool → List Char → Bool
  | _, [] => false
  | true, _ :: rest => hasBareQuote false rest
  | false, c :: rest => c = '"' || hasBareQuote (c = '\\') rest

/-- What stands between the quotes of a literal of `s`. -/
structure Spells (body s : String) : Prop where
  /-- The literal ends at the quote behind it and is read as `s`. -/
  read : ∀ rest, readLiteral (body.toList ++ '"' :: rest) = some (s.toList, rest)
  printed : ∀ c ∈ body.toList, isControl c = false
  closed : hasBareQuote false body.toList = false

/-- The code is one literal of `s`. -/
def IsLiteral (code s : String) : Prop := ∃ body, code = "\"" ++ body ++ "\"" ∧ Spells body s

/-! ### Escaped texts -/

theorem hasBareQuote_verbatim {cs : List Char} (h : ∀ c ∈ cs, IsVerbatim c) (rest : List Char) :
    hasBareQuote false (cs ++ rest) = hasBareQuote false rest := by
  induction cs with
  | nil => rfl
  | cons c cs ih =>
    obtain ⟨hquote, hslash, -⟩ := h c List.mem_cons_self
    rw [List.cons_append, hasBareQuote, decide_eq_false hquote, Bool.false_or,
      decide_eq_false hslash]
    exact ih fun d hd => h d (List.mem_cons_of_mem _ hd)

theorem hasBareQuote_escapeCharacter (c : Char) (rest : List Char) :
    hasBareQuote false (escapeCharacter c ++ rest) = hasBareQuote false rest := by
  rcases escapeCharacter_cases c with ⟨hc, hverbatim⟩ | ⟨d, digits, hc, -, hdigits⟩
  · rw [hc]
    exact hasBareQuote_verbatim (by simpa using hverbatim) rest
  · rw [hc, List.cons_append, List.cons_append]
    exact hasBareQuote_verbatim hdigits rest

theorem hasBareQuote_escape (s : String) : hasBareQuote false (escape s).toList = false := by
  rw [escape, String.toList_ofList]
  induction s.toList with
  | nil => rfl
  | cons c cs ih => rw [List.flatMap_cons, hasBareQuote_escapeCharacter, ih]

/-- **An escaped text spells the text.** -/
theorem spells_escape (s : String) : Spells (escape s) s where
  read := readLiteral_escape s
  printed := fun _ hc => isControl_of_mem_escape hc
  closed := hasBareQuote_escape s

example : escape "\x017\"" = "\\0017\\\"" := by decide +kernel

theorem isLiteral_quoted (s : String) : IsLiteral (quoted s) s := ⟨_, rfl, spells_escape s⟩

/-- Code is a literal of one text only. -/
theorem IsLiteral.eq {code s t : String} (hs : IsLiteral code s) (ht : IsLiteral code t) :
    s = t := by
  obtain ⟨body, rfl, hs⟩ := hs
  obtain ⟨other, hcode, ht⟩ := ht
  have hbody : body = other := by
    rw [String.append_assoc, String.append_assoc] at hcode
    exact String.append_left_inj _ |>.1 (String.append_right_inj _ |>.1 hcode)
  subst hbody
  have hread := (hs.read []).symm.trans (ht.read [])
  rw [Option.some.injEq, Prod.mk.injEq] at hread
  exact String.toList_inj.1 hread.1

/-- **No two texts are escaped alike.** -/
theorem escape_injective : Function.Injective escape := by
  intro s t h
  have ht : IsLiteral (quoted s) t := ⟨_, by rw [quoted, h], spells_escape t⟩
  exact (isLiteral_quoted s).eq ht

/-! ### Defaults that are texts -/

/-- The default of a member is a text exactly if the member holds one string, and then the text is
the literal as it is given. -/
theorem default_eq_text_iff {doc : Document} {c : ClassDecl}
    (hc : c ∈ doc.resolve.1.classes.items) {m : Member} {r : Resolution}
    (hm : (m, r) ∈ c.emittedMembers) {value : String} :
    r.default = .text value
      ↔ r.category = .primitive .string ∧ r.isArray = false ∧ value = m.literal := by
  obtain ⟨t, -, rfl⟩ := exists_target_of_mem_emittedMembers hc hm
  show (if m.type.isArray = true then DefaultValue.emptySequence else t.defaultValue m.literal)
      = .text value
    ↔ t.category m.type.base = .primitive .string ∧ m.type.isArray = false ∧ value = m.literal
  cases m.type.isArray with
  | true => simp
  | false =>
    rw [if_neg Bool.false_ne_true, and_iff_right rfl]
    cases t with
    | object decl ownership => exact iff_of_false (fun h => by cases h) fun h => by cases h.1
    | enumeration e =>
      refine iff_of_false ?_ fun h => by cases h.1
      show e.defaultValue m.literal ≠ .text value
      simp only [EnumDecl.defaultValue]
      intro h
      split at h
      · split at h <;> cases h
      · cases h
    | primitive p =>
      cases p with
      | string =>
        show DefaultValue.text m.literal = .text value ↔ _
        rw [DefaultValue.text.injEq]
        exact ⟨fun h => ⟨rfl, h.symm⟩, fun h => h.2.symm⟩
      | int => exact iff_of_false (fun h => by cases h) fun h => by cases h.1
      | float => exact iff_of_false (fun h => by cases h) fun h => by cases h.1
      | bool => exact iff_of_false (fun h => by cases h) fun h => by cases h.1

/-- The constructor sets a field whose default is a text to the literal of the text. -/
theorem assignment?_of_text {m : Member} {r : Resolution} {value : String}
    (harray : r.isArray = false) (hdefault : r.default = .text value) :
    ClassBlock.assignment? m r = some ⟨m.generatedName, quoted value⟩ := by
  rw [ClassBlock.assignment?, if_neg (by rw [harray]; exact Bool.false_ne_true), hdefault]
  rfl

theorem mem_assignments {c : ClassDecl} {m : Member} {r : Resolution} {a : Assignment}
    (hm : (m, r) ∈ c.emittedMembers) (ha : ClassBlock.assignment? m r = some a) :
    a ∈ ClassBlock.assignments c := by
  rw [ClassBlock.assignments, List.mem_filterMap]
  exact ⟨(m, r), hm, ha⟩

/-- What is assigned stands in the constructor on a line of its own. -/
theorem mem_lines_constructor {c : ClassDecl} {a : Assignment} (ha : a ∈ ClassBlock.assignments c) :
    indent (a.field ++ " = " ++ a.expression ++ ";")
      ∈ (ClassBlock.constructor c).lines (c.generatedName ++ "::") := by
  have hbody : bodyLine a.text ∈ (ClassBlock.constructor c).body.map bodyLine :=
    List.mem_map_of_mem (List.mem_map_of_mem ha)
  have hne : a.text ≠ "" := by simp [Assignment.text]
  rw [bodyLine, if_neg hne, Assignment.text] at hbody
  rw [Function.lines, List.mem_append, List.mem_append]
  exact Or.inl (Or.inr hbody)

end Code

namespace Binding

open Schema.Document (load)
open Code

/-- **Texts are spelled so that they are read back.** -/
theorem strings_spelled :
    (∀ s, IsLiteral ("\"" ++ escape s ++ "\"") s)
    ∧ Function.Injective escape
    ∧ (∀ s t, escape (s ++ t) = escape s ++ escape t)
    ∧ ∀ {settings : Settings} {root : Node} {b : Binding}, generate settings root = .ok b →
      ∀ c ∈ (load root).1.classes.items,
        StandIn ((ClassBlock.constructor c).lines (c.generatedName ++ "::")) b.source
        ∧ ∀ m r, (m, r) ∈ c.emittedMembers → ∀ value,
          (r.default = .text value
            ↔ r.category = .primitive .string ∧ r.isArray = false ∧ value = m.literal)
          ∧ (r.default = .text value →
            ∃ a ∈ ClassBlock.assignments c, a.field = m.generatedName
              ∧ ClassBlock.assignment? m r = some a ∧ IsLiteral a.expression value
              ∧ indent (a.field ++ " = " ++ a.expression ++ ";")
                ∈ (ClassBlock.constructor c).lines (c.generatedName ++ "::")) := by
  refine ⟨isLiteral_quoted, escape_injective, escape_append, ?_⟩
  intro settings root b hgen c hc
  have hconstructor : ClassBlock.constructor c ∈ ClassBlock.functions settings (load root).1 c :=
    List.mem_append_left _ List.mem_cons_self
  refine ⟨functions_standIn hgen hc hconstructor, ?_⟩
  intro m r hm value
  have hiff : r.default = .text value
      ↔ r.category = .primitive .string ∧ r.isArray = false ∧ value = m.literal :=
    default_eq_text_iff hc hm
  refine ⟨hiff, ?_⟩
  intro hdefault
  have hset : ClassBlock.assignment? m r = some ⟨m.generatedName, quoted value⟩ :=
    assignment?_of_text (hiff.1 hdefault).2.1 hdefault
  have hmem := mem_assignments hm hset
  exact ⟨_, hmem, rfl, hset, isLiteral_quoted value, mem_lines_constructor hmem⟩

/-- A text with quotes, a backslash, a digit behind a control character, and a deleted character. -/
def motto : String := "\"Stand\" \\ \x017\x7f"

def bannerSchema : Node :=
  ⟨"Schema", [],
    [⟨"Class", [("name", "Banner")],
      [⟨"Data", [("name", "motto"), ("type", "string"), ("default", motto)], []⟩]⟩]⟩

theorem strings_spelled_bannerSchema :
    ∃ b c m r, generate .standard bannerSchema = .ok b
      ∧ c ∈ (load bannerSchema).1.classes.items ∧ (m, r) ∈ c.emittedMembers
      ∧ StandIn ((ClassBlock.constructor c).lines (c.generatedName ++ "::")) b.source
      ∧ ∃ a ∈ ClassBlock.assignments c, a.field = m.generatedName
        ∧ ClassBlock.assignment? m r = some a ∧ IsLiteral a.expression motto
        ∧ indent (a.field ++ " = " ++ a.expression ++ ";")
          ∈ (ClassBlock.constructor c).lines (c.generatedName ++ "::") := by
  have hfatal : Diagnostic.anyFatal (load bannerSchema).2 = false := by decide +kernel
  have hmember : ∃ c ∈ (load bannerSchema).1.classes.items, ∃ emitted ∈ c.emittedMembers,
      emitted.2.default = .text motto := by decide +kernel
  obtain ⟨b, hgen⟩ : ∃ b, generate .standard bannerSchema = .ok b :=
    ⟨_, generate_eq_ok_iff.2 ⟨hfatal, rfl⟩⟩
  obtain ⟨c, hc, ⟨m, r⟩, hm, hdefault⟩ := hmember
  obtain ⟨hstands, hmembers⟩ := strings_spelled.2.2.2 hgen c hc
  exact ⟨b, c, m, r, hgen, hc, hm, hstands, (hmembers m r hm motto).2 hdefault⟩

end Binding

end SchemaBinding
