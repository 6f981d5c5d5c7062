import SchemaBinding.Proofs.Schema.Lineage

/-!
# Flags of types

A type is written as flags and a base with colons between them.  The base is read from the last
token, but flags are looked for among all tokens: a base that is spelled like a flag sets it.  So an
enum that has the name of a flag cannot be named as the type of a single value.

* `TypeSpec.tokens_written`: the tokens of a type are the flags and the base, trimmed.
* `TypeSpec.has_parse_written_iff`: a flag is set by a flag, or by the base.
* `TypeSpec.parse_written_congr`: nothing else about the flags makes a difference.
* `Document.resolution?_enum_iff`: which members hold one value of an enum.
* `Document.read_written`: how types are read.
* `Document.not_single_catalogSchema`: an enum that cannot be named.
-/

namespace SchemaBinding.Schema

namespace TypeSpec

inductive Flag where
  | array
  | reference
  /-- The flag of an object that is owned. -/
  | owned
deriving DecidableEq, Repr

def Flag.keyword : Flag → String
  | array => "array"
  | reference => "reference"
  | owned => "instance"

def has (spec : TypeSpec) : Flag → Bool
  | .array => spec.isArray
  | .reference => spec.isReference
  | .owned => spec.isInstance

/-- The flag is one of the tokens, but for blanks around it. -/
def Flag.IsAmong (flag : Flag) (tokens : List String) : Prop :=
  ∃ token ∈ tokens, Text.trim token = flag.keyword

instance (flag : Flag) (tokens : List String) : Decidable (flag.IsAmong tokens) :=
  inferInstanceAs (Decidable (∃ token ∈ tokens, _))

def written (flags : List String) (base : String) : String := ":".intercalate (flags ++ [base])

/-! ### Reading what was written -/

theorem tokens_of_notMem {text : String} (h : ':' ∉ text.toList) :
    tokens text = [Text.trim text] := by
  rw [tokens, Text.fields_of_not_mem h]
  rfl

theorem tokens_cons {flag : String} (h : ':' ∉ flag.toList) (rest : String) :
    tokens (flag ++ ":" ++ rest) = Text.trim flag :: tokens rest := by
  have hlist : (flag ++ ":" ++ rest).toList = flag.toList ++ ':' :: rest.toList := by simp
  rw [tokens, hlist, Text.fields_append h, List.map_cons]
  rfl

/-- **The tokens of a type are the flags and the base**, trimmed. -/
theorem tokens_written {flags : List String} (hflags : ∀ f ∈ flags, ':' ∉ f.toList) {base : String}
    (hbase : ':' ∉ base.toList) :
    tokens (written flags base) = (flags ++ [base]).map Text.trim := by
  unfold written
  induction flags with
  | nil =>
    rw [List.nil_append, String.intercalate_singleton]
    exact tokens_of_notMem hbase
  | cons flag rest ih =>
    have hne : rest ++ [base] ≠ [] := List.append_ne_nil_of_right_ne_nil _ (List.cons_ne_nil _ _)
    rw [List.cons_append, String.intercalate_cons_of_ne_nil hne,
      tokens_cons (hflags flag List.mem_cons_self),
      ih fun f hf => hflags f (List.mem_cons_of_mem _ hf), List.map_cons]

theorem has_parse (text : String) (flag : Flag) :
    (parse text).has flag = (tokens text).contains flag.keyword := by
  cases flag <;> rfl

section Written

variable {flags : List String} (hflags : ∀ f ∈ flags, ':' ∉ f.toList) {base : String}
  (hbase : ':' ∉ base.toList)

include hflags hbase

theorem base_parse_written : (parse (written flags base)).base = Text.trim base := by
  rw [parse, tokens_written hflags hbase, List.map_append, List.map_singleton,
    List.getLast?_concat, Option.getD_some]

/-- **A flag is set by a flag, or by the base.** -/
theorem has_parse_written_iff (flag : Flag) :
    (parse (written flags base)).has flag = true
      ↔ flag.IsAmong flags ∨ Text.trim base = flag.keyword := by
  rw [has_parse, tokens_written hflags hbase, List.contains_iff_mem, List.map_append,
    List.mem_append, List.mem_map, List.map_singleton, List.mem_singleton,
    eq_comm (b := Text.trim base)]
  rfl

end Written

theorem eq_of_has {a b : TypeSpec} (hbase : a.base = b.base)
    (hflags : ∀ flag, a.has flag = b.has flag) : a = b := by
  obtain ⟨isArray, isReference, isInstance, base⟩ := a
  rw [TypeSpec.mk.injEq]
  exact ⟨hflags .array, hflags .reference, hflags .owned, hbase⟩

/-- Types with the same flags among their tokens are read alike. -/
theorem parse_written_congr {flags others : List String} {base other : String}
    (hflags : ∀ f ∈ flags, ':' ∉ f.toList) (hothers : ∀ f ∈ others, ':' ∉ f.toList)
    (hbase : ':' ∉ base.toList) (hother : ':' ∉ other.toList)
    (htrim : Text.trim base = Text.trim other)
    (hsame : ∀ flag : Flag, flag.IsAmong flags ↔ flag.IsAmong others) :
    parse (written flags base) = parse (written others other) := by
  refine eq_of_has ?_ ?_
  · rw [base_parse_written hflags hbase, base_parse_written hothers hother, htrim]
  · intro flag
    rw [Bool.eq_iff_iff, has_parse_written_iff hflags hbase, has_parse_written_iff hothers hother,
      hsame, htrim]

theorem ownership?_eq_none_iff {spec : TypeSpec} :
    spec.ownership? = Option.none ↔ spec.has .reference = false ∧ spec.has .owned = false := by
  obtain ⟨isArray, isReference, isInstance, base⟩ := spec
  cases isReference <;> cases isInstance <;> simp [ownership?, has]

end TypeSpec

namespace Document

open TypeSpec (Flag written)

/-! ### Enums as types -/

variable {doc : Document} {e : EnumDecl}

theorem target?_of_owned {spec : TypeSpec} (h : spec.ownership? ≠ none) {t : Target}
    (ht : doc.target? spec = some t) : ∃ decl ownership, t = .object decl ownership := by
  obtain ⟨ownership, howned⟩ := Option.ne_none_iff_exists'.1 h
  rw [target?, howned] at ht
  obtain ⟨decl, -, rfl⟩ := Option.map_eq_some_iff.1 ht
  exact ⟨decl, ownership, rfl⟩

/-- **A member whose base type is an enum** holds one of its values exactly if no flag is set. -/
theorem resolution?_enum_iff {m : Member} (he : doc.enum? m.type.base = some e)
    (hbase : m.type.base ≠ "") (hname : m.name ≠ "") (owner : ClassKind) :
    doc.resolution? owner m = some
        ⟨.enumeration m.type.base, e.generatedName ++ "::Type", e.defaultValue m.literal, false⟩
      ↔ ∀ flag, m.type.has flag = false := by
  rw [resolution?, if_pos (Member.isComplete_iff.2 ⟨hname, hbase⟩)]
  constructor
  · intro hsingle
    obtain ⟨t, ht, hr⟩ := Option.map_eq_some_iff.1 hsingle
    have howned : m.type.ownership? = none := by
      by_contra hne
      obtain ⟨decl, ownership, rfl⟩ := target?_of_owned hne ht
      exact nomatch congrArg Resolution.category hr
    obtain ⟨hreference, hinstance⟩ := TypeSpec.ownership?_eq_none_iff.1 howned
    intro flag
    cases flag with
    | array => exact congrArg Resolution.isArray hr
    | reference => exact hreference
    | owned => exact hinstance
  · intro hclear
    have howned : m.type.ownership? = none :=
      TypeSpec.ownership?_eq_none_iff.2 ⟨hclear .reference, hclear .owned⟩
    have htarget : doc.target? m.type = some (.enumeration e) := by
      simp only [target?, howned, he]
    have harray : m.type.isArray = false := hclear .array
    rw [htarget, Option.map_some, Target.resolution, harray]
    rfl

/-- No enum of a loaded document has the empty name. -/
theorem enum?_empty_load (root : Node) : (load root).1.enum? "" = none := by
  by_contra hne
  obtain ⟨e, he⟩ := Option.ne_none_iff_exists'.1 hne
  obtain ⟨hmem, hempty⟩ := (wellNamed_ofNode root).enums.find?_eq_some_iff.1 he
  rw [enumItems_ofNode] at hmem
  obtain ⟨node, -, hnode⟩ := List.mem_filterMap.1 ((firstNamed_sublist _ _ _).mem hmem)
  have hfilled : node.filledAttr? "name" = some e.name := by
    rw [← map_name_enum, hnode]
    rfl
  exact (filledAttr?_eq_some_iff.1 hfilled).1 hempty

/-- **How types are read.**  The base is the last token.  A flag is set if it is among the flags,
and also if the base is spelled like it; so the flags alone decide exactly if the base is not spelled
like a flag that is not among them.  Of an enum a member holds one value exactly if its type has no
flags and the enum does not have the name of one. -/
theorem read_written {flags : List String} (hflags : ∀ f ∈ flags, ':' ∉ f.toList) {base : String}
    (hbase : ':' ∉ base.toList) :
    written [] base = base
    ∧ (TypeSpec.parse (written flags base)).base = Text.trim base
    ∧ (∀ flag : Flag,
      ((TypeSpec.parse (written flags base)).has flag = true
        ↔ flag.IsAmong flags ∨ Text.trim base = flag.keyword)
      ∧ (((TypeSpec.parse (written flags base)).has flag = true ↔ flag.IsAmong flags)
        ↔ (Text.trim base = flag.keyword → flag.IsAmong flags)))
    ∧ (∀ (others : List String) (other : String), (∀ f ∈ others, ':' ∉ f.toList) →
      ':' ∉ other.toList → Text.trim base = Text.trim other →
      (∀ flag : Flag, flag.IsAmong flags ↔ flag.IsAmong others) →
      TypeSpec.parse (written flags base) = TypeSpec.parse (written others other))
    ∧ (∀ (doc : Document) (e : EnumDecl), doc.enum? (Text.trim base) = some e →
      Text.trim base ≠ "" → ∀ c ∈ doc.resolve.1.classes.items, ∀ m ∈ c.members, m.name ≠ "" →
      m.type = TypeSpec.parse (written flags base) →
      (m.resolution? = some ⟨.enumeration (Text.trim base), e.generatedName ++ "::Type",
          e.defaultValue m.literal, false⟩
        ↔ ∀ flag : Flag, ¬ flag.IsAmong flags ∧ Text.trim base ≠ flag.keyword))
    ∧ ∀ root : Node, (load root).1.enum? "" = none := by
  have hread := TypeSpec.base_parse_written hflags hbase
  have hset := TypeSpec.has_parse_written_iff hflags hbase
  refine ⟨String.intercalate_singleton, hread, ?_, ?_, ?_, enum?_empty_load⟩
  · intro flag
    refine ⟨hset flag, ?_⟩
    rw [hset, or_iff_left_iff_imp]
  · intro others other hothers hother htrim hsame
    exact TypeSpec.parse_written_congr hflags hothers hbase hother htrim hsame
  · intro doc e he hne c hc m hm hname htype
    obtain ⟨b, -, rfl⟩ := mem_items_resolve_iff.1 hc
    obtain ⟨given, -, rfl⟩ := List.mem_map.1 hm
    have htype : given.type = TypeSpec.parse (written flags base) := htype
    have hgiven : given.type.base = Text.trim base := by rw [htype, hread]
    rw [← hgiven] at he hne
    have hclear : ∀ flag : Flag, given.type.has flag = false
        ↔ ¬ flag.IsAmong flags ∧ Text.trim base ≠ flag.keyword := by
      intro flag
      rw [htype, Bool.eq_false_iff, Ne, hset, not_or]
    have hsingle := resolution?_enum_iff he hne hname b.kind
    rw [hgiven] at hsingle
    exact hsingle.trans (forall_congr' hclear)

/-- A schema of a catalog.  Of its enums one has the name of a flag. -/
def catalogSchema : Node :=
  ⟨"Schema", [],
    [⟨"Enum", [("name", "Color")], [⟨"Value", [("name", "Red")], []⟩]⟩,
      ⟨"Enum", [("name", "reference")], [⟨"Value", [("name", "Atlas")], []⟩]⟩,
      ⟨"Class", [("name", "Book")],
        [⟨"Data", [("name", "cover"), ("type", "Color")], []⟩,
          ⟨"Data", [("name", "kind"), ("type", "reference")], []⟩]⟩]⟩

theorem read_written_catalogSchema :
    (TypeSpec.parse (written [" array", "loose"] "Color ")).base = Text.trim "Color "
    ∧ TypeSpec.parse (written [" array", "loose"] "Color ")
      = TypeSpec.parse (written ["array", "array"] "Color")
    ∧ ∃ c ∈ (load catalogSchema).1.classes.items, ∃ m ∈ c.members, ∃ e,
      (load catalogSchema).1.enum? (Text.trim "Color") = some e
      ∧ m.name ≠ "" ∧ m.type = TypeSpec.parse (written [] "Color")
      ∧ m.resolution? = some ⟨.enumeration (Text.trim "Color"), e.generatedName ++ "::Type",
        e.defaultValue m.literal, false⟩ := by
  have hflags : ∀ f ∈ [" array", "loose"], ':' ∉ f.toList := by decide
  have hpadded : ':' ∉ "Color ".toList := by decide
  obtain ⟨-, hread, -, hcongr, -⟩ := read_written hflags hpadded
  refine ⟨hread, ?_, ?_⟩
  · refine hcongr _ _ (by decide) (by decide) (by decide +kernel) ?_
    intro flag
    cases flag <;> decide +kernel
  · have hnone : ∀ f ∈ ([] : List String), ':' ∉ f.toList := by decide
    have hcolor : ':' ∉ "Color".toList := by decide
    obtain ⟨-, -, -, -, hsingle, -⟩ := read_written hnone hcolor
    have hmember : ∃ c ∈ (load catalogSchema).1.classes.items, ∃ m ∈ c.members,
        m.name ≠ "" ∧ m.type = TypeSpec.parse (written [] "Color") := by decide +kernel
    have henum : (load catalogSchema).1.enum? (Text.trim "Color") ≠ none := by decide +kernel
    obtain ⟨c, hc, m, hm, hname, htype⟩ := hmember
    obtain ⟨e, he⟩ := Option.ne_none_iff_exists'.1 henum
    have hiff := hsingle _ e he (by decide +kernel) c hc m hm hname htype
    refine ⟨c, hc, m, hm, e, he, hname, htype, hiff.2 ?_⟩
    intro flag
    cases flag <;> decide +kernel

/-- **The base may set a flag**: the enum with the name of a flag is looked up among classes, and
the member that should hold its values holds nothing. -/
theorem not_single_catalogSchema :
    (TypeSpec.parse (written [] "reference")).has .reference = true
    ∧ ¬ Flag.reference.IsAmong []
    ∧ (load catalogSchema).1.enum? "reference" ≠ none
    ∧ ∃ c ∈ (load catalogSchema).1.classes.items, ∃ m ∈ c.members,
      m.name ≠ "" ∧ m.type = TypeSpec.parse "reference" ∧ m.resolution? = none := by
  decide +kernel

end Document

end SchemaBinding.Schema
