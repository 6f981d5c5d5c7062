import SchemaBinding.Proofs.Code.UnitOutline

/-!
# Lifetimes of fields

The constructor of a class sets the fields that hold one value, and the destructor gives up the
fields that hold objects.  Both are read off the lines of the source: `Assignment.ofLine?` and
`Release.ofLine?` read a line, and what is read is compared with the declared types of the members.

* `Assignment.ofLine?_text`, `Release.ofLine?_text`: a line is read as what it was written for.
* `map_assignments`: every field with one value is set once, to its default.
* `forall₂_releases`: every field with objects is given up once, by its type.
* `assigned_of_deleted`: what is deleted was set to no object.
-/

namespace SchemaBinding.Code

open Schema

/-! ### Reading lines -/

def Assignment.ofLine? (line : String) : Option Assignment :=
  let field := String.ofList (line.toList.takeWhile isWordCharacter)
  if isIdentifier field then (between? (field ++ " = ") ";" line).map (⟨field, ·⟩) else none

def Release.ofLine? (line : String) : Option Release :=
  (nameBetween? "SafeDelete(" ");" line).map .delete
    <|> (nameBetween? "ClearStdVector(" ");" line).map .deleteAll
    <|> (nameBetween? "" ".clear();" line).map .unlinkAll
    <|> (nameBetween? "" " = nullptr;" line).map .unlink

/-- What the body of a function sets, if every line of it is an assignment. -/
def Function.assignments? (f : Function) : Option (List Assignment) :=
  f.body.mapM Assignment.ofLine?

/-- What the body of a function gives up, if every line of it does. -/
def Function.releases? (f : Function) : Option (List Release) := f.body.mapM Release.ofLine?

theorem Assignment.ofLine?_text {a : Assignment} (h : isIdentifier a.field = true) :
    ofLine? a.text = some a := by
  have htext : a.text.toList = a.field.toList ++ ' ' :: ("= " ++ a.expression ++ ";").toList := by
    simp [text]
  have hfield : String.ofList (a.text.toList.takeWhile isWordCharacter) = a.field := by
    rw [htext, takeWhile_append_of_all (isWordCharacter_of_isIdentifier h) (by simp; decide),
      String.ofList_toList]
  have hexpression : between? (a.field ++ " = ") ";" a.text = some a.expression :=
    between?_eq_some_iff.2 rfl
  simp only [ofLine?, hfield, if_pos h, hexpression, Option.map_some]

def Release.field : Release → String
  | unlink field | unlinkAll field | delete field | deleteAll field => field

theorem Release.ofLine?_text {r : Release} (h : isIdentifier r.field = true) :
    ofLine? r.text = some r := by
  cases r with
  | delete field =>
    have hself : nameBetween? "SafeDelete(" ");" (text (.delete field)) = some field :=
      nameBetween?_self h _ _
    simp only [ofLine?, hself]
    rfl
  | deleteAll field =>
    have hdelete : nameBetween? "SafeDelete(" ");" (text (.deleteAll field)) = none := by
      rw [nameBetween?, between?_of_head (c := 'S') (d := 'C') rfl (by simp [text]) (by decide),
        Option.filter_none]
    have hself : nameBetween? "ClearStdVector(" ");" (text (.deleteAll field)) = some field :=
      nameBetween?_self h _ _
    simp only [ofLine?, hdelete, hself]
    rfl
  | unlinkAll field =>
    -- a point stands neither in a name nor in the pieces of the first two forms
    have hpoint : ∀ front, '.' ∉ front.toList →
        nameBetween? front ");" (text (.unlinkAll field)) = none := fun front hfront =>
      nameBetween?_of_foreign (c := '.') (by decide) hfront (by decide) (by simp [text])
    have hself : nameBetween? "" ".clear();" (text (.unlinkAll field)) = some field :=
      nameBetween?_self h _ _
    simp only [ofLine?, hpoint "SafeDelete(" (by decide), hpoint "ClearStdVector(" (by decide),
      hself]
    rfl
  | unlink field =>
    have hequals : ∀ front back, '=' ∉ front.toList → '=' ∉ back.toList →
        nameBetween? front back (text (.unlink field)) = none := fun front back hfront hback =>
      nameBetween?_of_foreign (c := '=') (by decide) hfront hback (by simp [text])
    have hself : nameBetween? "" " = nullptr;" (text (.unlink field)) = some field :=
      nameBetween?_self h _ _
    simp only [ofLine?, hequals "SafeDelete(" ");" (by decide) (by decide),
      hequals "ClearStdVector(" ");" (by decide) (by decide),
      hequals "" ".clear();" (by decide) (by decide), hself]
    rfl

/-! ### What resolution says about a field -/

/-- What the constructor and the destructor look at agrees with the type of the member. -/
structure Settled (m : Member) (r : Resolution) : Prop where
  isArray : r.isArray = m.type.isArray
  ownership : r.category.ownership? = m.type.ownership?
  /-- A field that holds one value has a default. -/
  starts : m.type.isArray = false → ∃ expression, r.default.expression? = some expression
  /-- A field that holds one object starts without it. -/
  startsEmpty : m.type.isArray = false → m.type.ownership? ≠ none → r.default = .null

theorem ownership?_of_target? {doc : Document} {spec : TypeSpec} {t : Target}
    (ht : doc.target? spec = some t) :
    (t.category spec.base).ownership? = spec.ownership?
      ∧ (spec.ownership? ≠ none → ∀ literal, t.defaultValue literal = .null) := by
  unfold Document.target? at ht
  cases howned : spec.ownership? with
  | some ownership =>
    rw [howned] at ht
    obtain ⟨decl, -, rfl⟩ := Option.map_eq_some_iff.1 ht
    exact ⟨rfl, fun _ _ => rfl⟩
  | none =>
    refine ⟨?_, fun h => absurd rfl h⟩
    simp only [howned] at ht
    cases henum : doc.enum? spec.base with
    | some e =>
      rw [henum] at ht
      cases ht
      rfl
    | none =>
      rw [henum] at ht
      obtain ⟨p, -, rfl⟩ := Option.map_eq_some_iff.1 ht
      rfl

/-- One value always has an expression. -/
theorem exists_expression (t : Target) (literal : String) :
    ∃ expression, (t.defaultValue literal).expression? = some expression := by
  cases t with
  | object decl ownership => exact ⟨_, rfl⟩
  | primitive p => cases p <;> exact ⟨_, rfl⟩
  | enumeration e =>
    simp only [Target.defaultValue, EnumDecl.defaultValue]
    split
    · cases e.values with
      | nil => exact ⟨_, rfl⟩
      | cons first rest => exact ⟨_, rfl⟩
    · exact ⟨_, rfl⟩

theorem settled_of_mem_emittedMembers {doc : Document} {c : ClassDecl}
    (hc : c ∈ doc.resolve.1.classes.items) {m : Member} {r : Resolution}
    (hm : (m, r) ∈ c.emittedMembers) : Settled m r := by
  obtain ⟨t, ht, rfl⟩ := exists_target_of_mem_emittedMembers hc hm
  obtain ⟨hownership, hnull⟩ := ownership?_of_target? ht
  have hdefault : m.type.isArray = false →
      (t.resolution c.kind m).default = t.defaultValue m.literal := by
    intro hsingle
    simp [Target.resolution, hsingle]
  refine ⟨rfl, hownership, ?_, ?_⟩
  · intro hsingle
    rw [hdefault hsingle]
    exact exists_expression t m.literal
  · intro hsingle howned
    rw [hdefault hsingle]
    exact hnull howned m.literal

/-! ### What is set and what is given up -/

namespace ClassBlock

/-- The members whose fields hold one value. -/
def scalars (c : ClassDecl) : List (Member × Resolution) :=
  c.emittedMembers.filter fun entry => !entry.1.type.isArray

/-- The members whose fields hold objects. -/
def objects (c : ClassDecl) : List (Member × Resolution) :=
  c.emittedMembers.filter fun entry => entry.1.type.ownership?.isSome

/-- How a field is given up, by the type of its member: an object that it owns is deleted, and a
link is only forgotten. -/
inductive GivenUp (m : Member) : Release → Prop
  | link : m.type.ownership? = some .reference → m.type.isArray = false →
    GivenUp m (.unlink m.generatedName)
  | links : m.type.ownership? = some .reference → m.type.isArray = true →
    GivenUp m (.unlinkAll m.generatedName)
  | object : m.type.ownership? = some .owned → m.type.isArray = false →
    GivenUp m (.delete m.generatedName)
  | objects : m.type.ownership? = some .owned → m.type.isArray = true →
    GivenUp m (.deleteAll m.generatedName)

/-- **Every field with one value is set once, to its default**, and nothing else is set. -/
theorem map_assignments {emitted : List (Member × Resolution)}
    (h : ∀ m r, (m, r) ∈ emitted → Settled m r) :
    (emitted.filterMap fun (m, r) => assignment? m r).map (fun a => (a.field, some a.expression))
      = (emitted.filter fun entry => !entry.1.type.isArray).map
          fun entry => (entry.1.generatedName, entry.2.default.expression?) := by
  have hset : List.Forall₂ (fun (entry : Member × Resolution) (a : Assignment) =>
        (entry.1.generatedName, entry.2.default.expression?) = (a.field, some a.expression))
      (emitted.filter fun entry => !entry.1.type.isArray)
      (emitted.filterMap fun (m, r) => assignment? m r) := by
    refine forall₂_filter_filterMap ?_
    rintro ⟨m, r⟩ hm
    have hsettled : Settled m r := h m r hm
    cases harray : m.type.isArray with
    | true =>
      refine Or.inl ⟨rfl, ?_⟩
      show assignment? m r = none
      rw [assignment?, hsettled.isArray, if_pos harray]
    | false =>
      obtain ⟨expression, hexpression⟩ := hsettled.starts harray
      refine Or.inr ⟨rfl, ⟨m.generatedName, expression⟩, ?_, ?_⟩
      · show assignment? m r = _
        rw [assignment?, hsettled.isArray, harray, hexpression]
        rfl
      · rw [hexpression]
  have hmaps := List.forall₂_map_left_iff.2 (List.forall₂_map_right_iff.2 hset)
  rw [List.forall₂_eq_eq_eq] at hmaps
  exact hmaps.symm

/-- **Every field with objects is given up once, by its type**, and no other field is. -/
theorem forall₂_releases {emitted : List (Member × Resolution)}
    (h : ∀ m r, (m, r) ∈ emitted → Settled m r) :
    List.Forall₂ (fun entry release => GivenUp entry.1 release)
      (emitted.filter fun entry => entry.1.type.ownership?.isSome)
      (emitted.filterMap fun (m, r) => release? m r) := by
  refine forall₂_filter_filterMap ?_
  rintro ⟨m, r⟩ hm
  have hsettled : Settled m r := h m r hm
  simp only [release?, hsettled.ownership, hsettled.isArray]
  cases howned : m.type.ownership? with
  | none => exact Or.inl ⟨rfl, rfl⟩
  | some ownership =>
    refine Or.inr ⟨rfl, ?_⟩
    cases ownership <;> cases harray : m.type.isArray
    · exact ⟨_, rfl, .link howned harray⟩
    · exact ⟨_, rfl, .links howned harray⟩
    · exact ⟨_, rfl, .object howned harray⟩
    · exact ⟨_, rfl, .objects howned harray⟩

/-- **What is deleted was set to no object**: only a field that holds one owned object is. -/
theorem assigned_of_deleted {c : ClassDecl} (h : ∀ m r, (m, r) ∈ c.emittedMembers → Settled m r)
    {field : String} (hdelete : .delete field ∈ releases c) :
    ⟨field, "nullptr"⟩ ∈ assignments c := by
  obtain ⟨⟨m, r⟩, hm, hrelease⟩ := List.mem_filterMap.1 hdelete
  have hsettled : Settled m r := h m r hm
  refine List.mem_filterMap.2 ⟨(m, r), hm, ?_⟩
  simp only [release?, hsettled.ownership, hsettled.isArray] at hrelease
  cases howned : m.type.ownership? with
  | none =>
    rw [howned] at hrelease
    cases hrelease
  | some ownership =>
    cases harray : m.type.isArray with
    | true =>
      rw [howned, harray] at hrelease
      cases ownership <;> cases hrelease
    | false =>
      have hnull : r.default = .null := hsettled.startsEmpty harray (by simp [howned])
      rw [howned, harray] at hrelease
      cases ownership with
      | reference => cases hrelease
      | owned =>
        cases hrelease
        simp [assignment?, hsettled.isArray, harray, hnull, DefaultValue.expression?]

theorem assignments?_constructor {c : ClassDecl}
    (hfields : ∀ m r, (m, r) ∈ c.emittedMembers → isIdentifier m.generatedName = true) :
    (constructor c).assignments? = some (assignments c) := by
  have hread : ((assignments c).map Assignment.text).mapM Assignment.ofLine?
      = some ((assignments c).map id) := by
    refine mapM_map_eq_some fun a ha => ?_
    obtain ⟨⟨m, r⟩, hm, hassigned⟩ := List.mem_filterMap.1 ha
    simp only [assignment?] at hassigned
    split at hassigned
    · cases hassigned
    · obtain ⟨expression, -, rfl⟩ := Option.map_eq_some_iff.1 hassigned
      exact Assignment.ofLine?_text (hfields m r hm)
  rwa [List.map_id] at hread

theorem releases?_destructor {c : ClassDecl}
    (hfields : ∀ m r, (m, r) ∈ c.emittedMembers → isIdentifier m.generatedName = true) :
    (destructor c).releases? = some (releases c) := by
  have hread : ((releases c).map Release.text).mapM Release.ofLine?
      = some ((releases c).map id) := by
    refine mapM_map_eq_some fun a ha => ?_
    obtain ⟨⟨m, r⟩, hm, hreleased⟩ := List.mem_filterMap.1 ha
    have hfield : a.field = m.generatedName := by
      simp only [release?] at hreleased
      split at hreleased <;> cases hreleased <;> rfl
    refine Release.ofLine?_text ?_
    rw [hfield]
    exact hfields m r hm
  rwa [List.map_id] at hread

end ClassBlock

end SchemaBinding.Code

namespace SchemaBinding.Binding

open Schema Document
open Code (StandIn isIdentifier)
open Code.ClassBlock (constructor destructor scalars objects GivenUp)

variable {settings : Code.Settings} {root : Node} {b : Binding}

/-- **Fields live as their types say.**  The constructor and the destructor of a class stand in the
source.  The constructor sets every field that holds one value once, in the order of the members and
to its default, and nothing else.  The destructor gives up every field that holds objects once, in
the order of the members and as its type says, and nothing else.  What it deletes, the constructor
has set to no object.  If nothing that is copied into defaults holds a line break, then the lines of
both are lines of the source. -/
theorem lifetimes_of_generate (hgen : generate settings root = .ok b)
    (henums : ∀ e ∈ (load root).1.enums.items, isIdentifier e.generatedName = true)
    (hclasses : ∀ a ∈ (load root).1.classes.items, isIdentifier a.generatedName = true)
    (hfields : ∀ a ∈ (load root).1.classes.items, ∀ m r, (m, r) ∈ a.emittedMembers →
      isIdentifier m.generatedName = true)
    {c : ClassDecl} (hc : c ∈ (load root).1.classes.items) :
    StandIn ((constructor c).lines (c.generatedName ++ "::")) b.source
    ∧ StandIn ((destructor c).lines (c.generatedName ++ "::")) b.source
    ∧ (∃ sets givesUp,
        (constructor c).assignments? = some sets
        ∧ (destructor c).releases? = some givesUp
        ∧ sets.map (fun a => (a.field, some a.expression))
          = (scalars c).map (fun entry => (entry.1.generatedName, entry.2.default.expression?))
        ∧ List.Forall₂ (fun entry release => GivenUp entry.1 release) (objects c) givesUp
        ∧ ∀ field, .delete field ∈ givesUp → ⟨field, "nullptr"⟩ ∈ sets)
    ∧ ((∀ m r, (m, r) ∈ c.emittedMembers →
          ∀ literal ∈ r.default.literal?, '\n' ∉ literal.toList) →
        ∀ f ∈ [constructor c, destructor c],
          Text.lines (Text.unlines (f.lines (c.generatedName ++ "::")))
            = f.lines (c.generatedName ++ "::")) := by
  have hsettled : ∀ m r, (m, r) ∈ c.emittedMembers → Code.Settled m r := fun m r hm =>
    Code.settled_of_mem_emittedMembers hc hm
  refine ⟨functions_standIn hgen hc (by simp [Code.ClassBlock.functions]),
    functions_standIn hgen hc (by simp [Code.ClassBlock.functions]), ?_, ?_⟩
  · exact ⟨_, _, Code.ClassBlock.assignments?_constructor (hfields c hc),
      Code.ClassBlock.releases?_destructor (hfields c hc),
      Code.ClassBlock.map_assignments hsettled, Code.ClassBlock.forall₂_releases hsettled,
      fun _ => Code.ClassBlock.assigned_of_deleted hsettled⟩
  · intro hliterals
    have hlegible : Code.ClassBlock.LegibleMembers c :=
      { name := Code.unbroken_of_isIdentifier (hclasses c hc)
        field := fun entry hm => Code.unbroken_of_isIdentifier (hfields c hc entry.1 entry.2 hm)
        expression := fun entry hm _ hexpression =>
          Code.unbroken_expression_of_literal henums hc hm (hliterals entry.1 entry.2 hm)
            hexpression }
    intro f hf
    simp only [List.mem_cons, List.not_mem_nil, or_false] at hf
    rcases hf with rfl | rfl
    · exact Text.lines_unlines (Code.ClassBlock.legible_constructor hlegible).yields_file.unbroken
    · exact Text.lines_unlines (Code.ClassBlock.legible_destructor hlegible).yields_file.unbroken

/-- A schema of a crate that owns gems and is linked to others. -/
def crateSchema : Node :=
  ⟨"Schema", [],
    [⟨"Class", [("name", "Gem"), ("type", "datasave")], []⟩,
      ⟨"Class", [("name", "Crate"), ("type", "datasave")],
        [⟨"Data", [("name", "count"), ("type", "int"), ("default", "3")], []⟩,
          ⟨"Data", [("name", "scores"), ("type", "array:int")], []⟩,
          ⟨"Data", [("name", "label"), ("type", "string"), ("default", "two\nlines")], []⟩,
          ⟨"Data", [("name", "gem"), ("type", "instance:Gem")], []⟩,
          ⟨"Data", [("name", "gems"), ("type", "array:instance:Gem")], []⟩,
          ⟨"Data", [("name", "twin"), ("type", "reference:Gem")], []⟩,
          ⟨"Data", [("name", "others"), ("type", "array:reference:Gem")], []⟩]⟩]⟩

theorem lifetimes_of_generate_crateSchema :
    ∃ b, generate .standard crateSchema = .ok b
      ∧ ∃ c ∈ (load crateSchema).1.classes.items, c.name = "Crate"
        ∧ StandIn ((constructor c).lines "Crate::") b.source
        ∧ StandIn ((destructor c).lines "Crate::") b.source
        ∧ Text.lines (Text.unlines ((constructor c).lines "Crate::"))
          = (constructor c).lines "Crate::"
        ∧ ∃ sets givesUp, (constructor c).assignments? = some sets
          ∧ (destructor c).releases? = some givesUp
          ∧ sets.map (fun a => (a.field, some a.expression))
            = [("count", some "3"), ("label", some "\"two\\nlines\""), ("gem", some "nullptr"),
              ("twin", some "nullptr")]
          ∧ givesUp = [.delete "gem", .deleteAll "gems", .unlink "twin", .unlinkAll "others"]
          ∧ ⟨"gem", "nullptr"⟩ ∈ sets := by
  have hfatal : Diagnostic.anyFatal (load crateSchema).2 = false := by decide +kernel
  have henums : ∀ e ∈ (load crateSchema).1.enums.items, isIdentifier e.generatedName = true := by
    decide +kernel
  have hclasses : ∀ a ∈ (load crateSchema).1.classes.items,
      isIdentifier a.generatedName = true := by
    decide +kernel
  have hfields : ∀ a ∈ (load crateSchema).1.classes.items, ∀ entry ∈ a.emittedMembers,
      isIdentifier entry.1.generatedName = true := by
    decide +kernel
  obtain ⟨c, hc, hname, hgenerated, hscalars, hreleases, hliterals⟩ :
      ∃ c ∈ (load crateSchema).1.classes.items, c.name = "Crate" ∧ c.generatedName = "Crate"
        ∧ (scalars c).map (fun entry => (entry.1.generatedName, entry.2.default.expression?))
          = [("count", some "3"), ("label", some "\"two\\nlines\""), ("gem", some "nullptr"),
            ("twin", some "nullptr")]
        ∧ (destructor c).releases?
          = some [.delete "gem", .deleteAll "gems", .unlink "twin", .unlinkAll "others"]
        ∧ ∀ entry ∈ c.emittedMembers, ∀ literal ∈ entry.2.default.literal?,
          '\n' ∉ literal.toList := by
    decide +kernel
  obtain ⟨b, hgen⟩ : ∃ b, generate .standard crateSchema = .ok b :=
    ⟨_, generate_eq_ok_iff.2 ⟨hfatal, rfl⟩⟩
  obtain ⟨hconstructor, hdestructor, ⟨sets, givesUp, hsets, hgivesUp, hassigned, -, hdeleted⟩,
    hlines⟩ := lifetimes_of_generate hgen henums hclasses
      (fun a ha m r hm => hfields a ha (m, r) hm) hc
  have hline := hlines (fun m r hm => hliterals (m, r) hm) (constructor c) List.mem_cons_self
  rw [hgenerated] at hconstructor hdestructor hline
  obtain rfl := Option.some.inj (hreleases.symm.trans hgivesUp)
  exact ⟨b, hgen, c, hc, hname, hconstructor, hdestructor, hline, sets, _, hsets, hgivesUp,
    hassigned.trans hscalars, rfl, hdeleted "gem" List.mem_cons_self⟩

end SchemaBinding.Binding
