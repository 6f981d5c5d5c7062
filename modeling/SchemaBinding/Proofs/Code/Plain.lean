import SchemaBinding.Proofs.Code.Blanked
import SchemaBinding.Proofs.Schema.Lineage

/-!
# Code that is plain between its literals

Generated code takes names, values and defaults from a document and from its settings.  If all that
it takes outside of literals is plain, then each of its lines closes the literals that it opens.

* `AlikeFunctions.lines`: functions of one signature with bodies alike have lines alike.
* `PlainCode`: what code takes from a document and its settings outside of literals is plain.
* `PlainCode.alike_expression`: the default of a field closes its literals.
-/

namespace SchemaBinding.Code

open Schema

/-! ### Functions -/

theorem alike_indent {a b : String} (h : Alike a b) : Alike (indent a) (indent b) :=
  Alike.append (IsPlain.alike (by decide)) h

/-- A separating line is like a separating line only. -/
theorem alike_bodyLine {a b : String} (h : Alike a b) : Alike (bodyLine a) (bodyLine b) := by
  rw [bodyLine, bodyLine]
  by_cases ha : a = ""
  · rw [if_pos ha, if_pos (h.eq_empty_iff.1 ha)]
    exact IsPlain.alike (by decide)
  · rw [if_neg ha, if_neg (mt h.eq_empty_iff.2 ha)]
    exact alike_indent h

theorem isPlain_text {result? : Option String} {name parameter scope : String}
    (hresult : ∀ result ∈ result?, IsPlain result) (hscope : IsPlain scope) (hname : IsPlain name)
    (hparameter : IsPlain parameter) (isConst : Bool) :
    IsPlain (Signature.text ⟨result?, name, parameter, isConst⟩ scope) := by
  refine .append (.append (.append (.append (.append (.append ?front hscope) hname) (by decide))
    hparameter) (by decide)) ?back
  case front =>
    cases result? with
    | none => exact (by decide : IsPlain "")
    | some result => exact (hresult result rfl).append (by decide)
  case back =>
    cases isConst with
    | false => exact (by decide : IsPlain "")
    | true => exact (by decide : IsPlain " const")

/-- Functions of one signature, which is plain, whose bodies are alike. -/
structure AlikeFunctions (scope : String) (f g : Function) : Prop where
  signature : g.signature = f.signature
  plain : IsPlain (f.signature.text scope)
  body : AlikeLines f.body g.body

/-- **Functions of one signature with bodies alike have lines alike.** -/
theorem AlikeFunctions.lines {scope : String} {f g : Function} (h : AlikeFunctions scope f g) :
    AlikeLines (f.lines scope) (g.lines scope) := by
  have hfront : AlikeLines [f.signature.text scope, "\x7b"] [g.signature.text scope, "\x7b"] := by
    rw [h.signature]
    exact .cons h.plain.alike (.cons (IsPlain.alike (by decide)) .nil)
  have hback : AlikeLines ["\x7d"] ["\x7d"] := alikeLines_of_plain (by decide)
  exact (hfront.append (h.body.map alike_bodyLine)).append hback

theorem AlikeFunctions.defined {f g : Function} (h : AlikeFunctions "" f g) :
    AlikeLines (EnumBlock.defined f) (EnumBlock.defined g) := h.lines.map alike_indent

theorem alikeLines_definitions {scope : String} {fs gs : List Function}
    (h : List.Forall₂ (AlikeFunctions scope) fs gs) :
    AlikeLines (fs.flatMap fun f => f.lines scope ++ [""])
      (gs.flatMap fun g => g.lines scope ++ [""]) := by
  induction h with
  | nil => exact .nil
  | cons hfirst _ ih =>
    rw [List.flatMap_cons, List.flatMap_cons]
    exact (hfirst.lines.append alikeLines_separator).append ih

/-! ### What code takes from a document -/

/-- What code takes from a document and its settings outside of literals is plain.  A default for
text is taken as a literal. -/
structure PlainCode (settings : Settings) (doc : Document) : Prop where
  baseName : IsPlain settings.baseName
  runtimeNamespace : IsPlain settings.runtimeNamespace
  sourceIncludes : ∀ file ∈ settings.sourceIncludes, IsPlain file
  nameSpace : IsPlain doc.nameSpace
  enumName : ∀ e ∈ doc.enums.items, IsPlain e.generatedName
  value : ∀ e ∈ doc.enums.items, ∀ value ∈ e.values, IsPlain value
  className : ∀ c ∈ doc.classes.items, IsPlain c.generatedName
  memberName : ∀ c ∈ doc.classes.items, ∀ emitted ∈ c.emittedMembers,
    IsPlain emitted.1.generatedName
  literal : ∀ c ∈ doc.classes.items, ∀ emitted ∈ c.emittedMembers,
    emitted.2.category ≠ .primitive .string → IsPlain emitted.1.literal

theorem PlainCode.runtime {settings : Settings} {doc : Document} (h : PlainCode settings doc)
    {item : String} (hitem : IsPlain item) : IsPlain (settings.runtime item) := by
  rw [Settings.runtime]
  split
  · exact hitem
  · exact (h.runtimeNamespace.append (by decide)).append hitem

/-! ### Defaults -/

theorem IsPlain.trim {s : String} (h : IsPlain s) : IsPlain (Text.trim s) := by
  refine h.of_sublist ?_
  rw [Text.trim, String.toList_ofList]
  exact Text.trimList_sublist _

theorem IsPlain.literalOr {s fallback : String} (h : IsPlain s) (hfallback : IsPlain fallback) :
    IsPlain (literalOr s fallback) := by
  simp only [Schema.literalOr]
  split
  · exact hfallback
  · exact h.trim

/-- What is emitted of a loaded class has the resolution of what its type names. -/
theorem exists_target_of_mem_emittedMembers {doc : Document} {c : ClassDecl}
    (hc : c ∈ doc.resolve.1.classes.items) {m : Member} {res : Resolution}
    (hm : (m, res) ∈ c.emittedMembers) :
    ∃ t, doc.target? m.type = some t ∧ res = t.resolution c.kind m := by
  obtain ⟨b, -, rfl⟩ := Document.mem_items_resolve_iff.1 hc
  obtain ⟨hmember, hemitted⟩ := ClassDecl.mem_emittedMembers.1 hm
  obtain ⟨given, -, rfl⟩ := List.mem_map.1 hmember
  have hres : doc.resolution? b.kind given = some res := by
    rw [Member.emitted?] at hemitted
    split at hemitted
    · cases hemitted
    · exact hemitted
  rw [Document.resolution?] at hres
  split at hres
  · obtain ⟨t, ht, rfl⟩ := Option.map_eq_some_iff.1 hres
    exact ⟨t, ht, rfl⟩
  · cases hres

theorem mem_items_of_target? {doc : Document} {spec : TypeSpec} {e : EnumDecl}
    (h : doc.target? spec = some (.enumeration e)) : e ∈ doc.enums.items := by
  rw [Document.target?] at h
  cases howned : spec.ownership? with
  | some ownership =>
    rw [howned] at h
    cases hfound : doc.class? spec.base <;> simp [hfound] at h
  | none =>
    rw [howned] at h
    cases hfound : doc.enum? spec.base with
    | none => cases hword : Primitive.ofKeyword? spec.base <;> simp [hfound, hword] at h
    | some found =>
      simp only [hfound, Option.some.injEq, Target.enumeration.injEq] at h
      rw [← h]
      exact Registry.mem_items_of_find? hfound

variable {settings : Settings} {doc : Document}

theorem PlainCode.isPlain_enumerator (h : PlainCode settings doc) {e : EnumDecl}
    (he : e ∈ doc.enums.items) {literal : String} (hliteral : IsPlain literal)
    {expression : String} (hexpression : (e.defaultValue literal).expression? = some expression) :
    IsPlain expression := by
  have hvalue : ∀ {value}, IsPlain value → IsPlain (e.generatedName ++ "::" ++ value) :=
    fun hvalue => ((h.enumName e he).append (by decide)).append hvalue
  have hvalues := h.value e he
  simp only [EnumDecl.defaultValue] at hexpression
  split at hexpression
  · cases hfirst : e.values with
    | nil =>
      rw [hfirst] at hexpression
      cases hexpression
      decide
    | cons first rest =>
      rw [hfirst] at hexpression
      cases hexpression
      exact hvalue (hvalues first (by rw [hfirst]; exact List.mem_cons_self))
  · cases hexpression
    exact hvalue hliteral.trim

/-- **The default of a field closes its literals.** -/
theorem PlainCode.alike_expression (h : PlainCode settings doc.resolve.1) {c : ClassDecl}
    (hc : c ∈ doc.resolve.1.classes.items) {m : Member} {res : Resolution}
    (hm : (m, res) ∈ c.emittedMembers) {expression : String}
    (hexpression : res.default.expression? = some expression) : Alike expression expression := by
  have hliteral := h.literal c hc _ hm
  obtain ⟨t, ht, rfl⟩ := exists_target_of_mem_emittedMembers hc hm
  by_cases harray : m.type.isArray = true
  · simp [Target.resolution, harray, DefaultValue.expression?] at hexpression
  have hdefault : (t.defaultValue m.literal).expression? = some expression := by
    simpa [Target.resolution, harray] using hexpression
  cases t with
  | object decl ownership =>
    cases hdefault
    exact IsPlain.alike (by decide)
  | enumeration e =>
    have he : e ∈ doc.enums.items := mem_items_of_target? ht
    exact (h.isPlain_enumerator he (hliteral nofun) hdefault).alike
  | primitive p =>
    cases p with
    | string =>
      cases hdefault
      exact alike_quoted _ _
    | int =>
      cases hdefault
      exact ((hliteral nofun).literalOr (by decide)).alike
    | float =>
      cases hdefault
      exact ((hliteral nofun).literalOr (by decide)).alike
    | bool =>
      cases hdefault
      exact ((hliteral nofun).literalOr (by decide)).alike

end SchemaBinding.Code
