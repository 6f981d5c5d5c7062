import SchemaBinding.Proofs.Schema.Renamed
import SchemaBinding.Proofs.Schema.Translation

/-!
# Resolution under other names

Resolution looks up the names that types and bases give, and compares names along bases.  Under
other names it finds the same declarations, so the types of fields, their defaults and the parents
are what they were, and what is wrong is wrong under the new names.

* `target?_rename`: a type names what it named before.
* `resolveClass_rename`: a class is resolved as before.
* `cycleReports_rename`: the same cycles are reported.
* `load_renameRoot`: what is loaded from a renamed tree, and all that is wrong with it.
-/

namespace SchemaBinding.Schema

def Target.rename (r : String → String) : Target → Target
  | object decl ownership => object (decl.rename r) ownership
  | enumeration decl => enumeration (decl.rename r)
  | primitive p => primitive p

variable {r : String → String}

namespace Target

/-- Fields have types and defaults by the generated names alone. -/
theorem resolution_rename (owner : ClassKind) (m : Member) (t : Target) :
    (t.rename r).resolution owner (m.rename r) = (t.resolution owner m).rename r := by
  have hcategory : (t.rename r).category (m.rename r).type.base
      = (t.category m.type.base).rename r := by
    cases t <;> rfl
  have hsignature : (t.rename r).signature owner = t.signature owner := by
    cases t with
    | object decl ownership => cases ownership <;> cases owner <;> rfl
    | enumeration decl => rfl
    | primitive p => rfl
  have hdefault : (t.rename r).defaultValue m.literal = t.defaultValue m.literal := by
    cases t <;> rfl
  rw [resolution, resolution, hcategory, hsignature]
  simp only [Member.rename, TypeSpec.rename, hdefault]
  rfl

end Target

namespace Document

variable (h : Renaming r) (doc : Document)

include h

/-! ### Members -/

/-- **A type names what it named before.** -/
theorem target?_rename (spec : TypeSpec) :
    (doc.rename r).target? (spec.rename r) = (doc.target? spec).map (Target.rename r) := by
  have hownership : (spec.rename r).ownership? = spec.ownership? := rfl
  have hbase : (spec.rename r).base = r spec.base := rfl
  rw [target?, target?, hownership, hbase, class?_rename h, enum?_rename h, h.ofKeyword?]
  cases spec.ownership? with
  | some ownership => cases doc.class? spec.base <;> rfl
  | none =>
    cases doc.enum? spec.base with
    | some e => rfl
    | none => cases Primitive.ofKeyword? spec.base <;> rfl

theorem isComplete_rename (m : Member) : (m.rename r).isComplete = m.isComplete := by
  have hbase : (m.rename r).type.base ≠ "" ↔ m.type.base ≠ "" := not_congr (h.eq_empty_iff _)
  rw [Member.isComplete, Member.isComplete, decide_eq_decide.2 hbase]
  rfl

theorem resolution?_rename (owner : ClassKind) (m : Member) :
    (doc.rename r).resolution? owner (m.rename r)
      = (doc.resolution? owner m).map (Resolution.rename r) := by
  have htype : (m.rename r).type = m.type.rename r := rfl
  rw [resolution?, resolution?, isComplete_rename h, htype, target?_rename h]
  split
  · rw [Option.map_map, Option.map_map]
    congr 1
    funext t
    exact t.resolution_rename owner m
  · rfl

theorem typeReports_rename (owner : String) (index : Nat) (m : Member) :
    (doc.rename r).typeReports (r owner) index (m.rename r)
      = (doc.typeReports owner index m).map (Diagnostic.rename r) := by
  have htype : (m.rename r).type = m.type.rename r := rfl
  rw [typeReports, typeReports, isComplete_rename h, htype, target?_rename h]
  by_cases hcomplete : m.isComplete = true
  · rw [if_pos hcomplete, if_pos hcomplete]
    cases doc.target? m.type with
    | none =>
      have hmissing : missingTarget (m.rename r) = (missingTarget m).rename r := by
        have hownership : (m.rename r).type.ownership? = m.type.ownership? := rfl
        rw [missingTarget, missingTarget, hownership]
        cases m.type.ownership? <;> rfl
      simp only [Option.map_none, hmissing]
      rfl
    | some t =>
      cases t with
      | object decl ownership => rfl
      | primitive p => rfl
      | enumeration e =>
        have harray : (m.rename r).type.isArray = m.type.isArray := rfl
        have hliteral : (m.rename r).literal = m.literal := rfl
        have hvalues : (e.rename r).values = e.values := rfl
        simp only [Option.map_some, Target.rename, targetReports, harray, hliteral, hvalues]
        split <;> rfl
  · rw [if_neg hcomplete, if_neg hcomplete]
    rfl

/-! ### Parents -/

theorem resolvedParent?_rename (c : ClassDecl) :
    (doc.rename r).resolvedParent? (c.rename r) = (doc.resolvedParent? c).map r := by
  have hbase : (c.rename r).base = r c.base := rfl
  have hempty : r c.base = "" ↔ c.base = "" := h.eq_empty_iff _
  simp only [resolvedParent?, hbase, class?_rename h, hempty]
  split
  · rfl
  · cases doc.class? c.base with
    | none => rfl
    | some base =>
      have hkind : (base.rename r).kind = (c.rename r).kind ↔ base.kind = c.kind := Iff.rfl
      simp only [Option.map_some, hkind]
      split <;> rfl

theorem baseReports_rename (index : Nat) (c : ClassDecl) :
    (doc.rename r).baseReports index (c.rename r)
      = (doc.baseReports index c).map (Diagnostic.rename r) := by
  have hbase : (c.rename r).base = r c.base := rfl
  have hempty : r c.base = "" ↔ c.base = "" := h.eq_empty_iff _
  simp only [baseReports, hbase, class?_rename h, hempty]
  split
  · rfl
  · cases doc.class? c.base with
    | none => rfl
    | some base =>
      have hkind : (base.rename r).kind = (c.rename r).kind ↔ base.kind = c.kind := Iff.rfl
      simp only [Option.map_some, hkind]
      split <;> rfl

/-! ### Classes -/

/-- **A class is resolved as before.** -/
theorem resolveClass_rename (c : ClassDecl) :
    (doc.rename r).resolveClass (c.rename r) = (doc.resolveClass c).rename r := by
  have hmembers : (c.members.map (Member.rename r)).map
        (fun m => { m with resolution? := (doc.rename r).resolution? c.kind m })
      = (c.members.map fun m => { m with resolution? := doc.resolution? c.kind m }).map
        (Member.rename r) := by
    rw [List.map_map, List.map_map]
    refine List.map_congr_left fun m _ => ?_
    simp only [Function.comp_apply, resolution?_rename h]
    rfl
  rw [resolveClass, resolvedParent?_rename h]
  simp only [ClassDecl.rename, hmembers]
  rfl

theorem translation_rename : doc.Translation (doc.rename r) r (ClassDecl.rename r) :=
  { injective := h.injective
    name := fun _ => rfl
    base := fun c => class?_rename h doc c.base
    items := items_rename _ _ }

/-- **The same cycles are reported.** -/
theorem cycleReports_rename :
    (doc.rename r).cycleReports = doc.cycleReports.map (Diagnostic.rename r) := by
  rw [cycleReports, cycleReports, (translation_rename h doc).baseCycles_eq, List.map_map,
    List.map_map]
  refine List.map_congr_left fun found _ => ?_
  obtain ⟨index, names⟩ := found
  have hhead : (names.map r).headD "" = r (names.headD "") := by
    cases names with
    | nil => exact h.empty.symm
    | cons name rest => rfl
  have hpath : names.map r ++ [r (names.headD "")] = (names ++ [names.headD ""]).map r := by
    rw [List.map_append, List.map_singleton]
  simp only [Function.comp_apply, Prod.map, hhead, hpath]
  rfl

/-! ### Documents -/

theorem fst_resolve_rename : (doc.rename r).resolve.1 = doc.resolve.1.rename r := by
  have hclasses : (doc.classes.rename r (ClassDecl.rename r)).map (doc.rename r).resolveClass
      = (doc.classes.map doc.resolveClass).rename r (ClassDecl.rename r) := by
    simp only [Registry.map, Registry.rename, List.map_map, Function.comp_def,
      resolveClass_rename h]
  rw [fst_resolve, fst_resolve, rename, rename, ← hclasses]
  rfl

theorem resolveReports_rename :
    (doc.rename r).resolveReports = doc.resolveReports.map (Diagnostic.rename r) := by
  have hitems : (doc.rename r).classes.items = doc.classes.items.map (ClassDecl.rename r) :=
    items_rename _ _
  have hbases : (((doc.classes.items.map (ClassDecl.rename r)).mapIdx
        (doc.rename r).baseReports)).flatten
      = (doc.classes.items.mapIdx doc.baseReports).flatten.map (Diagnostic.rename r) :=
    flatten_mapIdx_rename fun c _ j => baseReports_rename h doc j c
  have hmembers : ∀ c : ClassDecl,
      ((c.members.map (Member.rename r)).mapIdx ((doc.rename r).typeReports (r c.name))).flatten
        = (c.members.mapIdx (doc.typeReports c.name)).flatten.map (Diagnostic.rename r) :=
    fun c => flatten_mapIdx_rename fun m _ j => typeReports_rename h doc c.name j m
  rw [resolveReports, resolveReports, hitems, cycleReports_rename h, hbases, List.flatMap_map,
    List.map_append, List.map_append, List.map_flatMap]
  simp only [← hmembers]
  rfl

/-- **A renamed tree is loaded with the new names**, and what is wrong with it is wrong under the
new names, in the same order. -/
theorem load_renameRoot {root : Node} (hroot : Coded root) :
    load (renameRoot r root)
      = ((load root).1.rename r, (load root).2.map (Diagnostic.rename r)) := by
  have hofNode := ofNode_renameRoot h hroot
  rw [load, load, hofNode]
  simp only [List.map_append]
  exact Prod.ext (fst_resolve_rename h _) (congrArg (_ ++ ·) (resolveReports_rename h _))

end Document

end SchemaBinding.Schema
