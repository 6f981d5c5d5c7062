import SchemaBinding.Proofs.Code.Source
import SchemaBinding.Proofs.Schema.Parents

/-!
# Derivation of classes

In the header every class has a block, and the first line of the block derives the class from
another: from its parent, if it has one, and otherwise from the class of the runtime that all
classes of its kind descend from.

* `Code.derivedFrom_parent`, `Code.derivedFrom_root`: from what a class is derived.
* `Binding.derivation_load`: which class is the parent of another and what is said if none is, and
  how the classes of a lineage are derived one from the other.
-/

namespace SchemaBinding.Code

open Schema

variable {settings : Settings} {doc : Document} {c : ClassDecl}

/-- The blocks of the classes stand in the header one after the other. -/
theorem infix_declarations (settings : Settings) (doc : Document) :
    (doc.classes.items.flatMap fun c => [banner] ++ ClassBlock.declaration settings doc c ++ [""])
      <:+: headerLines settings doc := by
  unfold headerLines
  -- the free routines and the end of the namespace come behind
  iterate 2 apply List.infix_append_of_infix_left
  exact List.infix_append_right

theorem infix_declaration (h : c ∈ doc.classes.items) :
    ClassBlock.declaration settings doc c <:+: headerLines settings doc := by
  have hblock : [banner] ++ ClassBlock.declaration settings doc c ++ [""]
      <:+: doc.classes.items.flatMap fun c =>
        [banner] ++ ClassBlock.declaration settings doc c ++ [""] :=
    infix_flatMap_of_mem (f := fun c => [banner] ++ ClassBlock.declaration settings doc c ++ [""]) h
  have hinner : ClassBlock.declaration settings doc c
      <:+: [banner] ++ ClassBlock.declaration settings doc c ++ [""] := ⟨[banner], [""], rfl⟩
  exact hinner.trans (hblock.trans (infix_declarations settings doc))

/-- The block of a class stands in the header, and it begins with the line that derives the class
from this one. -/
def DerivedFrom (settings : Settings) (doc : Document) (base : String) (c : ClassDecl) : Prop :=
  StandIn (ClassBlock.declaration settings doc c) (header settings doc)
    ∧ (ClassBlock.declaration settings doc c).head?
      = some ("class " ++ c.generatedName ++ " : public " ++ base)

theorem derivedFrom_parentType (hc : c ∈ doc.classes.items) :
    DerivedFrom settings doc (ClassBlock.parentType settings doc c) c :=
  ⟨standIn_unlines (infix_declaration hc), rfl⟩

theorem derivedFrom_parent (hc : c ∈ doc.classes.items) {p : ClassDecl}
    (hp : doc.parentOf? c = some p) : DerivedFrom settings doc p.generatedName c := by
  have h := @derivedFrom_parentType settings doc c hc
  rwa [ClassBlock.parentType, hp] at h

theorem derivedFrom_root (hc : c ∈ doc.classes.items) (hp : doc.parentOf? c = none) :
    DerivedFrom settings doc (settings.runtime c.kind.rootClass) c := by
  have h := @derivedFrom_parentType settings doc c hc
  rwa [ClassBlock.parentType, hp] at h

end SchemaBinding.Code

namespace SchemaBinding.Binding

open Schema
open Schema.Document
open Code (DerivedFrom)

/-- **A class is derived from its parent, and its parent is its base**, if that is a class of the same
kind; otherwise one warning says what is wrong with the base.  Without a cycle the lineage of a
class is a way from the class to the eldest of its ancestors over distinct classes of its kind, with
no more of them than there are classes: the header derives the eldest from the class of the runtime
for that kind and each of the others from its parent. -/
theorem derivation_load (settings : Code.Settings) (root : Node) :
    (∀ i c, (load root).1.classes.items[i]? = some c →
      (∀ p, c.parent? = some p
        ↔ c.base = p ∧ p ≠ ""
          ∧ ∃ base, (load root).1.class? p = some base ∧ base.kind = c.kind)
      ∧ BaseJudged root i c)
    ∧ (Diagnostic.anyFatal (load root).2 = false → ∀ c ∈ (load root).1.classes.items,
      ∃ lineage, (load root).1.Lineage c lineage
        ∧ (lineage.map ClassDecl.name).Nodup
        ∧ lineage.length ≤ (load root).1.classes.items.length
        ∧ (∀ a ∈ lineage, a ∈ (load root).1.classes.items ∧ a.kind = c.kind)
        ∧ (∃ eldest, lineage.head? = some eldest ∧ (load root).1.parentOf? eldest = none
          ∧ DerivedFrom settings (load root).1 (settings.runtime c.kind.rootClass) eldest)
        ∧ lineage.IsChain fun p a => (load root).1.parentOf? a = some p
          ∧ DerivedFrom settings (load root).1 p.generatedName a) := by
  constructor
  · intro i c hi
    exact ⟨fun p => parent?_load_iff (List.mem_of_getElem? hi), baseJudged_load hi⟩
  · intro hfatal c hc
    obtain ⟨lineage, hlineage, hlength⟩ := exists_lineage hfatal hc
    have hmem := hlineage.mem_items hc
    have hkind := hlineage.kind_eq hc
    refine ⟨lineage, hlineage, hlineage.nodup_names hfatal hc, hlength,
      fun a ha => ⟨hmem a ha, hkind a ha⟩, ?_, ?_⟩
    · obtain ⟨eldest, heldest, hnone⟩ := hlineage.head?_eq
      have hfirst := List.mem_of_mem_head? heldest
      refine ⟨eldest, heldest, hnone, ?_⟩
      rw [← hkind eldest hfirst]
      exact Code.derivedFrom_root (hmem eldest hfirst) hnone
    · refine hlineage.isChain.imp_of_mem_imp ?_
      intro p a _ ha hp
      exact ⟨hp, Code.derivedFrom_parent (hmem a ha) hp⟩

/-- A schema of vessels.  A frigate is a ship and a ship is a vessel; the log of a vessel is no vessel,
for it is only read. -/
def fleetSchema : Node :=
  ⟨"Schema", [],
    [⟨"Class", [("name", "Frigate"), ("type", "datasave"), ("base", "Ship")], []⟩,
      ⟨"Class", [("name", "Ship"), ("type", "datasave"), ("base", "Vessel")], []⟩,
      ⟨"Class", [("name", "Vessel"), ("code", "SV_Vessel"), ("type", "datasave")], []⟩,
      ⟨"Class", [("name", "Log"), ("base", "Vessel")], []⟩]⟩

theorem derivation_load_fleetSchema :
    (∃ c, (load fleetSchema).1.classes.items[3]? = some c ∧ c.parent? = none
      ∧ baseFindings fleetSchema 3 c
        = [.warning (.invalidAttribute "Class" "base" "Vessel") (.classAt 3 "Log")])
    ∧ ∃ c ∈ (load fleetSchema).1.classes.items, c.name = "Frigate"
      ∧ ∃ lineage, (load fleetSchema).1.Lineage c lineage ∧ lineage.length ≤ 4
        ∧ lineage.IsChain fun p a => (load fleetSchema).1.parentOf? a = some p
          ∧ DerivedFrom .standard (load fleetSchema).1 p.generatedName a := by
  obtain ⟨hjudged, hlineages⟩ := derivation_load .standard fleetSchema
  constructor
  · have hlog : (load fleetSchema).1.classes.items[3]?.map
        (fun c => (c.name, c.base, c.kind, c.parent?)) = some ("Log", "Vessel", .datasheet, none) := by
      decide +kernel
    have hvessel : ((load fleetSchema).1.class? "Vessel").map ClassDecl.kind = some .datasave := by
      decide +kernel
    obtain ⟨c, hc, hparts⟩ := Option.map_eq_some_iff.1 hlog
    obtain ⟨base, hbase, hkind⟩ := Option.map_eq_some_iff.1 hvessel
    simp only [Prod.mk.injEq] at hparts
    obtain ⟨hname, hof, hsheet, hparent⟩ := hparts
    have hfindings := (hjudged 3 c hc).2.otherKind base (by rw [hof]; decide)
      (by rw [hof]; exact hbase) (by rw [hkind, hsheet]; decide)
    rw [hof, hname] at hfindings
    exact ⟨c, hc, hparent, hfindings⟩
  · have hfatal : Diagnostic.anyFatal (load fleetSchema).2 = false := by decide +kernel
    have hlength : (load fleetSchema).1.classes.items.length = 4 := by decide +kernel
    obtain ⟨c, hc, hname⟩ : ∃ c ∈ (load fleetSchema).1.classes.items, c.name = "Frigate" := by
      decide +kernel
    obtain ⟨lineage, hlineage, -, hle, -, -, hchain⟩ := hlineages hfatal c hc
    exact ⟨c, hc, hname, lineage, hlineage, hlength ▸ hle, hchain⟩

end SchemaBinding.Binding
