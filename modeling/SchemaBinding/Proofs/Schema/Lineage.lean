import SchemaBinding.Proofs.Schema.BaseCycle
import Mathlib.Data.List.Perm.Subperm

/-!
# Lineages

The lineage of a class is the class behind its ancestors, the one without a parent first.

* `parentOf?_resolveClass_eq_some_iff`: the parent is the base, if that is a class of the same kind.
* `exists_lineage`: without a cycle of bases every class has a lineage, and it is no longer than the
  list of classes.
* `Lineage.kind_eq`: all classes of a lineage are of one kind.
-/

namespace SchemaBinding.Schema.Document

open Relation (TransGen)

/-! ### Parents -/

section Resolve

variable {doc : Document}

theorem mem_items_resolve_iff {c : ClassDecl} :
    c ∈ doc.resolve.1.classes.items ↔ ∃ b ∈ doc.classes.items, doc.resolveClass b = c := by
  rw [items_resolve, List.mem_map]

/-- **The parent of a class is its base, if that is a class of the same kind.** -/
theorem parentOf?_resolveClass_eq_some_iff {b p : ClassDecl} :
    doc.resolve.1.parentOf? (doc.resolveClass b) = some p
      ↔ b.base ≠ "" ∧ ∃ q, doc.BaseStep b q ∧ q.kind = b.kind ∧ doc.resolveClass q = p := by
  rw [parentOf?, show (doc.resolveClass b).parent? = doc.resolvedParent? b from rfl,
    resolvedParent?]
  by_cases hb : b.base = ""
  · simp [hb]
  · cases hq : doc.class? b.base with
    | none => simp [hb, BaseStep, hq]
    | some q =>
      by_cases hk : q.kind = b.kind <;> simp [hb, BaseStep, hq, hk, class?_resolve]

end Resolve

variable {root : Node}

theorem parentOf?_load {c p : ClassDecl} (hc : c ∈ (load root).1.classes.items)
    (h : (load root).1.parentOf? c = some p) :
    p ∈ (load root).1.classes.items ∧ p.kind = c.kind := by
  obtain ⟨b, -, rfl⟩ := mem_items_resolve_iff.1 hc
  obtain ⟨-, q, hq, hk, rfl⟩ := parentOf?_resolveClass_eq_some_iff.1 h
  exact ⟨mem_items_resolve_iff.2 ⟨q, hq.mem, rfl⟩, hk⟩

/-- A way along parents is one along bases. -/
theorem transGen_baseStep_of_parents {b : ClassDecl} {p : ClassDecl}
    (h : TransGen (fun c p => (load root).1.parentOf? c = some p)
      ((ofNode root).1.resolveClass b) p) :
    ∃ q, TransGen (ofNode root).1.BaseStep b q ∧ (ofNode root).1.resolveClass q = p := by
  induction h with
  | single h =>
    obtain ⟨-, q, hq, -, rfl⟩ := parentOf?_resolveClass_eq_some_iff.1 h
    exact ⟨q, .single hq, rfl⟩
  | tail _ h ih =>
    obtain ⟨q, hq, rfl⟩ := ih
    obtain ⟨-, r, hr, -, rfl⟩ := parentOf?_resolveClass_eq_some_iff.1 h
    exact ⟨r, hq.tail hr, rfl⟩

theorem not_transGen_parents_self (h : Diagnostic.anyFatal (load root).2 = false) {c : ClassDecl}
    (hc : c ∈ (load root).1.classes.items) :
    ¬ TransGen (fun c p => (load root).1.parentOf? c = some p) c c := by
  intro hcycle
  obtain ⟨b, hb, rfl⟩ := mem_items_resolve_iff.1 hc
  obtain ⟨q, hq, heq⟩ := transGen_baseStep_of_parents hcycle
  have hqmem : q ∈ (ofNode root).1.classes.items := Binding.mem_items_of_transGen hq
  have hname : q.name = b.name := by
    rw [show q.name = ((ofNode root).1.resolveClass q).name from rfl, heq]
    rfl
  obtain rfl := (wellNamed_ofNode root).classes.eq_of_name_eq hqmem hb hname
  have hfatal := (anyFatal_load_iff root).2 ⟨q, hq⟩
  rw [h] at hfatal
  cases hfatal

/-! ### Lineages -/

/-- A class behind its ancestors, the one without a parent first. -/
inductive Lineage (doc : Document) : ClassDecl → List ClassDecl → Prop
  | root {c : ClassDecl} : doc.parentOf? c = none → Lineage doc c [c]
  | child {c p : ClassDecl} {l : List ClassDecl} :
    doc.parentOf? c = some p → Lineage doc p l → Lineage doc c (l ++ [c])

namespace Lineage

variable {c : ClassDecl} {l : List ClassDecl}

theorem mem_items (h : (load root).1.Lineage c l) (hc : c ∈ (load root).1.classes.items) :
    ∀ a ∈ l, a ∈ (load root).1.classes.items := by
  induction h with
  | root => simpa using hc
  | child hp _ ih =>
    intro a ha
    rcases List.mem_append.1 ha with ha | ha
    · exact ih (parentOf?_load hc hp).1 a ha
    · rwa [List.mem_singleton.1 ha]

theorem kind_eq (h : (load root).1.Lineage c l) (hc : c ∈ (load root).1.classes.items) :
    ∀ a ∈ l, a.kind = c.kind := by
  induction h with
  | root => simp
  | child hp _ ih =>
    intro a ha
    obtain ⟨hmem, hkind⟩ := parentOf?_load hc hp
    rcases List.mem_append.1 ha with ha | ha
    · rw [ih hmem a ha, hkind]
    · rw [List.mem_singleton.1 ha]

end Lineage

/-- A class has a lineage, or its parents go on for as many steps as one likes. -/
theorem lineage_or_isChain (doc : Document) (n : Nat) (c : ClassDecl) :
    (∃ l, doc.Lineage c l ∧ l.length ≤ n)
      ∨ ∃ l, l.length = n ∧ (c :: l).IsChain fun c p => doc.parentOf? c = some p := by
  induction n generalizing c with
  | zero => exact Or.inr ⟨[], rfl, .singleton _⟩
  | succ n ih =>
    cases hp : doc.parentOf? c with
    | none => exact Or.inl ⟨[c], .root hp, by simp⟩
    | some p =>
      rcases ih p with ⟨l, hl, hlength⟩ | ⟨l, hlength, hl⟩
      · refine Or.inl ⟨l ++ [c], .child hp hl, ?_⟩
        rw [List.length_append, List.length_singleton]
        omega
      · exact Or.inr ⟨p :: l, by rw [List.length_cons, hlength],
          List.isChain_cons_cons.2 ⟨hp, hl⟩⟩

theorem mem_items_of_isChain_parents {l : List ClassDecl} {c : ClassDecl}
    (h : (c :: l).IsChain fun c p => (load root).1.parentOf? c = some p)
    (hc : c ∈ (load root).1.classes.items) : ∀ a ∈ c :: l, a ∈ (load root).1.classes.items := by
  induction l generalizing c with
  | nil => simpa using hc
  | cons p l ih =>
    rw [List.isChain_cons_cons] at h
    intro a ha
    rcases List.mem_cons.1 ha with rfl | ha
    · exact hc
    · exact ih h.2 (parentOf?_load hc h.1).1 a ha

/-- **Without a cycle every class has a lineage**, for a way that is longer than the list of classes
would meet one of them twice. -/
theorem exists_lineage (h : Diagnostic.anyFatal (load root).2 = false) {c : ClassDecl}
    (hc : c ∈ (load root).1.classes.items) :
    ∃ l, (load root).1.Lineage c l ∧ l.length ≤ (load root).1.classes.items.length := by
  rcases lineage_or_isChain (load root).1 (load root).1.classes.items.length c with
    hl | ⟨l, hlength, hl⟩
  · exact hl
  have hmem := mem_items_of_isChain_parents hl hc
  have htwice : ¬ (c :: l).Nodup := by
    intro hnodup
    have hle := (List.subperm_of_subset hnodup hmem).length_le
    rw [List.length_cons, hlength] at hle
    omega
  obtain ⟨d, hd⟩ := List.exists_duplicate_iff_not_nodup.2 htwice
  obtain ⟨before, middle, after, hsplit⟩ := exists_split_of_duplicate hd
  rw [hsplit, List.isChain_split, List.isChain_cons_split] at hl
  refine absurd (transGen_of_isChain middle d hl.2.1) (not_transGen_parents_self h (hmem d ?_))
  rw [hsplit]
  simp

end SchemaBinding.Schema.Document
