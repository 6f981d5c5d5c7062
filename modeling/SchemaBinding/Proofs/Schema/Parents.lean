import SchemaBinding.Proofs.Schema.Lineage

/-!
# Parents

The parent of a class is its base, if that is a class of the same kind.  Otherwise the class has no
parent, and one warning says why, unless there is no base.

* `parent?_load_iff`: which class is the parent.
* `baseJudged_load`: what is said about the base of a class.
* `Lineage.nodup_names`, `Lineage.isChain`, `Lineage.head?_eq`: without a cycle the ancestors of a
  class are distinct, and each but the eldest stands behind its parent.
-/

namespace SchemaBinding.Schema

/-! ### What is said about bases -/

/-- The problem is that a base names no class, or none that a class of this kind can have. -/
def concernsBase : Problem → Bool
  | .unresolvedBase _ => true
  | .invalidAttribute element key _ => element = "Class" && key = "base"
  | _ => false

namespace Document

theorem concernsBase_of_mem_ofNode {root : Node} {d : Diagnostic} (hd : d ∈ (ofNode root).2) :
    concernsBase d.problem = false := by
  rcases problem_of_mem_ofNode hd with ⟨element, key, h⟩ | ⟨key, value, hkey, h⟩ | ⟨name, h⟩
    | ⟨name, h⟩
  · rw [h]
    rfl
  · rw [h]
    rcases hkey with rfl | rfl <;> rfl
  · rw [h]
    rfl
  · rw [h]
    rfl

variable {doc : Document}

theorem concernsBase_of_mem_cycleReports {d : Diagnostic} (hd : d ∈ doc.cycleReports) :
    concernsBase d.problem = false := by
  obtain ⟨cycle, -, rfl⟩ := List.mem_map.1 hd
  rfl

theorem concernsBase_of_mem_typeReports {owner : String} {index : Nat} {m : Member}
    {d : Diagnostic} (hd : d ∈ doc.typeReports owner index m) :
    concernsBase d.problem = false := by
  obtain ⟨-, ⟨-, rfl⟩ | ⟨e, -, -, -, -, rfl⟩⟩ := mem_typeReports_iff.1 hd
  · unfold missingTarget
    split <;> rfl
  · rfl

theorem of_mem_baseReports {index : Nat} {c : ClassDecl} {d : Diagnostic}
    (hd : d ∈ doc.baseReports index c) :
    concernsBase d.problem = true ∧ d.location = .classAt index c.name := by
  obtain ⟨-, ⟨-, rfl⟩ | ⟨base, -, -, rfl⟩⟩ := mem_baseReports_iff.1 hd
  · exact ⟨rfl, rfl⟩
  · exact ⟨rfl, rfl⟩

/-- The reports on bases are those of the resolution of parents. -/
theorem filter_concernsBase_load (root : Node) :
    (load root).2.filter (fun d => concernsBase d.problem)
      = ((ofNode root).1.classes.items.mapIdx (ofNode root).1.baseReports).flatten := by
  have hnone : ∀ ds : List Diagnostic, (∀ d ∈ ds, concernsBase d.problem = false) →
      ds.filter (fun d => concernsBase d.problem) = [] := fun ds h =>
    List.filter_eq_nil_iff.2 fun d hd => by simp [h d hd]
  have hbases : ((ofNode root).1.classes.items.mapIdx (ofNode root).1.baseReports).flatten.filter
      (fun d => concernsBase d.problem)
      = ((ofNode root).1.classes.items.mapIdx (ofNode root).1.baseReports).flatten := by
    refine List.filter_eq_self.2 ?_
    intro d hd
    obtain ⟨j, c, -, hd⟩ := mem_flatten_mapIdx_iff.1 hd
    exact (of_mem_baseReports hd).1
  have htypes : ∀ d ∈ (ofNode root).1.classes.items.flatMap fun c =>
      (c.members.mapIdx ((ofNode root).1.typeReports c.name)).flatten,
      concernsBase d.problem = false := by
    intro d hd
    obtain ⟨c, -, hd⟩ := List.mem_flatMap.1 hd
    obtain ⟨j, m, -, hd⟩ := mem_flatten_mapIdx_iff.1 hd
    exact concernsBase_of_mem_typeReports hd
  rw [load, resolve, resolveReports, List.filter_append, List.filter_append, List.filter_append,
    hnone _ fun d hd => concernsBase_of_mem_ofNode hd,
    hnone _ fun d hd => concernsBase_of_mem_cycleReports hd, hnone _ htypes, hbases,
    List.nil_append, List.nil_append, List.append_nil]

/-- What is said about the base of the class at a place. -/
def baseFindings (root : Node) (index : Nat) (c : ClassDecl) : List Diagnostic :=
  (load root).2.filter fun d =>
    decide (d.location = .classAt index c.name) && concernsBase d.problem

theorem getElem?_items_load {root : Node} {i : Nat} {c : ClassDecl}
    (hc : (load root).1.classes.items[i]? = some c) :
    ∃ b, (ofNode root).1.classes.items[i]? = some b ∧ (ofNode root).1.resolveClass b = c := by
  rwa [items_load, List.getElem?_map, Option.map_eq_some_iff] at hc

/-- **What is said about the base of a class** is what its resolution says. -/
theorem baseFindings_eq {root : Node} {i : Nat} {b : ClassDecl}
    (hb : (ofNode root).1.classes.items[i]? = some b) :
    baseFindings root i ((ofNode root).1.resolveClass b) = (ofNode root).1.baseReports i b := by
  have hother : ∀ j c, (ofNode root).1.classes.items[j]? = some c → j ≠ i →
      ∀ d ∈ (ofNode root).1.baseReports j c,
        decide (d.location = .classAt i ((ofNode root).1.resolveClass b).name) = false := by
    intro j c _ hne d hd
    rw [(of_mem_baseReports hd).2, decide_eq_false_iff_not]
    intro heq
    exact hne (Location.classAt.inj heq).1
  rw [baseFindings, ← List.filter_filter, filter_concernsBase_load, filter_flatten_mapIdx hb hother]
  refine List.filter_eq_self.2 ?_
  intro d hd
  exact decide_eq_true (of_mem_baseReports hd).2

/-! ### Which class is the parent -/

theorem parent?_resolveClass_iff {b : ClassDecl} {p : String} :
    (doc.resolveClass b).parent? = some p
      ↔ b.base = p ∧ p ≠ "" ∧ ∃ base, doc.class? p = some base ∧ base.kind = b.kind := by
  show doc.resolvedParent? b = some p ↔ _
  rw [resolvedParent?]
  by_cases hb : b.base = ""
  · rw [if_pos hb]
    constructor
    · intro h
      cases h
    · rintro ⟨rfl, hne, -⟩
      exact absurd hb hne
  · rw [if_neg hb]
    constructor
    · intro h
      cases hq : doc.class? b.base with
      | none => rw [hq] at h; cases h
      | some base =>
        simp only [hq] at h
        by_cases hk : base.kind = b.kind
        · rw [if_pos hk] at h
          obtain rfl := Option.some.inj h
          exact ⟨rfl, hb, base, hq, hk⟩
        · rw [if_neg hk] at h
          cases h
    · rintro ⟨rfl, -, base, hq, hk⟩
      simp only [hq]
      rw [if_pos hk]

theorem parent?_load_iff {root : Node} {c : ClassDecl} (hc : c ∈ (load root).1.classes.items)
    {p : String} :
    c.parent? = some p
      ↔ c.base = p ∧ p ≠ "" ∧ ∃ base, (load root).1.class? p = some base ∧ base.kind = c.kind := by
  obtain ⟨b, -, rfl⟩ := mem_items_resolve_iff.1 hc
  rw [parent?_resolveClass_iff]
  refine and_congr_right fun _ => and_congr_right fun _ => ?_
  rw [show (load root).1.class? p = ((ofNode root).1.class? p).map (ofNode root).1.resolveClass from
    class?_resolve _ _]
  constructor
  · rintro ⟨base, hbase, hkind⟩
    exact ⟨_, Option.map_eq_some_iff.2 ⟨base, hbase, rfl⟩, hkind⟩
  · rintro ⟨base, hbase, hkind⟩
    obtain ⟨found, hfound, rfl⟩ := Option.map_eq_some_iff.1 hbase
    exact ⟨found, hfound, hkind⟩

/-- **What is said about the base of a class.**  Nothing is said if the class has no base or has its
base for a parent; otherwise one warning says that the base is missing or is of the other kind. -/
structure BaseJudged (root : Node) (index : Nat) (c : ClassDecl) : Prop where
  noBase : c.base = "" → baseFindings root index c = []
  isParent : ∀ p, c.parent? = some p → baseFindings root index c = []
  missing : c.base ≠ "" → (load root).1.class? c.base = none →
    baseFindings root index c = [.warning (.unresolvedBase c.base) (.classAt index c.name)]
  otherKind : ∀ base, c.base ≠ "" → (load root).1.class? c.base = some base →
    base.kind ≠ c.kind → baseFindings root index c
      = [.warning (.invalidAttribute "Class" "base" c.base) (.classAt index c.name)]

theorem baseJudged_load {root : Node} {i : Nat} {c : ClassDecl}
    (hc : (load root).1.classes.items[i]? = some c) : BaseJudged root i c := by
  obtain ⟨b, hb, rfl⟩ := getElem?_items_load hc
  have hfound : (load root).1.class? b.base
      = ((ofNode root).1.class? b.base).map (ofNode root).1.resolveClass := class?_resolve _ _
  constructor
  · intro (hbase : b.base = "")
    rw [baseFindings_eq hb, baseReports, if_pos hbase]
  · intro p hp
    obtain ⟨rfl, hbase, base, hclass, hkind⟩ := parent?_resolveClass_iff.1 hp
    rw [baseFindings_eq hb, baseReports, if_neg hbase, hclass]
    exact if_pos hkind
  · intro (hbase : b.base ≠ "") hclass
    rw [baseFindings_eq hb, baseReports, if_neg hbase,
      Option.map_eq_none_iff.1 (hfound.symm.trans hclass)]
    rfl
  · intro base (hbase : b.base ≠ "") hclass hkind
    obtain ⟨found, hfound', rfl⟩ := Option.map_eq_some_iff.1 (hfound.symm.trans hclass)
    rw [baseFindings_eq hb, baseReports, if_neg hbase, hfound']
    exact if_neg hkind

/-! ### Ancestors -/

namespace Lineage

variable {c : ClassDecl} {l : List ClassDecl}

theorem getLast?_eq (h : doc.Lineage c l) : l.getLast? = some c := by
  cases h with
  | root => rfl
  | child => exact List.getLast?_concat

/-- The eldest has no parent. -/
theorem head?_eq (h : doc.Lineage c l) : ∃ eldest, l.head? = some eldest
    ∧ doc.parentOf? eldest = none := by
  induction h with
  | @root c hc => exact ⟨c, rfl, hc⟩
  | @child c p l _ _ ih =>
    obtain ⟨eldest, heldest, hnone⟩ := ih
    refine ⟨eldest, ?_, hnone⟩
    rw [List.head?_append, heldest]
    rfl

/-- Behind each class stands the one that it is the parent of. -/
theorem isChain (h : doc.Lineage c l) : l.IsChain fun p a => doc.parentOf? a = some p := by
  induction h with
  | root => exact .singleton _
  | @child c p l hp hl ih =>
    refine List.isChain_append.2 ⟨ih, .singleton _, ?_⟩
    intro a ha b hb
    rw [hl.getLast?_eq, Option.mem_some_iff] at ha
    rw [List.head?_cons, Option.mem_some_iff] at hb
    subst ha hb
    exact hp

open Relation (TransGen ReflTransGen)

theorem reflTransGen (h : doc.Lineage c l) :
    ∀ a ∈ l, ReflTransGen (fun c p => doc.parentOf? c = some p) c a := by
  induction h with
  | root =>
    intro a ha
    rw [List.mem_singleton.1 ha]
  | child hp _ ih =>
    intro a ha
    rcases List.mem_append.1 ha with ha | ha
    · exact .head hp (ih a ha)
    · rw [List.mem_singleton.1 ha]

/-- **Without a cycle the classes of a lineage are distinct**, for a class that has its own name
among its ancestors would be one of them. -/
theorem nodup_names {root : Node} (hfatal : Diagnostic.anyFatal (load root).2 = false)
    (hc : c ∈ (load root).1.classes.items) (h : (load root).1.Lineage c l) :
    (l.map ClassDecl.name).Nodup := by
  induction h with
  | root => exact List.nodup_singleton _
  | @child c p l hp hl ih =>
    have hpmem := (parentOf?_load hc hp).1
    rw [List.map_append, List.nodup_append]
    refine ⟨ih hpmem, List.nodup_singleton _, ?_⟩
    intro name hname other hother
    obtain ⟨a, ha, rfl⟩ := List.mem_map.1 hname
    rw [List.map_singleton, List.mem_singleton] at hother
    subst hother
    intro hsame
    obtain rfl : a = c :=
      (wellNamed_load root).classes.eq_of_name_eq (hl.mem_items hpmem a ha) hc hsame
    exact not_transGen_parents_self hfatal hc (.head' hp (hl.reflTransGen a ha))

end Lineage

end Document

end SchemaBinding.Schema
