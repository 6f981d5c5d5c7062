import SchemaBinding.Proofs.Schema.Prune
import SchemaBinding.Proofs.Schema.Reports

/-!
# Reports on trees without bad declarations

A problem is a loss if something is left out of generated code because of it.  What costs something
is not there any more when a tree has been shed.

* `not_loss_of_mem_load_shed`: no report on a tree that has been shed is a loss.
-/

namespace SchemaBinding

/-- Whether something is left out of generated code because of a problem. -/
def Problem.isLoss : Problem → Bool
  | missingAttribute _ _ | duplicateType _ | unresolvedReference _ _ | unknownType _ _ => true
  | _ => false

namespace Schema

/-! ### What is left of a tree -/

theorem exists_of_mem_shedFrom {keep : List Node → Node → Option Node} {before rest : List Node}
    {left : Node} (h : left ∈ shedFrom keep before rest) :
    ∃ before', ∃ child ∈ rest, keep before' child = some left := by
  induction rest generalizing before with
  | nil => cases h
  | cons child rest ih =>
    rcases List.mem_append.1 h with h | h
    · exact ⟨before, child, List.mem_cons_self, Option.mem_toList.1 h⟩
    · obtain ⟨before', other, hmem, hkeep⟩ := ih h
      exact ⟨before', other, List.mem_cons_of_mem _ hmem, hkeep⟩

theorem methodOf?_ne_none_of_mem_shedBody {members : List Member} {children : List Node}
    {child : Node} (h : child ∈ shedBody members children) (ht : child.tag = "Method") :
    methodOf? child ≠ none := by
  induction children generalizing members with
  | nil => cases h
  | cons other rest ih =>
    unfold shedBody at h
    split at h
    · next hdata =>
      rcases List.mem_append.1 h with h | h
      · split at h
        · rw [List.mem_singleton.1 h, hdata] at ht
          exact absurd ht (by decide)
        · cases h
      · exact ih h
    · split at h
      · exact ih h
      · next hmethod =>
        rcases List.mem_cons.1 h with rfl | h
        · exact fun hnone => hmethod ⟨ht, methodOf?_eq_none_iff.1 hnone⟩
        · exact ih h

theorem ofNode?_ne_none_of_mem_enums_shed {root node : Node}
    (h : node ∈ (shed root).childrenTagged "Enum") : EnumDecl.ofNode? node ≠ none := by
  obtain ⟨hmem, ht⟩ := List.mem_filter.1 h
  obtain ⟨before, child, -, hkeep⟩ := exists_of_mem_shedFrom hmem
  have htag : child.tag = "Enum" := (tag_of_mem_shedChild hkeep).symm.trans (of_decide_eq_true ht)
  rcases shedChild_cases hkeep with ⟨-, hname, rfl⟩ | ⟨hclass, -⟩ | ⟨hne, -⟩
  · rw [ofNode?_shedEnum]
    rw [← map_name_enum] at hname
    exact fun hnone => hname (by rw [hnone]; rfl)
  · rw [htag] at hclass
    exact absurd hclass (by decide)
  · exact absurd htag hne

theorem ofNode?_ne_none_of_mem_classes_shed {root node : Node}
    (h : node ∈ (shed root).childrenTagged "Class") :
    ClassDecl.ofNode? node ≠ none
      ∧ ∀ child ∈ node.childrenTagged "Method", methodOf? child ≠ none := by
  obtain ⟨hmem, ht⟩ := List.mem_filter.1 h
  obtain ⟨before, child, -, hkeep⟩ := exists_of_mem_shedFrom hmem
  have htag : child.tag = "Class" := (tag_of_mem_shedChild hkeep).symm.trans (of_decide_eq_true ht)
  rcases shedChild_cases hkeep with ⟨henum, -⟩ | ⟨-, hname, rfl⟩ | ⟨-, hne, -⟩
  · rw [htag] at henum
    exact absurd henum (by decide)
  · constructor
    · have hleft : (shedClass (Document.load root).1 child).filledAttr? "name" ≠ none := hname
      rw [← map_name_class] at hleft
      exact fun hnone => hleft (by rw [hnone]; rfl)
    · intro method hmethod
      obtain ⟨hmem, ht⟩ := List.mem_filter.1 hmethod
      exact methodOf?_ne_none_of_mem_shedBody hmem (of_decide_eq_true ht)
  · exact absurd htag hne

namespace Document

/-! ### Members that are emitted -/

theorem complete_of_emits {doc : Document} {kind : ClassKind} {m : Member}
    (h : doc.emits kind m = true) :
    m.name ≠ "" ∧ m.type.base ≠ "" ∧ doc.resolution? kind m ≠ none := by
  rw [emits, Member.emitted?] at h
  split at h
  · cases h
  · have hresolution : doc.resolution? kind m ≠ none := Option.isSome_iff_ne_none.1 h
    have hcomplete : m.isComplete = true := by
      by_contra hno
      exact hresolution (if_neg hno)
    rw [Member.isComplete, Bool.and_eq_true, decide_eq_true_eq, decide_eq_true_eq] at hcomplete
    exact ⟨hcomplete.1, hcomplete.2, hresolution⟩

theorem emits_of_mem_pruneClass {doc : Document} {c : ClassDecl} {m : Member}
    (h : m ∈ (doc.pruneClass c).members) : doc.emits c.kind m = true :=
  (List.mem_filter.1 h).2

theorem complete_of_mem_data_shed {root node child : Node}
    (hnode : node ∈ (shed root).childrenTagged "Class")
    (hchild : child ∈ node.childrenTagged "Data") :
    (Member.ofNode child).name ≠ "" ∧ (Member.ofNode child).type.base ≠ "" := by
  obtain ⟨c, hc⟩ := Option.ne_none_iff_exists'.1 (ofNode?_ne_none_of_mem_classes_shed hnode).1
  have hmem : c ∈ (declaredClasses root).map (ofNode root).1.pruneClass := by
    rw [← classes_shed]
    exact List.mem_filterMap.2 ⟨node, hnode, hc⟩
  obtain ⟨d, -, rfl⟩ := List.mem_map.1 hmem
  have hmember : Member.ofNode child ∈ ((ofNode root).1.pruneClass d).members := by
    obtain ⟨name, -, heq⟩ := Option.map_eq_some_iff.1 hc
    rw [← heq]
    exact List.mem_map_of_mem hchild
  have hcomplete := complete_of_emits (emits_of_mem_pruneClass hmember)
  exact ⟨hcomplete.1, hcomplete.2.1⟩

theorem not_loss_of_mem_classReports {root node : Node} {index : Nat} {d : Diagnostic}
    (hnode : node ∈ (shed root).childrenTagged "Class") (hd : d ∈ classReports index node) :
    d.problem.isLoss = false := by
  obtain ⟨hname, hmethods⟩ := ofNode?_ne_none_of_mem_classes_shed hnode
  rcases mem_classReports_iff.1 hd with ⟨hnone, -⟩ | ⟨name, -, hd | hd | hd | hd⟩
  · rw [← map_name_class, Option.map_eq_none_iff] at hnone
    exact absurd hnone hname
  · obtain ⟨word, -, -, rfl⟩ := mem_kindReports_iff.1 hd
    rfl
  · obtain ⟨text, -, -, rfl⟩ := mem_abstractReports_iff.1 hd
    rfl
  · obtain ⟨j, child, hchild, hd⟩ := hd
    exact absurd (mem_methodReports_iff.1 hd).1 (hmethods child (List.mem_of_getElem? hchild))
  · obtain ⟨j, child, hchild, hd⟩ := hd
    have hcomplete := complete_of_mem_data_shed hnode (List.mem_of_getElem? hchild)
    rcases mem_memberReports_iff.1 hd with ⟨hempty, -⟩ | ⟨hempty, -⟩
    · exact absurd hempty hcomplete.1
    · exact absurd hempty hcomplete.2

theorem not_loss_of_mem_enumReports {root node : Node} {index : Nat} {d : Diagnostic}
    (hnode : node ∈ (shed root).childrenTagged "Enum") (hd : d ∈ enumReports index node) :
    d.problem.isLoss = false := by
  rcases mem_enumReports_iff.1 hd with ⟨hnone, -⟩ | ⟨e, -, -, rfl⟩
  · exact absurd hnone (ofNode?_ne_none_of_mem_enums_shed hnode)
  · rfl

theorem not_loss_of_mem_ofNode_shed {root : Node} {d : Diagnostic}
    (hd : d ∈ (ofNode (shed root)).2) : d.problem.isLoss = false := by
  rw [snd_ofNode_of_nodup (nodup_givenNames_shed root), List.mem_append, mem_flatten_mapIdx_iff,
    mem_flatten_mapIdx_iff] at hd
  rcases hd with ⟨j, node, hnode, hd⟩ | ⟨j, node, hnode, hd⟩
  · exact not_loss_of_mem_enumReports (List.mem_of_getElem? hnode) hd
  · exact not_loss_of_mem_classReports (List.mem_of_getElem? hnode) hd

/-! ### Resolution -/

theorem not_loss_of_mem_resolveReports_prune {doc : Document} {d : Diagnostic}
    (hd : d ∈ doc.prune.resolveReports) : d.problem.isLoss = false := by
  rcases mem_resolveReports_iff.1 hd with hd | ⟨j, c, -, hd⟩ | ⟨c, hc, j, m, hm, hd⟩
  · obtain ⟨p, -, rfl⟩ := List.mem_map.1 hd
    rfl
  · obtain ⟨-, ⟨-, rfl⟩ | ⟨base, -, -, rfl⟩⟩ := mem_baseReports_iff.1 hd <;> rfl
  · obtain ⟨hcomplete, ⟨hnone, -⟩ | ⟨e, -, -, -, -, rfl⟩⟩ := mem_typeReports_iff.1 hd
    · rw [prune, items_mapClasses] at hc
      obtain ⟨b, -, rfl⟩ := List.mem_map.1 hc
      have hemits := emits_of_mem_pruneClass (List.mem_of_getElem? hm)
      refine absurd ?_ (complete_of_emits hemits).2.2
      rw [← resolution?_prune, resolution?, hnone]
      simp
    · rfl

/-- **Nothing is left out of a tree that has been shed.** -/
theorem not_loss_of_mem_load_shed {root : Node} {d : Diagnostic} (hd : d ∈ (load (shed root)).2) :
    d.problem.isLoss = false := by
  rcases List.mem_append.1 hd with hd | hd
  · exact not_loss_of_mem_ofNode_shed hd
  · have hprune : d ∈ (ofNode (shed root)).1.resolveReports := hd
    rw [fst_ofNode_shed] at hprune
    exact not_loss_of_mem_resolveReports_prune hprune

end Document

end Schema

end SchemaBinding
