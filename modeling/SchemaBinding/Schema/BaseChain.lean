import SchemaBinding.Diagnostic
import SchemaBinding.Schema.Document

/-!
# Chains of bases

From a class the bases are followed until one is not declared or a name is met again.  A class
whose chain comes back to it lies on a cycle, and each cycle is reported once, at its first class.

* `countP_not_mem_lt`: a walk ends because every step meets the name of one more stored class.
* `nodup_names_baseWalk`: the names on a walk are pairwise distinct.
-/

namespace SchemaBinding.Schema

/-- A walk along bases: the names that were met, the first one first, and the name that was met
again, if the walk ended so. -/
structure BaseWalk where
  names : List String
  back? : Option String
deriving DecidableEq, Repr

/-- A class whose name is new leaves fewer classes with a new name. -/
theorem countP_not_mem_lt {items : List ClassDecl} {names : List String} {c : ClassDecl}
    (hc : c ∈ items) (hn : c.name ∉ names) :
    items.countP (fun d => d.name ∉ names ++ [c.name])
      < items.countP (fun d => d.name ∉ names) := by
  have mono : ∀ ds : List ClassDecl, ds.countP (fun d => d.name ∉ names ++ [c.name])
      ≤ ds.countP (fun d => d.name ∉ names) := fun ds =>
    List.countP_mono_left fun d _ hd => by
      simp only [List.mem_append, not_or, decide_eq_true_eq] at hd ⊢
      exact hd.1
  induction items with
  | nil => simp at hc
  | cons d rest ih =>
    rcases List.mem_cons.1 hc with rfl | hc
    · have := mono rest
      rw [List.countP_cons_of_neg (by simp), List.countP_cons_of_pos (by simpa using hn)]
      omega
    · have := ih hc
      have hd : (if d.name ∉ names ++ [c.name] then 1 else 0)
          ≤ (if d.name ∉ names then 1 else 0 : Nat) := by
        by_cases h : d.name ∈ names <;> by_cases h' : d.name = c.name <;> simp [h, h']
      simp only [List.countP_cons, decide_eq_true_eq]
      omega

namespace Document

/-- Follows the bases of a class.  `names` holds the names met so far, that of the class last. -/
def baseWalk (doc : Document) (names : List String) (c : ClassDecl) : BaseWalk :=
  match h : doc.class? c.base with
  | none => ⟨names, none⟩
  | some base =>
    if hmem : base.name ∈ names then ⟨names, some base.name⟩
    else
      have := countP_not_mem_lt (Registry.mem_items_of_find? h) hmem
      baseWalk doc (names ++ [base.name]) base
termination_by doc.classes.items.countP fun d => d.name ∉ names
decreasing_by exact this

/-- The names on the cycle that a class lies on, its own first, if it lies on one. -/
def baseCycle? (doc : Document) (c : ClassDecl) : Option (List String) :=
  let walk := doc.baseWalk [c.name] c
  if walk.back? = some c.name then some walk.names else none

/-- The cycles that start at classes of a list, counted from `index`; a class is passed over if
its name lies on a cycle already found. -/
def baseCyclesFrom (doc : Document) (found : List String) (index : Nat) :
    List ClassDecl → List (Nat × List String)
  | [] => []
  | c :: rest =>
    if c.name ∈ found then doc.baseCyclesFrom found (index + 1) rest
    else
      match doc.baseCycle? c with
      | none => doc.baseCyclesFrom found (index + 1) rest
      | some names => (index, names) :: doc.baseCyclesFrom (names ++ found) (index + 1) rest

/-- The cycles of a document: the place of the first class and the names from there on. -/
def baseCycles (doc : Document) : List (Nat × List String) :=
  doc.baseCyclesFrom [] 0 doc.classes.items

/-- One report for each cycle, at its first class; the path names that class again at its end. -/
def cycleReports (doc : Document) : List Diagnostic :=
  doc.baseCycles.map fun (index, names) =>
    let first := names.headD ""
    .error (.cyclicBase (names ++ [first])) (.classAt index first)

/-- The names on a walk are pairwise distinct. -/
theorem nodup_names_baseWalk (doc : Document) {names : List String} (c : ClassDecl)
    (h : names.Nodup) : (doc.baseWalk names c).names.Nodup := by
  fun_induction baseWalk doc names c with
  | case1 => exact h
  | case2 => exact h
  | case3 names c base hbase hmem _ ih =>
    refine ih ?_
    rw [List.nodup_append]
    refine ⟨h, by simp, ?_⟩
    intro a ha b hb
    rw [List.mem_singleton] at hb
    rintro rfl
    exact hmem (hb ▸ ha)

end Document

end SchemaBinding.Schema
