import SchemaBinding.Schema.History
import SchemaBinding.Proofs.Schema.BaseCycle
import Mathlib.Data.List.Perm.Subperm

/-!
# The length of a walk

A walk looks a base up under the name by which it was added and stops at the name that the class
has now.  A class may have been given another name since, even that of another class, so the two
need not be the same.  `Walking` follows a walk base by base, and `EndsAfter` says where it stops.

* `Walking.nodup`, `Walking.stored`: with every base the name of one more stored class is met.
* `Walking.length_le`: so it meets no more names than there are classes.
* `Walking.exists_endsAfter`: a walk that is on its way ends.
* `walk_ends`: it ends once, after no more bases than there are classes.
-/

namespace SchemaBinding.Schema.Document

/-- From a class a walk has come to another by a number of bases and met some names on the way. -/
inductive Walking (doc : Document) (start : ClassDecl) : Nat → List String → ClassDecl → Prop
  | start : Walking doc start 0 [start.name] start
  | step {k : Nat} {names : List String} {c base : ClassDecl} (prior : Walking doc start k names c)
      (hbase : doc.BaseStep c base) (hnew : base.name ∉ names) :
      Walking doc start (k + 1) (names ++ [base.name]) base

/-- From a class a walk ends after a number of bases: there is no further one, or the name of the
last one was met before. -/
inductive EndsAfter (doc : Document) (start : ClassDecl) : Nat → BaseWalk → Prop
  | lost {k : Nat} {names : List String} {c : ClassDecl} (prior : Walking doc start k names c)
      (hnone : doc.class? c.base = none) : EndsAfter doc start k ⟨names, none⟩
  | back {k : Nat} {names : List String} {c base : ClassDecl} (prior : Walking doc start k names c)
      (hbase : doc.BaseStep c base) (hmet : base.name ∈ names) :
      EndsAfter doc start (k + 1) ⟨names, some base.name⟩

variable {doc : Document} {start c : ClassDecl} {k : Nat} {names : List String} {walk : BaseWalk}

namespace Walking

/-- With every base one name is met. -/
theorem length_eq (h : doc.Walking start k names c) : names.length = k + 1 := by
  induction h with
  | start => rfl
  | step _ _ _ ih => rw [List.length_append, ih, List.length_singleton]

/-- No name is met twice. -/
theorem nodup (h : doc.Walking start k names c) : names.Nodup := by
  induction h with
  | start => exact List.nodup_singleton _
  | step _ _ hnew ih =>
    rw [← List.concat_eq_append]
    exact ih.concat hnew

/-- Every name that is met is one that a stored class has now. -/
theorem stored (h : doc.Walking start k names c) (hstart : start ∈ doc.classes.items) :
    ∀ name ∈ names, ∃ d ∈ doc.classes.items, d.name = name := by
  induction h with
  | start =>
    intro name hname
    exact ⟨start, hstart, (List.mem_singleton.1 hname).symm⟩
  | @step _ _ _ base _ hbase _ ih =>
    intro name hname
    rcases List.mem_append.1 hname with hname | hname
    · exact ih name hname
    · exact ⟨base, hbase.mem, (List.mem_singleton.1 hname).symm⟩

/-- **No more names are met than there are classes.** -/
theorem length_le (h : doc.Walking start k names c) (hstart : start ∈ doc.classes.items) :
    names.length ≤ doc.classes.items.length := by
  have hsubset : names ⊆ doc.classes.items.map ClassDecl.name := by
    intro name hname
    obtain ⟨d, hd, rfl⟩ := h.stored hstart name hname
    exact List.mem_map_of_mem hd
  have hle := (h.nodup.subperm hsubset).length_le
  rwa [List.length_map] at hle

/-- What lies ahead of a walk on its way is what lay ahead of it at the start. -/
theorem baseWalk_eq (h : doc.Walking start k names c) :
    doc.baseWalk names c = doc.baseWalk [start.name] start := by
  induction h with
  | start => rfl
  | step _ hbase hnew ih => rw [← baseWalk_of_notMem hbase hnew, ih]

/-- **A walk on its way ends**, with what lies ahead of it. -/
theorem exists_endsAfter (h : doc.Walking start k names c) :
    ∃ n, doc.EndsAfter start n (doc.baseWalk names c) := by
  fun_induction baseWalk doc names c generalizing k with
  | case1 names c hnone => exact ⟨k, .lost h hnone⟩
  | case2 names c base hbase hmet => exact ⟨k + 1, .back h hbase hmet⟩
  | case3 names c base hbase hnew _ ih => exact ih (h.step hbase hnew)

end Walking

namespace EndsAfter

theorem baseWalk_eq (h : doc.EndsAfter start k walk) : walk = doc.baseWalk [start.name] start := by
  cases h with
  | lost prior hnone => rw [← prior.baseWalk_eq, baseWalk_of_none hnone]
  | back prior hbase hmet => rw [← prior.baseWalk_eq, baseWalk_of_mem hbase hmet]

/-- The number of bases is known from where a walk ends. -/
theorem eq_length (h : doc.EndsAfter start k walk) :
    k = if walk.back? = none then walk.names.length - 1 else walk.names.length := by
  cases h with
  | lost prior hnone => rw [if_pos rfl, prior.length_eq, Nat.add_sub_cancel]
  | back prior hbase hmet =>
    rw [if_neg (Option.some_ne_none _), prior.length_eq]

theorem le_length (h : doc.EndsAfter start k walk) (hstart : start ∈ doc.classes.items) :
    k ≤ doc.classes.items.length := by
  cases h with
  | lost prior hnone =>
    have hlength := prior.length_eq
    have hle := prior.length_le hstart
    omega
  | back prior hbase hmet =>
    have hlength := prior.length_eq
    have hle := prior.length_le hstart
    omega

end EndsAfter

/-- **Every walk ends after no more bases than there are classes**, whatever names the classes have
come to have.  On the way the names are pairwise distinct, and each is one that a stored class has
now.  There is one way, and the walk that looks for a cycle goes it to its end. -/
theorem walk_ends (doc : Document) {start : ClassDecl} (hstart : start ∈ doc.classes.items) :
    (∀ k names c, doc.Walking start k names c →
      names.Nodup ∧ (∀ name ∈ names, ∃ d ∈ doc.classes.items, d.name = name)
        ∧ names.length = k + 1 ∧ k < doc.classes.items.length)
    ∧ ∃ n ≤ doc.classes.items.length, ∀ k walk,
        doc.EndsAfter start k walk ↔ k = n ∧ walk = doc.baseWalk [start.name] start := by
  constructor
  · intro k names c h
    have hlength := h.length_eq
    have hle := h.length_le hstart
    exact ⟨h.nodup, h.stored hstart, hlength, by omega⟩
  · have hway : doc.Walking start 0 [start.name] start := .start
    obtain ⟨n, hn⟩ := hway.exists_endsAfter
    refine ⟨n, hn.le_length hstart, fun k walk => ⟨fun h => ?_, ?_⟩⟩
    · -- two ends are the end of one walk, and the number of bases is read off it
      have hwalk := h.baseWalk_eq
      subst hwalk
      exact ⟨h.eq_length.trans hn.eq_length.symm, rfl⟩
    · rintro ⟨rfl, rfl⟩
      exact hn

/-- An oak is a tree, a tree is a plant and a plant is a tree.  Then the tree is given the name of the
plant, under which it is not found, and the oak a name that was never added. -/
def forestSteps : List Step :=
  [.offerClass { ClassDecl.named "Tree" "Tree" with base := "Plant" },
    .offerClass { ClassDecl.named "Plant" "Plant" with base := "Tree" },
    .offerClass { ClassDecl.named "Oak" "Oak" with base := "Tree" },
    .changeClass 0 fun c => { c with name := "Plant" },
    .changeClass 2 fun c => { c with name := "Elm" }]

/-- The walk from the elm comes into a cycle that the elm is not on, and it ends there since the tree
and the plant have one name now. -/
theorem walk_ends_forestSteps :
    let doc := (empty "").after forestSteps
    let elm := { ClassDecl.named "Elm" "Oak" with base := "Tree" }
    doc.classes.names = ["Tree", "Plant", "Oak"]
    ∧ doc.classes.items.map ClassDecl.name = ["Plant", "Plant", "Elm"]
    ∧ doc.EndsAfter elm 2 ⟨["Elm", "Plant"], some "Plant"⟩
    ∧ elm ∈ doc.classes.items
    ∧ (∀ k names c, doc.Walking elm k names c →
      names.Nodup ∧ (∀ name ∈ names, ∃ d ∈ doc.classes.items, d.name = name)
        ∧ names.length = k + 1 ∧ k < doc.classes.items.length)
    ∧ ∃ n ≤ doc.classes.items.length, ∀ k walk,
        doc.EndsAfter elm k walk ↔ k = n ∧ walk = doc.baseWalk [elm.name] elm := by
  intro doc elm
  have hmem : elm ∈ doc.classes.items := by decide
  have htree : doc.BaseStep elm { ClassDecl.named "Plant" "Tree" with base := "Plant" } := by decide
  have hplant : doc.BaseStep { ClassDecl.named "Plant" "Tree" with base := "Plant" }
      { ClassDecl.named "Plant" "Plant" with base := "Tree" } := by decide
  exact ⟨by decide, by decide, .back (.step .start htree (by decide)) hplant (by decide), hmem,
    walk_ends doc hmem⟩

end SchemaBinding.Schema.Document
