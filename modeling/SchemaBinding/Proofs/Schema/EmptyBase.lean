import SchemaBinding.Proofs.Schema.BaseCycle
import SchemaBinding.Proofs.Schema.Parents
import SchemaBinding.Proofs.Schema.Slots

/-!
# Empty bases

A class with an empty base has no parent.  The search for cycles looks an empty base up like any
other, so where a class was added under the empty name, an empty base leads to it.

* `reportedPath_iff`: the paths that are reported.
* `along_namesBase_iff`: no base on a reported path is empty, unless the path meets the empty name.
* `basesAgree_iff`: parents and cycles agree about empty bases unless a class with the empty name
  leads back to itself.
* `basesAgree_ofNode`: so they agree in every document that is read from a tree.
-/

namespace SchemaBinding.Schema

open Relation (TransGen)

def Step.offers : Step → Bool
  | offerEnum _ | offerClass _ => true
  | _ => false

namespace Document

/-- The document is made by offering declarations, one after the other. -/
def Offered (doc : Document) : Prop :=
  ∃ nameSpace, ∃ steps : List Step,
    (∀ step ∈ steps, step.offers = true) ∧ doc = (empty nameSpace).after steps

/-- The base of the first class is not empty and names the second. -/
def NamesBase (doc : Document) (c d : ClassDecl) : Prop :=
  c.base ≠ "" ∧ doc.class? c.base = some d

/-- From each name on a path a relation between classes leads to the next. -/
def Along (doc : Document) (R : ClassDecl → ClassDecl → Prop) (path : List String) : Prop :=
  path.IsChain fun a b => ∃ c d, doc.class? a = some c ∧ doc.class? b = some d ∧ R c d

/-- A cycle of bases is reported with this path. -/
def ReportedPath (doc : Document) (path : List String) : Prop :=
  ∃ location, Diagnostic.error (.cyclicBase path) location ∈ doc.cycleReports

/-- An empty base is no base, neither for parents nor for cycles. -/
structure BasesAgree (doc : Document) : Prop where
  paths : ∀ path, doc.ReportedPath path → doc.Along doc.NamesBase path
  parents : ∀ c ∈ doc.resolve.1.classes.items, c.base = "" → c.parent? = none
  unreported : ∀ c ∈ doc.classes.items, c.base = "" →
    ∀ path, doc.ReportedPath path → c.name ∉ path

theorem namesKept_of_offers {steps : List Step} (h : ∀ step ∈ steps, step.offers = true)
    (doc : Document) : doc.NamesKept steps := by
  induction steps generalizing doc with
  | nil => trivial
  | cons step rest ih =>
    have hoffers : step.offers = true := h step List.mem_cons_self
    refine ⟨?_, ih (fun later hl => h later (List.mem_cons_of_mem _ hl)) _⟩
    cases step with
    | offerEnum | offerClass | resolve => trivial
    | changeEnum | changeClass | changeMember => cases hoffers

theorem Offered.wellNamed {doc : Document} (h : doc.Offered) : doc.WellNamed := by
  obtain ⟨nameSpace, steps, hoffers, rfl⟩ := h
  exact (wellNamed_empty nameSpace).after (namesKept_of_offers hoffers _)

variable {doc : Document}

/-! ### Reported paths -/

/-- The names on the way around a cycle, the first one at both ends. -/
def PlacedCycle.path (p : PlacedCycle) : List String :=
  (p.first :: (p.others ++ [p.first])).map ClassDecl.name

theorem reportedPath_iff (hd : doc.WellNamed) {path : List String} :
    doc.ReportedPath path ↔ ∃ p : PlacedCycle, p.Leads doc ∧ p.path = path := by
  obtain ⟨cycles, hlead, heq⟩ := exists_cycleReports_eq hd
  have hreport : ∀ p : PlacedCycle,
      p.report = .error (.cyclicBase p.path) (.classAt p.index p.first.name) := by
    intro p
    simp [PlacedCycle.report, PlacedCycle.path, PlacedCycle.classes]
  rw [ReportedPath, heq]
  constructor
  · rintro ⟨location, hmem⟩
    obtain ⟨p, hp, hsame⟩ := List.mem_map.1 hmem
    rw [hreport] at hsame
    refine ⟨p, ((hlead.mem_iff p).1 hp).1, ?_⟩
    exact Problem.cyclicBase.inj (congrArg Diagnostic.problem hsame)
  · rintro ⟨p, hp, rfl⟩
    refine ⟨.classAt p.index p.first.name, ?_⟩
    rw [← hreport]
    exact List.mem_map_of_mem ((hlead.mem_iff p).2 ⟨hp, Nat.zero_le _⟩)

theorem mem_path_iff {p : PlacedCycle} {name : String} :
    name ∈ p.path ↔ ∃ c ∈ p.classes, c.name = name := by
  rw [PlacedCycle.path, PlacedCycle.classes, List.mem_map]
  refine exists_congr fun c => and_congr_left fun _ => ?_
  simp only [List.mem_cons, List.mem_append, List.not_mem_nil, or_false]
  tauto

/-- A class on a cycle leads back to itself. -/
theorem BaseCycle.transGen {first c : ClassDecl} {others : List ClassDecl}
    (h : doc.BaseCycle first others) (hc : c ∈ first :: others) : TransGen doc.BaseStep c c := by
  rw [transGen_baseStep_self_iff]
  rcases List.mem_cons.1 hc with rfl | hc
  · exact ⟨others, h⟩
  · obtain ⟨before, after, rfl⟩ := List.append_of_mem hc
    exact ⟨_, h.rotate⟩

/-- **A path follows the bases of the classes that it names.** -/
theorem along_path (hd : doc.WellNamed) {p : PlacedCycle} (hp : p.Leads doc)
    {R : ClassDecl → ClassDecl → Prop}
    (hR : ∀ c ∈ p.classes, ∀ d ∈ p.classes, doc.BaseStep c d → R c d) : doc.Along R p.path := by
  have hmem : ∀ c ∈ p.first :: (p.others ++ [p.first]), c ∈ p.classes := by
    intro c hc
    rw [PlacedCycle.classes, List.mem_cons]
    simpa [or_comm, or_assoc] using hc
  rw [Along, PlacedCycle.path, List.isChain_map]
  refine hp.cycle.chain.imp_of_mem_imp fun c d hc hdm hstep => ?_
  have hfound : ∀ e ∈ p.classes, doc.class? e.name = some e := fun e he =>
    hd.classes.find?_of_mem (hp.cycle.mem_items he)
  exact ⟨c, d, hfound c (hmem c hc), hfound d (hmem d hdm), hR c (hmem c hc) d (hmem d hdm) hstep⟩

theorem empty_notMem_of_isChain {S : String → String → Prop} (hS : ∀ a b, S a b → b ≠ "") :
    ∀ (l : List String) (a : String), (a :: l).IsChain S → "" ∉ l := by
  intro l
  induction l with
  | nil => intro a _ hmem; cases hmem
  | cons b l ih =>
    intro a h hmem
    rw [List.isChain_cons_cons] at h
    rcases List.mem_cons.1 hmem with hb | hmem
    · exact hS a b h.1 hb.symm
    · exact ih b h.2 hmem

/-- **Every base on a reported path is one that parents see, unless the path meets the empty
name.** -/
theorem along_namesBase_iff (hd : doc.WellNamed) {p : PlacedCycle} (hp : p.Leads doc) :
    doc.Along doc.NamesBase p.path ↔ "" ∉ p.path := by
  constructor
  · intro h
    -- the base of the class before is the name of the class
    have hne : ∀ a b, (∃ c d, doc.class? a = some c ∧ doc.class? b = some d ∧ doc.NamesBase c d) →
        b ≠ "" := by
      rintro a b ⟨c, d, -, hb, hbase, hstep⟩
      have hname : d.name = b := (hd.classes.find?_eq_some_iff.1 hb).2
      have hsame : d.name = c.base := (hd.classes.find?_eq_some_iff.1 hstep).2
      rw [← hname, hsame]
      exact hbase
    have htail : "" ∉ (p.others ++ [p.first]).map ClassDecl.name :=
      empty_notMem_of_isChain hne _ p.first.name h
    intro hmem
    rcases List.mem_cons.1 hmem with hfirst | hmem
    · exact htail (by simp [← hfirst])
    · exact htail hmem
  · intro hempty
    refine along_path hd hp fun c _ d hdm hstep => ⟨?_, hstep⟩
    have hname : d.name = c.base := (hd.classes.find?_eq_some_iff.1 hstep).2
    intro hbase
    exact hempty (mem_path_iff.2 ⟨d, hdm, hname.trans hbase⟩)

/-- A path that meets the empty name goes through a class that has it. -/
theorem exists_transGen_of_empty_mem (hd : doc.WellNamed) {p : PlacedCycle} (hp : p.Leads doc)
    (hempty : "" ∈ p.path) :
    ∃ c, doc.class? "" = some c ∧ TransGen doc.BaseStep c c := by
  obtain ⟨c, hc, hname⟩ := mem_path_iff.1 hempty
  refine ⟨c, ?_, hp.cycle.transGen hc⟩
  rw [← hname]
  exact hd.classes.find?_of_mem (hp.cycle.mem_items hc)

/-- **Parents and cycles agree about empty bases** exactly if no class with the empty name leads
back to itself. -/
theorem basesAgree_iff (hd : doc.WellNamed) :
    doc.BasesAgree ↔ ∀ c, doc.class? "" = some c → ¬ TransGen doc.BaseStep c c := by
  constructor
  · intro h c hc hback
    obtain ⟨others, hcycle⟩ := transGen_baseStep_self_iff.1 hback
    obtain ⟨p, hp, hrot⟩ := exists_leads hcycle
    have hmem : "" ∈ p.path :=
      mem_path_iff.2 ⟨c, hrot.mem_iff.2 List.mem_cons_self, (hd.classes.find?_eq_some_iff.1 hc).2⟩
    have hreported : doc.ReportedPath p.path := (reportedPath_iff hd).2 ⟨p, hp, rfl⟩
    exact (along_namesBase_iff hd hp).1 (h.paths _ hreported) hmem
  · intro h
    constructor
    · intro path hpath
      obtain ⟨p, hp, rfl⟩ := (reportedPath_iff hd).1 hpath
      rw [along_namesBase_iff hd hp]
      intro hempty
      obtain ⟨c, hc, hback⟩ := exists_transGen_of_empty_mem hd hp hempty
      exact h c hc hback
    · intro c hc hbase
      obtain ⟨b, -, rfl⟩ := mem_items_resolve_iff.1 hc
      exact if_pos hbase
    · intro c hc hbase path hpath hmem
      obtain ⟨p, hp, rfl⟩ := (reportedPath_iff hd).1 hpath
      obtain ⟨e, he, hname⟩ := mem_path_iff.1 hmem
      obtain rfl : e = c := hd.classes.eq_of_name_eq (hp.cycle.mem_items he) hc hname
      -- the way around the cycle goes on to a class with the empty name
      obtain ⟨d, hstep, hrest⟩ := Relation.TransGen.head'_iff.1 (hp.cycle.transGen he)
      have hd' : doc.class? "" = some d := by
        rw [← hbase]
        exact hstep
      exact h d hd' (.tail' hrest hstep)

/-- Nothing that is read from a tree has the empty name, so there parents and cycles agree. -/
theorem basesAgree_ofNode (root : Node) : (ofNode root).1.BasesAgree := by
  rw [basesAgree_iff (wellNamed_ofNode root)]
  intro c hc
  obtain ⟨hmem, hempty⟩ := (wellNamed_ofNode root).classes.find?_eq_some_iff.1 hc
  rw [items_ofNode, declaredClasses] at hmem
  obtain ⟨node, -, hnode⟩ := List.mem_filterMap.1 ((firstNamed_sublist ..).subset hmem)
  obtain ⟨name, hname, rfl⟩ := Option.map_eq_some_iff.1 hnode
  exact absurd hempty (filledAttr?_eq_some_iff.1 hname).1

/-- **What an empty base is.**  A parent is named by a base that is not empty.  On the path of a
reported cycle each class is followed by the one that its base names; all these bases are such as
parents see exactly if the path does not meet the empty name.  So an empty base means no base,
in parents and in cycles, exactly if no class that was added under the empty name leads back to
itself. -/
theorem emptyBase_of_offered {doc : Document} (h : doc.Offered) :
    (∀ c ∈ doc.classes.items, ∀ p, (doc.resolveClass c).parent? = some p
      ↔ ∃ d, doc.NamesBase c d ∧ d.kind = c.kind ∧ d.name = p)
    ∧ (∀ path, doc.ReportedPath path →
        doc.Along doc.BaseStep path ∧ (doc.Along doc.NamesBase path ↔ "" ∉ path))
    ∧ (doc.BasesAgree ↔ ∀ c, doc.class? "" = some c → ¬ TransGen doc.BaseStep c c) := by
  have hd : doc.WellNamed := h.wellNamed
  refine ⟨?_, ?_, basesAgree_iff hd⟩
  · intro c _ p
    rw [parent?_resolveClass_iff]
    constructor
    · rintro ⟨rfl, hne, d, hfound, hkind⟩
      exact ⟨d, ⟨hne, hfound⟩, hkind, (hd.classes.find?_eq_some_iff.1 hfound).2⟩
    · rintro ⟨d, ⟨hne, hfound⟩, hkind, rfl⟩
      have hname : d.name = c.base := (hd.classes.find?_eq_some_iff.1 hfound).2
      rw [hname]
      exact ⟨rfl, hne, d, hfound, hkind⟩
  · intro path hpath
    obtain ⟨p, hp, rfl⟩ := (reportedPath_iff hd).1 hpath
    exact ⟨along_path hd hp fun _ _ _ _ hstep => hstep, along_namesBase_iff hd hp⟩

def namelessDocument : Document := (empty "").after [.offerClass (.named "" "")]

theorem offered_namelessDocument : namelessDocument.Offered :=
  ⟨"", [.offerClass (.named "" "")], by decide, rfl⟩

/-- The class leads back to itself by its empty base: the cycle is reported, though the class has no
parent. -/
theorem emptyBase_of_offered_namelessDocument :
    namelessDocument.Offered
    ∧ (∀ c ∈ namelessDocument.classes.items, (namelessDocument.resolveClass c).parent? = none)
    ∧ namelessDocument.ReportedPath ["", ""]
    ∧ namelessDocument.Along namelessDocument.BaseStep ["", ""]
    ∧ ¬ namelessDocument.Along namelessDocument.NamesBase ["", ""] := by
  obtain ⟨hparents, hpaths, -⟩ := emptyBase_of_offered offered_namelessDocument
  have hreported : namelessDocument.ReportedPath ["", ""] := by
    refine ⟨.classAt 0 "", ?_⟩
    decide +kernel
  obtain ⟨halong, hiff⟩ := hpaths ["", ""] hreported
  have hbases : ∀ c ∈ namelessDocument.classes.items, c.base = "" := by decide +kernel
  refine ⟨offered_namelessDocument, ?_, hreported, halong, ?_⟩
  · intro c hc
    rw [Option.eq_none_iff_forall_ne_some]
    intro p hp
    obtain ⟨d, ⟨hbase, -⟩, -⟩ := (hparents c hc p).1 hp
    exact hbase (hbases c hc)
  · rw [hiff]
    decide

/-- An empty base is a base for the search for cycles, and none for parents. -/
theorem not_basesAgree_namelessDocument :
    namelessDocument.Offered ∧ ¬ namelessDocument.BasesAgree := by
  refine ⟨offered_namelessDocument, ?_⟩
  intro h
  have hmem : ClassDecl.named "" "" ∈ namelessDocument.classes.items := by decide +kernel
  have hreported : namelessDocument.ReportedPath ["", ""] := by
    refine ⟨.classAt 0 "", ?_⟩
    decide +kernel
  exact h.unreported _ hmem rfl _ hreported List.mem_cons_self

end Document

end SchemaBinding.Schema
