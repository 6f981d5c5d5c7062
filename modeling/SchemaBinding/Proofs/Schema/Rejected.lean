import SchemaBinding.Proofs.Schema.Fates

/-!
# Rejected declarations

A declaration whose name is taken is left out of the document, and an error says that its name is
taken.  But it is read whole before its name is looked up, so what is wrong with it by itself is
reported too, as if it were part of the document: a class that is left out may have errors on its
members, located by the name of the declaration that is kept.

* `mapPlace_declareAll`: nodes that stand further on are reported on further on.
* `reports_eq_nil_iff`: nothing is wrong with a declaration by itself exactly if it is `Flawless`.
* `exists_rejection`: a `Rejection` is a declaration whose name is taken, with its place in a tree.
* `declareAll_rejected`: what a declaration whose name is taken adds to the reports.
* `Rejection.load_without`: what becomes of a tree without such a declaration.  Only the error on its
  name goes exactly if it is flawless.
-/

namespace SchemaBinding

def Diagnostic.unplaced : Diagnostic → Diagnostic := mapPlace fun _ => 0

theorem Diagnostic.unplaced_mapPlace (f : Nat → Nat) (d : Diagnostic) :
    (d.mapPlace f).unplaced = d.unplaced := by
  obtain ⟨severity, problem, location⟩ := d
  cases location <;> rfl

namespace Schema

/-! ### Places -/

section Place

variable (f : Nat → Nat)

namespace DeclarationSort

theorem mapPlace_location (sort : DeclarationSort) (index : Nat) (name : String) :
    (sort.location index name).mapPlace f = sort.location (f index) name := by
  cases sort <;> rfl

theorem mapPlace_reports (sort : DeclarationSort) (index : Nat) (node : Node) :
    (sort.reports index node).map (·.mapPlace f) = sort.reports (f index) node := by
  cases sort with
  | enums => exact mapPlace_enumReports f index node
  | classes => exact mapPlace_classReports f index node

/-- A declaration that stands elsewhere is reported on elsewhere. -/
theorem mapPlace_declare (sort : DeclarationSort) (doc : Document) (index : Nat) (node : Node) :
    (sort.declare doc index node).2.map (·.mapPlace f) = (sort.declare doc (f index) node).2 := by
  cases hname : node.filledAttr? "name" with
  | none =>
    rw [declare_of_nameless hname, declare_of_nameless hname, ← mapPlace_location f sort index ""]
    rfl
  | some name =>
    cases htaken : doc.hasTypeName name with
    | true =>
      rw [declare_of_taken hname htaken, declare_of_taken hname htaken, List.map_append,
        mapPlace_reports, ← mapPlace_location f sort index name]
      rfl
    | false =>
      rw [snd_declare_of_free hname htaken, snd_declare_of_free hname htaken, mapPlace_reports]

end DeclarationSort

end Place

namespace Document

/-- **Nodes that stand one place further on** are reported on one place further on. -/
theorem mapPlace_declareAll (sort : DeclarationSort) (nodes : List Node) (index : Nat)
    (doc : Document) :
    declareAll sort.declare (index + 1) doc nodes
      = ((declareAll sort.declare index doc nodes).1,
        (declareAll sort.declare index doc nodes).2.map (·.mapPlace (· + 1))) := by
  induction nodes generalizing index doc with
  | nil => rfl
  | cons node rest ih =>
    rw [declareAll, declareAll, ih, DeclarationSort.fst_declare sort doc (index + 1) index,
      List.map_append, DeclarationSort.mapPlace_declare (· + 1) sort doc index node]

end Document

/-! ### What is wrong with a declaration by itself -/

/-- Nothing is wrong with a declaration by itself.  An enum has a value with a name.  The kind and
the abstract flag of a class can be read, its methods have declarations, and its data have names and
types. -/
def DeclarationSort.Flawless : DeclarationSort → Node → Prop
  | enums, node => ∃ value ∈ node.childrenTagged "Value", textOf value "name" ≠ ""
  | classes, node =>
    (∀ word, node.filledAttr? "type" = some word → ClassKind.ofKeyword? word ≠ none)
    ∧ (∀ text, node.attr? "abstract" = some text → flagOf? text ≠ none)
    ∧ (∀ child ∈ node.childrenTagged "Method", Text.trim (textOf child "declaration") ≠ "")
    ∧ ∀ child ∈ node.childrenTagged "Data",
      textOf child "name" ≠ "" ∧ (TypeSpec.parse (textOf child "type")).base ≠ ""

section Flawless

variable {index : Nat} {node : Node} {name : String}

theorem enumReports_eq_nil_iff (hname : node.filledAttr? "name" = some name) :
    enumReports index node = [] ↔ DeclarationSort.Flawless .enums node := by
  have hvalues : enumValues node
      = ((node.childrenTagged "Value").map (textOf · "name")).filter (· ≠ "") :=
    filterMap_eq_filter (filledAttr?_eq · "name") _
  have hdeclared : EnumDecl.ofNode? node = some ⟨name, codeOf node name, enumValues node⟩ :=
    congrArg (Option.map _) hname
  rw [enumReports, hdeclared]
  dsimp only
  rw [hvalues, DeclarationSort.Flawless]
  split
  · next h => simpa [List.filter_eq_nil_iff] using h
  · next h => simpa [List.filter_eq_nil_iff] using h

theorem memberReports_eq_nil_iff {owner : String} {child : Node} :
    memberReports owner index child = []
      ↔ textOf child "name" ≠ "" ∧ (TypeSpec.parse (textOf child "type")).base ≠ "" := by
  have hmember : (Member.ofNode child).BuiltFrom child := member_builtFrom child none
  rw [← hmember.name, ← hmember.type, memberReports, List.append_eq_nil_iff]
  refine and_congr ?_ ?_ <;> · split <;> simp_all

theorem methodReports_eq_nil_iff {owner : String} {child : Node} :
    methodReports owner index child = [] ↔ Text.trim (textOf child "declaration") ≠ "" := by
  rw [methodReports, methodOf?_eq]
  by_cases h : Text.trim (textOf child "declaration") = "" <;> simp [h]

theorem kindReports_eq_nil_iff {location : Location} :
    kindReports location node = []
      ↔ ∀ word, node.filledAttr? "type" = some word → ClassKind.ofKeyword? word ≠ none := by
  unfold kindReports
  cases node.filledAttr? "type" with
  | none => simp
  | some word => cases h : ClassKind.ofKeyword? word <;> simp [h]

theorem abstractReports_eq_nil_iff {location : Location} :
    abstractReports location node = []
      ↔ ∀ text, node.attr? "abstract" = some text → flagOf? text ≠ none := by
  unfold abstractReports
  cases node.attr? "abstract" with
  | none => simp
  | some text => cases h : flagOf? text <;> simp [h]

theorem flatten_mapIdx_eq_nil_iff {reports : Nat → Node → List Diagnostic} {P : Node → Prop}
    (h : ∀ j child, reports j child = [] ↔ P child) (nodes : List Node) :
    (nodes.mapIdx reports).flatten = [] ↔ ∀ child ∈ nodes, P child := by
  rw [List.flatten_eq_nil_iff]
  constructor
  · intro hnil child hchild
    obtain ⟨j, hj⟩ := List.mem_iff_getElem?.1 hchild
    refine (h j child).1 (hnil _ (List.mem_mapIdx.2 ?_))
    obtain ⟨hlt, rfl⟩ := List.getElem?_eq_some_iff.1 hj
    exact ⟨j, hlt, rfl⟩
  · intro hall reported hreported
    obtain ⟨j, hj, rfl⟩ := List.mem_mapIdx.1 hreported
    exact (h j _).2 (hall _ (List.getElem_mem hj))

/-- **Nothing is reported on a declaration by itself exactly if it is flawless.** -/
theorem reports_eq_nil_iff (sort : DeclarationSort) (index : Nat)
    (hname : node.filledAttr? "name" = some name) :
    sort.reports index node = [] ↔ sort.Flawless node := by
  cases sort with
  | enums => exact enumReports_eq_nil_iff hname
  | classes =>
    have hmethods : ∀ nodes, (List.mapIdx (methodReports name) nodes).flatten = [] ↔ _ :=
      flatten_mapIdx_eq_nil_iff fun _ _ => methodReports_eq_nil_iff
    have hmembers : ∀ nodes, (List.mapIdx (memberReports name) nodes).flatten = [] ↔ _ :=
      flatten_mapIdx_eq_nil_iff fun _ _ => memberReports_eq_nil_iff
    show classReports index node = [] ↔ _
    unfold classReports
    rw [hname]
    dsimp only
    rw [List.append_eq_nil_iff, List.append_eq_nil_iff, List.append_eq_nil_iff,
      kindReports_eq_nil_iff, abstractReports_eq_nil_iff, hmethods, hmembers]
    simp only [DeclarationSort.Flawless, and_assoc]

end Flawless

namespace Document

/-! ### A declaration that is left out -/

/-- **What a declaration whose name is taken adds to the reports**: what is wrong with it by itself
and the error on its name, before those behind it, which stand one place further on. -/
theorem declareAll_rejected {sort : DeclarationSort} {doc : Document} {before : List Node}
    {child : Node} {name : String} (hname : child.filledAttr? "name" = some name)
    (htaken : (declareAll sort.declare 0 doc before).1.hasTypeName name = true)
    (after : List Node) :
    (declareAll sort.declare 0 doc (before ++ child :: after)).1
      = (declareAll sort.declare 0 doc (before ++ after)).1
    ∧ ∃ earlier later,
      (declareAll sort.declare 0 doc (before ++ child :: after)).2
        = earlier ++ sort.reports before.length child
          ++ .error (.duplicateType name) (sort.location before.length name)
            :: later.map (·.mapPlace (· + 1))
      ∧ (declareAll sort.declare 0 doc (before ++ after)).2 = earlier ++ later := by
  have hnode : declareAll sort.declare 0 doc (before ++ child :: after)
      = ((declareAll sort.declare before.length (declareAll sort.declare 0 doc before).1 after).1,
        (declareAll sort.declare 0 doc before).2 ++ (sort.reports before.length child
          ++ [.error (.duplicateType name) (sort.location before.length name)]
          ++ (declareAll sort.declare before.length (declareAll sort.declare 0 doc before).1
              after).2.map (·.mapPlace (· + 1)))) := by
    rw [declareAll_append, Nat.zero_add, declareAll, DeclarationSort.declare_of_taken hname htaken,
      mapPlace_declareAll]
  rw [hnode, declareAll_append, Nat.zero_add]
  exact ⟨rfl, _, _, by simp, rfl⟩

end Document

open Document

/-- The number of declarations of a sort among some children: the place of the next one. -/
def DeclarationSort.countIn (sort : DeclarationSort) (children : List Node) : Nat :=
  (children.filter (·.tag = sort.tag)).length

/-- A declaration of a tree that is left out because its name is taken. -/
structure Rejection where
  tree : Node
  sort : DeclarationSort
  before : List Node
  child : Node
  after : List Node
  name : String
  children_eq : tree.children = before ++ child :: after
  tag_eq : child.tag = sort.tag
  fate_eq : fateAt tree sort (sort.countIn before) child = .rejected name

/-- Every declaration whose name is taken is rejected somewhere among the children. -/
theorem exists_rejection {root node : Node} {sort : DeclarationSort} {place : Nat} {name : String}
    (hnode : (sort.nodes root)[place]? = some node)
    (hfate : fateAt root sort place node = .rejected name) :
    ∃ r : Rejection, r.tree = root ∧ r.sort = sort ∧ sort.countIn r.before = place
      ∧ r.child = node ∧ r.name = name := by
  obtain ⟨hplace, hget⟩ := List.getElem?_eq_some_iff.1 hnode
  have hsplit : root.children.filter (·.tag = sort.tag)
      = (sort.nodes root).take place ++ node :: (sort.nodes root).drop (place + 1) := by
    rw [← hget, ← List.drop_eq_getElem_cons hplace, List.take_append_drop]
    rfl
  obtain ⟨earlier, later, hchildren, hearlier, hlater⟩ := List.filter_eq_append_iff.1 hsplit
  obtain ⟨between, after, rfl, hbetween, htag, -⟩ := List.filter_eq_cons_iff.1 hlater
  have hcount : sort.countIn (earlier ++ between) = place := by
    have hnone : between.filter (·.tag = sort.tag) = [] := List.filter_eq_nil_iff.2 hbetween
    rw [DeclarationSort.countIn, List.filter_append, hearlier, hnone, List.append_nil,
      List.length_take, Nat.min_eq_left hplace.le]
  exact ⟨⟨root, sort, earlier ++ between, node, after, name, by rw [hchildren, List.append_assoc],
    of_decide_eq_true htag, by rw [hcount]; exact hfate⟩, rfl, rfl, hcount, rfl, rfl⟩

namespace Rejection

variable (r : Rejection)

def place : Nat := r.sort.countIn r.before

def without : Node := { r.tree with children := r.before ++ r.after }

/-- The error on the name of the declaration. -/
def duplicate : Diagnostic := .error (.duplicateType r.name) (r.sort.location r.place r.name)

theorem filledAttr?_name : r.child.filledAttr? "name" = some r.name :=
  (Fate.of_eq_rejected_iff.1 r.fate_eq).1

theorem nodes_tree :
    r.sort.nodes r.tree
      = r.before.filter (·.tag = r.sort.tag) ++ r.child :: r.after.filter (·.tag = r.sort.tag) := by
  rw [DeclarationSort.nodes, Node.childrenTagged, r.children_eq, List.filter_append,
    List.filter_cons_of_pos (by simpa using r.tag_eq)]

theorem nodes_without :
    r.sort.nodes r.without
      = r.before.filter (·.tag = r.sort.tag) ++ r.after.filter (·.tag = r.sort.tag) :=
  List.filter_append _ _

theorem nodes_without_of_ne {other : DeclarationSort} (hne : other ≠ r.sort) :
    other.nodes r.without = other.nodes r.tree := by
  have hother : r.child.tag ≠ other.tag := by
    rw [r.tag_eq]
    revert hne
    cases r.sort <;> cases other <;> decide
  exact (childrenTagged_insert r.children_eq rfl hother).symm

/-- When it is the turn of the declaration its name is taken. -/
theorem hasTypeName :
    (declareAll r.sort.declare 0 (r.sort.start r.tree)
      (r.before.filter (·.tag = r.sort.tag))).1.hasTypeName r.name = true := by
  have htaken := hasTypeName_documentAt.2 (Fate.of_eq_rejected_iff.1 r.fate_eq).2
  rwa [documentAt, nodes_tree, DeclarationSort.countIn, List.take_left' rfl] at htaken

/-- What becomes of some reports without the declaration: those on the declaration by itself and the
error on its name go, and some of those behind it are on declarations one place before. -/
def Loses (reports others : List Diagnostic) : Prop :=
  ∃ earlier later rest,
    reports = earlier ++ r.sort.reports r.place r.child
      ++ r.duplicate :: (later.map (·.mapPlace (· + 1)) ++ rest)
    ∧ others = earlier ++ later ++ rest

variable {r} in
/-- Reports in front and behind stay as they are. -/
theorem Loses.around {reports others : List Diagnostic} (h : r.Loses reports others)
    (front back : List Diagnostic) : r.Loses (front ++ reports ++ back) (front ++ others ++ back) := by
  obtain ⟨earlier, later, rest, rfl, rfl⟩ := h
  exact ⟨front ++ earlier, later, rest ++ back, by simp, by simp⟩

/-- The round of the declaration. -/
theorem round_without (start : Document) (hstart : start = r.sort.start r.tree) :
    (declareAll r.sort.declare 0 start (r.sort.nodes r.without)).1
      = (declareAll r.sort.declare 0 start (r.sort.nodes r.tree)).1
    ∧ r.Loses (declareAll r.sort.declare 0 start (r.sort.nodes r.tree)).2
      (declareAll r.sort.declare 0 start (r.sort.nodes r.without)).2 := by
  subst hstart
  obtain ⟨hfst, earlier, later, hreports, hothers⟩ :=
    declareAll_rejected r.filledAttr?_name r.hasTypeName
      (r.after.filter (·.tag = r.sort.tag))
  rw [nodes_tree, nodes_without]
  exact ⟨hfst.symm, earlier, later, [], by rw [hreports, List.append_nil]; rfl,
    by rw [hothers, List.append_nil]⟩

/-- What reading the tree comes to without the declaration. -/
theorem ofNode_without :
    (ofNode r.without).1 = (ofNode r.tree).1
    ∧ r.Loses (ofNode r.tree).2 (ofNode r.without).2 := by
  have hround := r.round_without
  have hother := @nodes_without_of_ne r
  rw [fst_ofNode_eq, fst_ofNode_eq, snd_ofNode, snd_ofNode]
  cases hsort : r.sort with
  | enums =>
    rw [hsort] at hround hother
    obtain ⟨hfst, hloses⟩ := hround (DeclarationSort.start .enums r.tree) rfl
    have hstart : DeclarationSort.start .classes r.without
        = DeclarationSort.start .classes r.tree := hfst
    have hclasses : DeclarationSort.nodes .classes r.without
        = DeclarationSort.nodes .classes r.tree := hother (by decide)
    rw [hstart, hclasses]
    exact ⟨rfl, hloses.around [] _⟩
  | classes =>
    rw [hsort] at hround hother
    have henums : DeclarationSort.nodes .enums r.without
        = DeclarationSort.nodes .enums r.tree := hother (by decide)
    have hstart : DeclarationSort.start .classes r.without
        = DeclarationSort.start .classes r.tree :=
      congrArg (fun nodes => (declareAll declareEnum 0 _ nodes).1) henums
    obtain ⟨hfst, hloses⟩ := hround (DeclarationSort.start .classes r.tree) rfl
    have hboth := hloses.around
      (declareAll (DeclarationSort.declare .enums) 0 (DeclarationSort.start .enums r.tree)
        (DeclarationSort.nodes .enums r.tree)).2 []
    rw [List.append_nil, List.append_nil] at hboth
    rw [hstart, henums, hfst]
    exact ⟨rfl, hboth⟩

/-- The declaration is skipped whole if without it only the error on its name goes, and nothing else
changes but the places of declarations. -/
def SkippedWhole : Prop :=
  ∃ earlier later, (load r.tree).2 = earlier ++ r.duplicate :: later
    ∧ (load r.without).2.map (·.unplaced) = (earlier ++ later).map (·.unplaced)

variable {r} in
theorem SkippedWhole.length (h : r.SkippedWhole) :
    (load r.tree).2.length = (load r.without).2.length + 1 := by
  obtain ⟨earlier, later, htree, hwithout⟩ := h
  have hlength := congrArg List.length hwithout
  rw [List.length_map, List.length_map, List.length_append] at hlength
  rw [htree, hlength, List.length_append, List.length_cons, Nat.add_assoc]

/-- **A tree without a declaration whose name is taken** has the same document.  Of the reports those
on the declaration by itself and the error on its name go; so only the error goes exactly if the
declaration is flawless. -/
theorem load_without :
    (load r.without).1 = (load r.tree).1
    ∧ r.Loses (load r.tree).2 (load r.without).2
    ∧ (r.SkippedWhole ↔ r.sort.Flawless r.child) := by
  obtain ⟨hdocument, hreports⟩ := r.ofNode_without
  have hloses : r.Loses (load r.tree).2 (load r.without).2 := by
    show r.Loses ((ofNode r.tree).2 ++ (ofNode r.tree).1.resolveReports)
      ((ofNode r.without).2 ++ (ofNode r.without).1.resolveReports)
    rw [hdocument]
    exact hreports.around [] _
  refine ⟨congrArg (fun doc => doc.resolve.1) hdocument, hloses, ?_⟩
  obtain ⟨earlier, later, rest, htree, hwithout⟩ := hloses
  rw [← reports_eq_nil_iff r.sort r.place r.filledAttr?_name]
  constructor
  · -- the reports on the declaration by itself would be further ones that go
    intro hskipped
    have hlength := hskipped.length
    rw [htree, hwithout] at hlength
    simp only [List.length_append, List.length_cons, List.length_map] at hlength
    exact List.eq_nil_of_length_eq_zero (by omega)
  · intro hnil
    rw [hnil, List.append_nil] at htree
    refine ⟨_, _, htree, ?_⟩
    rw [hwithout]
    simp [Diagnostic.unplaced_mapPlace]

/-- A class of a schema is left out because the one before it has the same name.  Its data has no
name. -/
def heroRejection : Rejection where
  tree :=
    ⟨"Schema", [],
      [⟨"Class", [("name", "Hero")], []⟩,
        ⟨"Class", [("name", "Hero")], [⟨"Data", [("type", "int")], []⟩]⟩]⟩
  sort := .classes
  before := [⟨"Class", [("name", "Hero")], []⟩]
  child := ⟨"Class", [("name", "Hero")], [⟨"Data", [("type", "int")], []⟩]⟩
  after := []
  name := "Hero"
  children_eq := rfl
  tag_eq := rfl
  fate_eq := by decide

theorem load_without_heroRejection :
    heroRejection.place = 1
    ∧ (load heroRejection.without).1 = (load heroRejection.tree).1
    ∧ heroRejection.Loses (load heroRejection.tree).2 (load heroRejection.without).2
    ∧ (heroRejection.SkippedWhole ↔ DeclarationSort.Flawless .classes heroRejection.child) :=
  ⟨by decide, heroRejection.load_without⟩

/-- An error on the data of the class that is left out is reported as one on the class that is kept,
which has no data. -/
theorem not_skippedWhole_heroRejection :
    (load heroRejection.tree).2
      = [.error (.missingAttribute "Data" "name") (.member "Hero" 0 ""), heroRejection.duplicate]
    ∧ (load heroRejection.without).2 = []
    ∧ ¬ heroRejection.SkippedWhole := by
  have htree : (load heroRejection.tree).2
      = [.error (.missingAttribute "Data" "name") (.member "Hero" 0 ""),
        heroRejection.duplicate] := by
    decide +kernel
  have hwithout : (load heroRejection.without).2 = [] := by decide +kernel
  refine ⟨htree, hwithout, fun hskipped => ?_⟩
  have hlength := hskipped.length
  rw [htree, hwithout] at hlength
  exact absurd hlength (by decide)

end Rejection

end Schema

end SchemaBinding
