import SchemaBinding.Proofs.Schema.Parents

/-!
# Errors on members

What is wrong with a member is said in two passes: that its name or its type is missing when a tree
is read, and that its type names nothing when the document is resolved.  The second pass passes over
the members that the first has spoken of, so a member that is left out of generated code has an
error of its own, and only if both its name and its type are missing it has two.

* `exists_node_of_mem_items`: a registered class stands for a class of the tree, member by member.
* `filter_snd_ofNode`, `filter_resolveReports`: what each of the passes says about one member.
* `memberErrors_eq`: the errors on a member are what is said of its node and then of its type.
* `emitted?_ne_none_iff`: which members take part in generated code.
* `memberErrors_load`: a member takes part in generated code exactly if there is no error on it.
-/

namespace SchemaBinding

/-- The diagnostic is an error on the member at a place of a class. -/
def Diagnostic.isMemberError (owner : String) (index : Nat) (d : Diagnostic) : Bool :=
  d.isError &&
    match d.location with
    | .member o i _ => o = owner && i = index
    | _ => false

theorem Diagnostic.isMemberError_iff {owner : String} {index : Nat} {d : Diagnostic} :
    d.isMemberError owner index = true
      ↔ d.severity = .error ∧ ∃ name, d.location = .member owner index name := by
  obtain ⟨severity, problem, location⟩ := d
  cases location <;> simp [isMemberError, isError]

theorem Diagnostic.isMemberError_eq_false {owner : String} {index : Nat} {d : Diagnostic}
    (h : ∀ name, d.location ≠ .member owner index name) : d.isMemberError owner index = false := by
  rw [← Bool.not_eq_true, isMemberError_iff]
  rintro ⟨-, name, hname⟩
  exact h name hname

namespace Schema

open Diagnostic (isMemberError isMemberError_iff isMemberError_eq_false)

theorem filter_eq_nil_of_location {ds : List Diagnostic} {owner : String} {index : Nat}
    (h : ∀ d ∈ ds, ∀ name, d.location ≠ .member owner index name) :
    ds.filter (isMemberError owner index) = [] := by
  rw [List.filter_eq_nil_iff]
  intro d hd
  rw [isMemberError_eq_false (h d hd)]
  exact Bool.false_ne_true

/-! ### When a tree is read -/

section Reading

variable {doc : Document} {owner : String} {index place : Nat} {node data : Node}

theorem filter_memberReports :
    (memberReports owner index data).filter (isMemberError owner index)
      = memberReports owner index data := by
  rw [List.filter_eq_self]
  intro d hd
  rcases mem_memberReports_iff.1 hd with ⟨-, rfl⟩ | ⟨-, rfl⟩
  · exact isMemberError_iff.2 ⟨rfl, _, rfl⟩
  · exact isMemberError_iff.2 ⟨rfl, _, rfl⟩

/-- Of what is said about a class, that about one member is found. -/
theorem filter_classReports (hname : node.filledAttr? "name" = some owner)
    (hdata : (node.childrenTagged "Data")[index]? = some data) :
    (classReports place node).filter (isMemberError owner index)
      = memberReports owner index data := by
  have hkind : (kindReports (.classAt place owner) node).filter (isMemberError owner index) = [] :=
    filter_eq_nil_of_location fun d hd => by
      obtain ⟨word, -, -, rfl⟩ := mem_kindReports_iff.1 hd
      exact nofun
  have habstract :
      (abstractReports (.classAt place owner) node).filter (isMemberError owner index) = [] :=
    filter_eq_nil_of_location fun d hd => by
      obtain ⟨text, -, -, rfl⟩ := mem_abstractReports_iff.1 hd
      exact nofun
  have hmethods : ((node.childrenTagged "Method").mapIdx (methodReports owner)).flatten.filter
      (isMemberError owner index) = [] :=
    filter_eq_nil_of_location fun d hd => by
      obtain ⟨j, child, -, hd⟩ := mem_flatten_mapIdx_iff.1 hd
      obtain ⟨-, rfl⟩ := mem_methodReports_iff.1 hd
      exact nofun
  have hother : ∀ j b, (node.childrenTagged "Data")[j]? = some b → j ≠ index →
      ∀ d ∈ memberReports owner j b, isMemberError owner index d = false := by
    intro j b _ hne d hd
    refine isMemberError_eq_false fun name hlocation => ?_
    rcases mem_memberReports_iff.1 hd with ⟨-, rfl⟩ | ⟨-, rfl⟩
    · exact hne (Location.member.inj hlocation).2.1
    · exact hne (Location.member.inj hlocation).2.1
  unfold classReports
  rw [hname]
  simp only [List.filter_append]
  rw [hkind, habstract, hmethods, filter_flatten_mapIdx hdata hother, filter_memberReports,
    List.nil_append, List.nil_append, List.nil_append]

namespace Document

/-- That the name of a class is taken is not said about its members. -/
theorem filter_declareClass :
    (doc.declareClass place node).2.filter (isMemberError owner index)
      = (classReports place node).filter (isMemberError owner index) := by
  unfold declareClass
  cases ClassDecl.ofNode? node with
  | none => rfl
  | some c =>
    have hduplicate : ([.error (.duplicateType c.name) (.classAt place c.name)] :
        List Diagnostic).filter (isMemberError owner index) = [] :=
      filter_eq_nil_of_location fun d hd => by
        rw [List.mem_singleton.1 hd]
        exact nofun
    cases h : doc.addClass? c with
    | none =>
      simp only [h, List.filter_append]
      rw [hduplicate, List.append_nil]
    | some extended => simp only [h]

/-- **What reading a tree says about a member** is what it says about the node of the member, for no
other class has the name of its owner. -/
theorem filter_snd_ofNode {root : Node}
    (hnames : ((root.childrenTagged "Class").filterMap (·.filledAttr? "name")).Nodup)
    (hnode : (root.childrenTagged "Class")[place]? = some node)
    (hname : node.filledAttr? "name" = some owner)
    (hdata : (node.childrenTagged "Data")[index]? = some data) :
    (ofNode root).2.filter (isMemberError owner index) = memberReports owner index data := by
  have henums : (ofEnums root).2.filter (isMemberError owner index) = [] :=
    filter_eq_nil_of_location fun d hd => by
      obtain ⟨j, other, -, hd⟩ := exists_of_mem_declareAll hd
      rw [location_of_mem_declareEnum hd]
      exact nofun
  have hother : ∀ j b, (root.childrenTagged "Class")[j]? = some b → j ≠ place →
      ∀ d ∈ ((declareAll declareClass 0 (ofEnums root).1
          ((root.childrenTagged "Class").take j)).1.declareClass (0 + j) b).2,
        isMemberError owner index d = false := by
    intro j b hb hne d hd
    refine isMemberError_eq_false fun name hlocation => ?_
    rcases location_of_mem_declareClass hd with h | ⟨given, hgiven, ⟨k, h⟩ | ⟨k, m, h⟩⟩
    · exact nomatch h.symm.trans hlocation
    · exact nomatch h.symm.trans hlocation
    · -- the other class would have the same name
      obtain ⟨rfl, -, -⟩ := Location.member.inj (h.symm.trans hlocation)
      exact hne (eq_of_nodup_filterMap hnames hb hnode hgiven hname)
  show ((ofEnums root).2 ++ (declareAll declareClass 0 (ofEnums root).1
    (root.childrenTagged "Class")).2).filter _ = _
  rw [List.filter_append, henums, List.nil_append, snd_declareAll,
    filter_flatten_mapIdx hnode hother, filter_declareClass, filter_classReports hname hdata]

end Document

end Reading

/-! ### When a document is resolved -/

namespace Document

/-- The error on the type of the member at a place, if the type names nothing. -/
def typeErrors (doc : Document) (owner : String) (index : Nat) (m : Member) : List Diagnostic :=
  if m.isComplete = true ∧ doc.target? m.type = none then
    [.error (missingTarget m) (.member owner index m.name)]
  else []

section Resolving

variable {doc : Document} {index : Nat} {m : Member}

theorem filter_typeReports {owner : String} :
    (doc.typeReports owner index m).filter (isMemberError owner index)
      = doc.typeErrors owner index m := by
  unfold typeErrors
  split
  · next h =>
    -- the error is all that is said
    simp only [typeReports, h.1, h.2, if_true]
    refine List.filter_eq_self.2 fun d hd => ?_
    rw [List.mem_singleton.1 hd]
    exact isMemberError_iff.2 ⟨rfl, _, rfl⟩
  · next h =>
    rw [List.filter_eq_nil_iff]
    intro d hd
    rw [isMemberError_iff]
    rintro ⟨herror, -⟩
    obtain ⟨hcomplete, ⟨hnone, -⟩ | ⟨e, -, -, -, -, rfl⟩⟩ := mem_typeReports_iff.1 hd
    · exact h ⟨hcomplete, hnone⟩
    · cases herror

/-- **What resolution says about a member** is what it says about its type, for no other class has
the name of its owner. -/
theorem filter_resolveReports (hd : doc.WellNamed) {c : ClassDecl} (hc : c ∈ doc.classes.items)
    (hm : c.members[index]? = some m) :
    doc.resolveReports.filter (isMemberError c.name index) = doc.typeErrors c.name index m := by
  have hcycles : doc.cycleReports.filter (isMemberError c.name index) = [] :=
    filter_eq_nil_of_location fun d hd => by
      obtain ⟨cycle, -, rfl⟩ := List.mem_map.1 hd
      exact nofun
  have hbases : (doc.classes.items.mapIdx doc.baseReports).flatten.filter
      (isMemberError c.name index) = [] :=
    filter_eq_nil_of_location fun d hd => by
      obtain ⟨j, b, -, hd⟩ := mem_flatten_mapIdx_iff.1 hd
      rw [(of_mem_baseReports hd).2]
      exact nofun
  have hclasses : (doc.classes.items.flatMap fun b =>
        (b.members.mapIdx (doc.typeReports b.name)).flatten)
      = (doc.classes.items.mapIdx fun _ b =>
        (b.members.mapIdx (doc.typeReports b.name)).flatten).flatten := by
    rw [List.flatMap_def]
    exact congrArg List.flatten (List.ext_getElem? fun j => by simp)
  obtain ⟨place, hplace⟩ := List.mem_iff_getElem?.1 hc
  have hothers : ∀ j b, doc.classes.items[j]? = some b → j ≠ place →
      ∀ d ∈ (b.members.mapIdx (doc.typeReports b.name)).flatten,
        isMemberError c.name index d = false := by
    intro j b hb hne d hmem
    refine isMemberError_eq_false fun name hlocation => ?_
    obtain ⟨k, other, -, hmem⟩ := mem_flatten_mapIdx_iff.1 hmem
    have hname : b.name = c.name :=
      (Location.member.inj ((location_of_mem_typeReports hmem).symm.trans hlocation)).1
    obtain rfl := hd.classes.eq_of_name_eq (List.mem_of_getElem? hb) hc hname
    have hbound : j < doc.classes.items.length := (List.getElem?_eq_some_iff.1 hb).1
    exact hne ((List.getElem?_inj hbound hd.classes.nodup_items).1 (hb.trans hplace.symm))
  have hother : ∀ j b, c.members[j]? = some b → j ≠ index →
      ∀ d ∈ doc.typeReports c.name j b, isMemberError c.name index d = false := by
    intro j b _ hne d hmem
    refine isMemberError_eq_false fun name hlocation => hne ?_
    exact (Location.member.inj ((location_of_mem_typeReports hmem).symm.trans hlocation)).2.1
  rw [resolveReports, List.filter_append, List.filter_append, hcycles, hbases, hclasses,
    filter_flatten_mapIdx hplace hothers, filter_flatten_mapIdx hm hother, filter_typeReports,
    List.nil_append, List.nil_append]

end Resolving

/-! ### Members that take part in generated code -/

theorem codeOf_ne_empty {node : Node} {name : String} (h : name ≠ "") : codeOf node name ≠ "" := by
  unfold codeOf
  cases hcode : node.filledAttr? "code" with
  | none => exact h
  | some code => exact (filledAttr?_eq_some_iff.1 hcode).1

/-- A member takes part in generated code if it has a name and a type, and the type names
something. -/
theorem emitted?_ne_none_iff (doc : Document) (kind : ClassKind) {m : Member}
    (hcode : m.name ≠ "" → m.generatedName ≠ "") :
    Member.emitted? { m with resolution? := doc.resolution? kind m } ≠ none
      ↔ m.isComplete = true ∧ doc.target? m.type ≠ none := by
  by_cases hname : m.name = ""
  · have hmissing : ¬ m.isComplete = true := fun h => (Member.isComplete_iff.1 h).1 hname
    rw [Member.emitted?, if_pos (Or.inl hname)]
    exact iff_of_false (fun h => h rfl) fun h => hmissing h.1
  · rw [Member.emitted?, if_neg (not_or.2 ⟨hname, hcode hname⟩)]
    show doc.resolution? kind m ≠ none ↔ _
    rw [resolution?]
    split
    · next hcomplete => rw [Ne, Option.map_eq_none_iff, and_iff_right hcomplete]
    · next hmissing => exact iff_of_false (fun h => h rfl) fun h => hmissing h.1

/-- There is no error on a member exactly if it has a name and a type, and the type names
something; and there are two errors only if it has neither a name nor a type. -/
theorem length_errors (doc : Document) (owner : String) (index : Nat) (data : Node) :
    (memberReports owner index data
        ++ doc.typeErrors owner index (Member.ofNode data)).length
      = if (Member.ofNode data).isComplete = true ∧ doc.target? (Member.ofNode data).type ≠ none
        then 0
        else if (Member.ofNode data).name = "" ∧ (Member.ofNode data).type.base = "" then 2
        else 1 := by
  simp only [memberReports, typeErrors, Member.isComplete_iff]
  by_cases hname : (Member.ofNode data).name = ""
  · by_cases hbase : (Member.ofNode data).type.base = "" <;> simp [hname, hbase]
  · by_cases hbase : (Member.ofNode data).type.base = ""
    · simp [hname, hbase]
    · cases htarget : doc.target? (Member.ofNode data).type <;> simp [hname, hbase]

/-! ### The members of a tree -/

def memberErrors (root : Node) (owner : String) (index : Nat) : List Diagnostic :=
  (load root).2.filter (isMemberError owner index)

variable {root : Node}

/-- A registered class stands for a class of the tree. -/
theorem exists_node_of_mem_items {c : ClassDecl} (hc : c ∈ (ofNode root).1.classes.items) :
    ∃ (place : Nat) (node : Node), (root.childrenTagged "Class")[place]? = some node
      ∧ ClassDecl.ofNode? node = some c := by
  rw [items_ofNode] at hc
  obtain ⟨node, hnode, hdeclared⟩ :=
    List.mem_filterMap.1 ((firstNamed_sublist _ _ _).subset hc)
  obtain ⟨place, hplace⟩ := List.mem_iff_getElem?.1 hnode
  exact ⟨place, node, hplace, hdeclared⟩

/-- **The errors on a member** are what is said of its node and then of its type. -/
theorem memberErrors_eq
    (hnames : ((root.childrenTagged "Class").filterMap (·.filledAttr? "name")).Nodup)
    {place : Nat} {node : Node} (hnode : (root.childrenTagged "Class")[place]? = some node)
    {c : ClassDecl} (hdeclared : ClassDecl.ofNode? node = some c)
    (hc : c ∈ (ofNode root).1.classes.items) {index : Nat} {data : Node}
    (hdata : (node.childrenTagged "Data")[index]? = some data) :
    memberErrors root c.name index
      = memberReports c.name index data
        ++ (ofNode root).1.typeErrors c.name index (Member.ofNode data) := by
  obtain ⟨name, hname, rfl⟩ := Option.map_eq_some_iff.1 hdeclared
  have hm : ((node.childrenTagged "Data").map Member.ofNode)[index]?
      = some (Member.ofNode data) := by
    rw [List.getElem?_map, hdata, Option.map_some]
  show ((ofNode root).2 ++ (ofNode root).1.resolveReports).filter _ = _
  rw [List.filter_append, filter_snd_ofNode hnames hnode hname hdata,
    filter_resolveReports (wellNamed_ofNode root) hc hm]

/-- **A member takes part in generated code exactly if there is no error on it.**  There is one
error on a member that does not, or two if both its name and its type are missing. -/
theorem memberErrors_load
    (hnames : ((root.childrenTagged "Class").filterMap (·.filledAttr? "name")).Nodup)
    {c : ClassDecl} (hc : c ∈ (load root).1.classes.items) :
    ∃ node ∈ root.childrenTagged "Class", node.filledAttr? "name" = some c.name
      ∧ c.members.length = (node.childrenTagged "Data").length
      ∧ ∀ (index : Nat) (data : Node), (node.childrenTagged "Data")[index]? = some data →
        ∃ m, c.members[index]? = some m ∧ { m with resolution? := none } = Member.ofNode data
          ∧ (m.emitted? ≠ none ↔ memberErrors root c.name index = [])
          ∧ (m.emitted? = none → (memberErrors root c.name index).length
            = if m.name = "" ∧ m.type.base = "" then 2 else 1) := by
  obtain ⟨b, hb, rfl⟩ := mem_items_resolve_iff.1 hc
  obtain ⟨place, node, hplace, hdeclared⟩ := exists_node_of_mem_items hb
  obtain ⟨name, hname, rfl⟩ := Option.map_eq_some_iff.1 hdeclared
  refine ⟨node, List.mem_of_getElem? hplace, hname, by simp [resolveClass], ?_⟩
  intro index data hdata
  have hlength : (memberErrors root name index).length = _ :=
    (congrArg List.length (memberErrors_eq hnames hplace hdeclared hb hdata)).trans
      (length_errors _ _ _ _)
  have hemitted := emitted?_ne_none_iff (ofNode root).1 (kindOf node) (m := Member.ofNode data)
    codeOf_ne_empty
  refine ⟨{ Member.ofNode data with
    resolution? := (ofNode root).1.resolution? (kindOf node) (Member.ofNode data) }, ?_, rfl, ?_, ?_⟩
  · simp [resolveClass, hdata]
  · show _ ↔ memberErrors root name index = []
    rw [hemitted, ← List.length_eq_zero_iff, hlength]
    split
    · next h => exact iff_of_true h rfl
    · next h => exact iff_of_false h (by split <;> decide)
  · intro hnone
    show (memberErrors root name index).length = _
    rw [hlength, if_neg (mt hemitted.2 (not_not.2 hnone))]

/-- A schema of a shelf.  Of its data one has neither a name nor a type, one has no name, one links
to an enum and one is fine.  Another class has the name of the enum, and one has none. -/
def shelfSchema : Node :=
  ⟨"Schema", [],
    [⟨"Enum", [("name", "Color")], []⟩,
      ⟨"Class", [("name", "Color")], [⟨"Data", [], []⟩]⟩,
      ⟨"Class", [], [⟨"Data", [("name", "width"), ("type", "inch")], []⟩]⟩,
      ⟨"Class", [("name", "Shelf")],
        [⟨"Data", [("type", "array:")], []⟩,
          ⟨"Data", [("type", "int")], []⟩,
          ⟨"Data", [("name", "paint"), ("type", "reference:Color")], []⟩,
          ⟨"Data", [("name", "width"), ("type", "int")], []⟩]⟩]⟩

theorem memberErrors_load_shelfSchema :
    ((shelfSchema.childrenTagged "Class").filterMap (·.filledAttr? "name")).Nodup
    ∧ ∃ c ∈ (load shelfSchema).1.classes.items,
      c.members.map (fun m => m.emitted?.isSome) = [false, false, false, true]
      ∧ ∃ node ∈ shelfSchema.childrenTagged "Class", node.filledAttr? "name" = some c.name
        ∧ c.members.length = (node.childrenTagged "Data").length
        ∧ ∀ (index : Nat) (data : Node), (node.childrenTagged "Data")[index]? = some data →
          ∃ m, c.members[index]? = some m ∧ { m with resolution? := none } = Member.ofNode data
            ∧ (m.emitted? ≠ none ↔ memberErrors shelfSchema c.name index = [])
            ∧ (m.emitted? = none → (memberErrors shelfSchema c.name index).length
              = if m.name = "" ∧ m.type.base = "" then 2 else 1) := by
  have hnames : ((shelfSchema.childrenTagged "Class").filterMap (·.filledAttr? "name")).Nodup := by
    decide +kernel
  obtain ⟨c, hc, hmembers⟩ : ∃ c ∈ (load shelfSchema).1.classes.items,
      c.members.map (fun m => m.emitted?.isSome) = [false, false, false, true] := by
    decide +kernel
  exact ⟨hnames, c, hc, hmembers, memberErrors_load hnames hc⟩

end Document

end Schema

end SchemaBinding
