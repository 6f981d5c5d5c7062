import SchemaBinding.Proofs.Code.Source
import SchemaBinding.Proofs.Schema.Names

/-!
# The factory

The body of the factory is read back as branches, each with the literal that the name is compared
with and the class that is made.

* `branches?_factoryFunction`: the branches are those of `factoryBranches`, in order.
* `made?_factoryBranches`: the factory makes the class that the schema has under a name, unless it
  is abstract.
* `Binding.factory_makes`: and what a datasave answers as its type is the name that makes it.
-/

namespace SchemaBinding.Code

open Schema

structure Branch where
  key : Literal
  className : String
deriving DecidableEq, Repr

/-- Reads branches up to the return that makes nothing. -/
def readBranches : List Token → Option (List Branch)
  | [.word "return", .word "nullptr", .mark ';'] => some []
  | .word "if" :: .mark '(' :: .word "classType" :: .mark '=' :: .mark '=' :: .literal key
      :: .mark ')' :: .mark '\x7b' :: .word "return" :: .word "new" :: .word className :: .mark ';'
      :: .mark '\x7d' :: rest =>
    (readBranches rest).map (⟨key, className⟩ :: ·)
  | _ => none

def Function.branches? (f : Function) : Option (List Branch) :=
  (tokens? f.bodyText.toList).bind readBranches

/-- What branches make of a name: the first that is for the name counts. -/
def made? (branches : List Branch) (name : String) : Option String :=
  (branches.find? (·.key.value = name)).map Branch.className

/-- Reads a variable that is set to a literal and returned. -/
def readAnswer : List Token → Option String
  | [.word "static", .word "const", .word "std", .mark ':', .mark ':', .word "string", .word set,
      .mark '=', .literal l, .mark ';', .word "return", .word returned, .mark ';'] =>
    if set = returned then some l.value else none
  | _ => none

/-- The text that a function returns, if it returns a literal. -/
def Function.answer? (f : Function) : Option String :=
  (tokens? f.bodyText.toList).bind readAnswer

def Branch.tokens (b : Branch) : List Token :=
  [.word "if", .mark '(', .word "classType", .mark '=', .mark '=', .literal b.key, .mark ')',
    .mark '\x7b', .word "return", .word "new", .word b.className, .mark ';', .mark '\x7d']

def FactoryBranch.read (b : FactoryBranch) : Branch := ⟨.ofText b.name, b.generatedName⟩

theorem readBranches_flatMap (branches : List Branch) :
    readBranches (branches.flatMap Branch.tokens
      ++ [.word "return", .word "nullptr", .mark ';']) = some branches := by
  induction branches with
  | nil => rfl
  | cons b rest ih =>
    rw [List.flatMap_cons, List.append_assoc]
    exact congrArg (Option.map (b :: ·)) ih

theorem readsBody_branch {b : FactoryBranch} (h : isIdentifier b.generatedName = true) :
    ReadsBody b.lines b.read.tokens := by
  have hopen : Reads "if (classType == " [.word "if", .mark '(', .word "classType", .mark '=',
      .mark '='] :=
    reads_of_tokens? (by cbv) (by decide) (by decide)
  have hclose : Reads ")" [.mark ')'] := reads_of_tokens? (by cbv) (by decide) (by decide)
  have hbegin : Reads "\x7b" [.mark '\x7b'] := reads_of_tokens? (by cbv) (by decide) (by decide)
  have hindent : Reads "    " [] := reads_of_tokens? (by cbv) (by decide) (by decide)
  have hreturn : Reads "return new " [.word "return", .word "new"] :=
    reads_of_tokens? (by cbv) (by decide) (by decide)
  have hstop : Reads ";" [.mark ';'] := reads_of_tokens? (by cbv) (by decide) (by decide)
  have hend : Reads "\x7d" [.mark '\x7d'] := reads_of_tokens? (by cbv) (by decide) (by decide)
  have hnew : Reads ("return new " ++ b.generatedName ++ ";")
      [.word "return", .word "new", .word b.generatedName, .mark ';'] := by
    rw [String.append_assoc]
    exact hreturn.append (Reads.word h hstop ⟨';', by decide, by decide⟩)
  exact ReadsBody.cons ((hopen.append (reads_quoted b.name)).append hclose)
    (.cons hbegin (.cons (hindent.append hnew) (.cons hend (.cons reads_empty readsBody_nil))))

variable {settings : Settings} {doc : Document}

/-- **The factory is read back as its branches.** -/
theorem branches?_factoryFunction
    (h : ∀ c ∈ doc.classes.items, isIdentifier c.generatedName = true) :
    (factoryFunction settings doc).branches?
      = some ((factoryBranches doc).map FactoryBranch.read) := by
  have hreturn : Reads "return nullptr;" [.word "return", .word "nullptr", .mark ';'] :=
    reads_of_tokens? (by cbv) (by decide) (by decide)
  have hbranch : ∀ b ∈ factoryBranches doc, ReadsBody b.lines b.read.tokens := by
    intro b hb
    obtain ⟨c, hc, rfl⟩ := List.mem_map.1 hb
    exact readsBody_branch (h c (List.mem_of_mem_filter hc))
  have hbody : ReadsBody (factoryFunction settings doc).body
      (((factoryBranches doc).map FactoryBranch.read).flatMap Branch.tokens
        ++ [.word "return", .word "nullptr", .mark ';']) := by
    rw [List.flatMap_map]
    exact (ReadsBody.flatMap hbranch).append (ReadsBody.cons hreturn readsBody_nil)
  have htokens : tokens? (factoryFunction settings doc).bodyText.toList = _ := Reads.tokens? hbody
  rw [Function.branches?, htokens]
  exact readBranches_flatMap _

/-- **What a class answers as its type is its name.** -/
theorem answer?_instanceType (c : ClassDecl) :
    (ClassBlock.instanceType c).answer? = some c.name := by
  have hset : Reads "static const std::string dataInstanceType = "
      [.word "static", .word "const", .word "std", .mark ':', .mark ':', .word "string",
        .word "dataInstanceType", .mark '='] :=
    reads_of_tokens? (by cbv) (by decide) (by decide)
  have hstop : Reads ";" [.mark ';'] := reads_of_tokens? (by cbv) (by decide) (by decide)
  have hreturn : Reads "return dataInstanceType;"
      [.word "return", .word "dataInstanceType", .mark ';'] :=
    reads_of_tokens? (by cbv) (by decide) (by decide)
  have hbody : ReadsBody (ClassBlock.instanceType c).body _ :=
    ReadsBody.cons ((hset.append (reads_quoted c.name)).append hstop)
      (ReadsBody.cons hreturn readsBody_nil)
  have htokens : tokens? (ClassBlock.instanceType c).bodyText.toList = _ := Reads.tokens? hbody
  rw [Function.answer?, htokens]
  rfl

/-! ### What the factory makes -/

/-- No name is asked for by two branches. -/
theorem nodup_keys_factoryBranches (h : doc.WellNamed) :
    (((factoryBranches doc).map FactoryBranch.read).map fun b => b.key.value).Nodup := by
  have hnames := h.classes.nodup
  rw [h.classes.names_eq] at hnames
  rw [factoryBranches, List.map_map, List.map_map]
  exact hnames.sublist (List.filter_sublist.map _)

/-- **The factory makes the class that is found under a name, unless it is abstract.** -/
theorem made?_factoryBranches (h : doc.WellNamed) (name : String) :
    made? ((factoryBranches doc).map FactoryBranch.read) name
      = ((doc.class? name).filter (!·.isAbstract)).map ClassDecl.generatedName := by
  have hfind := h.classes.find?_filter_items (!·.isAbstract) name
  rw [made?, factoryBranches, List.map_map, List.find?_map, Option.map_map]
  show Option.map _ (List.find? (fun c : ClassDecl => decide (c.name = name)) _) = _
  rw [hfind]
  rfl

end SchemaBinding.Code

namespace SchemaBinding.Binding

open Schema
open Schema.Document (load wellNamed_load)
open Code (isIdentifier function? made? StandIn DefinedIn)

variable {settings : Code.Settings} {root : Node} {b : Binding}

/-- **The factory makes exactly the classes of the schema that are not abstract.**  It is read back
as one branch for each of them, in order, and no two ask for the same name.  What it makes of a name
is the class that the schema has under that name, and what a datasave answers as its type is a name
that makes the datasave. -/
theorem factory_makes (hgen : generate settings root = .ok b)
    (hclasses : ∀ a ∈ (load root).1.classes.items, isIdentifier a.generatedName = true) :
    StandIn ((Code.factoryFunction settings (load root).1).lines "") b.source
    ∧ ∃ branches, (Code.factoryFunction settings (load root).1).branches? = some branches
      ∧ branches.map (fun branch => (branch.key.value, branch.className))
        = ((load root).1.classes.items.filter (!·.isAbstract)).map
            (fun c => (c.name, c.generatedName))
      ∧ (branches.map fun branch => branch.key.value).Nodup
      ∧ (∀ name, made? branches name
        = (((load root).1.class? name).filter (!·.isAbstract)).map ClassDecl.generatedName)
      ∧ ∀ c ∈ (load root).1.classes.items, c.isAbstract = false → c.kind = .datasave →
        DefinedIn b.source settings (load root).1 c "GetDataInstanceType"
        ∧ ∃ answer, ((function? settings (load root).1 c "GetDataInstanceType").bind
            Code.Function.answer?) = some answer
          ∧ (load root).1.class? answer = some c
          ∧ made? branches answer = some c.generatedName := by
  have hnamed := wellNamed_load root
  refine ⟨factory_standsIn hgen, _, Code.branches?_factoryFunction hclasses, ?_,
    Code.nodup_keys_factoryBranches hnamed, Code.made?_factoryBranches hnamed, ?_⟩
  · rw [Code.factoryBranches, List.map_map, List.map_map]
    rfl
  · intro c hc habstract hkind
    have hfound : (load root).1.class? c.name = some c := hnamed.classes.find?_of_mem hc
    have hf := @Code.function?_instanceType settings (load root).1 c hkind
    refine ⟨definedIn_source hgen hc hf, c.name, ?_, hfound, ?_⟩
    · rw [hf]
      exact Code.answer?_instanceType c
    · rw [Code.made?_factoryBranches hnamed, hfound]
      simp [habstract]

/-- A schema of animals, which are abstract, and pets, whose name is not a plain word. -/
def petSchema : Node :=
  ⟨"Schema", [],
    [⟨"Class", [("name", "Animal"), ("type", "datasave"), ("abstract", "true")], []⟩,
      ⟨"Class", [("name", "a \"pet\"\t1"), ("code", "Pet"), ("type", "datasave"),
        ("base", "Animal")], []⟩]⟩

theorem factory_makes_petSchema :
    ∃ branches,
      (Code.factoryFunction .standard (load petSchema).1).branches? = some branches
      ∧ made? branches "a \"pet\"\t1" = some "Pet" ∧ made? branches "Animal" = none := by
  have hfatal : Diagnostic.anyFatal (load petSchema).2 = false := by decide +kernel
  have hclasses : ∀ a ∈ (load petSchema).1.classes.items, isIdentifier a.generatedName = true := by
    decide +kernel
  have hpet : (((load petSchema).1.class? "a \"pet\"\t1").filter (!·.isAbstract)).map
      ClassDecl.generatedName = some "Pet" := by
    decide +kernel
  have hanimal : (((load petSchema).1.class? "Animal").filter (!·.isAbstract)).map
      ClassDecl.generatedName = none := by
    decide +kernel
  obtain ⟨b, hgen⟩ : ∃ b, generate .standard petSchema = .ok b :=
    ⟨_, generate_eq_ok_iff.2 ⟨hfatal, rfl⟩⟩
  obtain ⟨-, branches, hbranches, -, -, hmade, -⟩ := factory_makes hgen hclasses
  exact ⟨branches, hbranches, (hmade _).trans hpet, (hmade _).trans hanimal⟩

end SchemaBinding.Binding
