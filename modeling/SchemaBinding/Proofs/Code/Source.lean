import SchemaBinding.Binding
import SchemaBinding.Proofs.Code.Call

/-!
# Functions in the source

The functions of classes and the factory stand in the source line by line.

* `Binding.functions_standIn`: every function that a class defines stands in the source, in the
  scope of the class.
* `Binding.definedIn_source`: a function is found there by its name.
* `Binding.factory_standsIn`: the factory stands there too.
-/

namespace SchemaBinding

open Schema

/-- The lines stand one after the other in a text. -/
def Code.StandIn (lines : List String) (text : String) : Prop :=
  ∃ before after, text = before ++ Text.unlines lines ++ after

theorem Code.standIn_unlines {lines all : List String} (h : lines <:+: all) :
    StandIn lines (Text.unlines all) := by
  obtain ⟨before, after, rfl⟩ := h
  refine ⟨Text.unlines before, Text.unlines after, ?_⟩
  rw [Text.unlines_append, Text.unlines_append]

theorem infix_flatMap_of_mem {α β : Type} {items : List α} {f : α → List β} {a : α}
    (h : a ∈ items) : f a <:+: items.flatMap f := by
  rw [List.flatMap_def]
  exact List.infix_of_mem_flatten (List.mem_map_of_mem h)

namespace Code

variable {settings : Settings} {doc : Document} {c : ClassDecl}

theorem functionLines_infix {f : Function}
    (h : f ∈ ClassBlock.functions settings doc c) :
    f.lines (c.generatedName ++ "::") <:+: ClassBlock.definition settings doc c := by
  have hmem : f.lines (c.generatedName ++ "::") ++ [""] <:+: ClassBlock.definition settings doc c :=
    infix_flatMap_of_mem (f := fun f => f.lines (c.generatedName ++ "::") ++ [""]) h
  exact List.infix_append_left.trans hmem

theorem definition_infix (h : c ∈ doc.classes.items) :
    ClassBlock.definition settings doc c <:+: sourceLines settings doc := by
  have hmem : [banner] ++ ClassBlock.definition settings doc c
      <:+: doc.classes.items.flatMap fun c => [banner] ++ ClassBlock.definition settings doc c :=
    infix_flatMap_of_mem (f := fun c => [banner] ++ ClassBlock.definition settings doc c) h
  unfold sourceLines
  -- six pieces come behind the blocks of the classes
  iterate 6 apply List.infix_append_of_infix_left
  exact List.infix_append_of_infix_right (List.infix_append_right.trans hmem)

theorem factory_infix (settings : Settings) (doc : Document) :
    (factoryFunction settings doc).lines "" <:+: sourceLines settings doc := by
  unfold sourceLines
  iterate 2 apply List.infix_append_of_infix_left
  exact List.infix_append_right

/-! ### Functions by name -/

/-- The function with a result that a class defines under a name.  A constructor has none. -/
def function? (settings : Settings) (doc : Document) (c : ClassDecl) (name : String) :
    Option Function :=
  (ClassBlock.functions settings doc c).find? fun f =>
    f.signature.result?.isSome && f.signature.name = name

theorem function?_parse :
    function? settings doc c "ParseMembers" = some (ClassBlock.parse settings doc c) := rfl

theorem functions_datasave (h : c.kind = .datasave) :
    ClassBlock.functions settings doc c
      = [ClassBlock.constructor c, ClassBlock.destructor c, ClassBlock.parse settings doc c,
          ClassBlock.serialize settings doc c, ClassBlock.instanceType c] := by
  rw [ClassBlock.functions, h]
  rfl

theorem function?_serialize (h : c.kind = .datasave) :
    function? settings doc c "SerializeMembers" = some (ClassBlock.serialize settings doc c) := by
  rw [function?, functions_datasave h]
  rfl

theorem function?_instanceType (h : c.kind = .datasave) :
    function? settings doc c "GetDataInstanceType" = some (ClassBlock.instanceType c) := by
  rw [function?, functions_datasave h]
  rfl

/-- The class defines a function of this name, and it stands in a text in the scope of the class. -/
def DefinedIn (source : String) (settings : Settings) (doc : Document) (c : ClassDecl)
    (name : String) : Prop :=
  ∃ f, function? settings doc c name = some f
    ∧ StandIn (f.lines (c.generatedName ++ "::")) source

end Code

namespace Binding

variable {settings : Code.Settings} {root : Node} {b : Binding}

theorem functions_standIn (hgen : generate settings root = .ok b) {c : ClassDecl}
    (hc : c ∈ (Document.load root).1.classes.items) {f : Code.Function}
    (hf : f ∈ Code.ClassBlock.functions settings (Document.load root).1 c) :
    Code.StandIn (f.lines (c.generatedName ++ "::")) b.source := by
  rw [(generate_eq_ok_iff.1 hgen).2]
  exact Code.standIn_unlines ((Code.functionLines_infix hf).trans (Code.definition_infix hc))

theorem definedIn_source (hgen : generate settings root = .ok b) {c : ClassDecl}
    (hc : c ∈ (Document.load root).1.classes.items) {name : String} {f : Code.Function}
    (hf : Code.function? settings (Document.load root).1 c name = some f) :
    Code.DefinedIn b.source settings (Document.load root).1 c name :=
  ⟨f, hf, functions_standIn hgen hc (List.mem_of_find?_eq_some hf)⟩

theorem factory_standsIn (hgen : generate settings root = .ok b) :
    Code.StandIn ((Code.factoryFunction settings (Document.load root).1).lines "") b.source := by
  rw [(generate_eq_ok_iff.1 hgen).2]
  exact Code.standIn_unlines (Code.factory_infix _ _)

end Binding

end SchemaBinding
