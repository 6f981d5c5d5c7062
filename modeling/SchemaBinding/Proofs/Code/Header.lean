import SchemaBinding.Code.Unit

/-!
# What headers show

A header shows of a class its generated name, its kind, its methods and its fields, and of the
parent the generated name.  A change of the classes that keeps these is a `SameOutline`.

* `ClassBlock.parentCall?_eq`: the function of the parent is called by the generated name alone.
* `ClassBlock.declaration_eq`: such a change leaves the block of a class in the header.
* `header_eq`: such a change leaves the header, if it leaves the blocks of the enums.
-/

namespace SchemaBinding.Code

open Schema

/-- The classes of one document are those of another after a change that headers do not show. -/
structure SameOutline (doc doc' : Document) (change : ClassDecl → ClassDecl) : Prop where
  items : doc'.classes.items = doc.classes.items.map change
  parentOf? : ∀ c, doc'.parentOf? (change c) = (doc.parentOf? c).map change
  generatedName : ∀ c, (change c).generatedName = c.generatedName
  kind : ∀ c, (change c).kind = c.kind
  methods : ∀ c, (change c).methods = c.methods
  fieldLines : ∀ c, (change c).emittedMembers.map (fun (m, res) => ClassBlock.fieldLine m res)
    = c.emittedMembers.map fun (m, res) => ClassBlock.fieldLine m res

variable {doc doc' : Document} {change : ClassDecl → ClassDecl}

namespace ClassBlock

variable (h : SameOutline doc doc' change)

include h

theorem parentCall?_eq (signature : Signature) (c : ClassDecl) :
    parentCall? doc' signature (change c) = parentCall? doc signature c := by
  rw [parentCall?, parentCall?, h.parentOf?, Option.map_map]
  congr 1
  funext parent
  rw [Function.comp_apply, h.generatedName]

theorem parentType_eq (settings : Settings) (c : ClassDecl) :
    parentType settings doc' (change c) = parentType settings doc c := by
  rw [parentType, parentType, h.parentOf?, h.kind]
  cases doc.parentOf? c with
  | none => rfl
  | some parent => exact h.generatedName parent

theorem declaration_eq (settings : Settings) (c : ClassDecl) :
    declaration settings doc' (change c) = declaration settings doc c := by
  rw [declaration, declaration, parentType_eq h, overrides, overrides, constructorSignature,
    constructorSignature, destructorSignature, destructorSignature, h.generatedName, h.methods,
    h.fieldLines, h.kind]

end ClassBlock

theorem forwardDeclarations_eq (h : SameOutline doc doc' change) :
    forwardDeclarations doc' = forwardDeclarations doc := by
  rw [forwardDeclarations, forwardDeclarations, h.items, List.map_map]
  simp only [List.map_eq_nil_iff, Function.comp_def, h.generatedName]

/-- **Documents of the same outline have the same header.** -/
theorem header_eq (settings : Settings) (h : SameOutline doc doc' change)
    (hspace : doc'.nameSpace = doc.nameSpace)
    (henums : doc'.enums.items.flatMap
        (fun e => [banner] ++ EnumBlock.declaration settings e ++ [""])
      = doc.enums.items.flatMap fun e => [banner] ++ EnumBlock.declaration settings e ++ [""]) :
    header settings doc' = header settings doc := by
  have hclasses : doc'.classes.items.flatMap (fun c =>
        [banner] ++ ClassBlock.declaration settings doc' c ++ [""])
      = doc.classes.items.flatMap fun c =>
        [banner] ++ ClassBlock.declaration settings doc c ++ [""] := by
    rw [h.items, List.flatMap_map]
    simp only [ClassBlock.declaration_eq h]
  rw [header, header, headerLines, headerLines, forwardDeclarations_eq h, hclasses, henums, hspace]

end SchemaBinding.Code
