import SchemaBinding.Proofs.Code.Derivation

/-!
# The order of blocks

The blocks of classes stand in the header in the order in which the classes are declared, also where
a class is declared before its parent.

* `infix_flatMap_of_lt`: of two items the earlier one has the earlier piece.
* `Code.standInOrder_headerLines`: of two classes the one that is declared first has the first block.
* `Binding.declarations_inOrder`: so it is in every binding, and the block of the parent comes before
  that of the class if the parent is declared before the class, and behind it if not.
* `Binding.not_parentFirst_townSchema`: the parent does not always come first.
-/

namespace SchemaBinding

open Schema

theorem exists_split_of_lt {α : Type} {items : List α} {i j : Nat} {a b : α}
    (hi : items[i]? = some a) (hj : items[j]? = some b) (h : i < j) :
    ∃ front middle back, items = front ++ a :: (middle ++ b :: back) := by
  obtain ⟨hlength, hb⟩ := List.getElem?_eq_some_iff.1 hj
  have hsplit : items = items.take j ++ b :: items.drop (j + 1) := by
    rw [← hb, List.getElem_cons_drop, List.take_append_drop]
  have ha : a ∈ items.take j := by
    apply List.mem_of_getElem? (i := i)
    rw [List.getElem?_take_of_lt h]
    exact hi
  obtain ⟨front, middle, htake⟩ := List.append_of_mem ha
  refine ⟨front, middle, items.drop (j + 1), ?_⟩
  rw [htake, List.append_assoc, List.cons_append] at hsplit
  exact hsplit

/-- Of two items the earlier one has the earlier piece. -/
theorem infix_flatMap_of_lt {α β : Type} {items : List α} {f : α → List β} {i j : Nat} {a b : α}
    (hi : items[i]? = some a) (hj : items[j]? = some b) (h : i < j) :
    ∃ between, f a ++ between ++ f b <:+: items.flatMap f := by
  obtain ⟨front, middle, back, rfl⟩ := exists_split_of_lt hi hj h
  refine ⟨middle.flatMap f, front.flatMap f, back.flatMap f, ?_⟩
  simp only [List.flatMap_append, List.flatMap_cons, List.append_assoc]

namespace Code

/-- One block stands among the lines, and the other one stands behind it. -/
def StandInOrder (first second lines : List String) : Prop :=
  ∃ between, first ++ between ++ second <:+: lines

theorem StandInOrder.sublist {first second lines : List String}
    (h : StandInOrder first second lines) : (first ++ second).Sublist lines := by
  obtain ⟨between, hinfix⟩ := h
  have hdrop : (first ++ second).Sublist (first ++ between ++ second) :=
    (List.sublist_append_left first between).append_right second
  exact hdrop.trans hinfix.sublist

variable {settings : Settings} {doc : Document}

/-- **Of two classes the one that is declared first has the first block.** -/
theorem standInOrder_headerLines {i j : Nat} {a b : ClassDecl}
    (hi : doc.classes.items[i]? = some a) (hj : doc.classes.items[j]? = some b) (h : i < j) :
    StandInOrder (ClassBlock.declaration settings doc a) (ClassBlock.declaration settings doc b)
      (headerLines settings doc) := by
  obtain ⟨between, hblocks⟩ := infix_flatMap_of_lt
    (f := fun c => [banner] ++ ClassBlock.declaration settings doc c ++ [""]) hi hj h
  -- the empty line behind the first block and the banner of the second one stand between the two
  refine ⟨[""] ++ between ++ [banner], ?_⟩
  refine List.IsInfix.trans ⟨[banner], [""], ?_⟩ (hblocks.trans (infix_declarations settings doc))
  simp only [List.append_assoc]

end Code

namespace Binding

open Schema.Document (load not_transGen_parents_self)
open Code (StandInOrder headerLines standInOrder_headerLines ClassBlock.declaration
  ClassBlock.parentType)

variable {settings : Code.Settings} {root : Node} {b : Binding}

/-- **The blocks of the classes stand in declaration order.**  So the block of the parent comes before
that of the class if the parent is declared before the class, and behind it if the parent is declared
behind it. -/
theorem declarations_inOrder (hgen : generate settings root = .ok b) :
    b.header = Text.unlines (headerLines settings (load root).1)
    ∧ (∀ (i j : Nat) (first second : ClassDecl),
      (load root).1.classes.items[i]? = some first →
      (load root).1.classes.items[j]? = some second → i < j →
      StandInOrder (ClassBlock.declaration settings (load root).1 first)
        (ClassBlock.declaration settings (load root).1 second)
        (headerLines settings (load root).1))
    ∧ ∀ (i j : Nat) (p c : ClassDecl),
      (load root).1.classes.items[i]? = some p → (load root).1.classes.items[j]? = some c →
      (load root).1.parentOf? c = some p →
      (ClassBlock.declaration settings (load root).1 p).head?
          = some ("class " ++ p.generatedName ++ " : public "
            ++ ClassBlock.parentType settings (load root).1 p)
      ∧ (ClassBlock.declaration settings (load root).1 c).head?
          = some ("class " ++ c.generatedName ++ " : public " ++ p.generatedName)
      ∧ (i < j ∧ StandInOrder (ClassBlock.declaration settings (load root).1 p)
            (ClassBlock.declaration settings (load root).1 c) (headerLines settings (load root).1)
        ∨ j < i ∧ StandInOrder (ClassBlock.declaration settings (load root).1 c)
            (ClassBlock.declaration settings (load root).1 p)
            (headerLines settings (load root).1)) := by
  obtain ⟨hfatal, rfl⟩ := generate_eq_ok_iff.1 hgen
  have horder : ∀ (i j : Nat) (first second : ClassDecl),
      (load root).1.classes.items[i]? = some first →
      (load root).1.classes.items[j]? = some second → i < j →
      StandInOrder (ClassBlock.declaration settings (load root).1 first)
        (ClassBlock.declaration settings (load root).1 second)
        (headerLines settings (load root).1) :=
    fun _ _ _ _ hi hj h => standInOrder_headerLines hi hj h
  refine ⟨rfl, horder, fun i j p c hi hj hparent => ?_⟩
  have hc : c ∈ (load root).1.classes.items := List.mem_of_getElem? hj
  refine ⟨rfl, (Code.derivedFrom_parent hc hparent).2, ?_⟩
  rcases Nat.lt_trichotomy i j with hlt | rfl | hlt
  · exact Or.inl ⟨hlt, horder i j p c hi hj hlt⟩
  · -- a class that is its own parent lies on a cycle
    obtain rfl : p = c := Option.some.inj (hi.symm.trans hj)
    exact absurd (.single hparent) (not_transGen_parents_self hfatal hc)
  · exact Or.inr ⟨hlt, horder j i c p hj hi hlt⟩

/-- A schema in which a house is declared behind what it is, a building, and a tower before it. -/
def townSchema : Node :=
  ⟨"Schema", [],
    [⟨"Class", [("name", "Tower"), ("base", "Building")], []⟩,
      ⟨"Class", [("name", "Building")], []⟩,
      ⟨"Class", [("name", "House"), ("base", "Building")], []⟩]⟩

theorem declarations_inOrder_townSchema :
    ∃ b p c, generate .standard townSchema = .ok b
      ∧ (load townSchema).1.classes.items[1]? = some p
      ∧ (load townSchema).1.classes.items[2]? = some c
      ∧ (load townSchema).1.parentOf? c = some p
      ∧ StandInOrder (ClassBlock.declaration .standard (load townSchema).1 p)
          (ClassBlock.declaration .standard (load townSchema).1 c)
          (headerLines .standard (load townSchema).1) := by
  have hfatal : Diagnostic.anyFatal (load townSchema).2 = false := by decide +kernel
  have hclasses : ∃ p ∈ (load townSchema).1.classes.items[1]?,
      ∃ c ∈ (load townSchema).1.classes.items[2]?,
        (load townSchema).1.parentOf? c = some p := by decide +kernel
  obtain ⟨b, hgen⟩ : ∃ b, generate .standard townSchema = .ok b :=
    ⟨_, generate_eq_ok_iff.2 ⟨hfatal, rfl⟩⟩
  obtain ⟨p, hp, c, hc, hparent⟩ := hclasses
  refine ⟨b, p, c, hgen, hp, hc, hparent, ?_⟩
  obtain ⟨-, -, hparents⟩ := declarations_inOrder hgen
  obtain ⟨-, -, ⟨-, hinOrder⟩ | ⟨hlt, -⟩⟩ := hparents 1 2 p c hp hc hparent
  · exact hinOrder
  · omega

/-- **The parent does not always come first**: the block of the tower stands before that of the
building from which the tower is derived, and no block of the building comes before. -/
theorem not_parentFirst_townSchema :
    ∃ b p c, generate .standard townSchema = .ok b
      ∧ b.header = Text.unlines (headerLines .standard (load townSchema).1)
      ∧ p ∈ (load townSchema).1.classes.items ∧ c ∈ (load townSchema).1.classes.items
      ∧ (load townSchema).1.parentOf? c = some p
      ∧ StandInOrder (ClassBlock.declaration .standard (load townSchema).1 c)
          (ClassBlock.declaration .standard (load townSchema).1 p)
          (headerLines .standard (load townSchema).1)
      ∧ ¬ StandInOrder (ClassBlock.declaration .standard (load townSchema).1 p)
          (ClassBlock.declaration .standard (load townSchema).1 c)
          (headerLines .standard (load townSchema).1) := by
  have hfatal : Diagnostic.anyFatal (load townSchema).2 = false := by decide +kernel
  have hclasses : ∃ c ∈ (load townSchema).1.classes.items[0]?,
      ∃ p ∈ (load townSchema).1.classes.items[1]?,
        (load townSchema).1.parentOf? c = some p
        ∧ ¬ (ClassBlock.declaration .standard (load townSchema).1 p
            ++ ClassBlock.declaration .standard (load townSchema).1 c).Sublist
              (headerLines .standard (load townSchema).1) := by decide +kernel
  obtain ⟨c, hc, p, hp, hparent, hlines⟩ := hclasses
  exact ⟨_, p, c, generate_eq_ok_iff.2 ⟨hfatal, rfl⟩, rfl, List.mem_of_getElem? hp,
    List.mem_of_getElem? hc, hparent, standInOrder_headerLines hc hp Nat.zero_lt_one,
    fun h => hlines h.sublist⟩

end Binding

end SchemaBinding
