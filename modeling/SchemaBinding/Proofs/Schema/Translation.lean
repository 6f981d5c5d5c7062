import SchemaBinding.Proofs.Schema.BaseCycle

/-!
# Cycles in a translated document

Whether classes lie on a cycle is seen by their names and bases alone.  A document is a
`Translation` of another if a change of its classes goes along with the look-up of bases, with a map
of names that takes no two names to one.  The cycles are then found at the same places.

* `Translation.baseWalk_eq`: a walk meets the translated names.
* `Translation.baseCycles_eq`: the cycles have the translated names.
-/

namespace SchemaBinding.Schema

def BaseWalk.map (word : String → String) (walk : BaseWalk) : BaseWalk :=
  ⟨walk.names.map word, walk.back?.map word⟩

namespace Document

/-- A document whose classes are those of another after a change, each with its translated name and
with the changed base. -/
structure Translation (doc doc' : Document) (word : String → String)
    (change : ClassDecl → ClassDecl) : Prop where
  injective : word.Injective
  name : ∀ c, (change c).name = word c.name
  base : ∀ c, doc'.class? (change c).base = (doc.class? c.base).map change
  items : doc'.classes.items = doc.classes.items.map change

namespace Translation

variable {doc doc' : Document} {word : String → String} {change : ClassDecl → ClassDecl}
  (h : doc.Translation doc' word change)

include h

theorem mem_map_iff {name : String} {names : List String} :
    word name ∈ names.map word ↔ name ∈ names :=
  List.mem_map_of_injective h.injective

theorem baseStep {c d : ClassDecl} (hstep : doc.BaseStep c d) :
    doc'.BaseStep (change c) (change d) := by
  rw [BaseStep, h.base, hstep]
  rfl

/-- **A walk meets the translated names.** -/
theorem baseWalk_eq (names : List String) (c : ClassDecl) :
    doc'.baseWalk (names.map word) (change c) = (doc.baseWalk names c).map word := by
  -- the two walks take the same steps, for a step is seen by a name and a base
  fun_induction baseWalk doc names c with
  | case1 names c hnone =>
    refine baseWalk_of_none ?_
    rw [h.base, hnone]
    rfl
  | case2 names c base hfound hmem =>
    have hmem' : (change base).name ∈ names.map word := by
      rwa [h.name, h.mem_map_iff]
    rw [baseWalk_of_mem (h.baseStep hfound) hmem', h.name]
    rfl
  | case3 names c base hfound hmem _ ih =>
    have hmem' : (change base).name ∉ names.map word := by
      rwa [h.name, h.mem_map_iff]
    rw [List.map_append, List.map_singleton] at ih
    rw [baseWalk_of_notMem (h.baseStep hfound) hmem', h.name]
    exact ih

theorem baseCycle?_eq (c : ClassDecl) :
    doc'.baseCycle? (change c) = (doc.baseCycle? c).map (List.map word) := by
  have hwalk := h.baseWalk_eq [c.name] c
  rw [List.map_singleton, ← h.name] at hwalk
  have hback : ∀ back? : Option String,
      back?.map word = some (change c).name ↔ back? = some c.name := by
    intro back?
    rw [h.name, ← Option.map_some, (Option.map_injective h.injective).eq_iff]
  rw [baseCycle?, baseCycle?, hwalk]
  simp only [BaseWalk.map, hback]
  split <;> rfl

theorem baseCyclesFrom_eq (items : List ClassDecl) (found : List String) (index : Nat) :
    doc'.baseCyclesFrom (found.map word) index (items.map change)
      = (doc.baseCyclesFrom found index items).map (Prod.map id (List.map word)) := by
  induction items generalizing found index with
  | nil => rfl
  | cons c rest ih =>
    rw [List.map_cons, baseCyclesFrom, baseCyclesFrom, h.name, h.baseCycle?_eq]
    by_cases hfound : c.name ∈ found
    · rw [if_pos hfound, if_pos (h.mem_map_iff.2 hfound), ih]
    · rw [if_neg hfound, if_neg (mt h.mem_map_iff.1 hfound)]
      cases doc.baseCycle? c with
      | none => exact ih found (index + 1)
      | some names =>
        have hrest := ih (names ++ found) (index + 1)
        rw [List.map_append] at hrest
        exact congrArg ((index, names.map word) :: ·) hrest

/-- **The cycles have the translated names.** -/
theorem baseCycles_eq : doc'.baseCycles = doc.baseCycles.map (Prod.map id (List.map word)) := by
  rw [baseCycles, h.items]
  exact h.baseCyclesFrom_eq doc.classes.items [] 0

end Translation

end Document

end SchemaBinding.Schema
