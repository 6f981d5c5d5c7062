import SchemaBinding.Proofs.Code.Token

/-!
# Pieces of a line

A line of generated code is put together from fixed pieces and from what stands between them: a
name, a literal, a path.  `behind?` and `before?` take the fixed pieces off, and `between?` answers
what stands between two of them.

* `between?_eq_some_iff`, `nameBetween?_eq_some_iff`: what is found is what the line was put
  together from.
* `nameBetween?_of_foreign`, `between?_of_missing`: a character that does not belong there, or one
  that is wanting, tells that nothing is found.
* `literalBehind?_quoted`: a literal behind a beginning is found as the text that it denotes.
-/

namespace SchemaBinding.Code

def behind? (front : String) (cs : List Char) : Option (List Char) :=
  if front.toList <+: cs then some (cs.drop front.toList.length) else none

def before? (back : String) (cs : List Char) : Option (List Char) :=
  if back.toList <:+ cs then some (cs.take (cs.length - back.toList.length)) else none

/-- What stands in a line between a beginning and an end. -/
def between? (front back line : String) : Option String := do
  let rest ← behind? front line.toList
  let inner ← before? back rest
  return String.ofList inner

/-- The identifier that stands in a line between a beginning and an end. -/
def nameBetween? (front back line : String) : Option String :=
  (between? front back line).filter isIdentifier

/-- The text that a literal behind a beginning denotes, whatever follows the literal. -/
def literalBehind? (front line : String) : Option String := do
  let '"' :: rest ← behind? front line.toList | none
  let (value, _) ← readLiteral rest
  return String.ofList value

theorem behind?_eq_some_iff {front : String} {cs rest : List Char} :
    behind? front cs = some rest ↔ cs = front.toList ++ rest := by
  unfold behind?
  constructor
  · intro h
    split at h
    · next hfront =>
      obtain ⟨tail, rfl⟩ := hfront
      rw [List.drop_left] at h
      rw [Option.some.inj h]
    · cases h
  · rintro rfl
    rw [if_pos (List.prefix_append _ _), List.drop_left]

theorem before?_eq_some_iff {back : String} {cs inner : List Char} :
    before? back cs = some inner ↔ cs = inner ++ back.toList := by
  unfold before?
  constructor
  · intro h
    split at h
    · next hback =>
      obtain ⟨head, rfl⟩ := hback
      rw [List.length_append, Nat.add_sub_cancel, List.take_left] at h
      rw [Option.some.inj h]
    · cases h
  · rintro rfl
    rw [if_pos (List.suffix_append _ _), List.length_append, Nat.add_sub_cancel, List.take_left]

theorem behind?_append (front : String) (rest : List Char) :
    behind? front (front.toList ++ rest) = some rest := behind?_eq_some_iff.2 rfl

/-- **What is found between two pieces is what the line was put together from.** -/
theorem between?_eq_some_iff {front back line inner : String} :
    between? front back line = some inner ↔ line = front ++ inner ++ back := by
  have hline : line = front ++ inner ++ back
      ↔ line.toList = front.toList ++ (inner.toList ++ back.toList) := by
    rw [← String.toList_inj, String.toList_append, String.toList_append, List.append_assoc]
  rw [hline]
  constructor
  · intro h
    obtain ⟨rest, hrest, h⟩ := Option.bind_eq_some_iff.1 h
    obtain ⟨found, hfound, h⟩ := Option.bind_eq_some_iff.1 h
    cases Option.some.inj h
    rw [behind?_eq_some_iff.1 hrest, before?_eq_some_iff.1 hfound, String.toList_ofList]
  · intro h
    show (behind? front line.toList).bind _ = _
    rw [behind?_eq_some_iff.2 h, Option.bind_some]
    show (before? back _).bind _ = _
    rw [before?_eq_some_iff.2 rfl, Option.bind_some, String.ofList_toList]
    rfl

/-- A character of the pieces that is wanting. -/
theorem between?_of_missing {front back line : String} {c : Char}
    (hpiece : c ∈ front.toList ∨ c ∈ back.toList) (hline : c ∉ line.toList) :
    between? front back line = none := by
  cases hfound : between? front back line with
  | none => rfl
  | some inner =>
    obtain rfl := between?_eq_some_iff.1 hfound
    simp only [String.toList_append, List.mem_append, not_or] at hline
    exact (hpiece.elim hline.1.1 hline.2).elim

/-- A line that begins in another way. -/
theorem between?_of_head {front back line : String} {c d : Char}
    (hfront : front.toList.head? = some c) (hline : line.toList.head? = some d) (hne : c ≠ d) :
    between? front back line = none := by
  cases hfound : between? front back line with
  | none => rfl
  | some inner =>
    obtain rfl := between?_eq_some_iff.1 hfound
    rw [String.toList_append, String.toList_append, List.append_assoc,
      List.head?_append_of_ne_nil _ (by rintro hnil; rw [hnil] at hfront; cases hfront),
      hfront] at hline
    exact absurd (Option.some.inj hline) hne

theorem ne_empty_of_mem {s : String} {c : Char} (h : c ∈ s.toList) : s ≠ "" := by
  rintro rfl
  cases h

theorem getLast?_toList_append {back : String} {c : Char} (h : back.toList.getLast? = some c)
    (front : String) : (front ++ back).toList.getLast? = some c := by
  rw [String.toList_append, List.getLast?_append, h, Option.some_or]

/-- A line that ends in another way. -/
theorem between?_of_last {front back line : String} {c d : Char}
    (hback : back.toList.getLast? = some c) (hline : line.toList.getLast? = some d) (hne : c ≠ d) :
    between? front back line = none := by
  cases hfound : between? front back line with
  | none => rfl
  | some inner =>
    obtain rfl := between?_eq_some_iff.1 hfound
    rw [getLast?_toList_append hback] at hline
    exact absurd (Option.some.inj hline) hne

/-- A line with an end of its own, no longer than the piece that is wanted there. -/
theorem between?_of_ending {front back line ending : String}
    (hline : ending.toList <:+ line.toList) (hlength : ending.toList.length ≤ back.toList.length)
    (hne : ¬ ending.toList <:+ back.toList) : between? front back line = none := by
  cases hfound : between? front back line with
  | none => rfl
  | some inner =>
    obtain rfl := between?_eq_some_iff.1 hfound
    have hback : back.toList <:+ (front ++ inner ++ back).toList := by
      rw [String.toList_append]
      exact List.suffix_append _ _
    exact absurd (List.suffix_of_suffix_length_le hline hback hlength) hne

theorem nameBetween?_eq_some_iff {front back line name : String} :
    nameBetween? front back line = some name
      ↔ line = front ++ name ++ back ∧ isIdentifier name = true := by
  rw [nameBetween?, Option.filter_eq_some_iff, between?_eq_some_iff]

theorem nameBetween?_self {name : String} (h : isIdentifier name = true) (front back : String) :
    nameBetween? front back (front ++ name ++ back) = some name :=
  nameBetween?_eq_some_iff.2 ⟨rfl, h⟩

/-! ### Characters of identifiers -/

theorem isWordCharacter_of_isIdentifier {s : String} (h : isIdentifier s = true) :
    ∀ c ∈ s.toList, isWordCharacter c = true := by
  unfold isIdentifier at h
  split at h
  · cases h
  · next c rest hlist =>
    rw [Bool.and_eq_true, List.all_eq_true] at h
    rw [hlist]
    exact h.2

theorem notMem_of_isIdentifier {s : String} (h : isIdentifier s = true) {c : Char}
    (hc : isWordCharacter c = false) : c ∉ s.toList := by
  intro hmem
  rw [isWordCharacter_of_isIdentifier h c hmem] at hc
  cases hc

theorem notMem_behind {name : String} (h : isIdentifier name = true) {c : Char}
    (hc : isWordCharacter c = false) {front : String} (hfront : c ∉ front.toList) :
    c ∉ (front ++ name).toList := by
  rw [String.toList_append, List.mem_append, not_or]
  exact ⟨hfront, notMem_of_isIdentifier h hc⟩

theorem notMem_around {name : String} (h : isIdentifier name = true) {c : Char}
    (hc : isWordCharacter c = false) {front back : String} (hfront : c ∉ front.toList)
    (hback : c ∉ back.toList) : c ∉ (front ++ name ++ back).toList := by
  rw [String.toList_append, List.mem_append, not_or]
  exact ⟨notMem_behind h hc hfront, hback⟩

theorem toList_ne_nil_of_isIdentifier {s : String} (h : isIdentifier s = true) :
    s.toList ≠ [] := by
  intro hnil
  rw [isIdentifier, hnil] at h
  cases h

/-- A character that belongs neither to a name nor to the pieces around it. -/
theorem nameBetween?_of_foreign {front back line : String} {c : Char}
    (hword : isWordCharacter c = false) (hfront : c ∉ front.toList) (hback : c ∉ back.toList)
    (hline : c ∈ line.toList) : nameBetween? front back line = none := by
  cases hfound : nameBetween? front back line with
  | none => rfl
  | some name =>
    obtain ⟨rfl, hname⟩ := nameBetween?_eq_some_iff.1 hfound
    simp only [String.toList_append, List.mem_append] at hline
    rcases hline with (hline | hline) | hline
    · exact absurd hline hfront
    · exact absurd hline (notMem_of_isIdentifier hname hword)
    · exact absurd hline hback

/-- A character of the pieces around a name that is wanting. -/
theorem nameBetween?_of_missing {front back line : String} {c : Char}
    (hpiece : c ∈ front.toList ∨ c ∈ back.toList) (hline : c ∉ line.toList) :
    nameBetween? front back line = none := by
  rw [nameBetween?, between?_of_missing hpiece hline, Option.filter_none]

/-! ### Literals -/

theorem literalBehind?_quoted (front s rest : String) :
    literalBehind? front (front ++ quoted s ++ rest) = some s := by
  have hline : (front ++ quoted s ++ rest).toList
      = front.toList ++ ('"' :: ((escape s).toList ++ '"' :: rest.toList)) := by
    simp [quoted]
  rw [literalBehind?, hline, behind?_append]
  show (readLiteral _).bind _ = _
  rw [readLiteral_escape]
  show some (String.ofList s.toList) = _
  rw [String.ofList_toList]

end SchemaBinding.Code
