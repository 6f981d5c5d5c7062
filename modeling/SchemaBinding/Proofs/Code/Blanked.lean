import SchemaBinding.Code.Unit
import Mathlib.Data.List.Forall2

/-!
# Code without its literals

`blanked` leaves out what stands between the quotes of string literals.  Two texts are `Alike` if
each closes the literals that it opens and both are the same without them.

* `Alike.append`: alike texts stay alike behind one another.
* `alike_quoted`: any two literals are alike.
* `IsPlain.alike`: a text without quotes is like itself only.
* `blanked_unlines`: code whose lines are alike is the same without its literals.
-/

namespace SchemaBinding.Code

/-- Where a reader of code stands: outside of literals, inside one, or there behind a backslash. -/
inductive Standing where
  | outside
  | inside
  | escaped
deriving DecidableEq, Repr

def blankFrom : Standing → List Char → List Char
  | _, [] => []
  | .outside, c :: rest => c :: blankFrom (if c = '"' then .inside else .outside) rest
  | .inside, c :: rest =>
    if c = '"' then c :: blankFrom .outside rest
    else blankFrom (if c = '\\' then .escaped else .inside) rest
  | .escaped, _ :: rest => blankFrom .inside rest

/-- Code without what stands between the quotes of its literals. -/
def blanked (code : String) : String := String.ofList (blankFrom .outside code.toList)

example : blanked "f(\"a\\\"b\", 1, \"\");" = "f(\"\", 1, \"\");" := by decide +kernel

/-! ### Inside of literals -/

def IsPlain (s : String) : Prop := ∀ c ∈ s.toList, c ≠ '"' ∧ c ≠ '\\'

instance (s : String) : Decidable (IsPlain s) := List.decidableBAll _ s.toList

theorem blankFrom_inside_plain {cs : List Char} (h : ∀ c ∈ cs, c ≠ '"' ∧ c ≠ '\\')
    (rest : List Char) : blankFrom .inside (cs ++ rest) = blankFrom .inside rest := by
  induction cs with
  | nil => rfl
  | cons c cs ih =>
    obtain ⟨hquote, hslash⟩ := h c List.mem_cons_self
    rw [List.cons_append, blankFrom, if_neg hquote, if_neg hslash]
    exact ih fun d hd => h d (List.mem_cons_of_mem _ hd)

theorem blankFrom_backslash (c : Char) (rest : List Char) :
    blankFrom .inside ('\\' :: c :: rest) = blankFrom .inside rest := rfl

/-- An escaped character does not end a literal. -/
theorem blankFrom_escapeCharacter (c : Char) (rest : List Char) :
    blankFrom .inside (escapeCharacter c ++ rest) = blankFrom .inside rest := by
  rcases escapeCharacter_cases c with ⟨hc, hverbatim⟩ | ⟨d, digits, hc, -, hdigits⟩
  · rw [hc]
    exact blankFrom_inside_plain (by simpa using ⟨hverbatim.1, hverbatim.2.1⟩) rest
  · -- the character behind the backslash is left out, and so are the digits behind it
    rw [hc, List.cons_append, List.cons_append, blankFrom_backslash]
    exact blankFrom_inside_plain (fun e he => ⟨(hdigits e he).1, (hdigits e he).2.1⟩) rest

theorem blankFrom_escape (s : String) (rest : List Char) :
    blankFrom .inside ((escape s).toList ++ rest) = blankFrom .inside rest := by
  rw [escape, String.toList_ofList]
  induction s.toList with
  | nil => rfl
  | cons c cs ih => rw [List.flatMap_cons, List.append_assoc, blankFrom_escapeCharacter, ih]

/-! ### Texts that close their literals -/

/-- The text closes its literals, and without them it is this. -/
def Shows (text : String) (shown : List Char) : Prop :=
  ∀ rest, blankFrom .outside (text.toList ++ rest) = shown ++ blankFrom .outside rest

theorem Shows.append {a b : String} {cs ds : List Char} (ha : Shows a cs) (hb : Shows b ds) :
    Shows (a ++ b) (cs ++ ds) := by
  intro rest
  rw [String.toList_append, List.append_assoc, ha, hb, List.append_assoc]

theorem blankFrom_outside_append {cs : List Char} (h : '"' ∉ cs) (rest : List Char) :
    blankFrom .outside (cs ++ rest) = cs ++ blankFrom .outside rest := by
  induction cs with
  | nil => rfl
  | cons c cs ih =>
    rw [List.mem_cons, not_or] at h
    rw [List.cons_append, blankFrom, if_neg (Ne.symm h.1), ih h.2]
    rfl

/-- A literal shows its quotes. -/
theorem shows_literal {s : String}
    (h : ∀ rest, blankFrom .inside (s.toList ++ rest) = blankFrom .inside rest) :
    Shows ("\"" ++ s ++ "\"") ['"', '"'] := by
  intro rest
  have hlist : ("\"" ++ s ++ "\"").toList ++ rest = '"' :: (s.toList ++ '"' :: rest) := by simp
  rw [hlist, blankFrom, if_pos rfl, h]
  rfl

/-- Each of two texts closes its literals, and without them they are the same. -/
def Alike (a b : String) : Prop := ∃ shown, Shows a shown ∧ Shows b shown

theorem Alike.append {a b c d : String} (h : Alike a b) (h' : Alike c d) :
    Alike (a ++ c) (b ++ d) := by
  obtain ⟨cs, ha, hb⟩ := h
  obtain ⟨ds, hc, hd⟩ := h'
  exact ⟨cs ++ ds, ha.append hc, hb.append hd⟩

/-- What stands in a literal is not seen. -/
theorem alike_quoted (s t : String) : Alike (quoted s) (quoted t) :=
  ⟨_, shows_literal (blankFrom_escape s), shows_literal (blankFrom_escape t)⟩

theorem alike_of_noQuote {s : String} (h : '"' ∉ s.toList) : Alike s s :=
  ⟨_, blankFrom_outside_append h, blankFrom_outside_append h⟩

theorem Alike.eq_empty_iff {a b : String} (h : Alike a b) : a = "" ↔ b = "" := by
  obtain ⟨shown, ha, hb⟩ := h
  have hshown : ∀ {s : String}, Shows s shown → (s = "" ↔ shown = []) := by
    intro s hs
    have hall := hs []
    rw [List.append_nil, blankFrom, List.append_nil] at hall
    rw [← hall, ← String.toList_eq_nil_iff]
    cases s.toList with
    | nil => simp [blankFrom]
    | cons c cs => simp [blankFrom]
  rw [hshown ha, hshown hb]

namespace IsPlain

variable {s t : String}

theorem alike (h : IsPlain s) : Alike s s := alike_of_noQuote fun hm => (h '"' hm).1 rfl

theorem append (hs : IsPlain s) (ht : IsPlain t) : IsPlain (s ++ t) := by
  intro c hc
  rw [String.toList_append, List.mem_append] at hc
  exact hc.elim (hs c) (ht c)

theorem of_sublist (hs : IsPlain s) (h : t.toList.Sublist s.toList) : IsPlain t :=
  fun c hc => hs c (h.subset hc)

end IsPlain

/-- Code around a literal does not show what stands in it. -/
theorem alike_around {front back : String} (hfront : IsPlain front) (hback : IsPlain back)
    (s t : String) : Alike (front ++ quoted s ++ back) (front ++ quoted t ++ back) :=
  (hfront.alike.append (alike_quoted s t)).append hback.alike

theorem isDigit_of_mem_toString {n : Nat} {c : Char} (hc : c ∈ (toString n).toList) :
    c.isDigit = true := by
  have hdigits : (toString n).toList = Nat.toDigits 10 n := String.toList_ofList
  rw [hdigits] at hc
  exact Nat.isDigit_of_mem_toDigits (by decide) (by decide) hc

theorem isPlain_toString (n : Nat) : IsPlain (toString n) := by
  intro c hc
  have hdigit : c.isDigit = true := isDigit_of_mem_toString hc
  constructor <;> rintro rfl <;> exact absurd hdigit (by decide)

/-! ### Lines -/

abbrev AlikeLines (ls ms : List String) : Prop := List.Forall₂ Alike ls ms

theorem AlikeLines.append {as bs cs ds : List String} (h : AlikeLines as bs)
    (h' : AlikeLines cs ds) : AlikeLines (as ++ cs) (bs ++ ds) := List.rel_append h h'

theorem AlikeLines.map {as bs : List String} {change : String → String} (h : AlikeLines as bs)
    (hchange : ∀ {a b}, Alike a b → Alike (change a) (change b)) :
    AlikeLines (as.map change) (bs.map change) := by
  rw [AlikeLines, List.forall₂_map_left_iff, List.forall₂_map_right_iff]
  exact List.Forall₂.imp (fun _ _ => hchange) h

theorem alikeLines_map {α : Type} {f g : α → String} {items : List α}
    (h : ∀ a ∈ items, Alike (f a) (g a)) : AlikeLines (items.map f) (items.map g) := by
  rw [AlikeLines, List.forall₂_map_left_iff, List.forall₂_map_right_iff, List.forall₂_same]
  exact h

theorem alikeLines_flatMap {α : Type} {f g : α → List String} {items : List α}
    (h : ∀ a ∈ items, AlikeLines (f a) (g a)) :
    AlikeLines (items.flatMap f) (items.flatMap g) := by
  induction items with
  | nil => exact .nil
  | cons a rest ih =>
    rw [List.flatMap_cons, List.flatMap_cons]
    exact (h a List.mem_cons_self).append (ih fun b hb => h b (List.mem_cons_of_mem _ hb))

theorem alikeLines_of_plain {ls : List String} (h : ∀ l ∈ ls, IsPlain l) : AlikeLines ls ls :=
  List.forall₂_same.2 fun l hl => (h l hl).alike

/-- An empty line between others. -/
theorem alikeLines_separator : AlikeLines [""] [""] := alikeLines_of_plain (by decide)

/-- **Code whose lines are alike is the same without its literals.** -/
theorem blanked_unlines {ls ms : List String} (h : AlikeLines ls ms) :
    blanked (Text.unlines ls) = blanked (Text.unlines ms) := by
  rw [blanked, blanked, Text.unlines, Text.unlines, String.toList_ofList, String.toList_ofList]
  congr 1
  induction h with
  | nil => rfl
  | cons hline _ ih =>
    obtain ⟨shown, ha, hb⟩ := hline
    rw [List.flatMap_cons, List.flatMap_cons, List.append_assoc, List.append_assoc, ha, hb]
    exact congrArg (shown ++ '\n' :: ·) ih

end SchemaBinding.Code
