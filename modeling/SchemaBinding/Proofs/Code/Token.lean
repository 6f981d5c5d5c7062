import SchemaBinding.Code.Literal
import SchemaBinding.Code.Function
import SchemaBinding.Text.Blank
import SchemaBinding.Text.Fields
import Mathlib

/-!
# Tokens

`tokens?` reads generated code: words, string literals and single marks, with blanks and line breaks
between them.  A literal is kept both as it is spelled and as the text that it denotes.

`Reads text ts` says that `text` is read as `ts` whatever follows it.  A word alone is not read so,
for what follows may continue it; a word and a mark are (`Reads.word`).

* `Reads.append`: texts that are read whatever follows are read one after the other.
* `reads_quoted`: a quoted text is read as one literal that denotes it.
* `reads_of_tokens?`: a text that does not end in a word is read as it is read alone.
-/

namespace SchemaBinding.Code

/-- The characters of words: letters, digits and the underscore, and all outside of ASCII. -/
def isWordCharacter (c : Char) : Bool := c.isAlphanum || c = '_' || 0x80 ≤ c.toNat

/-- Identifiers are words that do not begin with a digit. -/
def isIdentifier (s : String) : Bool :=
  match s.toList with
  | [] => false
  | c :: rest => !c.isDigit && (c :: rest).all isWordCharacter

structure Literal where
  /-- What stands between the quotes. -/
  spelling : String
  /-- The text that it denotes. -/
  value : String
deriving DecidableEq, Repr

def Literal.ofText (s : String) : Literal := ⟨escape s, s⟩

inductive Token where
  | word (text : String)
  | literal (l : Literal)
  | mark (c : Char)
deriving DecidableEq, Repr

theorem length_of_readLiteral {cs value rest : List Char}
    (h : readLiteral cs = some (value, rest)) : rest.length < cs.length := by
  fun_induction readLiteral cs generalizing value rest with
  | case1 => cases h
  | case2 tail =>
    simp only [Option.some.injEq, Prod.mk.injEq] at h
    rw [← h.2, List.length_cons]
    exact Nat.lt_succ_self _
  | case3 => cases h
  | case4 => cases h
  | case5 tail d after _ hafter _ _ ih =>
    obtain ⟨found, hfound, heq⟩ := Option.map_eq_some_iff.1 h
    simp only [Prod.mk.injEq] at heq
    have hrest := @ih found.1 found.2 hfound
    rw [← heq.2, List.length_cons]
    omega
  | case6 c tail _ _ _ ih =>
    obtain ⟨found, hfound, heq⟩ := Option.map_eq_some_iff.1 h
    simp only [Prod.mk.injEq] at heq
    have hrest := @ih found.1 found.2 hfound
    rw [← heq.2, List.length_cons]
    omega

/-- The tokens of a text, if all of its literals can be read. -/
def tokens? (cs : List Char) : Option (List Token) :=
  match cs with
  | [] => some []
  | c :: rest =>
    if c = ' ' ∨ c = '\n' then tokens? rest
    else if c = '"' then
      match h : readLiteral rest with
      | none => none
      | some (value, after) =>
        have := length_of_readLiteral h
        let spelling := rest.take (rest.length - after.length - 1)
        (tokens? after).map (.literal ⟨String.ofList spelling, String.ofList value⟩ :: ·)
    else if isWordCharacter c then
      have := (List.dropWhile_sublist (l := rest) isWordCharacter).length_le
      (tokens? (rest.dropWhile isWordCharacter)).map
        (.word (String.ofList (c :: rest.takeWhile isWordCharacter)) :: ·)
    else (tokens? rest).map (.mark c :: ·)
termination_by cs.length

/-! ### Steps of the reader -/

theorem tokens?_blank {c : Char} (h : c = ' ' ∨ c = '\n') (rest : List Char) :
    tokens? (c :: rest) = tokens? rest := by
  rw [tokens?, if_pos h]

theorem tokens?_mark {c : Char} (hb : ¬ (c = ' ' ∨ c = '\n')) (hq : c ≠ '"')
    (hw : isWordCharacter c = false) (rest : List Char) :
    tokens? (c :: rest) = (tokens? rest).map (.mark c :: ·) := by
  rw [tokens?, if_neg hb, if_neg hq, if_neg (by simp [hw])]

theorem isWordCharacter_ne {c d : Char} (hc : isWordCharacter c = true)
    (hd : isWordCharacter d = false) : c ≠ d := by
  rintro rfl
  rw [hc] at hd
  cases hd

theorem takeWhile_append_of_all {p : Char → Bool} {w rest : List Char} (hw : ∀ c ∈ w, p c = true)
    (hrest : ∀ c ∈ rest.head?, p c = false) : (w ++ rest).takeWhile p = w := by
  rw [List.takeWhile_append_of_pos hw]
  cases rest with
  | nil => simp
  | cons c rest => simp [hrest c rfl]

theorem dropWhile_append_of_all {p : Char → Bool} {w rest : List Char} (hw : ∀ c ∈ w, p c = true)
    (hrest : ∀ c ∈ rest.head?, p c = false) : (w ++ rest).dropWhile p = rest := by
  rw [List.dropWhile_append_of_pos hw]
  cases rest with
  | nil => simp
  | cons c rest => simp [hrest c rfl]

theorem tokens?_word {c : Char} {w rest : List Char} (hw : ∀ d ∈ c :: w, isWordCharacter d = true)
    (hrest : ∀ d ∈ rest.head?, isWordCharacter d = false) :
    tokens? (c :: w ++ rest) = (tokens? rest).map (.word (String.ofList (c :: w)) :: ·) := by
  have hc := hw c List.mem_cons_self
  have hb : ¬ (c = ' ' ∨ c = '\n') := by
    rintro (rfl | rfl) <;> exact absurd hc (by decide)
  have hq : ¬ c = '"' := isWordCharacter_ne hc (by decide)
  have htail : ∀ d ∈ w, isWordCharacter d = true := fun d hd => hw d (List.mem_cons_of_mem _ hd)
  rw [List.cons_append, tokens?, if_neg hb, if_neg hq, if_pos hc]
  simp only [takeWhile_append_of_all htail hrest, dropWhile_append_of_all htail hrest]

theorem tokens?_quoted (s : String) (rest : List Char) :
    tokens? ((quoted s).toList ++ rest)
      = (tokens? rest).map (.literal (Literal.ofText s) :: ·) := by
  have hlist : (quoted s).toList ++ rest = '"' :: ((escape s).toList ++ '"' :: rest) := by
    simp [quoted]
  have hlength : ((escape s).toList ++ '"' :: rest).length - rest.length - 1
      = (escape s).toList.length := by
    rw [List.length_append, List.length_cons]
    omega
  rw [hlist, tokens?, if_neg (by decide), if_pos rfl]
  split
  · next h => rw [readLiteral_escape] at h; cases h
  · next value after h =>
    rw [readLiteral_escape, Option.some.injEq, Prod.mk.injEq] at h
    obtain ⟨rfl, rfl⟩ := h
    simp only [hlength, List.take_left, String.ofList_toList, Literal.ofText]

/-! ### Texts that are read whatever follows -/

/-- The text is read as these tokens, whatever follows it. -/
def Reads (text : String) (ts : List Token) : Prop :=
  ∀ rest, tokens? (text.toList ++ rest) = (tokens? rest).map (ts ++ ·)

theorem Reads.tokens? {text : String} {ts : List Token} (h : Reads text ts) :
    tokens? text.toList = some ts := by
  have hnil := h []
  rw [List.append_nil] at hnil
  rw [hnil, Code.tokens?]
  simp

theorem Reads.of_eq {text : String} {ts us : List Token} (h : Reads text ts) (heq : ts = us) :
    Reads text us := by
  rwa [← heq]

theorem reads_empty : Reads "" [] := by
  intro rest
  simp

theorem Reads.append {a b : String} {ts us : List Token} (ha : Reads a ts) (hb : Reads b us) :
    Reads (a ++ b) (ts ++ us) := by
  intro rest
  rw [String.toList_append, List.append_assoc, ha, hb, Option.map_map]
  congr 1
  funext more
  simp

theorem reads_quoted (s : String) : Reads (quoted s) [.literal (Literal.ofText s)] :=
  fun rest => tokens?_quoted s rest

/-- What begins with a mark or a blank ends a word before it. -/
theorem Reads.word {w b : String} {us : List Token} (hw : isIdentifier w = true) (hb : Reads b us)
    (hhead : ∃ c ∈ b.toList.head?, isWordCharacter c = false) :
    Reads (w ++ b) (.word w :: us) := by
  intro rest
  obtain ⟨d, hd, hmark⟩ := hhead
  unfold isIdentifier at hw
  split at hw
  · cases hw
  · next c tail hlist =>
    rw [Bool.and_eq_true, List.all_eq_true] at hw
    rw [String.toList_append, hlist, List.append_assoc, tokens?_word hw.2, hb, Option.map_map,
      ← hlist, String.ofList_toList]
    · rfl
    · intro e he
      rw [List.head?_append, hd] at he
      rw [← Option.some.inj he]
      exact hmark

/-! ### Texts that do not end in a word -/

def EndsApart (cs : List Char) : Prop := ∀ c ∈ cs.getLast?, isWordCharacter c = false

theorem EndsApart.tail {c : Char} {cs : List Char} (h : EndsApart (c :: cs)) : EndsApart cs := by
  intro d hd
  refine h d ?_
  rw [Option.mem_def] at hd ⊢
  rw [List.getLast?_cons, hd]
  rfl

theorem EndsApart.dropWhile {cs : List Char} (h : EndsApart cs) (p : Char → Bool) :
    EndsApart (cs.dropWhile p) := by
  intro d hd
  refine h d ?_
  rw [← List.takeWhile_append_dropWhile (p := p) (l := cs), List.getLast?_append,
    Option.mem_def.1 hd]
  rfl

/-- What does not end in a word goes on behind every word in it. -/
theorem EndsApart.dropWhile_ne_nil {c : Char} {cs : List Char} (h : EndsApart (c :: cs))
    (hc : isWordCharacter c = true) : cs.dropWhile isWordCharacter ≠ [] := by
  intro hnil
  obtain ⟨d, hd⟩ := Option.isSome_iff_exists.1 (List.getLast?_isSome.2 (List.cons_ne_nil c cs))
  have hword : isWordCharacter d = true := by
    rcases List.mem_cons.1 (List.mem_of_getLast? hd) with rfl | hmem
    · exact hc
    · exact List.dropWhile_eq_nil_iff.1 hnil d hmem
  rw [h d hd] at hword
  cases hword

theorem head?_dropWhile_append {p : Char → Bool} {cs : List Char} (h : cs.dropWhile p ≠ [])
    (rest : List Char) : ∀ d ∈ (cs.dropWhile p ++ rest).head?, p d = false := by
  intro d hd
  have hnot := List.head?_dropWhile_not p cs
  obtain ⟨e, after, he⟩ := List.exists_cons_of_ne_nil h
  rw [he, List.cons_append] at hd
  rw [he, List.head?_cons] at hnot
  obtain rfl : e = d := Option.some.inj hd
  simpa using hnot

theorem tokens?_append {cs : List Char} {ts : List Token} (h : Code.tokens? cs = some ts)
    (hquote : '"' ∉ cs) (hlast : EndsApart cs) (rest : List Char) :
    Code.tokens? (cs ++ rest) = (Code.tokens? rest).map (ts ++ ·) := by
  fun_induction Code.tokens? cs generalizing ts with
  | case1 =>
    rw [← Option.some.inj h]
    simp
  | case2 c tail hb ih =>
    rw [List.cons_append, tokens?_blank hb]
    exact ih h (fun hm => hquote (List.mem_cons_of_mem _ hm)) hlast.tail
  | case3 => cases h
  | case4 => exact absurd List.mem_cons_self hquote
  | case5 c tail hb hq hw _ ih =>
    obtain ⟨us, hus, rfl⟩ := Option.map_eq_some_iff.1 h
    have hmem : ∀ d ∈ c :: tail.takeWhile isWordCharacter, isWordCharacter d = true := by
      intro d hd
      rcases List.mem_cons.1 hd with rfl | hd
      · exact hw
      · exact List.all_eq_true.1 List.all_takeWhile d hd
    have hnoquote : '"' ∉ tail.dropWhile isWordCharacter := fun hm =>
      hquote (List.mem_cons_of_mem _ ((List.dropWhile_sublist _).subset hm))
    have hword := tokens?_word hmem (head?_dropWhile_append (hlast.dropWhile_ne_nil hw) rest)
    rw [List.cons_append, ← List.append_assoc, List.takeWhile_append_dropWhile] at hword
    rw [List.cons_append, hword, ih hus hnoquote (hlast.tail.dropWhile _), Option.map_map]
    rfl
  | case6 c tail hb hq hw ih =>
    obtain ⟨us, hus, rfl⟩ := Option.map_eq_some_iff.1 h
    rw [List.cons_append, tokens?_mark hb hq (by simpa using hw),
      ih hus (fun hm => hquote (List.mem_cons_of_mem _ hm)) hlast.tail, Option.map_map]
    rfl

/-- A text that does not end in a word is read whatever follows as it is read alone. -/
theorem reads_of_tokens? {text : String} {ts : List Token} (h : Code.tokens? text.toList = some ts)
    (hquote : '"' ∉ text.toList)
    (hlast : text.toList.getLast?.all (!isWordCharacter ·) = true) : Reads text ts := by
  intro rest
  refine tokens?_append h hquote (fun c hc => ?_) rest
  rw [Option.mem_def.1 hc, Option.all_some, Bool.not_eq_true'] at hlast
  exact hlast

end SchemaBinding.Code
