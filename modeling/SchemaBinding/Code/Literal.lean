/-!
# String literals

`escape` writes a text so that it can stand between the quotes of a string literal, and `quoted`
adds the quotes.  `readLiteral` reads a literal from behind its first quote.  A control character
without a letter of its own is written with three octal digits: an octal escape takes as many digits
as it can, up to three, so no digit that follows can be taken for part of it.

* `escape_append`: texts are escaped piece by piece.
* `escapeCharacter_cases`: a character stands for itself, or a backslash is written first.
* `isControl_of_mem_escape`: what is written between quotes is printed.
* `readLiteral_escapeCharacter`: a character is read back, whatever follows it.
* `readLiteral_escape`: a text is read back, and the literal ends at the quote behind it.
-/

namespace SchemaBinding.Code

def octalDigit (n : Nat) : Char := Char.ofNat ('0'.toNat + n % 8)

/-- The characters of ASCII that are not printed. -/
def isControl (c : Char) : Bool := c.toNat < 0x20 || c.toNat = 0x7F

def escapeCharacter (c : Char) : List Char :=
  if c = '"' then ['\\', '"']
  else if c = '\\' then ['\\', '\\']
  else if c = '\n' then ['\\', 'n']
  else if c = '\t' then ['\\', 't']
  else if c = '\r' then ['\\', 'r']
  else if isControl c then
    ['\\', octalDigit (c.toNat / 64), octalDigit (c.toNat / 8), octalDigit c.toNat]
  else [c]

/-- A text as it is written between quotes. -/
def escape (s : String) : String := String.ofList (s.toList.flatMap escapeCharacter)

def quoted (s : String) : String := "\"" ++ escape s ++ "\""

/-! ### Reading -/

/-- The character that a letter stands for behind a backslash. -/
def letterEscape? (c : Char) : Option Char :=
  [('"', '"'), ('\\', '\\'), ('\'', '\''), ('?', '?'), ('n', '\n'), ('t', '\t'), ('r', '\r'),
    ('a', '\x07'), ('b', '\x08'), ('v', '\x0b'), ('f', '\x0c')].lookup c

def octalValue? (c : Char) : Option Nat :=
  if '0' ≤ c ∧ c ≤ '7' then some (c.toNat - '0'.toNat) else none

/-- Reads octal digits behind a number already read, as many as there are up to a count. -/
def readOctal : Nat → Nat → List Char → Nat × List Char
  | 0, n, cs => (n, cs)
  | _ + 1, n, [] => (n, [])
  | count + 1, n, c :: rest =>
    match octalValue? c with
    | some digit => readOctal count (n * 8 + digit) rest
    | none => (n, c :: rest)

/-- Reads what follows a backslash: a letter, or up to three octal digits for a character of
ASCII. -/
def readEscape : List Char → Option (Char × List Char)
  | [] => none
  | c :: rest =>
    match letterEscape? c, octalValue? c with
    | some d, _ => some (d, rest)
    | none, none => none
    | none, some digit =>
      let (code, after) := readOctal 2 digit rest
      if code < 128 then some (Char.ofNat code, after) else none

theorem length_readOctal (count n : Nat) (cs : List Char) :
    (readOctal count n cs).2.length ≤ cs.length := by
  induction count generalizing n cs with
  | zero => exact Nat.le_refl _
  | succ count ih =>
    cases cs with
    | nil => exact Nat.le_refl _
    | cons c rest =>
      simp only [readOctal]
      split
      · exact Nat.le_succ_of_le (ih _ rest)
      · exact Nat.le_refl _

theorem length_of_readEscape {cs rest : List Char} {c : Char}
    (h : readEscape cs = some (c, rest)) : rest.length < cs.length := by
  cases cs with
  | nil => simp [readEscape] at h
  | cons d tail =>
    simp only [readEscape] at h
    split at h
    · simp only [Option.some.injEq, Prod.mk.injEq] at h
      simp [← h.2]
    · simp at h
    · next digit _ _ =>
      split at h
      · simp only [Option.some.injEq, Prod.mk.injEq] at h
        rw [← h.2, List.length_cons]
        exact Nat.lt_succ_of_le (length_readOctal 2 digit tail)
      · simp at h

/-- Reads a literal from behind its first quote: its text and what follows the quote that ends
it. -/
def readLiteral (cs : List Char) : Option (List Char × List Char) :=
  match cs with
  | [] => none
  | c :: rest =>
    if c = '"' then some ([], rest)
    else if c = '\n' then none
    else if c = '\\' then
      match h : readEscape rest with
      | none => none
      | some (d, after) =>
        have := length_of_readEscape h
        (readLiteral after).map fun found => (d :: found.1, found.2)
    else (readLiteral rest).map fun found => (c :: found.1, found.2)
termination_by cs.length

/-! ### What is written is read back -/

theorem escape_append (s t : String) : escape (s ++ t) = escape s ++ escape t := by
  rw [← String.toList_inj]
  simp [escape]

theorem octalDigit_lt (n : Nat) : ∃ k, k < 8 ∧ n % 8 = k ∧ octalDigit n = Char.ofNat (48 + k) :=
  ⟨n % 8, Nat.mod_lt n (by decide), rfl, rfl⟩

theorem octalValue?_octalDigit (n : Nat) : octalValue? (octalDigit n) = some (n % 8) := by
  obtain ⟨k, hk, hn, hd⟩ := octalDigit_lt n
  have key : ∀ j : Fin 8, octalValue? (Char.ofNat (48 + j.val)) = some j.val := by decide
  rw [hd, hn]
  exact key ⟨k, hk⟩

theorem letterEscape?_octalDigit (n : Nat) : letterEscape? (octalDigit n) = none := by
  obtain ⟨k, hk, -, hd⟩ := octalDigit_lt n
  have key : ∀ j : Fin 8, letterEscape? (Char.ofNat (48 + j.val)) = none := by decide
  rw [hd]
  exact key ⟨k, hk⟩

/-- Three octal digits are read as the number that they write. -/
theorem readEscape_octal {n : Nat} (h : n < 128) (rest : List Char) :
    readEscape (octalDigit (n / 64) :: octalDigit (n / 8) :: octalDigit n :: rest)
      = some (Char.ofNat n, rest) := by
  have hcode : (n / 64 % 8 * 8 + n / 8 % 8) * 8 + n % 8 = n := by omega
  simp only [readEscape, readOctal, letterEscape?_octalDigit, octalValue?_octalDigit, hcode, h,
    if_true]

/-- A character that stands for itself between quotes. -/
def IsVerbatim (c : Char) : Prop := c ≠ '"' ∧ c ≠ '\\' ∧ isControl c = false

instance (c : Char) : Decidable (IsVerbatim c) := inferInstanceAs (Decidable (_ ∧ _))

theorem isVerbatim_octalDigit (n : Nat) : IsVerbatim (octalDigit n) := by
  obtain ⟨k, hk, -, hd⟩ := octalDigit_lt n
  have key : ∀ j : Fin 8, IsVerbatim (Char.ofNat (48 + j.val)) := by decide
  rw [hd]
  exact key ⟨k, hk⟩

/-- **How a character is written.**  It stands for itself, or a backslash is written with a
character behind it, and then maybe digits. -/
theorem escapeCharacter_cases (c : Char) :
    (escapeCharacter c = [c] ∧ IsVerbatim c)
    ∨ ∃ d digits, escapeCharacter c = '\\' :: d :: digits ∧ isControl d = false
      ∧ ∀ digit ∈ digits, IsVerbatim digit := by
  unfold escapeCharacter
  split
  · exact Or.inr ⟨_, [], rfl, by decide, nofun⟩
  split
  · exact Or.inr ⟨_, [], rfl, by decide, nofun⟩
  split
  · exact Or.inr ⟨_, [], rfl, by decide, nofun⟩
  split
  · exact Or.inr ⟨_, [], rfl, by decide, nofun⟩
  split
  · exact Or.inr ⟨_, [], rfl, by decide, nofun⟩
  split
  · refine Or.inr ⟨_, _, rfl, (isVerbatim_octalDigit _).2.2, ?_⟩
    intro digit hdigit
    simp only [List.mem_cons, List.not_mem_nil, or_false] at hdigit
    rcases hdigit with rfl | rfl <;> exact isVerbatim_octalDigit _
  · next hquote hslash _ _ _ hcontrol =>
    exact Or.inl ⟨rfl, hquote, hslash, Bool.eq_false_iff.2 hcontrol⟩

/-- What is written between quotes is printed. -/
theorem isControl_of_mem_escape {s : String} {d : Char} (hd : d ∈ (escape s).toList) :
    isControl d = false := by
  rw [escape, String.toList_ofList] at hd
  obtain ⟨c, -, hd⟩ := List.mem_flatMap.1 hd
  rcases escapeCharacter_cases c with ⟨hc, hverbatim⟩ | ⟨e, digits, hc, he, hdigits⟩
  · rw [hc, List.mem_singleton] at hd
    rw [hd]
    exact hverbatim.2.2
  · rw [hc, List.mem_cons, List.mem_cons] at hd
    rcases hd with rfl | rfl | hd
    · decide
    · exact he
    · exact (hdigits d hd).2.2

theorem toNat_lt_of_isControl {c : Char} (h : isControl c = true) : c.toNat < 128 := by
  simp only [isControl, Bool.or_eq_true, decide_eq_true_eq] at h
  omega

theorem readLiteral_backslash {cs rest : List Char} {c : Char}
    (h : readEscape cs = some (c, rest)) :
    readLiteral ('\\' :: cs) = (readLiteral rest).map fun found => (c :: found.1, found.2) := by
  have hquote : ¬ ('\\' : Char) = '"' := by decide
  have hline : ¬ ('\\' : Char) = '\n' := by decide
  rw [readLiteral]
  simp only [hquote, hline, if_false, if_true]
  split
  · next heq => rw [h] at heq; simp at heq
  · next heq =>
    rw [h] at heq
    simp only [Option.some.injEq, Prod.mk.injEq] at heq
    rw [heq.1, heq.2]

/-- A character is read back, whatever follows it. -/
theorem readLiteral_escapeCharacter (c : Char) (rest : List Char) :
    readLiteral (escapeCharacter c ++ rest)
      = (readLiteral rest).map fun found => (c :: found.1, found.2) := by
  by_cases hquote : c = '"'
  · subst hquote; exact readLiteral_backslash rfl
  by_cases hslash : c = '\\'
  · subst hslash; exact readLiteral_backslash rfl
  by_cases hline : c = '\n'
  · subst hline; exact readLiteral_backslash rfl
  by_cases htab : c = '\t'
  · subst htab; exact readLiteral_backslash rfl
  by_cases hreturn : c = '\r'
  · subst hreturn; exact readLiteral_backslash rfl
  by_cases hcontrol : isControl c = true
  · simp only [escapeCharacter, hquote, hslash, hline, htab, hreturn, hcontrol, if_false, if_true]
    refine readLiteral_backslash ?_
    have key := readEscape_octal (toNat_lt_of_isControl hcontrol) rest
    rwa [Char.ofNat_toNat] at key
  · have hplain : escapeCharacter c = [c] := by
      simp [escapeCharacter, hquote, hslash, hline, htab, hreturn, hcontrol]
    rw [hplain, List.singleton_append, readLiteral]
    simp only [hquote, hslash, hline, if_false]

/-- A text is read back, and the literal ends at the quote behind it. -/
theorem readLiteral_escape (s : String) (rest : List Char) :
    readLiteral ((escape s).toList ++ '"' :: rest) = some (s.toList, rest) := by
  rw [escape, String.toList_ofList]
  induction s.toList with
  | nil => rw [List.flatMap_nil, List.nil_append, readLiteral]; simp
  | cons c cs ih =>
    rw [List.flatMap_cons, List.append_assoc, readLiteral_escapeCharacter, ih]
    rfl

end SchemaBinding.Code
