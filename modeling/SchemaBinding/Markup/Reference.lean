import SchemaBinding.Markup.Fault

/-!
# References in attribute values

`unescape` replaces the references of an attribute value: the five named characters and the
character numbers.  What stands for a reference is not read again.

* `unescapeFrom_reference`: a reference is read by its name alone.
-/

namespace SchemaBinding.Markup

def namedCharacters : List (List Char × Char) :=
  [(['l', 't'], '<'), (['g', 't'], '>'), (['a', 'm', 'p'], '&'), (['a', 'p', 'o', 's'], '\''),
   (['q', 'u', 'o', 't'], '"')]

/-- The value of a digit in a base of at most sixteen. -/
def digitValue? (base : Nat) (c : Char) : Option Nat :=
  let value? :=
    if '0' ≤ c ∧ c ≤ '9' then some (c.toNat - '0'.toNat)
    else if 'a' ≤ c ∧ c ≤ 'f' then some (c.toNat - 'a'.toNat + 10)
    else if 'A' ≤ c ∧ c ≤ 'F' then some (c.toNat - 'A'.toNat + 10)
    else none
  value?.filter (· < base)

/-- Reads digits after a number already read; the number must stay below `2 ^ 32`. -/
def readDigits (base : Nat) : Nat → List Char → Except CharacterFault Nat
  | n, [] => .ok n
  | n, c :: rest =>
    match digitValue? base c with
    | none => .error .invalidDigit
    | some d => if n * base + d < 2 ^ 32 then readDigits base (n * base + d) rest
      else .error .tooLarge

/-- The number that the digits of a character reference write: after `x` in base sixteen,
otherwise in base ten. -/
def characterNumber (cs : List Char) : Except CharacterFault Nat :=
  let (base, digits) := match cs with
    | 'x' :: rest => (16, rest)
    | _ => (10, cs)
  match digits with
  | [] => .error .empty
  | c :: _ => if c = '+' ∨ c = '-' then .error .signed else readDigits base 0 digits

/-- The character with this number; none has the number zero. -/
def characterOf (code : Nat) : Except CharacterFault Char :=
  if code = 0 then .error .zero
  else if h : code.isValidChar then .ok (Char.ofNatAux code h)
  else .error (.notScalar code)

def byteLength : List Char → Nat
  | [] => 0
  | c :: rest => c.utf8Size + byteLength rest

/-- The character that a reference stands for.  `start` is the place of the name, after the `&`. -/
def dereference (start : Nat) (name : List Char) : Except EscapeFault Char :=
  match name with
  | '#' :: number =>
    match characterNumber number >>= characterOf with
    | .ok c => .ok c
    | .error fault => .error (.character fault)
  | _ =>
    match namedCharacters.lookup name with
    | some c => .ok c
    | none => .error (.unknownEntity start (start + byteLength name) (String.ofList name))

/-- Replaces the references of a text that begins `place` bytes into a value of `total` bytes. -/
def unescapeFrom (total place : Nat) (cs : List Char) : Except EscapeFault (List Char) :=
  match cs with
  | [] => .ok []
  | c :: rest =>
    if c = '&' then
      let name := rest.takeWhile fun d => d ≠ '&' ∧ d ≠ ';'
      match h : rest.dropWhile fun d => d ≠ '&' ∧ d ≠ ';' with
      | ';' :: after => do
        let character ← dereference (place + 1) name
        let value ← unescapeFrom total (place + 1 + byteLength name + 1) after
        return character :: value
      | _ => .error (.unterminated place total)
    else do
      let value ← unescapeFrom total (place + c.utf8Size) rest
      return c :: value
termination_by cs.length
decreasing_by
  · have hsuffix : rest.dropWhile (fun d => decide (d ≠ '&' ∧ d ≠ ';')) <:+ rest :=
      List.dropWhile_suffix _
    have := hsuffix.length_le
    simp only [h, List.length_cons] at this
    simp only [List.length_cons]
    omega
  · simp

def unescape (value : String) : Except EscapeFault String :=
  (unescapeFrom value.utf8ByteSize 0 value.toList).map String.ofList

/-! ### Text and named characters -/

theorem unescapeFrom_cons_plain {c : Char} (hc : c ≠ '&') (total place : Nat) (rest : List Char) :
    unescapeFrom total place (c :: rest)
      = (unescapeFrom total (place + c.utf8Size) rest).map (c :: ·) := by
  rw [unescapeFrom]
  simp only [hc, if_false]
  cases unescapeFrom total (place + c.utf8Size) rest <;> rfl

/-- A reference is read by its name alone. -/
theorem unescapeFrom_reference {name : List Char} (h : ∀ d ∈ name, d ≠ '&' ∧ d ≠ ';')
    (total place : Nat) (rest : List Char) :
    unescapeFrom total place ('&' :: (name ++ ';' :: rest)) = (do
      let character ← dereference (place + 1) name
      let value ← unescapeFrom total (place + 1 + byteLength name + 1) rest
      return character :: value) := by
  have htake : (name ++ ';' :: rest).takeWhile (fun d => decide (d ≠ '&' ∧ d ≠ ';')) = name := by
    rw [List.takeWhile_append_of_pos (by simpa using h)]
    simp
  have hdrop : (name ++ ';' :: rest).dropWhile (fun d => decide (d ≠ '&' ∧ d ≠ ';'))
      = ';' :: rest := by
    rw [List.dropWhile_append_of_pos (by simpa using h)]
    simp
  rw [unescapeFrom]
  simp only [if_true, htake]
  split
  · next after heq =>
    rw [hdrop] at heq
    simp only [List.cons.injEq, true_and] at heq
    rw [heq]
  · next hne => exact absurd hdrop (hne rest)

end SchemaBinding.Markup
