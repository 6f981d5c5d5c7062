import SchemaBinding.Text.Letter
import SchemaBinding.Markup.Fault
import SchemaBinding.Markup.Attribute
import SchemaBinding.Markup.Doctype

/-!
# Tags of a document

`scan` reads the tags of a document in order, up to the end of input or the first fault.  Text,
references, comments, character data, instructions and document type declarations are complete
pieces of markup too, but no tags: they are passed over.

* `scan_text`: text without `<` and `&` is passed over.
* `scan_skipped`, `scan_tag`: a piece of markup is read, and then the rest.
-/

namespace SchemaBinding.Markup

/-- Items read in order, up to the end of input or the first fault. -/
structure Reading (α : Type) where
  items : List α
  fault? : Option Fault
deriving DecidableEq, Repr

namespace Reading

def done {α : Type} : Reading α := ⟨[], none⟩

def stop {α : Type} (fault : Fault) : Reading α := ⟨[], some fault⟩

def cons {α : Type} (item : α) (reading : Reading α) : Reading α :=
  ⟨item :: reading.items, reading.fault?⟩

end Reading

/-- A tag as it is written. -/
inductive Piece where
  | opening (name : String) (attributes : List RawAttribute)
  | closing (name : String)
  | selfClosing (name : String) (attributes : List RawAttribute)
deriving DecidableEq, Repr

/-- Takes the space off the end of a name; a name of nothing but space is kept. -/
def trimName (cs : List Char) : List Char :=
  if cs.all isSpace then cs else (cs.reverse.dropWhile isSpace).reverse

/-- The tag with this text between its angles, if it closes nothing: one that ends in a slash has
no content. -/
def Piece.ofTag (cs : List Char) : Piece :=
  if cs.getLast? = some '/' then
    .selfClosing (name cs.dropLast) (attributes cs.dropLast)
  else .opening (name cs) (attributes cs)
where
  /-- The name ends before the first space. -/
  name (cs : List Char) : String := String.ofList (cs.takeWhile (!isSpace ·))
  /-- The attributes follow the name. -/
  attributes (cs : List Char) : List RawAttribute := readAttributes [] (cs.dropWhile (!isSpace ·))

/-- What follows a document type declaration, read from behind its `<!`. -/
def afterDoctype (cs : List Char) : Except Fault (List Char) :=
  if Text.lowerLetters (cs.take 7) = "doctype".toList then
    match doctypeEnd? none (cs.drop 7) with
    | none => .error (.incomplete .unclosedDoctype)
    | some rest =>
      if ((cs.drop 7).dropWhile isSpace).head? = some '>' then .error (.illFormed .namelessDoctype)
      else .ok rest
  else .error (.incomplete .unclosedDoctype)

/-- What follows a piece that begins with `start` and ends with `mark`. -/
def afterBracketed (start mark : List Char) (fault : SyntaxFault) (cs : List Char) :
    Except Fault (List Char) :=
  match (afterStart? start cs).bind (cut? mark) with
  | some (_, rest) => .ok rest
  | none => .error (.incomplete fault)

/-- What follows a piece that begins with `<!`, read from behind it. -/
def afterBang (cs : List Char) : Except Fault (List Char) :=
  match cs with
  | '-' :: _ => afterBracketed "--".toList "-->".toList .unclosedComment cs
  | '[' :: _ => afterBracketed "[CDATA[".toList "]]>".toList .unclosedCharacterData cs
  | 'D' :: _ => afterDoctype cs
  | 'd' :: _ => afterDoctype cs
  | _ => .error (.incomplete .unknownMarkup)

/-- Whether an instruction that never ends was to be a declaration, by what follows `<?`. -/
def startsDeclaration (cs : List Char) : Bool :=
  match afterStart? "xml".toList cs with
  | some [] => true
  | some (c :: _) => isSpace c || c = '?'
  | none => false

/-- What follows an instruction, read from behind its `<?`.  The mark that ends it is not the one
that begins it. -/
def afterInstruction (cs : List Char) : Except Fault (List Char) :=
  let missing :=
    if startsDeclaration cs then SyntaxFault.unclosedDeclaration else .unclosedInstruction
  match cs with
  | '>' :: _ => .error (.incomplete missing)
  | _ =>
    match cut? "?>".toList cs with
    | some (_, rest) => .ok rest
    | none => .error (.incomplete missing)

/-- Cuts off a tag, read from behind its beginning. -/
def tagText (cs : List Char) : Except Fault (List Char × List Char) :=
  match closingAngle none cs with
  | .ok found => .ok found
  | .error none => .error (.incomplete .unclosedTag)
  | .error (some quote) => .error (.incomplete (.unclosedQuote quote))

/-- Reads a piece of markup from behind its `<`: the tag, if it is one, and what follows. -/
def readMarkup (cs : List Char) : Except Fault (Option Piece × List Char) :=
  match cs with
  | '!' :: rest => (afterBang rest).map (none, ·)
  | '?' :: rest => (afterInstruction rest).map (none, ·)
  | '/' :: rest =>
    (tagText rest).map fun found => (some (.closing (String.ofList (trimName found.1))), found.2)
  | _ => (tagText cs).map fun found => (some (.ofTag found.1), found.2)

/-- What follows a reference, read from behind its `&`. -/
def afterReference? (cs : List Char) : Option (List Char) :=
  match cs.dropWhile fun c => c ≠ ';' && c ≠ '&' && c ≠ '<' with
  | ';' :: rest => some rest
  | _ => none

/-! ### What follows is shorter -/

theorem map_eq_ok {ε α β : Type} {f : α → β} {x : Except ε α} {b : β} (h : x.map f = .ok b) :
    ∃ a, x = .ok a ∧ f a = b := by
  cases x with
  | error e => simp [Except.map] at h
  | ok a => exact ⟨a, rfl, by simpa [Except.map] using h⟩

theorem length_of_afterBracketed {start mark cs rest : List Char} {fault : SyntaxFault}
    (h : afterBracketed start mark fault cs = .ok rest) : rest.length ≤ cs.length := by
  simp only [afterBracketed] at h
  split at h
  · next hb =>
    simp only [Except.ok.injEq] at h
    subst h
    obtain ⟨body, hs, hc⟩ := Option.bind_eq_some_iff.1 hb
    exact Nat.le_trans (length_of_cut? hc) (length_of_afterStart? hs)
  · simp at h

theorem length_of_afterDoctype {cs rest : List Char} (h : afterDoctype cs = .ok rest) :
    rest.length ≤ cs.length := by
  simp only [afterDoctype] at h
  split at h
  · split at h
    · simp at h
    · next hd =>
      split at h
      · simp at h
      · simp only [Except.ok.injEq] at h
        subst h
        have := length_of_doctypeEnd? hd
        rw [List.length_drop] at this
        omega
  · simp at h

theorem length_of_afterBang {cs rest : List Char} (h : afterBang cs = .ok rest) :
    rest.length ≤ cs.length := by
  simp only [afterBang] at h
  split at h
  · exact length_of_afterBracketed h
  · exact length_of_afterBracketed h
  · exact length_of_afterDoctype h
  · exact length_of_afterDoctype h
  · simp at h

theorem length_of_afterInstruction {cs rest : List Char} (h : afterInstruction cs = .ok rest) :
    rest.length ≤ cs.length := by
  simp only [afterInstruction] at h
  split at h
  · simp at h
  · split at h
    · next hc =>
      simp only [Except.ok.injEq] at h
      subst h
      exact length_of_cut? hc
    · simp at h

theorem length_of_tagText {cs text rest : List Char} (h : tagText cs = .ok (text, rest)) :
    rest.length ≤ cs.length := by
  simp only [tagText] at h
  split at h
  · next hc =>
    simp only [Except.ok.injEq] at h
    subst h
    exact length_of_closingAngle hc
  · simp at h
  · simp at h

theorem length_of_readMarkup {cs rest : List Char} {piece? : Option Piece}
    (h : readMarkup cs = .ok (piece?, rest)) : rest.length ≤ cs.length := by
  simp only [readMarkup] at h
  split at h
  · obtain ⟨r, hr, he⟩ := map_eq_ok h
    simp only [Prod.mk.injEq] at he
    have := length_of_afterBang hr
    simp only [List.length_cons, ← he.2]
    omega
  · obtain ⟨r, hr, he⟩ := map_eq_ok h
    simp only [Prod.mk.injEq] at he
    have := length_of_afterInstruction hr
    simp only [List.length_cons, ← he.2]
    omega
  · obtain ⟨⟨text, r⟩, hr, he⟩ := map_eq_ok h
    simp only [Prod.mk.injEq] at he
    have := length_of_tagText hr
    simp only [List.length_cons, ← he.2]
    omega
  · obtain ⟨⟨text, r⟩, hr, he⟩ := map_eq_ok h
    simp only [Prod.mk.injEq] at he
    rw [← he.2]
    exact length_of_tagText hr

theorem length_of_afterReference? {cs rest : List Char} (h : afterReference? cs = some rest) :
    rest.length ≤ cs.length := by
  simp only [afterReference?] at h
  split at h
  · next hd =>
    simp only [Option.some.injEq] at h
    subst h
    have := (List.dropWhile_suffix (fun c => c ≠ ';' && c ≠ '&' && c ≠ '<') (l := cs)).length_le
    rw [hd, List.length_cons] at this
    omega
  · simp at h

/-! ### The document -/

def scan (cs : List Char) : Reading Piece :=
  match cs with
  | [] => .done
  | c :: rest =>
    if c = '<' then
      if rest = [] then .stop (.incomplete .unclosedTag)
      else
        match h : readMarkup rest with
        | .error fault => .stop fault
        | .ok (none, after) =>
          have := length_of_readMarkup h
          scan after
        | .ok (some piece, after) =>
          have := length_of_readMarkup h
          (scan after).cons piece
    else if c = '&' then
      match h : afterReference? rest with
      | none => .stop (.illFormed .unclosedReference)
      | some after =>
        have := length_of_afterReference? h
        scan after
    else scan rest
termination_by cs.length

@[simp] theorem scan_nil : scan [] = .done := by rw [scan]

/-- Text without `<` and `&` is passed over. -/
theorem scan_text {text : List Char} (h : ∀ c ∈ text, c ≠ '<' ∧ c ≠ '&') (rest : List Char) :
    scan (text ++ rest) = scan rest := by
  induction text with
  | nil => rfl
  | cons c text ih =>
    obtain ⟨h1, h2⟩ := h c (by simp)
    rw [List.cons_append, scan]
    simp only [h1, h2, if_false]
    exact ih fun d hd => h d (by simp [hd])

/-- A piece of markup that is no tag is passed over. -/
theorem scan_skipped {cs after : List Char} (h : readMarkup cs = .ok (none, after))
    (hne : cs ≠ []) : scan ('<' :: cs) = scan after := by
  rw [scan]
  simp only [if_true, hne, if_false]
  split
  · next heq => rw [h] at heq; simp at heq
  · next heq =>
    rw [h] at heq
    simp only [Except.ok.injEq, Prod.mk.injEq, true_and] at heq
    rw [heq]
  · next heq => rw [h] at heq; simp at heq

/-- A tag is read, and then the rest. -/
theorem scan_tag {cs after : List Char} {piece : Piece} (h : readMarkup cs = .ok (some piece, after))
    (hne : cs ≠ []) : scan ('<' :: cs) = (scan after).cons piece := by
  rw [scan]
  simp only [if_true, hne, if_false]
  split
  · next heq => rw [h] at heq; simp at heq
  · next heq => rw [h] at heq; simp at heq
  · next heq =>
    rw [h] at heq
    simp only [Except.ok.injEq, Prod.mk.injEq, Option.some.injEq] at heq
    rw [heq.1, heq.2]

end SchemaBinding.Markup
