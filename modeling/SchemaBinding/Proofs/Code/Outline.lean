import SchemaBinding.Code.Unit
import SchemaBinding.Proofs.Code.Line

/-!
# Outlines of units

`outline` reads a unit line by line and answers what its lines say.  A brace on a line of its own
opens a block, and the line above tells which: the namespace of an enum, a class, the body of a
function or some other body.  What a line says depends on the innermost block: in a class a line
that ends in a semicolon is a field unless it declares a function, and in a body every line that is
not blank is a statement.

`Yields frames lines entries` says that, with certain blocks open, lines are read as entries and
leave the same blocks open, whatever the line before them is.

* `Yields.append`, `Yields.flatMap`: lines are read one after the other.
* `yields_line`, `yields_block`: a line, and a block with what is in it.
* `yields_function`: the definition of a function.
* `outline_unlines`: the outline of a unit is what its lines are read as.
-/

namespace SchemaBinding.Code

inductive Frame where
  /-- The namespace of an enum. -/
  | space (name : String)
  /-- A class. -/
  | type (name : String)
  /-- A body, by the line above it. -/
  | body (owner : String)
deriving DecidableEq, Repr

/-- The name that qualifies what is declared in a block. -/
def Frame.scope? : Frame → Option String
  | space name | type name => some name
  | body _ => none

inductive Entry where
  | included (file : String)
  | opened (nameSpace : String)
  | closed (nameSpace : String)
  /-- A class is announced. -/
  | forward (className : String)
  /-- The namespace of an enum begins. -/
  | enumBlock (name : String)
  /-- A class begins, with what it is derived from. -/
  | classBlock (name base : String)
  | field (className text : String)
  /-- A function is declared in an enum, in a class, or outside of both. -/
  | declared (scope? : Option String) (text : String)
  /-- A function with a body. -/
  | defined (scope? : Option String) (text : String)
  /-- A line of a body. -/
  | statement (owner text : String)
deriving DecidableEq, Repr

/-! ### Lines of a kind -/

def IsSignature (text : String) : Prop :=
  '(' ∈ text.toList ∧ (")".toList <:+ text.toList ∨ ") const".toList <:+ text.toList)

def IsDeclaration (text : String) : Prop :=
  '(' ∈ text.toList ∧ text.toList.getLast? = some ';'

def IsBrace (text : String) : Prop := text = "\x7b" ∨ text = "\x7d" ∨ text = "\x7d;"

/-- A text that is one line and says something by itself. -/
structure Legible (text : String) : Prop where
  unbroken : '\n' ∉ text.toList
  noBrace : ¬ IsBrace text

instance (text : String) : Decidable (IsSignature text) := inferInstanceAs (Decidable (_ ∧ _))

instance (text : String) : Decidable (IsDeclaration text) := inferInstanceAs (Decidable (_ ∧ _))

instance (text : String) : Decidable (IsBrace text) := inferInstanceAs (Decidable (_ ∨ _))

/-- The name of a class and what it is derived from. -/
def classHead? (text : String) : Option (String × String) := do
  let rest ← behind? "class " text.toList
  let name := String.ofList (rest.takeWhile isWordCharacter)
  let base ← behind? " : public " (rest.dropWhile isWordCharacter)
  if isIdentifier name then some (name, String.ofList base) else none

/-- What a line outside of all blocks says. -/
def entryOf? (text : String) : Option Entry :=
  if IsDeclaration text then some (.declared none text)
  else
    (between? "#include \"" "\"" text).map .included
      <|> (nameBetween? "namespace " " \x7b" text).map .opened
      <|> (nameBetween? "\x7d // namespace " "" text).map .closed
      <|> (nameBetween? "class " ";" text).map .forward

/-- What a line says, by the innermost block. -/
def entries (innermost : Option Frame) (text : String) : List Entry :=
  match innermost with
  | none => (entryOf? text).toList
  | some (.space name) => if IsDeclaration text then [.declared (some name) text] else []
  | some (.type name) =>
    if IsDeclaration text then [.declared (some name) text]
    else if text.toList.getLast? = some ';' then [.field name text]
    else []
  | some (.body owner) => if text = "" then [] else [.statement owner text]

/-- The block that a brace opens below a line, and what the line says with it. -/
def block (innermost : Option Frame) (above : String) : Frame × List Entry :=
  match innermost with
  | some (.body owner) => (.body owner, [])
  | _ =>
    if IsSignature above then (.body above, [.defined (innermost.bind Frame.scope?) above])
    else
      match nameBetween? "namespace " "" above, classHead? above with
      | some name, _ => (.space name, [.enumBlock name])
      | none, some (name, base) => (.type name, [.classBlock name base])
      | none, none => (.body above, [])

/-! ### The reader -/

def dropBlanks : Nat → List Char → List Char
  | n + 1, ' ' :: rest => dropBlanks n rest
  | _, cs => cs

/-- A line without what it is moved in by, that many levels deep. -/
def unindented (depth : Nat) (line : String) : String :=
  String.ofList (dropBlanks (4 * depth) line.toList)

structure Reader where
  /-- The blocks that are open, innermost first. -/
  frames : List Frame
  /-- The line before. -/
  above : String
deriving DecidableEq, Repr

namespace Reader

def step (r : Reader) (line : String) : Reader × List Entry :=
  let text := unindented r.frames.length line
  if text = "\x7b" then
    let (frame, found) := block r.frames.head? r.above
    (⟨frame :: r.frames, ""⟩, found)
  else if text = "\x7d" ∨ text = "\x7d;" then (⟨r.frames.tail, ""⟩, [])
  else (⟨r.frames, text⟩, entries r.frames.head? text)

def run (r : Reader) : List String → Reader × List Entry
  | [] => (r, [])
  | line :: rest =>
    let (next, found) := r.step line
    let (last, others) := next.run rest
    (last, found ++ others)

theorem run_cons (r : Reader) (line : String) (rest : List String) :
    r.run (line :: rest)
      = (((r.step line).1.run rest).1, (r.step line).2 ++ ((r.step line).1.run rest).2) := rfl

theorem run_append (r : Reader) (first second : List String) :
    r.run (first ++ second)
      = (((r.run first).1.run second).1, (r.run first).2 ++ ((r.run first).1.run second).2) := by
  induction first generalizing r with
  | nil => rfl
  | cons line rest ih => simp only [List.cons_append, run_cons, ih, List.append_assoc]

end Reader

/-- What the lines of a unit say, in order. -/
def outline (unit : String) : List Entry := (Reader.run ⟨[], ""⟩ (Text.lines unit)).2

/-- A character that tells a text from a brace. -/
theorem Legible.of_mem {text : String} (hline : '\n' ∉ text.toList) {c : Char}
    (hmem : c ∈ text.toList) (hc : c ∉ ['\x7b', '\x7d', ';']) : Legible text := by
  refine ⟨hline, ?_⟩
  have hother : ∀ other : String,
      (∀ d ∈ other.toList, d ∈ ['\x7b', '\x7d', ';']) → text ≠ other := by
    rintro other hall rfl
    exact hc (hall c hmem)
  rintro (h | h | h)
  · exact hother _ (by simp) h
  · exact hother _ (by simp) h
  · exact hother _ (by simp) h

theorem not_isDeclaration_of_last {text : String} {c : Char} (h : text.toList.getLast? = some c)
    (hc : c ≠ ';') : ¬ IsDeclaration text := by
  rintro ⟨-, hlast⟩
  exact hc (Option.some.inj (h.symm.trans hlast))

theorem not_isDeclaration_of_notMem {text : String} (h : '(' ∉ text.toList) :
    ¬ IsDeclaration text := fun hdeclaration => h hdeclaration.1

theorem legible_empty : Legible "" := ⟨by decide, by decide⟩

/-! ### Levels -/

theorem unindented_zero (line : String) : unindented 0 line = line := by
  simp [unindented, dropBlanks]

theorem unindented_indent (depth : Nat) (line : String) :
    unindented (depth + 1) (indent line) = unindented depth line := by
  rw [unindented, unindented, indent, String.toList_append]
  rfl

/-- A line that is moved in by fewer levels than are taken off. -/
theorem unindented_iterate (extra depth : Nat) (line : String) :
    unindented (depth + extra) (indent^[depth] line) = unindented extra line := by
  induction depth with
  | zero => rw [Nat.zero_add, Function.iterate_zero, id]
  | succ depth ih =>
    rw [Function.iterate_succ_apply', Nat.add_right_comm, unindented_indent, ih]

theorem unindented_self (depth : Nat) (line : String) :
    unindented depth (indent^[depth] line) = line := by
  exact (unindented_iterate 0 depth line).trans (unindented_zero line)

theorem unbroken_indent {line : String} (h : '\n' ∉ line.toList) : '\n' ∉ (indent line).toList := by
  simp [indent, h]

theorem unbroken_iterate {line : String} (h : '\n' ∉ line.toList) (depth : Nat) :
    '\n' ∉ (indent^[depth] line).toList := by
  induction depth with
  | zero => exact h
  | succ depth ih =>
    rw [Function.iterate_succ_apply']
    exact unbroken_indent ih

namespace Reader

variable {frames : List Frame}

theorem step_line {line text : String} (above : String)
    (htext : unindented frames.length line = text) (hbrace : ¬ IsBrace text) :
    step ⟨frames, above⟩ line = (⟨frames, text⟩, entries frames.head? text) := by
  rw [IsBrace, not_or] at hbrace
  simp only [step, htext, if_neg hbrace.1, if_neg hbrace.2]

theorem step_open {above : String} {frame : Frame} {found : List Entry}
    (h : block frames.head? above = (frame, found)) :
    step ⟨frames, above⟩ (indent^[frames.length] "\x7b") = (⟨frame :: frames, ""⟩, found) := by
  simp only [step, unindented_self, if_true, h]

theorem step_close (frame : Frame) (above : String) {closing : String}
    (h : closing = "\x7d" ∨ closing = "\x7d;") :
    step ⟨frame :: frames, above⟩ (indent^[frames.length] closing) = (⟨frames, ""⟩, []) := by
  have htext : unindented (frame :: frames).length (indent^[frames.length] closing) = closing := by
    rw [List.length_cons, unindented_iterate]
    rcases h with rfl | rfl <;> rfl
  have hopen : closing ≠ "\x7b" := by rcases h with rfl | rfl <;> decide
  simp only [step, htext, if_neg hopen, if_pos h, List.tail_cons]

end Reader

/-! ### What lines are read as -/

/-- With blocks open, lines are read as entries: they are not broken, they leave the same blocks
open, and this is what they say, whatever the line before them is. -/
structure Yields (frames : List Frame) (lines : List String) (found : List Entry) : Prop where
  unbroken : ∀ line ∈ lines, '\n' ∉ line.toList
  run : ∀ above, ∃ last, Reader.run ⟨frames, above⟩ lines = (⟨frames, last⟩, found)

theorem outline_unlines {lines : List String} {found : List Entry} (h : Yields [] lines found) :
    outline (Text.unlines lines) = found := by
  obtain ⟨last, hrun⟩ := h.run ""
  rw [outline, Text.lines_unlines h.unbroken, hrun]

variable {frames : List Frame}

theorem Yields.nil : Yields frames [] [] := ⟨by simp, fun above => ⟨above, rfl⟩⟩

theorem Yields.append {first second : List String} {found others : List Entry}
    (h : Yields frames first found) (k : Yields frames second others) :
    Yields frames (first ++ second) (found ++ others) := by
  refine ⟨?_, fun above => ?_⟩
  · intro line hline
    exact (List.mem_append.1 hline).elim (h.unbroken line) (k.unbroken line)
  · obtain ⟨middle, hfirst⟩ := h.run above
    obtain ⟨last, hsecond⟩ := k.run middle
    exact ⟨last, by rw [Reader.run_append, hfirst, hsecond]⟩

theorem Yields.flatMap {α : Type} {items : List α} {f : α → List String} {g : α → List Entry}
    (h : ∀ a ∈ items, Yields frames (f a) (g a)) :
    Yields frames (items.flatMap f) (items.flatMap g) := by
  induction items with
  | nil => exact .nil
  | cons a rest ih =>
    rw [List.flatMap_cons, List.flatMap_cons]
    exact (h a List.mem_cons_self).append (ih fun b hb => h b (List.mem_cons_of_mem _ hb))

/-- Each line of a list says one thing. -/
theorem Yields.map {α : Type} {items : List α} {f : α → String} {g : α → Entry}
    (h : ∀ a ∈ items, Yields frames [f a] [g a]) : Yields frames (items.map f) (items.map g) := by
  rw [List.map_eq_flatMap, List.map_eq_flatMap]
  exact .flatMap h

/-- **A line without a brace** says what its text says in the innermost block. -/
theorem yields_line {line text : String} (hline : '\n' ∉ line.toList)
    (htext : unindented frames.length line = text) (hbrace : ¬ IsBrace text) :
    Yields frames [line] (entries frames.head? text) := by
  refine ⟨?_, fun above => ⟨text, ?_⟩⟩
  · intro other hother
    rw [List.mem_singleton.1 hother]
    exact hline
  · rw [Reader.run_cons, Reader.step_line above htext hbrace, Reader.run, List.append_nil]

/-- A line that stands as deep as the blocks around it. -/
theorem yields_indented {text : String} (h : Legible text) :
    Yields frames [indent^[frames.length] text] (entries frames.head? text) :=
  yields_line (unbroken_iterate h.unbroken _) (unindented_self _ _) h.noBrace

/-- **A block**: the line above it, what it opens, and what is in it. -/
theorem yields_block {head closing : String} {frame : Frame} {opening inner : List Entry}
    {body : List String} (hhead : Legible head)
    (hblock : block frames.head? head = (frame, opening))
    (hbody : Yields (frame :: frames) body inner)
    (hclosing : closing = "\x7d" ∨ closing = "\x7d;") :
    Yields frames
      (indent^[frames.length] head :: indent^[frames.length] "\x7b" :: body
        ++ [indent^[frames.length] closing])
      (entries frames.head? head ++ (opening ++ inner)) := by
  have hunbroken : '\n' ∉ "\x7b".toList ∧ '\n' ∉ closing.toList := by
    rcases hclosing with rfl | rfl <;> decide
  refine ⟨?_, fun above => ⟨"", ?_⟩⟩
  · simp only [List.cons_append, List.mem_cons, List.mem_append, List.not_mem_nil, or_false]
    rintro line (rfl | rfl | hline | rfl)
    · exact unbroken_iterate hhead.unbroken _
    · exact unbroken_iterate hunbroken.1 _
    · exact hbody.unbroken line hline
    · exact unbroken_iterate hunbroken.2 _
  · obtain ⟨last, hrun⟩ := hbody.run ""
    rw [List.cons_append, List.cons_append, Reader.run_cons,
      Reader.step_line above (unindented_self _ _) hhead.noBrace, Reader.run_cons,
      Reader.step_open hblock, Reader.run_append, hrun, Reader.run_cons,
      Reader.step_close frame last hclosing, Reader.run, List.append_nil, List.append_nil]

theorem unindented_empty (depth : Nat) : unindented depth "" = "" := by
  rw [unindented]
  cases 4 * depth <;> rfl

/-- A line that only separates says nothing. -/
theorem yields_blank (frames : List Frame) : Yields frames [""] [] := by
  have hnone : entries frames.head? "" = [] := by
    match frames.head? with
    | none => decide +kernel
    | some (.space name) => rw [entries, if_neg (by decide)]
    | some (.type name) => rw [entries, if_neg (by decide), if_neg (by decide)]
    | some (.body owner) => rw [entries, if_pos rfl]
  have hline : Yields frames _ _ := yields_line legible_empty.unbroken (unindented_empty _)
    legible_empty.noBrace
  rwa [hnone] at hline

/-! ### Functions -/

/-- Signatures end in a parenthesis, or in `const` behind one. -/
theorem exists_text_eq (s : Signature) (scope : String) :
    ∃ front, '(' ∈ front.toList
      ∧ s.text scope = front ++ ")" ++ (if s.isConst then " const" else "") :=
  ⟨_, by simp, rfl⟩

theorem isSignature_text (s : Signature) (scope : String) : IsSignature (s.text scope) := by
  obtain ⟨front, hparen, htext⟩ := exists_text_eq s scope
  rw [htext]
  refine ⟨by simp [hparen], ?_⟩
  cases s.isConst with
  | false => exact Or.inl ⟨front.toList, by simp⟩
  | true => exact Or.inr ⟨front.toList, by simp⟩

theorem getLast?_text (s : Signature) (scope : String) :
    (s.text scope).toList.getLast? = some ')' ∨ (s.text scope).toList.getLast? = some 't' := by
  obtain ⟨front, -, htext⟩ := exists_text_eq s scope
  rw [htext]
  cases s.isConst with
  | false => exact Or.inl (by simp)
  | true => exact Or.inr (by simp)

theorem not_isDeclaration_text (s : Signature) (scope : String) :
    ¬ IsDeclaration (s.text scope) := by
  rcases getLast?_text s scope with h | h
  · exact not_isDeclaration_of_last h (by decide)
  · exact not_isDeclaration_of_last h (by decide)

theorem entryOf?_text (s : Signature) (scope : String) : entryOf? (s.text scope) = none := by
  have hparen : '(' ∈ (s.text scope).toList := (isSignature_text s scope).1
  have hincluded : between? "#include \"" "\"" (s.text scope) = none := by
    rcases getLast?_text s scope with h | h
    · exact between?_of_last rfl h (by decide)
    · exact between?_of_last rfl h (by decide)
  have hforeign : ∀ front back : String, '(' ∉ front.toList → '(' ∉ back.toList →
      nameBetween? front back (s.text scope) = none :=
    fun front back hfront hback => nameBetween?_of_foreign (by decide) hfront hback hparen
  rw [entryOf?, if_neg (not_isDeclaration_text s scope), hincluded,
    hforeign "namespace " " \x7b" (by decide) (by decide),
    hforeign "\x7d // namespace " "" (by decide) (by decide),
    hforeign "class " ";" (by decide) (by decide)]
  rfl

theorem legible_text {s : Signature} {scope : String} (h : '\n' ∉ (s.text scope).toList) :
    Legible (s.text scope) := .of_mem h (isSignature_text s scope).1 (by decide)

/-- Outside of bodies a signature says nothing until a body follows. -/
theorem entries_text {innermost : Option Frame} (h : ∀ owner, innermost ≠ some (.body owner))
    (s : Signature) (scope : String) : entries innermost (s.text scope) = [] := by
  have hlast : (s.text scope).toList.getLast? ≠ some ';' := fun hlast =>
    not_isDeclaration_text s scope ⟨(isSignature_text s scope).1, hlast⟩
  match innermost with
  | none => rw [entries, entryOf?_text]; rfl
  | some (.space name) => rw [entries, if_neg (not_isDeclaration_text s scope)]
  | some (.type name) => rw [entries, if_neg (not_isDeclaration_text s scope), if_neg hlast]
  | some (.body owner) => exact absurd rfl (h owner)

theorem block_text {innermost : Option Frame} (h : ∀ owner, innermost ≠ some (.body owner))
    (s : Signature) (scope : String) :
    block innermost (s.text scope)
      = (.body (s.text scope), [.defined (innermost.bind Frame.scope?) (s.text scope)]) := by
  match innermost with
  | none => rw [block, if_pos (isSignature_text s scope)]; exact nofun
  | some (.space name) => rw [block, if_pos (isSignature_text s scope)]; exact nofun
  | some (.type name) => rw [block, if_pos (isSignature_text s scope)]; exact nofun
  | some (.body owner) => exact absurd rfl (h owner)

theorem isDeclaration_text (s : Signature) (scope front : String) {back : String}
    (hback : back.toList.getLast? = some ';') : IsDeclaration (front ++ s.text scope ++ back) := by
  refine ⟨?_, getLast?_toList_append hback _⟩
  simp [(isSignature_text s scope).1]

/-- A line that declares a function. -/
theorem yields_declaration {text : String} (hframes : ∀ owner, frames.head? ≠ some (.body owner))
    (hline : '\n' ∉ text.toList) (h : IsDeclaration text) :
    Yields frames [indent^[frames.length] text]
      [.declared (frames.head?.bind Frame.scope?) text] := by
  have hentries : entries frames.head? text
      = [.declared (frames.head?.bind Frame.scope?) text] := by
    match hhead : frames.head? with
    | none => rw [entries, entryOf?, if_pos h]; rfl
    | some (.space name) => rw [entries, if_pos h]; rfl
    | some (.type name) => rw [entries, if_pos h]; rfl
    | some (.body owner) => exact absurd hhead (hframes owner)
  have hyields : Yields frames _ _ := yields_indented (.of_mem hline h.1 (by decide))
  rwa [hentries] at hyields

/-- What the lines of a body say, apart from those that only separate. -/
def statements (owner : String) (body : List String) : List Entry :=
  (body.filter (· ≠ "")).map (.statement owner)

theorem statements_append (owner : String) (first second : List String) :
    statements owner (first ++ second) = statements owner first ++ statements owner second := by
  rw [statements, List.filter_append, List.map_append, statements, statements]

theorem statements_singleton (owner : String) {line : String} (h : line ≠ "") :
    statements owner [line] = [.statement owner line] := by
  simp [statements, h]

theorem entries_statement (owner : String) {text : String} {c : Char} (h : c ∈ text.toList) :
    entries (some (.body owner)) text = [.statement owner text] := if_neg (ne_empty_of_mem h)

theorem yields_bodyLine {owner line : String} (h : Legible line) :
    Yields (.body owner :: frames) [indent^[frames.length] (bodyLine line)]
      (statements owner [line]) := by
  by_cases hempty : line = ""
  · subst hempty
    have htext : unindented (frames.length + 1) (indent^[frames.length] "") = "" :=
      unindented_iterate 1 frames.length ""
    exact (yields_line (unbroken_iterate legible_empty.unbroken _) htext legible_empty.noBrace :
      Yields (.body owner :: frames) _ _)
  · have hline : Yields (.body owner :: frames) _ _ := yields_indented h
    rw [List.length_cons, Function.iterate_succ_apply, List.head?_cons, entries,
      if_neg hempty] at hline
    rw [bodyLine, if_neg hempty, statements_singleton owner hempty]
    exact hline

theorem yields_body {owner : String} {body : List String} (h : ∀ line ∈ body, Legible line) :
    Yields (.body owner :: frames) ((body.map bodyLine).map indent^[frames.length])
      (statements owner body) := by
  induction body with
  | nil => exact .nil
  | cons line rest ih =>
    have hrest := ih fun other hother => h other (List.mem_cons_of_mem _ hother)
    show Yields _ _ (statements owner ([line] ++ rest))
    rw [statements_append]
    exact (yields_bodyLine (h line List.mem_cons_self)).append hrest

/-- **The definition of a function**, with what its body says. -/
theorem yields_function {f : Function} {scope : String} {found : List Entry}
    (hframes : ∀ owner, frames.head? ≠ some (.body owner))
    (hline : '\n' ∉ (f.signature.text scope).toList)
    (hbody : Yields (.body (f.signature.text scope) :: frames)
      ((f.body.map bodyLine).map indent^[frames.length]) found) :
    Yields frames ((f.lines scope).map indent^[frames.length])
      (.defined (frames.head?.bind Frame.scope?) (f.signature.text scope) :: found) := by
  have hblock := yields_block (legible_text hline) (block_text hframes _ _) hbody (Or.inl rfl)
  rw [entries_text hframes] at hblock
  rw [Function.lines, List.map_append, List.map_append]
  exact hblock

/-- The definition of a function outside of all blocks. -/
theorem yields_freeFunction {f : Function} {scope : String} {found : List Entry}
    (hline : '\n' ∉ (f.signature.text scope).toList)
    (hbody : Yields [.body (f.signature.text scope)] (f.body.map bodyLine) found) :
    Yields [] (f.lines scope) (.defined none (f.signature.text scope) :: found) := by
  have hmap : ∀ lines : List String, lines.map indent^[0] = lines := List.map_id
  have hyields : Yields [] _ _ :=
    yields_function nofun hline (f := f) (by rwa [List.length_nil, hmap])
  rwa [List.length_nil, hmap] at hyields

end SchemaBinding.Code
