import SchemaBinding.Markup.Document

/-!
# Open elements

Two stacks are kept while a document is read.  The tokenizer has the names of the elements that are
open, and refuses a tag that closes any other than the innermost of them.  The tree has a node for
each element that is open, and looks at no name when one is closed.  A `Reader` holds both stacks
and the rest of the input, and reads one piece of the input at a step.

* `scan_cons`, `conclude_eventsOf`: the scan of a document and its events, piece by piece.
* `Reader.answer_eq`: step by step a reader comes to what `parse` answers.
* `Reader.step_cases`: a step, with the piece that is read.
* `Reader.opened_step`, `Reader.Reached.opened_eq`: the stacks agree after every step.
* `stacks_agree`: so a tag that closes an element is never found unbalanced.
-/

namespace SchemaBinding.Markup

section Except

variable {ε ε' α β : Type} {x : Except ε α} {a : α} {b : β} {e : ε} {e' : ε'}

instance decidableEqExcept [DecidableEq ε] [DecidableEq α] : DecidableEq (Except ε α)
  | .error e, .error e' => decidable_of_iff (e = e') (by simp)
  | .ok a, .ok b => decidable_of_iff (a = b) (by simp)
  | .error _, .ok _ => isFalse (by simp)
  | .ok _, .error _ => isFalse (by simp)

theorem map_eq_error_iff {f : α → β} : x.map f = .error e ↔ x = .error e := by
  cases x <;> simp [Except.map]

theorem mapError_eq_ok_iff {f : ε → ε'} : x.mapError f = .ok a ↔ x = .ok a := by
  constructor
  · intro h
    cases x with
    | error e => cases h
    | ok b =>
      cases h
      rfl
  · rintro rfl
    rfl

theorem mapError_eq_error_iff {f : ε → ε'} :
    x.mapError f = .error e' ↔ ∃ e, x = .error e ∧ f e = e' := by
  constructor
  · intro h
    cases x with
    | error e =>
      cases h
      exact ⟨e, rfl, rfl⟩
    | ok b => cases h
  · rintro ⟨e, rfl, rfl⟩
    rfl

theorem bind_eq_ok_iff {f : α → Except ε β} :
    x.bind f = .ok b ↔ ∃ a, x = .ok a ∧ f a = .ok b := by
  cases x <;> simp [Except.bind]

theorem bind_eq_error_iff {f : α → Except ε β} :
    x.bind f = .error e ↔ x = .error e ∨ ∃ a, x = .ok a ∧ f a = .error e := by
  cases x <;> simp [Except.bind]

end Except

/-! ### Readers -/

/-- Reads the piece that starts with a character: a tag, or one that is passed over. -/
def readPiece (c : Char) (rest : List Char) : Except Fault (Option Piece × List Char) :=
  if c = '<' then
    if rest = [] then .error (.incomplete .unclosedTag) else readMarkup rest
  else if c = '&' then
    match afterReference? rest with
    | none => .error (.illFormed .unclosedReference)
    | some after => .ok (none, after)
  else .ok (none, rest)

/-- The names behind a piece.  A tag that closes an element has to have the innermost name. -/
def record (names : List String) : Option Piece → Except Fault (List String)
  | none => .ok names
  | some (.opening name _) => .ok (name :: names)
  | some (.selfClosing _ _) => .ok names
  | some (.closing name) =>
    match names with
    | [] => .error (.illFormed (.closesNothing name))
    | innermost :: outer =>
      if innermost = name then .ok outer
      else .error (.illFormed (.closesOther innermost name))

/-- The event of a tag, with its attributes examined. -/
def Piece.event : Piece → Except Fault Event
  | .opening name raw => ((unescapeAll raw).map (.opening name)).mapError .escape
  | .selfClosing name raw => ((unescapeAll raw).map (.selfClosing name)).mapError .escape
  | .closing name => .ok (.closing name)

def Assembly.follow (tree : Assembly) : Option Piece → Except Fault Assembly
  | none => .ok tree
  | some piece => piece.event.bind fun event => (tree.step event).mapError .tree

structure Reader where
  /-- The names that the tokenizer holds open, innermost first. -/
  names : List String
  /-- What the tokenizer has not read yet. -/
  rest : List Char
  tree : Assembly
deriving DecidableEq, Repr

namespace Reader

/-- Before the first piece.  A byte order mark at the start is no part of the input. -/
def start (text : String) : Reader where
  names := []
  rest := match text.toList with
    | '\uFEFF' :: rest => rest
    | cs => cs
  tree := .empty

/-- Reads one piece, unless the input is at its end.  The tokenizer comes first: what it refuses the
tree does not see. -/
def step? (r : Reader) : Option (Except Fault Reader) :=
  match r.rest with
  | [] => none
  | c :: rest => some <| (readPiece c rest).bind fun found =>
      (record r.names found.1).bind fun names =>
        (r.tree.follow found.1).map fun tree => ⟨names, found.2, tree⟩

/-- What is answered if no further step can be made: at the end of the input what the tree is
finished as, otherwise the fault of the next piece. -/
def verdict? (r : Reader) : Option (Except Fault Node) :=
  match r.step? with
  | none => some (r.tree.finish.mapError .tree)
  | some (.error fault) => some (.error fault)
  | some (.ok _) => none

/-- The readers that a document is read by, from its start on. -/
inductive Reached (text : String) : Reader → Prop
  | start : Reached text (start text)
  | step {r next : Reader} (prior : Reached text r) (hstep : r.step? = some (.ok next)) :
      Reached text next

end Reader

/-! ### Piece by piece -/

/-- A document is scanned piece by piece. -/
theorem scan_cons (c : Char) (rest : List Char) :
    scan (c :: rest) = match readPiece c rest with
      | .error fault => .stop fault
      | .ok (none, after) => scan after
      | .ok (some piece, after) => (scan after).cons piece := by
  rw [scan]
  by_cases hangle : c = '<'
  · by_cases hne : rest = []
    · simp only [readPiece, if_pos hangle, if_pos hne]
    · simp only [readPiece, if_pos hangle, if_neg hne]
      split
      · next hread => rw [hread]
      · next hread => rw [hread]
      · next hread => rw [hread]
  · by_cases href : c = '&'
    · simp only [readPiece, if_neg hangle, if_pos href]
      split
      · next hafter => rw [hafter]
      · next hafter => rw [hafter]
    · simp only [readPiece, if_neg hangle, if_neg href]

/-- What a tree and the events that follow come to. -/
def conclude (tree : Assembly) (reading : Reading Event) : Except Fault Node :=
  match tree.run reading.items, reading.fault? with
  | .error fault, _ => .error (.tree fault)
  | .ok _, some fault => .error fault
  | .ok tree, none => tree.finish.mapError .tree

theorem conclude_cons (tree : Assembly) (event : Event) (reading : Reading Event) :
    conclude tree (reading.cons event)
      = ((tree.step event).mapError .tree).bind fun tree => conclude tree reading := by
  simp only [conclude, Reading.cons, Assembly.run]
  cases tree.step event <;> rfl

/-- A tag is recorded, and then its event is followed. -/
theorem conclude_eventsOf (tree : Assembly) (names : List String) (piece : Piece)
    (ending? : Option Fault) (rest : List Piece) :
    conclude tree (eventsOf names ending? (piece :: rest))
      = (record names (some piece)).bind fun names =>
          (tree.follow (some piece)).bind fun tree =>
            conclude tree (eventsOf names ending? rest) := by
  cases piece with
  | opening name raw =>
    simp only [eventsOf, record, Assembly.follow, Piece.event]
    cases unescapeAll raw with
    | error fault => rfl
    | ok attributes => exact conclude_cons tree _ _
  | selfClosing name raw =>
    simp only [eventsOf, record, Assembly.follow, Piece.event]
    cases unescapeAll raw with
    | error fault => rfl
    | ok attributes => exact conclude_cons tree _ _
  | closing name =>
    cases names with
    | nil => rfl
    | cons innermost outer =>
      simp only [eventsOf, record]
      split
      · exact conclude_cons tree _ _
      · rfl

namespace Reader

variable {text : String} {r next : Reader}

def answer (r : Reader) : Except Fault Node :=
  let tags := scan r.rest
  conclude r.tree (eventsOf r.names tags.fault? tags.items)

theorem answer_start (text : String) : (start text).answer = parse text := rfl

/-- **A reader comes to what the reader behind the next piece comes to.** -/
theorem answer_eq (r : Reader) :
    r.answer = match r.step? with
      | none => r.tree.finish.mapError .tree
      | some next => next.bind answer := by
  obtain ⟨names, rest, tree⟩ := r
  cases rest with
  | nil =>
    simp only [answer, step?, scan_nil]
    rfl
  | cons c rest =>
    simp only [answer, step?, scan_cons]
    cases readPiece c rest with
    | error fault => rfl
    | ok found =>
      obtain ⟨piece?, after⟩ := found
      cases piece? with
      | none => rfl
      | some piece =>
        -- the scan goes on behind the tag, whatever the tag does to the stacks
        simp only [Reading.cons, conclude_eventsOf, Except.bind]
        cases record names (some piece) with
        | error fault => rfl
        | ok names => cases tree.follow (some piece) <;> rfl

theorem answer_of_step (h : r.step? = some (.ok next)) : r.answer = next.answer := by
  rw [answer_eq, h]
  rfl

theorem answer_of_verdict {verdict : Except Fault Node} (h : r.verdict? = some verdict) :
    r.answer = verdict := by
  unfold verdict? at h
  rw [answer_eq]
  split at h
  · next hstep =>
    rw [hstep]
    exact Option.some.inj h
  · next hstep =>
    rw [hstep]
    exact Option.some.inj h
  · cases h

theorem Reached.answer_eq_parse (h : Reached text r) : r.answer = parse text := by
  induction h with
  | start => exact answer_start text
  | step _ hstep ih => rw [← answer_of_step hstep, ih]

end Reader

/-! ### Faults of the tree -/

def Fault.isTree : Fault → Bool
  | .tree _ => true
  | _ => false

theorem isTree_of_afterBracketed {start mark cs : List Char} {missing : SyntaxFault} {fault : Fault}
    (h : afterBracketed start mark missing cs = .error fault) : fault.isTree = false := by
  unfold afterBracketed at h
  split at h <;> cases h
  rfl

theorem isTree_of_afterDoctype {cs : List Char} {fault : Fault}
    (h : afterDoctype cs = .error fault) : fault.isTree = false := by
  unfold afterDoctype at h
  split at h
  · split at h
    · cases h
      rfl
    · split at h <;> cases h
      rfl
  · cases h
    rfl

theorem isTree_of_afterBang {cs : List Char} {fault : Fault} (h : afterBang cs = .error fault) :
    fault.isTree = false := by
  unfold afterBang at h
  split at h
  · exact isTree_of_afterBracketed h
  · exact isTree_of_afterBracketed h
  · exact isTree_of_afterDoctype h
  · exact isTree_of_afterDoctype h
  · cases h
    rfl

theorem isTree_of_afterInstruction {cs : List Char} {fault : Fault}
    (h : afterInstruction cs = .error fault) : fault.isTree = false := by
  unfold afterInstruction at h
  extract_lets missing at h
  split at h
  · cases h
    rfl
  · split at h <;> cases h
    rfl

theorem isTree_of_tagText {cs : List Char} {fault : Fault} (h : tagText cs = .error fault) :
    fault.isTree = false := by
  unfold tagText at h
  split at h <;> cases h
  · rfl
  · rfl

theorem isTree_of_readMarkup {cs : List Char} {fault : Fault} (h : readMarkup cs = .error fault) :
    fault.isTree = false := by
  unfold readMarkup at h
  split at h
  · exact isTree_of_afterBang (map_eq_error_iff.1 h)
  · exact isTree_of_afterInstruction (map_eq_error_iff.1 h)
  · exact isTree_of_tagText (map_eq_error_iff.1 h)
  · exact isTree_of_tagText (map_eq_error_iff.1 h)

theorem isTree_of_readPiece {c : Char} {rest : List Char} {fault : Fault}
    (h : readPiece c rest = .error fault) : fault.isTree = false := by
  unfold readPiece at h
  split at h
  · split at h
    · cases h
      rfl
    · exact isTree_of_readMarkup h
  · split at h
    · split at h <;> cases h
      rfl
    · cases h

theorem isTree_of_record {names : List String} {piece? : Option Piece} {fault : Fault}
    (h : record names piece? = .error fault) : fault.isTree = false := by
  unfold record at h
  split at h
  · cases h
  · cases h
  · cases h
  · split at h
    · cases h
      rfl
    · split at h <;> cases h
      rfl

theorem isTree_of_event {piece : Piece} {fault : Fault} (h : piece.event = .error fault) :
    fault.isTree = false := by
  cases piece with
  | opening name raw =>
    obtain ⟨escape, -, rfl⟩ := mapError_eq_error_iff.1 h
    rfl
  | selfClosing name raw =>
    obtain ⟨escape, -, rfl⟩ := mapError_eq_error_iff.1 h
    rfl
  | closing name => cases h

theorem Assembly.attach_ne_unbalanced (tree : Assembly) (node : Node) :
    tree.attach node ≠ .error .unbalanced := by
  intro h
  unfold attach at h
  split at h
  · cases h
  · split at h <;> cases h

/-- Nothing but a tag that closes an element is unbalanced, and only if none is open. -/
theorem Assembly.closing_of_unbalanced {tree : Assembly} {piece? : Option Piece}
    (h : tree.follow piece? = .error (.tree .unbalanced)) :
    ∃ tag, piece? = some (.closing tag) ∧ tree.opened = [] := by
  cases piece? with
  | none => cases h
  | some piece =>
    simp only [follow] at h
    rcases bind_eq_error_iff.1 h with hevent | ⟨event, hevent, hstep⟩
    · cases isTree_of_event hevent
    · obtain ⟨fault, hfault, heq⟩ := mapError_eq_error_iff.1 hstep
      cases heq
      cases piece with
      | opening name raw =>
        obtain ⟨attributes, -, rfl⟩ := map_eq_ok (mapError_eq_ok_iff.1 hevent)
        cases hfault
      | selfClosing name raw =>
        obtain ⟨attributes, -, rfl⟩ := map_eq_ok (mapError_eq_ok_iff.1 hevent)
        exact absurd hfault (attach_ne_unbalanced _ _)
      | closing name =>
        cases hevent
        simp only [step] at hfault
        split at hfault
        · next hopened => exact ⟨name, rfl, hopened⟩
        · exact absurd hfault (attach_ne_unbalanced _ _)

/-! ### The two stacks -/

theorem length_of_readPiece {c : Char} {rest after : List Char} {piece? : Option Piece}
    (h : readPiece c rest = .ok (piece?, after)) : after.length ≤ rest.length := by
  unfold readPiece at h
  split at h
  · split at h
    · cases h
    · exact length_of_readMarkup h
  · split at h
    · split at h
      · cases h
      · next href =>
        cases h
        exact length_of_afterReference? href
    · cases h
      exact Nat.le_refl _

/-- **A piece does the same to both stacks.** -/
theorem opened_follow {names opened : List String} {tree after : Assembly} {piece? : Option Piece}
    (h : tree.opened.map Node.tag = names) (hrecord : record names piece? = .ok opened)
    (hfollow : tree.follow piece? = .ok after) : after.opened.map Node.tag = opened := by
  cases piece? with
  | none =>
    cases hrecord
    cases hfollow
    exact h
  | some piece =>
    simp only [Assembly.follow] at hfollow
    obtain ⟨event, hevent, hstep⟩ := bind_eq_ok_iff.1 hfollow
    rw [Assembly.opened_step (mapError_eq_ok_iff.1 hstep), h]
    cases piece with
    | opening name raw =>
      cases hrecord
      obtain ⟨attributes, -, rfl⟩ := map_eq_ok (mapError_eq_ok_iff.1 hevent)
      rfl
    | selfClosing name raw =>
      cases hrecord
      obtain ⟨attributes, -, rfl⟩ := map_eq_ok (mapError_eq_ok_iff.1 hevent)
      rfl
    | closing name =>
      cases hevent
      simp only [record] at hrecord
      split at hrecord
      · cases hrecord
      · split at hrecord <;> cases hrecord
        rfl

namespace Reader

variable {text : String} {r next : Reader}

/-- A step, with the piece that is read. -/
theorem step_cases (h : r.step? = some (.ok next)) :
    next.rest.length < r.rest.length
      ∧ ∃ piece?, record r.names piece? = .ok next.names
        ∧ r.tree.follow piece? = .ok next.tree := by
  unfold step? at h
  split at h
  · cases h
  · next hrest =>
    obtain ⟨⟨piece?, after⟩, hread, hrecorded⟩ := bind_eq_ok_iff.1 (Option.some.inj h)
    obtain ⟨names, hrecord, hfollowed⟩ := bind_eq_ok_iff.1 hrecorded
    obtain ⟨tree, hfollow, rfl⟩ := map_eq_ok hfollowed
    rw [hrest]
    exact ⟨Nat.lt_succ_of_le (length_of_readPiece hread), piece?, hrecord, hfollow⟩

/-- A fault of the tree comes of a piece that the tokenizer has recorded. -/
theorem step_of_treeFault {fault : TreeFault} (h : r.step? = some (.error (.tree fault))) :
    ∃ piece? names, record r.names piece? = .ok names
      ∧ r.tree.follow piece? = .error (.tree fault) := by
  unfold step? at h
  split at h
  · cases h
  · rcases bind_eq_error_iff.1 (Option.some.inj h) with hread | ⟨⟨piece?, after⟩, -, hrecorded⟩
    · cases isTree_of_readPiece hread
    · rcases bind_eq_error_iff.1 hrecorded with hrecord | ⟨names, hrecord, hfollowed⟩
      · cases isTree_of_record hrecord
      · exact ⟨piece?, names, hrecord, map_eq_error_iff.1 hfollowed⟩

/-- **The stacks agree after a step if they agree before it.** -/
theorem opened_step (h : r.tree.opened.map Node.tag = r.names)
    (hstep : r.step? = some (.ok next)) : next.tree.opened.map Node.tag = next.names := by
  obtain ⟨-, piece?, hrecord, hfollow⟩ := step_cases hstep
  exact opened_follow h hrecord hfollow

/-- **The tags of the open nodes are the names that the tokenizer holds open.** -/
theorem Reached.opened_eq (h : Reached text r) : r.tree.opened.map Node.tag = r.names := by
  induction h with
  | start => rfl
  | step _ hstep ih => exact opened_step ih hstep

/-- Each step leaves less of the input, so there is a last one. -/
theorem Reached.exists_verdict (h : Reached text r) :
    ∃ last verdict, Reached text last ∧ last.verdict? = some verdict := by
  induction hn : r.rest.length using Nat.strongRecOn generalizing r with
  | ind n ih =>
    subst hn
    cases hstep : r.step? with
    | none => exact ⟨r, _, h, by rw [verdict?, hstep]⟩
    | some outcome =>
      cases outcome with
      | error fault => exact ⟨r, _, h, by rw [verdict?, hstep]⟩
      | ok next => exact ih _ (step_cases hstep).1 (h.step hstep) rfl

/-- Nothing is unbalanced as long as the stacks agree: the tokenizer would have refused the tag. -/
theorem verdict_ne_unbalanced (h : r.tree.opened.map Node.tag = r.names) :
    r.verdict? ≠ some (.error (.tree .unbalanced)) := by
  intro hverdict
  unfold verdict? at hverdict
  split at hverdict
  · obtain ⟨fault, hfault, heq⟩ := mapError_eq_error_iff.1 (Option.some.inj hverdict)
    cases heq
    unfold Assembly.finish at hfault
    split at hfault <;> cases hfault
  · next fault hstep =>
    cases hverdict
    obtain ⟨piece?, names, hrecord, hfollow⟩ := step_of_treeFault hstep
    obtain ⟨tag, rfl, hopened⟩ := Assembly.closing_of_unbalanced hfollow
    -- no node is open, so no name is, and the tag is not recorded
    rw [← h, hopened, List.map_nil] at hrecord
    cases hrecord
  · cases hverdict

end Reader

/-- **The two stacks agree at every step**: the tags of the open nodes are the names that the
tokenizer holds open.  The steps are those that lead to the answer of `parse`, so the answer is never
that a tag which closes an element is unbalanced. -/
theorem stacks_agree (text : String) :
    (∀ r, Reader.Reached text r → r.tree.opened.map Node.tag = r.names)
    ∧ (∃ last, Reader.Reached text last ∧ last.verdict? = some (parse text))
    ∧ parse text ≠ .error (.tree .unbalanced) := by
  have hstart : Reader.Reached text (.start text) := .start
  obtain ⟨last, verdict, hlast, hverdict⟩ := hstart.exists_verdict
  obtain rfl : verdict = parse text := by
    rw [← Reader.answer_of_verdict hverdict, hlast.answer_eq_parse]
  refine ⟨fun r hr => hr.opened_eq, ⟨last, hlast, hverdict⟩, fun hunbalanced => ?_⟩
  rw [hunbalanced] at hverdict
  exact Reader.verdict_ne_unbalanced hlast.opened_eq hverdict

/-- A lid is closed twice, by itself and by a tag.  When the tag comes, both stacks hold the box. -/
theorem stacks_agree_closedLid :
    let text := "<Box><Lid/></Lid>"
    let r : Reader := ⟨["Box"], "</Lid>".toList, ⟨[⟨"Box", [], [⟨"Lid", [], []⟩]⟩], none⟩⟩
    Reader.Reached text r
    ∧ r.tree.opened.map Node.tag = r.names
    ∧ r.verdict? = some (.error (.illFormed (.closesOther "Box" "Lid")))
    ∧ parse text ≠ .error (.tree .unbalanced) := by
  intro text r
  have hbox : (Reader.start text).step?
      = some (.ok ⟨["Box"], "<Lid/></Lid>".toList, ⟨[⟨"Box", [], []⟩], none⟩⟩) := by
    decide +kernel
  have hreached : Reader.Reached text r := .step (.step .start hbox) (by decide +kernel)
  obtain ⟨hnames, -, hbalanced⟩ := stacks_agree text
  exact ⟨hreached, hnames r hreached, by decide +kernel, hbalanced⟩

end SchemaBinding.Markup
