import SchemaBinding.Node
import SchemaBinding.Markup.Event

/-!
# Reading a document as a tree

`Assembly` is a tree under construction: the elements that are open and the root, once it is
complete.  `parse` runs the events of a document through it.

* `Assembly.run_append`: events are followed one after the other.
* `Assembly.opened_run`: the open elements are those that the events leave open.
-/

namespace SchemaBinding.Markup

/-- A tree under construction: the open elements, innermost first, and the root if it is
complete. -/
structure Assembly where
  opened : List Node
  root? : Option Node
deriving DecidableEq, Repr

namespace Assembly

def empty : Assembly := ⟨[], none⟩

/-- Adds a complete element to the innermost open one, or makes it the root. -/
def attach (a : Assembly) (node : Node) : Except TreeFault Assembly :=
  match a.opened with
  | parent :: outer => .ok { a with opened := parent.pushChild node :: outer }
  | [] =>
    match a.root? with
    | none => .ok { a with root? := some node }
    | some _ => .error (.secondRoot node.tag)

def step (a : Assembly) : Event → Except TreeFault Assembly
  | .opening tag attributes =>
    .ok { a with opened := (Node.leaf tag).setAttrs attributes :: a.opened }
  | .selfClosing tag attributes => a.attach ((Node.leaf tag).setAttrs attributes)
  | .closing _ =>
    match a.opened with
    | [] => .error .unbalanced
    | node :: outer => { a with opened := outer }.attach node

def run (a : Assembly) : List Event → Except TreeFault Assembly
  | [] => .ok a
  | event :: rest => (a.step event).bind (·.run rest)

/-- The root, if nothing is left open. -/
def finish (a : Assembly) : Except TreeFault Node :=
  match a.opened, a.root? with
  | node :: _, _ => .error (.neverClosed node.tag)
  | [], some root => .ok root
  | [], none => .error .noRoot

end Assembly

/-- Reads a document as the tree of its elements.  The first fault in document order wins; what is
left open is found at the end. -/
def parse (text : String) : Except Fault Node :=
  let reading := events text
  match Assembly.empty.run reading.items, reading.fault? with
  | .error fault, _ => .error (.tree fault)
  | .ok _, some fault => .error fault
  | .ok assembly, none => assembly.finish.mapError .tree

theorem Assembly.run_append (a : Assembly) (before after : List Event) :
    a.run (before ++ after) = (a.run before).bind (·.run after) := by
  induction before generalizing a with
  | nil => rfl
  | cons event rest ih =>
    simp only [List.cons_append, run]
    cases a.step event with
    | error e => rfl
    | ok b => exact ih b

theorem tag_setAttrs (n : Node) (pairs : List (String × String)) :
    (n.setAttrs pairs).tag = n.tag := by
  induction pairs generalizing n with
  | nil => rfl
  | cons pair rest ih => exact ih (n.setAttr pair.1 pair.2)

theorem Assembly.opened_attach {a b : Assembly} {node : Node} (h : a.attach node = .ok b) :
    b.opened.map Node.tag = a.opened.map Node.tag := by
  simp only [attach] at h
  split at h
  · next heq =>
    simp only [Except.ok.injEq] at h
    subst h
    simp [heq, Node.pushChild]
  · next heq =>
    split at h
    · simp only [Except.ok.injEq] at h
      subst h
      simp [heq]
    · simp at h

/-- The tags of the open elements are the names that the events leave open. -/
theorem Assembly.opened_step {a b : Assembly} {event : Event} (h : a.step event = .ok b) :
    b.opened.map Node.tag = openedAfter (a.opened.map Node.tag) event := by
  cases event with
  | opening tag attributes =>
    simp only [step, Except.ok.injEq] at h
    subst h
    simp [openedAfter, tag_setAttrs, Node.leaf]
  | selfClosing tag attributes => exact opened_attach h
  | closing tag =>
    simp only [step] at h
    split at h
    · simp at h
    · next heq => rw [opened_attach h, openedAfter, heq]; rfl

theorem Assembly.opened_run {a b : Assembly} {events : List Event} (h : a.run events = .ok b) :
    b.opened.map Node.tag = events.foldl openedAfter (a.opened.map Node.tag) := by
  induction events generalizing a with
  | nil =>
    simp only [run, Except.ok.injEq] at h
    rw [h]; rfl
  | cons event rest ih =>
    simp only [run] at h
    cases hs : a.step event with
    | error e => rw [hs] at h; simp [Except.bind] at h
    | ok c =>
      rw [hs] at h
      rw [List.foldl_cons, ← opened_step hs]
      exact ih h

end SchemaBinding.Markup
