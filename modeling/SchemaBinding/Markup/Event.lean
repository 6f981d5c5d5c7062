import SchemaBinding.Markup.Piece
import SchemaBinding.Markup.Reference

/-!
# Events of a document

An event is a tag whose attribute values are unescaped and which, if it closes an element, closes
the innermost open one.  `eventsOf` turns the tags of a document into its events, in order, up to
the first tag that is neither.

* `openedAfter`: the names that are open after some events, innermost first.
* `closing_of_eventsOf`: an event that closes an element names the innermost open one.
-/

namespace SchemaBinding.Markup

/-- A tag that fits where it stands. -/
inductive Event where
  | opening (tag : String) (attributes : List (String × String))
  | closing (tag : String)
  | selfClosing (tag : String) (attributes : List (String × String))
deriving DecidableEq, Repr

/-- Unescapes the values of attributes, up to the first that holds a faulty reference. -/
def unescapeAll (attributes : List RawAttribute) : Except EscapeFault (List (String × String)) :=
  attributes.mapM fun a => (unescape a.value).map (a.key, ·)

/-- Turns tags into events.  `opened` holds the names of the open elements, innermost first, and
`ending?` the fault that follows the last tag. -/
def eventsOf (opened : List String) (ending? : Option Fault) : List Piece → Reading Event
  | [] => ⟨[], ending?⟩
  | .opening name raw :: rest =>
    match unescapeAll raw with
    | .error fault => .stop (.escape fault)
    | .ok attributes =>
      (eventsOf (name :: opened) ending? rest).cons (.opening name attributes)
  | .selfClosing name raw :: rest =>
    match unescapeAll raw with
    | .error fault => .stop (.escape fault)
    | .ok attributes => (eventsOf opened ending? rest).cons (.selfClosing name attributes)
  | .closing name :: rest =>
    match opened with
    | [] => .stop (.illFormed (.closesNothing name))
    | innermost :: outer =>
      if innermost = name then (eventsOf outer ending? rest).cons (.closing name)
      else .stop (.illFormed (.closesOther innermost name))

/-- The events of a document.  A byte order mark at its start is no part of it. -/
def events (text : String) : Reading Event :=
  let cs := match text.toList with
    | '\uFEFF' :: rest => rest
    | cs => cs
  let tags := scan cs
  eventsOf [] tags.fault? tags.items

def openedAfter (opened : List String) : Event → List String
  | .opening tag _ => tag :: opened
  | .closing _ => opened.tail
  | .selfClosing _ _ => opened

/-- Closing events match.  An event that closes an element names the innermost of the elements
that the events before it leave open. -/
theorem closing_of_eventsOf {opened : List String} {ending? : Option Fault} {tags : List Piece}
    {before after : List Event} {tag : String}
    (h : (eventsOf opened ending? tags).items = before ++ .closing tag :: after) :
    (before.foldl openedAfter opened).head? = some tag := by
  induction tags generalizing opened before with
  | nil => simp [eventsOf] at h
  | cons piece rest ih =>
    cases piece with
    | opening name raw =>
      simp only [eventsOf] at h
      split at h
      · simp [Reading.stop] at h
      · cases before with
        | nil => simp [Reading.cons] at h
        | cons e before =>
          simp only [Reading.cons, List.cons_append, List.cons.injEq] at h
          rw [← h.1, List.foldl_cons]
          exact ih h.2
    | selfClosing name raw =>
      simp only [eventsOf] at h
      split at h
      · simp [Reading.stop] at h
      · cases before with
        | nil => simp [Reading.cons] at h
        | cons e before =>
          simp only [Reading.cons, List.cons_append, List.cons.injEq] at h
          rw [← h.1, List.foldl_cons]
          exact ih h.2
    | closing name =>
      simp only [eventsOf] at h
      split at h
      · simp [Reading.stop] at h
      · next innermost outer =>
        split at h
        · next heq =>
          cases before with
          | nil =>
            simp only [Reading.cons, List.nil_append, List.cons.injEq, Event.closing.injEq] at h
            simp [heq, h.1]
          | cons e before =>
            simp only [Reading.cons, List.cons_append, List.cons.injEq] at h
            rw [← h.1, List.foldl_cons]
            exact ih h.2
        · simp [Reading.stop] at h

end SchemaBinding.Markup
