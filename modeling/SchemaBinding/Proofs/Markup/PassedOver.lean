import SchemaBinding.Proofs.Markup.Rendering
import Mathlib.Data.List.TakeWhile

/-!
# Attributes that are passed over

A tag may hold attributes that are not read: one whose key is not followed by a sign and a quoted
value, or whose key stands in the tag before.  `attributeItems` goes through the attributes of a tag
one by one and says of each how it is read or why it is not; the attributes that are read are those
that nothing is wrong with.  So a document with a faulty attribute is read as if the attribute were
not there.

* `nextAttribute?_eq_ok_iff`: the first attribute is read exactly if it is quoted and its key is new.
* `readAttributes_eq`: what is wrong with the attributes of a tag is dropped.
* `attributeItems_eq_map_iff`: nothing is wrong with the attributes of a tag exactly if all of them
  are quoted and their keys are distinct.
* `starts_scan`, `starts_eventsOf`, `Traversal.starts`: the elements of a tree are the tags of the
  document that open or are complete, in order.
* `attributes_parse`: what a tree holds of the attributes of a document.
-/

namespace SchemaBinding

namespace Node

mutual

/-- A node, then the nodes below it in order. -/
def inOrder : Node → List Node
  | ⟨tag, attributes, children⟩ => ⟨tag, attributes, children⟩ :: inOrderAll children

def inOrderAll : List Node → List Node
  | [] => []
  | node :: rest => inOrder node ++ inOrderAll rest

end

end Node

namespace Markup

/-! ### The attributes of a tag -/

inductive AttributeFault where
  | missingSign
  | repeatedKey
  | missingValue
  | unquotedValue
  | unclosedValue
deriving DecidableEq, Repr

/-- The first attribute of a text, with the keys that are met so far and what follows it. -/
structure AttributeStep where
  item : Except AttributeFault RawAttribute
  seen : List String
  rest : List Char

/-- Goes on by one attribute, if there is one. -/
def nextAttribute? (seen : List String) (cs : List Char) : Option AttributeStep :=
  match cs.dropWhile isSpace with
  | [] => none
  | first :: more =>
    let key := String.ofList (first :: more.takeWhile isKeyCharacter)
    match (more.dropWhile isKeyCharacter).dropWhile isSpace with
    | [] => some ⟨.error .missingSign, seen, []⟩
    | sign :: value =>
      if sign ≠ '=' then some ⟨.error .missingSign, seen, sign :: value⟩
      else if key ∈ seen then
        some ⟨.error .repeatedKey, seen, value.dropWhile (!isSpace ·)⟩
      else
        match value.dropWhile isSpace with
        | [] => some ⟨.error .missingValue, key :: seen, []⟩
        | quote :: body =>
          if isQuote quote then
            match cut? [quote] body with
            | none => some ⟨.error .unclosedValue, key :: seen, []⟩
            | some (text, rest) => some ⟨.ok ⟨key, String.ofList text⟩, key :: seen, rest⟩
          else some ⟨.error .unquotedValue, key :: seen, body.dropWhile (!isSpace ·)⟩

theorem length_of_nextAttribute? {seen : List String} {cs : List Char} {step : AttributeStep}
    (h : nextAttribute? seen cs = some step) : step.rest.length < cs.length := by
  unfold nextAttribute? at h
  split at h
  · cases h
  · next first more hcs =>
    have hfirst := length_of_dropWhile hcs
    dsimp only at h
    split at h
    · cases h
      exact Nat.zero_lt_of_lt hfirst
    · next sign value hrest =>
      have hsign := length_of_dropWhile hrest
      have hmore := List.length_dropWhile_le isKeyCharacter more
      have hvalue := List.length_dropWhile_le (!isSpace ·) value
      split at h
      · cases h
        exact Nat.lt_of_le_of_lt (Nat.le_trans hsign hmore) hfirst
      · split at h
        · cases h
          dsimp only
          omega
        · split at h
          · cases h
            exact Nat.zero_lt_of_lt hfirst
          · next quote body hbody =>
            have hquote := length_of_dropWhile hbody
            have hbody := List.length_dropWhile_le (!isSpace ·) body
            split at h
            · split at h
              · cases h
                exact Nat.zero_lt_of_lt hfirst
              · next text rest hcut =>
                have hrest := length_of_cut? hcut
                cases h
                dsimp only
                omega
            · cases h
              dsimp only
              omega

/-- The attributes of a tag one by one, as they are read or passed over.  `seen` holds the keys met
before. -/
def attributeItems (seen : List String) (cs : List Char) :
    List (Except AttributeFault RawAttribute) :=
  match h : nextAttribute? seen cs with
  | none => []
  | some step =>
    have := length_of_nextAttribute? h
    step.item :: attributeItems step.seen step.rest
termination_by cs.length

theorem attributeItems_of_none {seen : List String} {cs : List Char}
    (h : nextAttribute? seen cs = none) : attributeItems seen cs = [] := by
  rw [attributeItems]
  split
  · rfl
  · next hstep => cases h.symm.trans hstep

theorem attributeItems_of_some {seen : List String} {cs : List Char} {step : AttributeStep}
    (h : nextAttribute? seen cs = some step) :
    attributeItems seen cs = step.item :: attributeItems step.seen step.rest := by
  rw [attributeItems]
  split
  · next hnone => cases h.symm.trans hnone
  · next other hstep =>
    obtain rfl := Option.some.inj (h.symm.trans hstep)
    rfl

theorem attributeItems_nil (seen : List String) : attributeItems seen [] = [] :=
  attributeItems_of_none rfl

/-- **What is wrong with the attributes of a tag is dropped.** -/
theorem readAttributes_eq (seen : List String) (cs : List Char) :
    readAttributes seen cs = (attributeItems seen cs).filterMap Except.toOption := by
  fun_induction readAttributes seen cs with
  | case1 seen cs hcs =>
    have hnext : nextAttribute? seen cs = none := by simp only [nextAttribute?, hcs]
    rw [attributeItems_of_none hnext, List.filterMap_nil]
  | case2 seen cs first more hcs _ hrest =>
    have hnext : nextAttribute? seen cs = some ⟨.error .missingSign, seen, []⟩ := by
      simp only [nextAttribute?, hcs, hrest]
    rw [attributeItems_of_some hnext, attributeItems_nil]
    rfl
  | case3 seen cs first more hcs _ sign value hrest _ _ _ hsign ih =>
    have hnext : nextAttribute? seen cs = some ⟨.error .missingSign, seen, sign :: value⟩ := by
      simp only [nextAttribute?, hcs, hrest, if_pos hsign]
    rw [attributeItems_of_some hnext, ih]
    rfl
  | case4 seen cs first more hcs _ key sign value hrest _ _ _ hsign hseen ih =>
    have hnext : nextAttribute? seen cs
        = some ⟨.error .repeatedKey, seen, value.dropWhile (!isSpace ·)⟩ := by
      simp only [nextAttribute?, hcs, hrest, if_neg hsign]
      exact if_pos hseen
    rw [attributeItems_of_some hnext, ih]
    rfl
  | case5 seen cs first more hcs _ key sign value hrest _ _ _ hsign hseen hvalue =>
    have hnext : nextAttribute? seen cs = some ⟨.error .missingValue, key :: seen, []⟩ := by
      simp only [nextAttribute?, hcs, hrest, if_neg hsign, hvalue]
      exact if_neg hseen
    rw [attributeItems_of_some hnext, attributeItems_nil]
    rfl
  | case6 seen cs first more hcs _ key sign value hrest _ _ _ hsign hseen quote body hvalue _ _
      hquote hbody =>
    have hnext : nextAttribute? seen cs = some ⟨.error .unclosedValue, key :: seen, []⟩ := by
      simp only [nextAttribute?, hcs, hrest, if_neg hsign, hvalue, if_pos hquote, hbody]
      exact if_neg hseen
    rw [attributeItems_of_some hnext, attributeItems_nil]
    rfl
  | case7 seen cs first more hcs _ key sign value hrest _ _ _ hsign hseen quote body hvalue _ _
      hquote text rest hbody _ ih =>
    have hnext : nextAttribute? seen cs
        = some ⟨.ok ⟨key, String.ofList text⟩, key :: seen, rest⟩ := by
      simp only [nextAttribute?, hcs, hrest, if_neg hsign, hvalue, if_pos hquote, hbody]
      exact if_neg hseen
    rw [attributeItems_of_some hnext, ih]
    rfl
  | case8 seen cs first more hcs _ key sign value hrest _ _ _ hsign hseen quote body hvalue _ _
      hquote ih =>
    have hnext : nextAttribute? seen cs
        = some ⟨.error .unquotedValue, key :: seen, body.dropWhile (!isSpace ·)⟩ := by
      simp only [nextAttribute?, hcs, hrest, if_neg hsign, hvalue, if_neg hquote]
      exact if_neg hseen
    rw [attributeItems_of_some hnext, ih]
    rfl

/-! ### Quoted attributes -/

/-- A key begins with any character but a space, and goes on to the next `=` or space. -/
def IsKey (key : List Char) : Prop :=
  ∃ first more, key = first :: more ∧ isSpace first = false ∧ ∀ c ∈ more, isKeyCharacter c = true

/-- A text begins with an attribute whose value is quoted.  There may be space before the key and
around the sign. -/
inductive BeginsWith : List Char → RawAttribute → List Char → Prop
  | quoted {gap key before after text rest : List Char} {quote : Char} :
    Blank gap → IsKey key → Blank before → Blank after → isQuote quote = true → quote ∉ text →
    BeginsWith (gap ++ (key ++ (before ++ '=' :: (after ++ quote :: (text ++ quote :: rest)))))
      ⟨String.ofList key, String.ofList text⟩ rest

/-- A text holds attributes whose values are quoted, and nothing else. -/
inductive Quoted : List Char → List RawAttribute → Prop
  | nil {cs : List Char} : Blank cs → Quoted cs []
  | cons {cs rest : List Char} {a : RawAttribute} {attributes : List RawAttribute} :
    BeginsWith cs a rest → Quoted rest attributes → Quoted cs (a :: attributes)

theorem notMem_of_cut? {quote : Char} {body text rest : List Char}
    (h : cut? [quote] body = some (text, rest)) : quote ∉ text := by
  induction body generalizing text with
  | nil => simp [cut?] at h
  | cons c body ih =>
    rw [cut?] at h
    split at h
    · obtain ⟨rfl, -⟩ := Prod.mk.inj (Option.some.inj h)
      exact List.not_mem_nil
    · next hprefix =>
      obtain ⟨⟨found, behind⟩, hfound, heq⟩ := Option.map_eq_some_iff.1 h
      obtain ⟨rfl, rfl⟩ := Prod.mk.inj heq
      rw [List.mem_cons, not_or]
      refine ⟨?_, ih hfound⟩
      rintro rfl
      exact hprefix ⟨body, rfl⟩

theorem of_mem_takeWhile {p : Char → Bool} {cs : List Char} :
    ∀ c ∈ cs.takeWhile p, p c = true :=
  List.all_eq_true.1 List.all_takeWhile

theorem nextAttribute?_of_beginsWith {seen : List String} {cs rest : List Char} {a : RawAttribute}
    (h : BeginsWith cs a rest) (hseen : a.key ∉ seen) :
    nextAttribute? seen cs = some ⟨.ok a, a.key :: seen, rest⟩ := by
  obtain @⟨gap, key, before, after, text, rest, quote, hgap, ⟨first, more, rfl, hfirst, hmore⟩,
    hbefore, hafter, hquote, htext⟩ := h
  obtain ⟨h1, h2, h3, h4⟩ :=
    parts_of_quoted hgap hfirst hmore hbefore hafter hquote (text ++ quote :: rest)
  simp only [nextAttribute?, h1, h2, h3, h4, ne_eq, not_true_eq_false, if_false, hquote, if_true,
    cut?_quote htext]
  exact if_neg hseen

theorem beginsWith_of_nextAttribute? {seen seen' : List String} {cs rest : List Char}
    {a : RawAttribute} (h : nextAttribute? seen cs = some ⟨.ok a, seen', rest⟩) :
    BeginsWith cs a rest ∧ a.key ∉ seen ∧ seen' = a.key :: seen := by
  unfold nextAttribute? at h
  split at h
  · cases h
  · next first more hcs =>
    dsimp only at h
    split at h
    · cases h
    · next sign value hvalue =>
      split at h
      · cases h
      · next hsign =>
        split at h
        · cases h
        · next hseen =>
          split at h
          · cases h
          · next quote body hbody =>
            split at h
            · next hquote =>
              split at h
              · cases h
              · next text rest hcut =>
                cases h
                obtain rfl : sign = '=' := not_not.1 hsign
                have hfirst : isSpace first = false := by
                  have := List.head?_dropWhile_not isSpace cs
                  rw [hcs] at this
                  simpa using this
                -- each part of the text is where its reader stops
                have heq : cs = cs.takeWhile isSpace ++ (first :: more.takeWhile isKeyCharacter
                    ++ ((more.dropWhile isKeyCharacter).takeWhile isSpace
                      ++ '=' :: (value.takeWhile isSpace ++ quote :: (text ++ quote :: rest)))) := by
                  have hend : body = text ++ quote :: rest := by
                    simpa using cut?_eq_some hcut
                  rw [← hend, ← hbody, List.takeWhile_append_dropWhile, ← hvalue,
                    List.takeWhile_append_dropWhile, List.cons_append,
                    List.takeWhile_append_dropWhile, ← hcs, List.takeWhile_append_dropWhile]
                refine ⟨?_, hseen, rfl⟩
                rw [heq]
                exact .quoted of_mem_takeWhile ⟨first, _, rfl, hfirst, of_mem_takeWhile⟩
                  of_mem_takeWhile of_mem_takeWhile hquote (notMem_of_cut? hcut)
            · cases h

/-- **The first attribute is read** exactly if it is quoted and its key is new. -/
theorem nextAttribute?_eq_ok_iff {seen seen' : List String} {cs rest : List Char}
    {a : RawAttribute} :
    nextAttribute? seen cs = some ⟨.ok a, seen', rest⟩
      ↔ BeginsWith cs a rest ∧ a.key ∉ seen ∧ seen' = a.key :: seen := by
  constructor
  · exact beginsWith_of_nextAttribute?
  · rintro ⟨hbegins, hseen, rfl⟩
    exact nextAttribute?_of_beginsWith hbegins hseen

theorem nextAttribute?_eq_none_iff {seen : List String} {cs : List Char} :
    nextAttribute? seen cs = none ↔ Blank cs := by
  have hblank : cs.dropWhile isSpace = [] ↔ Blank cs := List.dropWhile_eq_nil_iff
  rw [← hblank]
  unfold nextAttribute?
  split
  · next h => exact iff_of_true rfl h
  · next first more h =>
    refine iff_of_false ?_ (by rw [h]; exact List.cons_ne_nil _ _)
    dsimp only
    intro hnone
    repeat' split at hnone
    all_goals cases hnone

/-- **Nothing is wrong with the attributes of a tag** exactly if all of them are quoted, their keys
are distinct and none was met before. -/
theorem attributeItems_eq_map_iff {seen : List String} {cs : List Char}
    {attributes : List RawAttribute} :
    attributeItems seen cs = attributes.map .ok
      ↔ Quoted cs attributes ∧ (attributes.map RawAttribute.key).Nodup
        ∧ ∀ a ∈ attributes, a.key ∉ seen := by
  induction attributes generalizing seen cs with
  | nil =>
    cases hnext : nextAttribute? seen cs with
    | none =>
      rw [attributeItems_of_none hnext]
      exact iff_of_true rfl ⟨.nil (nextAttribute?_eq_none_iff.1 hnext), List.nodup_nil, nofun⟩
    | some step =>
      rw [attributeItems_of_some hnext]
      refine iff_of_false nofun ?_
      rintro ⟨⟨hblank⟩, -⟩
      cases hnext.symm.trans (nextAttribute?_eq_none_iff.2 hblank)
  | cons a rest ih =>
    rw [List.map_cons, List.map_cons, List.nodup_cons]
    constructor
    · intro h
      cases hnext : nextAttribute? seen cs with
      | none => cases (attributeItems_of_none hnext).symm.trans h
      | some step =>
        rw [attributeItems_of_some hnext] at h
        obtain ⟨item, seen', behind⟩ := step
        obtain ⟨hitem, hbehind⟩ := List.cons.inj h
        obtain rfl : item = .ok a := hitem
        obtain ⟨hbegins, hnew, rfl⟩ := nextAttribute?_eq_ok_iff.1 hnext
        obtain ⟨hquoted, hnodup, hothers⟩ := ih.1 hbehind
        refine ⟨.cons hbegins hquoted, ⟨?_, hnodup⟩, ?_⟩
        · intro hmem
          obtain ⟨b, hb, hkey⟩ := List.mem_map.1 hmem
          exact hothers b hb (hkey ▸ List.mem_cons_self)
        · intro b hb
          rcases List.mem_cons.1 hb with rfl | hb
          · exact hnew
          · exact fun hmem => hothers b hb (List.mem_cons_of_mem _ hmem)
    · rintro ⟨hall, ⟨hkey, hnodup⟩, hnew⟩
      cases hall with
      | cons hbegins hquoted =>
        have hnext := nextAttribute?_of_beginsWith hbegins (hnew a List.mem_cons_self)
        rw [attributeItems_of_some hnext]
        refine congrArg (_ :: ·) (ih.2 ⟨hquoted, hnodup, fun b hb hmem => ?_⟩)
        rcases List.mem_cons.1 hmem with heq | hmem
        · exact hkey (heq ▸ List.mem_map_of_mem hb)
        · exact hnew b (List.mem_cons_of_mem _ hb) hmem

/-! ### The tags of a document -/

/-- The text of a tag without the slash of one that has no content. -/
def tagContent (text : List Char) : List Char :=
  if text.getLast? = some '/' then text.dropLast else text

def nameIn (text : List Char) : String := String.ofList ((tagContent text).takeWhile (!isSpace ·))

def behindName (text : List Char) : List Char := (tagContent text).dropWhile (!isSpace ·)

/-- The name and the attributes of a tag that begins an element. -/
def Piece.start? : Piece → Option (String × List RawAttribute)
  | opening name attributes | selfClosing name attributes => some (name, attributes)
  | closing _ => none

def Event.start? : Event → Option (String × List (String × String))
  | opening tag attributes | selfClosing tag attributes => some (tag, attributes)
  | closing _ => none

/-- The text of the tag behind a `<`, if it is one that begins an element. -/
def startText? (cs : List Char) : Option (List Char) :=
  match cs with
  | '!' :: _ => none
  | '?' :: _ => none
  | '/' :: _ => none
  | _ => (tagText cs).toOption.map Prod.fst

/-- The texts of the tags that begin elements, up to the first fault. -/
def startTexts (cs : List Char) : List (List Char) :=
  match cs with
  | [] => []
  | c :: rest =>
    if c = '<' then
      if rest = [] then []
      else
        match h : readMarkup rest with
        | .error _ => []
        | .ok (_, after) =>
          have := length_of_readMarkup h
          (startText? rest).toList ++ startTexts after
    else if c = '&' then
      match h : afterReference? rest with
      | none => []
      | some after =>
        have := length_of_afterReference? h
        startTexts after
    else startTexts rest
termination_by cs.length

theorem start?_ofTag (text : List Char) :
    (Piece.ofTag text).start? = some (nameIn text, readAttributes [] (behindName text)) := by
  unfold Piece.ofTag nameIn behindName tagContent
  split <;> rfl

theorem start?_readMarkup {cs after : List Char} {piece? : Option Piece}
    (h : readMarkup cs = .ok (piece?, after)) :
    piece?.bind Piece.start?
      = (startText? cs).map fun text => (nameIn text, readAttributes [] (behindName text)) := by
  unfold readMarkup at h
  split at h
  · obtain ⟨_, -, heq⟩ := map_eq_ok h
    cases heq
    rfl
  · obtain ⟨_, -, heq⟩ := map_eq_ok h
    cases heq
    rfl
  · obtain ⟨_, -, heq⟩ := map_eq_ok h
    cases heq
    rfl
  · next hbang hquestion hslash =>
    obtain ⟨⟨text, rest⟩, htext, heq⟩ := map_eq_ok h
    cases heq
    have hstart : startText? cs = some text := by
      unfold startText?
      split
      · exact absurd rfl (hbang _)
      · exact absurd rfl (hquestion _)
      · exact absurd rfl (hslash _)
      · rw [htext]
        rfl
    rw [hstart, Option.bind_some, start?_ofTag, Option.map_some]

theorem startTexts_markup {rest : List Char} (hne : rest ≠ []) :
    startTexts ('<' :: rest)
      = match readMarkup rest with
        | .error _ => []
        | .ok found => (startText? rest).toList ++ startTexts found.2 := by
  rw [startTexts]
  simp only [if_true, hne, if_false]
  split
  · next h => rw [h]
  · next h => rw [h]

theorem startTexts_reference (rest : List Char) :
    startTexts ('&' :: rest)
      = match afterReference? rest with
        | none => []
        | some after => startTexts after := by
  rw [startTexts]
  have hamp : ¬ '&' = '<' := by decide
  simp only [hamp, if_false, if_true]
  split
  · next h => rw [h]
  · next h => rw [h]

/-- **A tag is read by itself**, from its text. -/
theorem starts_scan (cs : List Char) :
    (scan cs).items.filterMap Piece.start?
      = (startTexts cs).map fun text => (nameIn text, readAttributes [] (behindName text)) := by
  fun_induction scan cs with
  | case1 =>
    rw [startTexts]
    rfl
  | case2 =>
    rw [startTexts]
    rfl
  | case3 rest hne fault h =>
    rw [startTexts_markup hne, h]
    rfl
  | case4 rest hne after h _ ih =>
    have hstart := start?_readMarkup h
    rw [startTexts_markup hne, h, ih, List.map_append, ← Option.toList_map, ← hstart]
    rfl
  | case5 rest hne piece after h _ ih =>
    have hstart := start?_readMarkup h
    rw [startTexts_markup hne, h, List.map_append, ← Option.toList_map, ← hstart, ← ih]
    show (piece :: (scan after).items).filterMap Piece.start? = piece.start?.toList ++ _
    rw [List.filterMap_cons]
    cases piece.start? <;> rfl
  | case6 rest h =>
    rw [startTexts_reference, h]
    rfl
  | case7 rest after h _ _ ih =>
    rw [startTexts_reference, h, ih]
  | case8 c rest hlt hamp ih =>
    rw [startTexts, if_neg hlt, if_neg hamp, ih]

/-- Tags that begin elements are turned into events one by one. -/
theorem starts_eventsOf {opened : List String} {ending? : Option Fault} {tags : List Piece}
    (h : (eventsOf opened ending? tags).fault? = none) :
    List.Forall₂ (fun tag event => event.1 = tag.1 ∧ unescapeAll tag.2 = .ok event.2)
      (tags.filterMap Piece.start?)
      ((eventsOf opened ending? tags).items.filterMap Event.start?) := by
  induction tags generalizing opened with
  | nil => exact .nil
  | cons piece rest ih =>
    cases piece with
    | opening name raw =>
      unfold eventsOf at h ⊢
      split at h
      · cases h
      · next attributes hattributes => exact .cons ⟨rfl, hattributes⟩ (ih h)
    | selfClosing name raw =>
      unfold eventsOf at h ⊢
      split at h
      · cases h
      · next attributes hattributes => exact .cons ⟨rfl, hattributes⟩ (ih h)
    | closing name =>
      unfold eventsOf at h ⊢
      split at h
      · cases h
      · split at h
        · next heq =>
          rw [if_pos heq]
          exact ih h
        · cases h

/-- The elements of a traversal begin in order. -/
theorem Traversal.starts {es : List Event} {nodes : List Node} (h : Traversal es nodes) :
    es.filterMap Event.start?
      = (Node.inOrderAll nodes).map fun node => (node.tag, node.attributes) := by
  induction h with
  | nil => rfl
  | @selfClosing rest nodes tag attributes _ ih =>
    show (tag, attributes) :: rest.filterMap Event.start? = _
    rw [ih]
    rfl
  | @element inner rest children nodes tag attributes _ _ ihinner ihrest =>
    show (tag, attributes) :: (inner ++ .closing tag :: rest).filterMap Event.start? = _
    have hclosing : (Event.closing tag :: rest).filterMap Event.start?
        = rest.filterMap Event.start? := rfl
    rw [List.filterMap_append, hclosing, ihinner, ihrest, ← List.map_append]
    rfl

/-! ### The attributes of a tree -/

/-- The texts of the tags of a document that begin elements, up to the first fault. -/
def startTags (text : String) : List (List Char) := startTexts text.toList

def itemsOf (tag : List Char) : List (Except AttributeFault RawAttribute) :=
  attributeItems [] (behindName tag)

/-- All values in a tag are quoted, and no key stands in it twice. -/
def Faultless (tag : List Char) : Prop :=
  ∃ attributes, Quoted (behindName tag) attributes ∧ (attributes.map RawAttribute.key).Nodup

/-- A node has the name of a tag and all attributes that are written in it. -/
structure HasAll (tag : List Char) (node : Node) : Prop where
  name : node.tag = nameIn tag
  attributes : ∃ attributes, itemsOf tag = attributes.map .ok
    ∧ unescapeAll attributes = .ok node.attributes

/-- A node has the name of a tag and the attributes in it that nothing is wrong with. -/
structure HasRead (tag : List Char) (node : Node) : Prop where
  name : node.tag = nameIn tag
  attributes : unescapeAll ((itemsOf tag).filterMap Except.toOption) = .ok node.attributes

theorem faultless_iff {tag : List Char} :
    Faultless tag ↔ ∃ attributes : List RawAttribute, itemsOf tag = attributes.map .ok := by
  refine exists_congr fun attributes => ?_
  rw [itemsOf, attributeItems_eq_map_iff]
  constructor
  · rintro ⟨hquoted, hnodup⟩
    exact ⟨hquoted, hnodup, fun _ _ => List.not_mem_nil⟩
  · rintro ⟨hquoted, hnodup, -⟩
    exact ⟨hquoted, hnodup⟩

theorem kept_of_itemsOf_eq {tag : List Char} {attributes : List RawAttribute}
    (h : itemsOf tag = attributes.map .ok) :
    (itemsOf tag).filterMap Except.toOption = attributes := by
  rw [h, List.filterMap_map]
  exact List.filterMap_some

/-- **A node has all attributes of a tag** exactly if the tag is faultless and the node was read from
it. -/
theorem hasAll_iff {tag : List Char} {node : Node} :
    HasAll tag node ↔ Faultless tag ∧ HasRead tag node := by
  rw [faultless_iff]
  constructor
  · rintro ⟨hname, attributes, hitems, hattributes⟩
    refine ⟨⟨attributes, hitems⟩, hname, ?_⟩
    rwa [kept_of_itemsOf_eq hitems]
  · rintro ⟨⟨attributes, hitems⟩, hname, hattributes⟩
    rw [kept_of_itemsOf_eq hitems] at hattributes
    exact ⟨hname, attributes, hitems, hattributes⟩

theorem fault?_eq_none_of_parse {text : String} {root : Node} (h : parse text = .ok root) :
    (events text).fault? = none := by
  unfold parse at h
  dsimp only at h
  split at h
  · cases h
  · cases h
  · next hfault => exact hfault

/-- **What a tree holds of the attributes of a document.**  Its nodes are read from the tags in order,
each with the attributes that nothing is wrong with; what is wrong with others is no fault of the
document.  So all nodes have all attributes exactly if no tag is faulty. -/
theorem attributes_parse {text : String} {root : Node} (h : parse text = .ok root) :
    List.Forall₂ HasRead (startTags text) root.inOrder
    ∧ (List.Forall₂ HasAll (startTags text) root.inOrder ↔ ∀ tag ∈ startTags text, Faultless tag) := by
  have hfault := fault?_eq_none_of_parse h
  have htraversal := ((parse_eq_ok_iff_traversal hfault).1 root).1 h
  have hnodes : Node.inOrderAll [root] = root.inOrder := by
    rw [Node.inOrderAll, Node.inOrderAll, List.append_nil]
  have hread : List.Forall₂ HasRead (startTags text) root.inOrder := by
    have hstarts := htraversal.starts
    rw [events_eq_scan] at hfault hstarts
    have hevents := starts_eventsOf hfault
    rw [hstarts, hnodes, starts_scan, List.forall₂_map_left_iff, List.forall₂_map_right_iff] at hevents
    refine hevents.imp fun tag node hpair => ⟨hpair.1, ?_⟩
    rw [itemsOf, ← readAttributes_eq]
    exact hpair.2
  refine ⟨hread, ?_⟩
  have hall : List.Forall₂ HasAll (startTags text) root.inOrder
      ↔ List.Forall₂ (fun tag node => Faultless tag ∧ HasRead tag node) (startTags text)
        root.inOrder :=
    ⟨fun h => h.imp fun _ _ => hasAll_iff.1, fun h => h.imp fun _ _ => hasAll_iff.2⟩
  rw [hall, List.forall₂_and_left]
  exact and_iff_left hread

/-- The value of the second attribute is not quoted, and the third key stands in the tag before. -/
def levelDocument : String := "<Data name='level' type=int name='rank' />"

theorem parse_levelDocument :
    parse levelDocument = .ok ⟨"Data", [("name", "level")], []⟩ := by decide +kernel

theorem attributes_parse_levelDocument :
    List.Forall₂ HasRead (startTags levelDocument)
      (Node.inOrder ⟨"Data", [("name", "level")], []⟩)
    ∧ (List.Forall₂ HasAll (startTags levelDocument)
        (Node.inOrder ⟨"Data", [("name", "level")], []⟩)
      ↔ ∀ tag ∈ startTags levelDocument, Faultless tag) :=
  attributes_parse parse_levelDocument

/-- A document is read although its tag is faulty. -/
theorem not_faultless_levelDocument :
    parse levelDocument = .ok ⟨"Data", [("name", "level")], []⟩
    ∧ ∃ tag ∈ startTags levelDocument,
      itemsOf tag = [.ok ⟨"name", "level"⟩, .error .unquotedValue, .error .repeatedKey]
      ∧ ¬ Faultless tag := by
  have htags : startTags levelDocument = ["Data name='level' type=int name='rank' /".toList] := by
    decide +kernel
  have hitems : itemsOf "Data name='level' type=int name='rank' /".toList
      = [.ok ⟨"name", "level"⟩, .error .unquotedValue, .error .repeatedKey] := by
    decide +kernel
  refine ⟨parse_levelDocument, _, by rw [htags]; exact List.mem_singleton_self _, hitems, ?_⟩
  rw [faultless_iff]
  rintro ⟨attributes, hattributes⟩
  have hmem : Except.error AttributeFault.unquotedValue ∈ attributes.map Except.ok := by
    rw [← hattributes, hitems]
    exact List.mem_cons_of_mem _ List.mem_cons_self
  obtain ⟨a, -, ha⟩ := List.mem_map.1 hmem
  cases ha

end Markup

end SchemaBinding
