import SchemaBinding.Proofs.Markup.Tag
import SchemaBinding.Proofs.Markup.Traversal
import Mathlib.Data.List.Infix

/-!
# Rendered trees

A tree is rendered in many ways: a value may stand in either quote and its characters may be named,
an element without children may close itself, and text, comments and instructions may stand
wherever a tag may.  A `Rendering` is any of these.  However a tree is rendered, it is read back.

* `Scans`, `Means`: the tags of a text and the events of tags, whatever follows.
* `scans_of_passage`: what stands between two tags is passed over.
* `exists_traversal_of_rendering`: the events of a rendering are the traversal of its trees.
* `parse_of_renderedDocument`: every tree can be rendered, and reading any of its renderings answers
  with it.
-/

namespace SchemaBinding

/-- A tree that can be rendered: its tags and keys are names, and no node has a key twice. -/
inductive Node.Writable : Node → Prop
  | mk {tag : String} {attributes : List (String × String)} {children : List Node} :
    Markup.isName tag = true → (∀ pair ∈ attributes, Markup.isName pair.1 = true) →
    (attributes.map Prod.fst).Nodup → (∀ child ∈ children, Writable child) →
    Writable ⟨tag, attributes, children⟩

namespace Markup

/-- What may stand between two tags: text, a comment or an instruction. -/
inductive Passage : List Char → Prop
  | text {cs : List Char} : (∀ c ∈ cs, c ≠ '<' ∧ c ≠ '&') → Passage cs
  | comment {body : List Char} : ¬ "-->".toList <:+: body →
    Passage ('<' :: '!' :: ("--".toList ++ (body ++ "-->".toList)))
  | instruction {body : List Char} : body.head? ≠ some '>' → ¬ "?>".toList <:+: body →
    Passage ('<' :: '?' :: (body ++ "?>".toList))

/-- A text that stands for trees, in order.  There may be passages before and behind every tag. -/
inductive Rendering : List Node → List Char → Prop
  | nil : Rendering [] []
  | passage {nodes : List Node} {cs ds : List Char} : Passage cs → Rendering nodes ds →
    Rendering nodes (cs ++ ds)
  | selfClosing {tag : String} {attributes : List (String × String)} {siblings : List Node}
      {written gap ds : List Char} :
    WrittenAttributes attributes written → Blank gap → Rendering siblings ds →
    Rendering (⟨tag, attributes, []⟩ :: siblings)
      ('<' :: (tag.toList ++ (written ++ gap) ++ '/' :: '>' :: ds))
  | element {tag : String} {attributes : List (String × String)} {children siblings : List Node}
      {written gap inner behind ds : List Char} :
    WrittenAttributes attributes written → Blank gap → Rendering children inner → Blank behind →
    Rendering siblings ds →
    Rendering (⟨tag, attributes, children⟩ :: siblings)
      ('<' :: (tag.toList ++ (written ++ gap) ++ '>'
        :: (inner ++ '<' :: '/' :: (tag.toList ++ behind ++ '>' :: ds))))

/-- A document of one tree; a declaration may stand first. -/
inductive RenderedDocument (root : Node) : List Char → Prop
  | plain {cs : List Char} : Rendering [root] cs → RenderedDocument root cs
  | declared {body cs : List Char} : ¬ "?>".toList <:+: body → Rendering [root] cs →
    RenderedDocument root ('<' :: '?' :: ("xml".toList ++ body ++ "?>".toList) ++ cs)

/-! ### Tags and events, whatever follows -/

def Reading.prepend {α : Type} (items : List α) (reading : Reading α) : Reading α :=
  ⟨items ++ reading.items, reading.fault?⟩

theorem Reading.prepend_nil {α : Type} (reading : Reading α) : reading.prepend [] = reading := rfl

theorem Reading.prepend_append {α : Type} (before after : List α) (reading : Reading α) :
    reading.prepend (before ++ after) = (reading.prepend after).prepend before := by
  rw [prepend, prepend, prepend, List.append_assoc]

/-- The tags of a text, whatever follows it. -/
def Scans (cs : List Char) (tags : List Piece) : Prop :=
  ∀ rest, scan (cs ++ rest) = (scan rest).prepend tags

/-- The events of tags, whatever is open and whatever follows. -/
def Means (tags : List Piece) (es : List Event) : Prop :=
  ∀ opened ending? rest,
    eventsOf opened ending? (tags ++ rest) = (eventsOf opened ending? rest).prepend es

theorem Scans.append {cs ds : List Char} {before after : List Piece} (hcs : Scans cs before)
    (hds : Scans ds after) : Scans (cs ++ ds) (before ++ after) := by
  intro rest
  rw [List.append_assoc, hcs, hds, Reading.prepend_append]

theorem scans_of_readMarkup {cs : List Char} {piece : Piece} (hne : cs ≠ [])
    (h : ∀ rest, readMarkup (cs ++ rest) = .ok (some piece, rest)) : Scans ('<' :: cs) [piece] := by
  intro rest
  rw [List.cons_append, scan_tag (h rest) (List.append_ne_nil_of_left_ne_nil hne rest)]
  rfl

theorem Means.append {before after : List Piece} {es fs : List Event} (hes : Means before es)
    (hfs : Means after fs) : Means (before ++ after) (es ++ fs) := by
  intro opened ending? rest
  rw [List.append_assoc, hes, hfs, Reading.prepend_append]

theorem means_selfClosing {raw : List RawAttribute} {attributes : List (String × String)}
    (h : unescapeAll raw = .ok attributes) (tag : String) :
    Means [.selfClosing tag raw] [.selfClosing tag attributes] := by
  intro opened ending? rest
  rw [List.singleton_append, eventsOf, h]
  rfl

/-- A tag that opens an element is closed by the tag that closes it. -/
theorem means_element {raw : List RawAttribute} {attributes : List (String × String)}
    (h : unescapeAll raw = .ok attributes) (tag : String) {tags : List Piece} {es : List Event}
    (hinner : Means tags es) :
    Means (.opening tag raw :: (tags ++ [.closing tag]))
      (.opening tag attributes :: (es ++ [.closing tag])) := by
  intro opened ending? rest
  have hclose : eventsOf (tag :: opened) ending? (.closing tag :: rest)
      = (eventsOf opened ending? rest).cons (.closing tag) := by
    rw [eventsOf, if_pos rfl]
  have hrest := hinner (tag :: opened) ending? (.closing tag :: rest)
  rw [hclose] at hrest
  rw [List.cons_append, List.append_assoc, List.singleton_append, eventsOf, h]
  simp [hrest, Reading.cons, Reading.prepend]

/-! ### Passages -/

/-- A mark that no proper end of it begins is found at its place behind a text without it. -/
theorem cut?_of_not_infix {mark body : List Char} (hne : mark ≠ [])
    (hends : ∀ s ∈ mark.tails, s <+: mark → s = [] ∨ s = mark) (hbody : ¬ mark <:+: body)
    (rest : List Char) : cut? mark (body ++ mark ++ rest) = some (body, rest) := by
  refine cut?_append hne fun pre c post heq hmark => ?_
  have hpost : c :: post <:+: body := by
    rw [heq]
    exact (List.suffix_append pre _).isInfix
  rw [List.append_assoc] at hmark
  rcases List.prefix_or_prefix_of_prefix hmark (List.prefix_append _ _) with hin | ⟨tail, htail⟩
  · exact hbody (hin.isInfix.trans hpost)
  · -- the mark would begin in the text and end in itself
    have hlength : (c :: post).length + tail.length = mark.length := by
      rw [← htail, List.length_append]
    have hbegins : tail <+: mark := by
      rw [← htail, List.prefix_append_right_inj, htail] at hmark
      exact List.prefix_of_prefix_length_le hmark (List.prefix_append _ _) (by omega)
    have htails : tail ∈ mark.tails := (List.mem_tails _ _).2 ⟨_, htail⟩
    rcases hends tail htails hbegins with rfl | rfl
    · rw [List.append_nil] at htail
      exact hbody (htail ▸ hpost)
    · rw [List.length_cons] at hlength
      omega

theorem afterInstruction_of_cut? {cs body rest : List Char} (hhead : cs.head? ≠ some '>')
    (hcut : cut? "?>".toList cs = some (body, rest)) : afterInstruction cs = .ok rest := by
  simp only [afterInstruction]
  split
  · exact absurd rfl hhead
  · rw [hcut]

/-- What stands between two tags is passed over. -/
theorem scans_of_passage {cs : List Char} (h : Passage cs) : Scans cs [] := by
  intro rest
  rw [Reading.prepend_nil]
  cases h with
  | text hchars => exact scan_text hchars rest
  | @comment body hbody =>
    have hcut := cut?_of_not_infix (by decide) (by decide) hbody rest
    have hread : readMarkup ('!' :: ("--".toList ++ (body ++ "-->".toList)) ++ rest)
        = .ok (none, rest) := by
      rw [List.cons_append, List.append_assoc, readMarkup]
      have hbang : afterBang ("--".toList ++ (body ++ "-->".toList ++ rest)) = .ok rest := by
        change afterBracketed "--".toList "-->".toList _ _ = _
        rw [afterBracketed, afterStart?_append, Option.bind_some, hcut]
      rw [hbang]
      rfl
    exact scan_skipped hread (List.cons_ne_nil _ _)
  | @instruction body hhead hbody =>
    have hcut := cut?_of_not_infix (by decide) (by decide) hbody rest
    have hhead' : (body ++ "?>".toList ++ rest).head? ≠ some '>' := by
      cases body with
      | nil => simp
      | cons c more => exact hhead
    have hread : readMarkup ('?' :: (body ++ "?>".toList) ++ rest) = .ok (none, rest) := by
      rw [List.cons_append, readMarkup, afterInstruction_of_cut? hhead' hcut]
      rfl
    exact scan_skipped hread (List.cons_ne_nil _ _)

/-! ### Renderings -/

section Tags

variable {tag : String} {attributes : List (String × String)} {written gap : List Char}
  (htag : isName tag = true) (hwritten : WrittenAttributes attributes written) (hgap : Blank gap)
  (hnames : ∀ pair ∈ attributes, isName pair.1 = true) (hnodup : (attributes.map Prod.fst).Nodup)

include htag in
theorem content_ne_nil (cs : List Char) : tag.toList ++ cs ≠ [] := by
  obtain ⟨c, more, hstart, -⟩ := exists_start_of_isName htag
  rw [hstart]
  exact List.cons_ne_nil _ _

include htag hwritten hgap hnames hnodup

/-- A tag between its angles is one tag, with or without a slash, and its attributes are read. -/
theorem exists_scans_of_written : ∃ raw, unescapeAll raw = .ok attributes
    ∧ Scans ('<' :: (tag.toList ++ (written ++ gap) ++ ['>'])) [.opening tag raw]
    ∧ Scans ('<' :: (tag.toList ++ (written ++ gap) ++ ['/', '>'])) [.selfClosing tag raw] := by
  obtain ⟨raw, hraw, hread⟩ := readAttributes_written hwritten hgap hnames
  refine ⟨raw, hraw, scans_of_readMarkup ?_ fun rest => ?_, scans_of_readMarkup ?_ fun rest => ?_⟩
  · rw [List.append_assoc]
    exact content_ne_nil htag _
  · rw [List.append_assoc, List.singleton_append, readMarkup_opening htag hwritten hnames hgap,
      hread [] hnodup]
  · rw [List.append_assoc]
    exact content_ne_nil htag _
  · rw [List.append_assoc, List.cons_append, List.singleton_append,
      readMarkup_selfClosing htag hwritten hnames hgap, hread [] hnodup]

omit hwritten hnames hnodup

theorem scans_closing : Scans ('<' :: '/' :: (tag.toList ++ gap ++ ['>'])) [.closing tag] := by
  refine scans_of_readMarkup (List.cons_ne_nil _ _) fun rest => ?_
  have hread := readMarkup_closing htag hgap rest
  rw [List.cons_append] at hread ⊢
  rw [List.append_assoc, List.singleton_append, hread]

end Tags

/-- **The events of a rendering are a traversal** of its trees. -/
theorem exists_traversal_of_rendering {nodes : List Node} {cs : List Char}
    (h : Rendering nodes cs) (hnodes : ∀ node ∈ nodes, node.Writable) :
    ∃ tags es, Scans cs tags ∧ Means tags es ∧ Traversal es nodes := by
  induction h with
  | nil => exact ⟨[], [], fun _ => rfl, fun _ _ _ => rfl, .nil⟩
  | passage hpassage _ ih =>
    obtain ⟨tags, es, hscans, hmeans, htraversal⟩ := ih hnodes
    exact ⟨tags, es, (scans_of_passage hpassage).append hscans, hmeans, htraversal⟩
  | @selfClosing tag attributes siblings written gap ds hwritten hgap _ ih =>
    obtain ⟨tags, es, hscans, hmeans, htraversal⟩ :=
      ih fun node hm => hnodes node (List.mem_cons_of_mem _ hm)
    obtain ⟨htag, hnames, hnodup, -⟩ := hnodes _ List.mem_cons_self
    obtain ⟨raw, hraw, -, htagged⟩ := exists_scans_of_written htag hwritten hgap hnames hnodup
    refine ⟨.selfClosing tag raw :: tags, .selfClosing tag attributes :: es, ?_,
      (means_selfClosing hraw tag).append hmeans, .selfClosing tag attributes htraversal⟩
    have hall := htagged.append hscans
    simpa using hall
  | @element tag attributes children siblings written gap inner behind ds hwritten hgap _ hbehind _
      ihinner ihrest =>
    obtain ⟨htag, hnames, hnodup, hchildren⟩ := hnodes _ List.mem_cons_self
    obtain ⟨intags, ines, hinscans, hinmeans, hintraversal⟩ := ihinner hchildren
    obtain ⟨tags, es, hscans, hmeans, htraversal⟩ :=
      ihrest fun node hm => hnodes node (List.mem_cons_of_mem _ hm)
    obtain ⟨raw, hraw, hopening, -⟩ := exists_scans_of_written htag hwritten hgap hnames hnodup
    refine ⟨.opening tag raw :: (intags ++ [.closing tag]) ++ tags,
      .opening tag attributes :: (ines ++ [.closing tag]) ++ es, ?_,
      (means_element hraw tag hinmeans).append hmeans, ?_⟩
    · have hall := hopening.append (hinscans.append ((scans_closing htag hbehind).append hscans))
      simpa using hall
    · have hall := Traversal.element tag attributes hintraversal htraversal
      simpa using hall

/-! ### Documents -/

/-- A byte order mark is text, whether or not it is dropped. -/
theorem events_eq_scan (text : String) :
    events text = eventsOf [] (scan text.toList).fault? (scan text.toList).items := by
  unfold events
  split
  · next rest heq =>
    have hmark : scan ('\uFEFF' :: rest) = scan rest :=
      @scan_text ['\uFEFF'] (by simp) rest
    rw [heq, hmark]
  · rfl

theorem parse_of_rendering {root : Node} (hroot : root.Writable) {text : String}
    (h : Rendering [root] text.toList) : parse text = .ok root := by
  have hnodes : ∀ node ∈ [root], node.Writable := fun node hm => by
    rw [List.mem_singleton.1 hm]
    exact hroot
  obtain ⟨tags, es, hscans, hmeans, htraversal⟩ := exists_traversal_of_rendering h hnodes
  have hscan : scan text.toList = ⟨tags, none⟩ := by
    have hall := hscans []
    rw [List.append_nil, scan_nil] at hall
    simpa [Reading.done, Reading.prepend] using hall
  have hevents : events text = ⟨es, none⟩ := by
    have hall := hmeans [] none []
    rw [List.append_nil, eventsOf] at hall
    rw [events_eq_scan, hscan]
    simpa [Reading.prepend] using hall
  exact parse_of_traversal (by rw [hevents]) (by rwa [hevents])

namespace RenderedDocument

/-- A declaration is an instruction. -/
theorem rendering {root : Node} {cs : List Char} (h : RenderedDocument root cs) :
    Rendering [root] cs := by
  cases h with
  | plain h => exact h
  | @declared body _ hbody h =>
    have hbody' : ¬ "?>".toList <:+: "xml".toList ++ body := by
      simpa [List.infix_cons_iff, List.cons_prefix_cons] using hbody
    exact .passage (.instruction (by simp) hbody') h

end RenderedDocument

theorem Rendering.append {ns ms : List Node} {cs ds : List Char} (h : Rendering ns cs)
    (h' : Rendering ms ds) : Rendering (ns ++ ms) (cs ++ ds) := by
  induction h with
  | nil => exact h'
  | passage hpassage _ ih =>
    rw [List.append_assoc]
    exact .passage hpassage ih
  | selfClosing hwritten hgap _ ih => simpa using Rendering.selfClosing hwritten hgap ih
  | element hwritten hgap hinner hbehind _ _ ih =>
    simpa using Rendering.element hwritten hgap hinner hbehind ih

theorem exists_rendering_all {nodes : List Node} (h : ∀ node ∈ nodes, ∃ cs, Rendering [node] cs) :
    ∃ cs, Rendering nodes cs := by
  induction nodes with
  | nil => exact ⟨[], .nil⟩
  | cons node rest ih =>
    obtain ⟨cs, hcs⟩ := h node List.mem_cons_self
    obtain ⟨ds, hds⟩ := ih fun other hm => h other (List.mem_cons_of_mem _ hm)
    exact ⟨cs ++ ds, hcs.append hds⟩

theorem exists_rendering {root : Node} (hroot : root.Writable) : ∃ cs, Rendering [root] cs := by
  induction hroot with
  | @mk tag attributes children _ _ _ _ ih =>
    obtain ⟨written, hwritten⟩ := exists_writtenAttributes attributes
    obtain ⟨inner, hinner⟩ := exists_rendering_all ih
    have hnone : Blank [] := by simp [Blank]
    exact ⟨_, .element hwritten hnone hinner hnone .nil⟩

/-- **Reading undoes every rendering.**  A tree has renderings, and each of them is read as it. -/
theorem parse_of_renderedDocument {root : Node} (hroot : root.Writable) :
    (∃ text : String, RenderedDocument root text.toList)
    ∧ ∀ text : String, RenderedDocument root text.toList → parse text = .ok root := by
  refine ⟨?_, fun text h => parse_of_rendering hroot h.rendering⟩
  obtain ⟨cs, hcs⟩ := exists_rendering hroot
  exact ⟨String.ofList cs, .plain (by rwa [String.toList_ofList])⟩

def boxTree : Node := ⟨"Box", [("size", "1<\"2\"")], [⟨"Lid", [], []⟩]⟩

/-- A rendering with a declaration, a comment and a space behind the last name. -/
def boxRendering : String :=
  "<?xml version='1.0'?><Box size = '1&lt;\"2&quot;'>in<!-- flat --><Lid/></Box >"

theorem writable_boxTree : boxTree.Writable := by
  refine .mk (by decide) (by decide) (by decide) fun child hm => ?_
  rw [List.mem_singleton.1 hm]
  exact .mk (by decide) (by decide) (by decide) nofun

theorem renderedDocument_boxRendering : RenderedDocument boxTree boxRendering.toList := by
  have hform : boxRendering.toList
      = '<' :: '?' :: ("xml".toList ++ " version='1.0'".toList ++ "?>".toList)
        ++ '<' :: ("Box".toList ++ ([' '] ++ ("size".toList ++ ([' '] ++ '='
            :: ([' '] ++ '\'' :: ("1&lt;\"2&quot;".toList ++ '\'' :: [])))) ++ []) ++ '>'
          :: ("in".toList ++ ('<' :: '!' :: ("--".toList ++ (" flat ".toList ++ "-->".toList))
                ++ '<' :: ("Lid".toList ++ ([] ++ []) ++ '/' :: '>' :: []))
            ++ '<' :: '/' :: ("Box".toList ++ [' '] ++ '>' :: []))) := by
    decide +kernel
  have hvalue : WrittenValue '\'' "1<\"2\"".toList "1&lt;\"2&quot;".toList :=
    .plain (by decide) (by decide) (.named (by decide : ("lt".toList, '<') ∈ namedCharacters)
      (.plain (by decide) (by decide) (.plain (by decide) (by decide)
        (.named (by decide : ("quot".toList, '"') ∈ namedCharacters) .nil))))
  have hspace : Blank [' '] := by simp [Blank, isSpace]
  have hnone : Blank [] := by simp [Blank]
  rw [hform]
  refine .declared (by decide) (.element ?_ hnone ?_ hspace .nil)
  · exact .cons (List.cons_ne_nil _ _) hspace hspace hspace rfl hvalue .nil
  · have hlid : Rendering [⟨"Lid", [], []⟩] _ := .selfClosing .nil hnone .nil
    exact .passage (.text (by simp)) (.passage (.comment (by decide)) hlid)

theorem parse_boxRendering :
    boxTree.Writable ∧ RenderedDocument boxTree boxRendering.toList
      ∧ parse boxRendering = .ok boxTree :=
  ⟨writable_boxTree, renderedDocument_boxRendering,
    (parse_of_renderedDocument writable_boxTree).2 _ renderedDocument_boxRendering⟩

end Markup

end SchemaBinding
