import SchemaBinding.Markup.Document
import Mathlib.Data.List.Nodup

/-!
# Documents with one root

The events of a document are a `Traversal` of elements if each element either closes itself or
opens, goes through its children and closes under its own name.  Reading a document answers with a
tree exactly if the events are the traversal of that one tree.

* `distinct_events`, `matching_events`: no event gives a key twice, and a closing event names the
  innermost open element.
* `Assembly.run_of_traversal`: a traversal attaches its elements one after the other.
* `Assembly.built_run`: what is under construction is what the events went through, and nothing but
  a second root stops them.
* `parse_eq_ok_iff_traversal`: the trees that are answered, and what is wrong with the events where
  none is.
-/

namespace SchemaBinding

theorem Node.insertPair_of_notMem {key : String} {pairs : List (String × String)}
    (h : key ∉ pairs.map Prod.fst) (value : String) :
    insertPair key value pairs = pairs ++ [(key, value)] := by
  induction pairs with
  | nil => rfl
  | cons pair rest ih =>
    rw [List.map_cons, List.mem_cons, not_or] at h
    rw [insertPair, if_neg (Ne.symm h.1), ih h.2, List.cons_append]

/-- New keys are added one after the other. -/
theorem Node.setAttrs_of_nodup {n : Node} {pairs : List (String × String)}
    (h : (n.keys ++ pairs.map Prod.fst).Nodup) :
    n.setAttrs pairs = { n with attributes := n.attributes ++ pairs } := by
  induction pairs generalizing n with
  | nil =>
    obtain ⟨tag, attributes, children⟩ := n
    rw [List.append_nil]
    rfl
  | cons pair rest ih =>
    have hnew : pair.1 ∉ n.attributes.map Prod.fst := by
      intro hmem
      exact (List.nodup_append.1 h).2.2 _ hmem _ List.mem_cons_self rfl
    have hset : n.setAttr pair.1 pair.2 = { n with attributes := n.attributes ++ [pair] } := by
      rw [setAttr, insertPair_of_notMem hnew]
    have hnodup : ((n.setAttr pair.1 pair.2).keys ++ rest.map Prod.fst).Nodup := by
      rw [hset, keys, List.map_append, List.append_assoc]
      exact h
    have hrest := ih hnodup
    rw [hset, List.append_assoc, List.singleton_append] at hrest
    rw [← hrest, ← hset]
    rfl

namespace Markup

/-! ### Distinct keys -/

/-- No key is given twice. -/
def Piece.Distinct : Piece → Prop
  | .opening _ attributes | .selfClosing _ attributes => (attributes.map RawAttribute.key).Nodup
  | .closing _ => True

def Event.Distinct : Event → Prop
  | .opening _ attributes | .selfClosing _ attributes => (attributes.map Prod.fst).Nodup
  | .closing _ => True

theorem distinct_ofTag (cs : List Char) : (Piece.ofTag cs).Distinct := by
  unfold Piece.ofTag
  split
  · exact (keys_readAttributes [] _).1
  · exact (keys_readAttributes [] _).1

theorem distinct_readMarkup {cs rest : List Char} {piece : Piece}
    (h : readMarkup cs = .ok (some piece, rest)) : piece.Distinct := by
  unfold readMarkup at h
  split at h
  · obtain ⟨_, -, he⟩ := map_eq_ok h
    cases he
  · obtain ⟨_, -, he⟩ := map_eq_ok h
    cases he
  · obtain ⟨_, -, he⟩ := map_eq_ok h
    cases he
    trivial
  · obtain ⟨_, -, he⟩ := map_eq_ok h
    cases he
    exact distinct_ofTag _

theorem distinct_scan (cs : List Char) : ∀ piece ∈ (scan cs).items, piece.Distinct := by
  fun_induction scan cs with
  | case1 => simp [Reading.done]
  | case2 => simp [Reading.stop]
  | case3 => simp [Reading.stop]
  | case4 _ _ _ _ _ ih => exact ih
  | case5 rest _ piece after h _ ih =>
    intro other hmem
    rcases List.mem_cons.1 hmem with rfl | hmem
    · exact distinct_readMarkup h
    · exact ih other hmem
  | case6 => simp [Reading.stop]
  | case7 _ _ _ _ _ ih => exact ih
  | case8 _ _ _ _ ih => exact ih

/-- Unescaping leaves the keys. -/
theorem keys_unescapeAll {raw : List RawAttribute} {attributes : List (String × String)}
    (h : unescapeAll raw = .ok attributes) :
    attributes.map Prod.fst = raw.map RawAttribute.key := by
  induction raw generalizing attributes with
  | nil =>
    cases h
    rfl
  | cons a rest ih =>
    rw [unescapeAll, List.mapM_cons] at h
    cases hvalue : unescape a.value with
    | error fault =>
      rw [hvalue] at h
      cases h
    | ok value =>
      rw [hvalue] at h
      cases hrest : unescapeAll rest with
      | error fault =>
        rw [unescapeAll] at hrest
        rw [hrest] at h
        cases h
      | ok others =>
        have hkeys := ih hrest
        rw [unescapeAll] at hrest
        rw [hrest] at h
        cases h
        rw [List.map_cons, List.map_cons, hkeys]

theorem distinct_eventsOf {opened : List String} {ending? : Option Fault} {tags : List Piece}
    (h : ∀ piece ∈ tags, piece.Distinct) :
    ∀ e ∈ (eventsOf opened ending? tags).items, e.Distinct := by
  induction tags generalizing opened with
  | nil => simp [eventsOf]
  | cons piece rest ih =>
    have hpiece := h piece List.mem_cons_self
    have hrest : ∀ {names : List String}, ∀ e ∈ (eventsOf names ending? rest).items, e.Distinct :=
      ih fun other hmem => h other (List.mem_cons_of_mem _ hmem)
    cases piece with
    | opening name raw =>
      unfold eventsOf
      split
      · simp [Reading.stop]
      · next attributes hattributes =>
        intro e hmem
        rcases List.mem_cons.1 hmem with rfl | hmem
        · rw [Event.Distinct, keys_unescapeAll hattributes]
          exact hpiece
        · exact hrest e hmem
    | selfClosing name raw =>
      unfold eventsOf
      split
      · simp [Reading.stop]
      · next attributes hattributes =>
        intro e hmem
        rcases List.mem_cons.1 hmem with rfl | hmem
        · rw [Event.Distinct, keys_unescapeAll hattributes]
          exact hpiece
        · exact hrest e hmem
    | closing name =>
      unfold eventsOf
      split
      · simp [Reading.stop]
      · split
        · intro e hmem
          rcases List.mem_cons.1 hmem with rfl | hmem
          · trivial
          · exact hrest e hmem
        · simp [Reading.stop]

/-- **No event of a document gives a key twice.** -/
theorem distinct_events (text : String) : ∀ e ∈ (events text).items, e.Distinct :=
  distinct_eventsOf (distinct_scan _)

/-! ### Matching names -/

/-- An event that closes an element names the innermost open one.  `opened` holds the names that
are open before the events. -/
def Matching (opened : List String) (events : List Event) : Prop :=
  ∀ before tag after, events = before ++ .closing tag :: after →
    (before.foldl openedAfter opened).head? = some tag

theorem Matching.head {opened : List String} {tag : String} {rest : List Event}
    (h : Matching opened (.closing tag :: rest)) : opened.head? = some tag :=
  h [] tag rest rfl

theorem Matching.tail {opened : List String} {e : Event} {rest : List Event}
    (h : Matching opened (e :: rest)) : Matching (openedAfter opened e) rest := by
  intro before tag after heq
  exact h (e :: before) tag after (by rw [heq, List.cons_append])

/-- **Closing events of a document match.** -/
theorem matching_events (text : String) : Matching [] (events text).items :=
  fun _ _ _ heq => closing_of_eventsOf heq

/-! ### Traversals -/

/-- Events that go through elements one after the other. -/
inductive Traversal : List Event → List Node → Prop
  | nil : Traversal [] []
  | selfClosing {rest : List Event} {nodes : List Node} (tag : String)
      (attributes : List (String × String)) :
    Traversal rest nodes →
    Traversal (.selfClosing tag attributes :: rest) (⟨tag, attributes, []⟩ :: nodes)
  | element {inner rest : List Event} {children nodes : List Node} (tag : String)
      (attributes : List (String × String)) :
    Traversal inner children → Traversal rest nodes →
    Traversal (.opening tag attributes :: (inner ++ .closing tag :: rest))
      (⟨tag, attributes, children⟩ :: nodes)

namespace Traversal

variable {es fs : List Event} {ns ms : List Node}

theorem append (h : Traversal es ns) (h' : Traversal fs ms) : Traversal (es ++ fs) (ns ++ ms) := by
  induction h with
  | nil => exact h'
  | selfClosing tag attributes _ ih => exact .selfClosing tag attributes ih
  | element tag attributes hinner _ _ ih =>
    rw [List.cons_append, List.cons_append, List.append_assoc, List.cons_append]
    exact .element tag attributes hinner ih

theorem leaf (tag : String) (attributes : List (String × String)) :
    Traversal [.selfClosing tag attributes] [⟨tag, attributes, []⟩] :=
  .selfClosing tag attributes .nil

/-- An element whose children are complete is closed. -/
theorem close {node : Node} (h : Traversal es node.children) :
    Traversal (.opening node.tag node.attributes :: (es ++ [.closing node.tag])) [node] := by
  obtain ⟨tag, attributes, children⟩ := node
  exact .element tag attributes h .nil

theorem eq_nil (h : Traversal es []) : es = [] := by
  cases h
  rfl

end Traversal

namespace Assembly

/-! ### Traversals are followed -/

def attachAll (a : Assembly) : List Node → Except TreeFault Assembly
  | [] => .ok a
  | node :: rest => (a.attach node).bind (·.attachAll rest)

/-- What is attached inside an open element becomes its children. -/
theorem attachAll_opened (node : Node) (outer nodes : List Node) (root? : Option Node) :
    attachAll ⟨node :: outer, root?⟩ nodes
      = .ok ⟨{ node with children := node.children ++ nodes } :: outer, root?⟩ := by
  induction nodes generalizing node with
  | nil =>
    obtain ⟨tag, attributes, children⟩ := node
    rw [List.append_nil]
    rfl
  | cons child rest ih =>
    have hstep := ih (node.pushChild child)
    rw [Node.pushChild, List.append_assoc, List.singleton_append] at hstep
    exact hstep

theorem setAttrs_leaf (tag : String) {attributes : List (String × String)}
    (h : (attributes.map Prod.fst).Nodup) :
    (Node.leaf tag).setAttrs attributes = ⟨tag, attributes, []⟩ := by
  have hnodup : ((Node.leaf tag).keys ++ attributes.map Prod.fst).Nodup := h
  exact Node.setAttrs_of_nodup hnodup

/-- **A traversal attaches its elements** and leaves nothing open. -/
theorem run_of_traversal {es : List Event} {nodes : List Node} (h : Traversal es nodes)
    (hdistinct : ∀ e ∈ es, e.Distinct) (a : Assembly) : a.run es = a.attachAll nodes := by
  induction h generalizing a with
  | nil => rfl
  | selfClosing tag attributes _ ih =>
    have hleaf := setAttrs_leaf tag (hdistinct _ List.mem_cons_self)
    have hrest := ih fun e he => hdistinct e (List.mem_cons_of_mem _ he)
    rw [run, step, hleaf, attachAll]
    exact congrArg _ (funext hrest)
  | @element inner rest children nodes tag attributes _ _ ihinner ihrest =>
    have hleaf := setAttrs_leaf tag (hdistinct _ List.mem_cons_self)
    have hinner := ihinner fun e he =>
      hdistinct e (List.mem_cons_of_mem _ (List.mem_append_left _ he))
    have hrest := ihrest fun e he =>
      hdistinct e (List.mem_cons_of_mem _ (List.mem_append_right _ (List.mem_cons_of_mem _ he)))
    have hopen : a.run (.opening tag attributes :: (inner ++ .closing tag :: rest))
        = run ⟨⟨tag, attributes, []⟩ :: a.opened, a.root?⟩ (inner ++ .closing tag :: rest) := by
      rw [run, step, hleaf]
      rfl
    rw [hopen, run_append, hinner, attachAll_opened, attachAll]
    exact congrArg _ (funext hrest)

/-! ### What is under construction -/

/-- Events that leave elements open, each behind complete children of the one around it.  The
innermost element comes first, with the children that are complete. -/
inductive Unclosed : List Event → List Node → Prop
  | nil : Unclosed [] []
  | opening {before inner : List Event} {outer : List Node} (node : Node) :
    Unclosed before outer → Traversal inner node.children →
    Unclosed (before ++ .opening node.tag node.attributes :: inner) (node :: outer)

/-- The events have gone through the root, if it is complete, and then into the open elements. -/
def Built (a : Assembly) (es : List Event) : Prop :=
  ∃ before inside, es = before ++ inside ∧ Traversal before a.root?.toList
    ∧ Unclosed inside a.opened

theorem built_empty : empty.Built [] := ⟨[], [], rfl, .nil, .nil⟩

def SecondRoot (es : List Event) (fault : TreeFault) : Prop :=
  ∃ before after first second, es = before ++ after ∧ Traversal before [first, second]
    ∧ fault = .secondRoot second.tag

theorem SecondRoot.append {es : List Event} {fault : TreeFault} (h : SecondRoot es fault)
    (fs : List Event) : SecondRoot (es ++ fs) fault := by
  obtain ⟨before, after, first, second, rfl, htraversal, rfl⟩ := h
  exact ⟨before, after ++ fs, first, second, List.append_assoc _ _ _, htraversal, rfl⟩

variable {a : Assembly} {es : List Event}

/-- Attaching an element goes through it, unless there is a root already. -/
theorem built_attach (h : a.Built es) {part : List Event} {node : Node}
    (hpart : Traversal part [node]) :
    (∃ b, a.attach node = .ok b ∧ b.Built (es ++ part))
      ∨ ∃ fault, a.attach node = .error fault ∧ SecondRoot (es ++ part) fault := by
  obtain ⟨opened, root?⟩ := a
  obtain ⟨before, inside, rfl, hroot, hopened⟩ := h
  cases hopened with
  | @opening outside inner outer parent houter hinner =>
    refine Or.inl ⟨_, rfl, before, outside ++ .opening parent.tag parent.attributes ::
      (inner ++ part), by simp, hroot, ?_⟩
    exact .opening (parent.pushChild node) houter (hinner.append hpart)
  | nil =>
    rw [List.append_nil]
    cases root? with
    | none =>
      obtain rfl := hroot.eq_nil
      exact Or.inl ⟨_, rfl, part, [], (List.append_nil _).symm, hpart, .nil⟩
    | some root =>
      exact Or.inr ⟨_, rfl, before ++ part, [], root, node, (List.append_nil _).symm,
        hroot.append hpart, rfl⟩

/-- **One event goes on**, or completes a second root. -/
theorem built_step (h : a.Built es) {e : Event} (hdistinct : e.Distinct)
    (hmatching : ∀ tag, e = .closing tag → (a.opened.map Node.tag).head? = some tag) :
    (∃ b, a.step e = .ok b ∧ b.Built (es ++ [e]))
      ∨ ∃ fault, a.step e = .error fault ∧ SecondRoot (es ++ [e]) fault := by
  cases e with
  | opening tag attributes =>
    obtain ⟨before, inside, rfl, hroot, hopened⟩ := h
    refine Or.inl ⟨_, rfl, before, inside ++ [.opening tag attributes], ?_, hroot, ?_⟩
    · rw [List.append_assoc]
    · rw [setAttrs_leaf tag hdistinct]
      exact .opening ⟨tag, attributes, []⟩ hopened .nil
  | selfClosing tag attributes =>
    rw [step, setAttrs_leaf tag hdistinct]
    exact built_attach h (.leaf tag attributes)
  | closing tag =>
    obtain ⟨opened, root?⟩ := a
    obtain ⟨before, inside, rfl, hroot, hopened⟩ := h
    cases hopened with
    | nil => cases hmatching tag rfl
    | @opening outside inner outer node houter hinner =>
      -- without the innermost element, the events before it are what the assembly is built of
      obtain rfl : node.tag = tag := Option.some.inj (hmatching tag rfl)
      have hbuilt : Built ⟨outer, root?⟩ (before ++ outside) :=
        ⟨before, outside, rfl, hroot, houter⟩
      have hattach := built_attach hbuilt hinner.close
      have heq : before ++ (outside ++ .opening node.tag node.attributes :: inner)
            ++ [.closing node.tag]
          = before ++ outside ++ .opening node.tag node.attributes ::
            (inner ++ [.closing node.tag]) := by simp
      rw [heq]
      exact hattach

/-- **Events go on to their end**, or up to a second root. -/
theorem built_run (h : a.Built es) {fs : List Event} (hdistinct : ∀ e ∈ fs, e.Distinct)
    (hmatching : Matching (a.opened.map Node.tag) fs) :
    (∃ b, a.run fs = .ok b ∧ b.Built (es ++ fs))
      ∨ ∃ fault, a.run fs = .error fault ∧ SecondRoot (es ++ fs) fault := by
  induction fs generalizing a es with
  | nil => exact Or.inl ⟨a, rfl, by rwa [List.append_nil]⟩
  | cons e rest ih =>
    have hclosing : ∀ tag, e = .closing tag → (a.opened.map Node.tag).head? = some tag := by
      rintro tag rfl
      exact hmatching.head
    rw [List.append_cons, run]
    rcases built_step h (hdistinct e List.mem_cons_self) hclosing with
      ⟨b, hb, hbuilt⟩ | ⟨fault, hfault, hsecond⟩
    · have hrest : Matching (b.opened.map Node.tag) rest := by
        rw [opened_step hb]
        exact hmatching.tail
      rw [hb]
      exact ih hbuilt (fun f hf => hdistinct f (List.mem_cons_of_mem _ hf)) hrest
    · rw [hfault]
      exact Or.inr ⟨fault, rfl, hsecond.append rest⟩

end Assembly

/-! ### Reading -/

/-- What is wrong with the events of a document that are not the traversal of one element: there
are none, an element is left open, or a second element is complete. -/
def TreeFault.Explains (fault : TreeFault) (es : List Event) : Prop :=
  match fault with
  | .noRoot => es = []
  | .neverClosed tag => (es.foldl openedAfter []).head? = some tag
  | .secondRoot _ => Assembly.SecondRoot es fault
  | .unbalanced => False

theorem Assembly.explains_of_secondRoot {es : List Event} {fault : TreeFault}
    (h : SecondRoot es fault) : fault.Explains es := by
  have hsecond := h
  obtain ⟨before, after, first, second, -, -, rfl⟩ := h
  exact hsecond

/-- An assembly is finished if the events have gone through one element. -/
theorem Assembly.finish_of_built {a : Assembly} {es : List Event} (h : a.Built es)
    (hopened : a.opened.map Node.tag = es.foldl openedAfter []) :
    (∃ root, a.finish = .ok root ∧ Traversal es [root])
      ∨ ∃ fault, a.finish = .error fault ∧ fault.Explains es := by
  obtain ⟨opened, root?⟩ := a
  obtain ⟨before, inside, rfl, hroot, hinside⟩ := h
  cases hinside with
  | opening =>
    refine Or.inr ⟨_, rfl, ?_⟩
    rw [TreeFault.Explains, ← hopened]
    rfl
  | nil =>
    rw [List.append_nil]
    cases root? with
    | some root => exact Or.inl ⟨root, rfl, hroot⟩
    | none => exact Or.inr ⟨.noRoot, rfl, hroot.eq_nil⟩

theorem parse_of_run {text : String} {a : Assembly} (h : (events text).fault? = none)
    (hrun : Assembly.empty.run (events text).items = .ok a) :
    parse text = a.finish.mapError .tree := by
  rw [parse, h, hrun]

theorem parse_of_traversal {text : String} {root : Node} (h : (events text).fault? = none)
    (htraversal : Traversal (events text).items [root]) : parse text = .ok root := by
  have hrun : Assembly.empty.run (events text).items = .ok ⟨[], some root⟩ :=
    Assembly.run_of_traversal htraversal (distinct_events text) _
  rw [parse_of_run h hrun]
  rfl

theorem parse_eq_ok_or_explains {text : String} (h : (events text).fault? = none) :
    (∃ root, parse text = .ok root ∧ Traversal (events text).items [root])
      ∨ ∃ fault, parse text = .error (.tree fault) ∧ fault.Explains (events text).items := by
  rcases Assembly.built_run Assembly.built_empty (distinct_events text) (matching_events text) with
    ⟨a, hrun, hbuilt⟩ | ⟨fault, hrun, hsecond⟩
  · rcases Assembly.finish_of_built hbuilt (Assembly.opened_run hrun) with
      ⟨root, hfinish, htraversal⟩ | ⟨fault, hfinish, hexplains⟩
    · exact Or.inl ⟨root, by rw [parse_of_run h hrun, hfinish]; rfl, htraversal⟩
    · exact Or.inr ⟨fault, by rw [parse_of_run h hrun, hfinish]; rfl, hexplains⟩
  · exact Or.inr ⟨fault, by rw [parse, h, hrun], Assembly.explains_of_secondRoot hsecond⟩

/-- **A document is read exactly if it has one root.**  If nothing is wrong with its pieces, a tree
is answered exactly if the events are its traversal, and where they are the traversal of no tree,
the fault is one of the tree and says why. -/
theorem parse_eq_ok_iff_traversal {text : String} (h : (events text).fault? = none) :
    (∀ root, parse text = .ok root ↔ Traversal (events text).items [root])
    ∧ ((∀ root, ¬ Traversal (events text).items [root]) →
      ∃ fault, parse text = .error (.tree fault) ∧ fault.Explains (events text).items) := by
  refine ⟨fun root => ⟨fun hroot => ?_, parse_of_traversal h⟩, fun hnone => ?_⟩
  · rcases parse_eq_ok_or_explains h with ⟨other, hother, htraversal⟩ | ⟨fault, hfault, -⟩
    · rw [hroot, Except.ok.injEq] at hother
      rwa [hother]
    · rw [hroot] at hfault
      cases hfault
  · rcases parse_eq_ok_or_explains h with ⟨root, -, htraversal⟩ | hfault
    · exact absurd htraversal (hnone root)
    · exact hfault

/-- A document with a declaration, a comment and both sorts of elements. -/
def boxDocument : String :=
  "<?xml version='1.0'?><Box size='1 &lt; 2'>\n  <Lid/><!-- flat --><Lid></Lid></Box>"

theorem parse_boxDocument :
    parse boxDocument
      = .ok ⟨"Box", [("size", "1 < 2")], [⟨"Lid", [], []⟩, ⟨"Lid", [], []⟩]⟩ := by
  have hfault : (events boxDocument).fault? = none := by decide +kernel
  have hitems : (events boxDocument).items
      = .opening "Box" [("size", "1 < 2")]
        :: ([.selfClosing "Lid" [], .opening "Lid" [], .closing "Lid"] ++ [.closing "Box"]) := by
    decide +kernel
  refine ((parse_eq_ok_iff_traversal hfault).1 _).2 ?_
  rw [hitems]
  exact .element _ _ (.selfClosing _ _ (.element _ _ .nil .nil)) .nil

end Markup

end SchemaBinding
