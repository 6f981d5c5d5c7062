import SchemaBinding.Proofs.Markup.OpenElements
import SchemaBinding.Proofs.Markup.PassedOver

/-!
# Attributes as a map

The attributes of a node are a list, and a list may hold a key twice.  Setting an attribute replaces
the value at the first pair with its key or adds a pair at the end, so that a list whose keys are
distinct stays a map in the order of insertion.  A document is read by setting the attributes of its
tags on nodes that have none.  So no node of a tree that is read has a key twice, whatever its tag
holds.

* `Node.SetFrom`: what a node comes to when attributes are set on it.
* `Node.SetFrom.setAttr`, `Node.setFrom_setAttrs`: one more attribute, and all of them.
* `Node.Keyed`, `Node.keyed_iff`: no node of a tree has a key twice.
* `Assembly.Keyed.step`, `Assembly.Keyed.run`: events keep it so, even those that give a key twice.
* `keys_distinct`: what is set on a node, and the nodes of a tree that is read.
-/

namespace SchemaBinding

/-! ### First appearances -/

theorem eraseDups_concat (keys : List String) (key : String) :
    (keys ++ [key]).eraseDups = if key ∈ keys then keys.eraseDups else keys.eraseDups ++ [key] := by
  rw [List.eraseDups_append]
  by_cases h : key ∈ keys
  · have hnone : [key].removeAll keys = [] := by simp [List.removeAll, h]
    rw [if_pos h, hnone, List.eraseDups_nil, List.append_nil]
  · have hnew : [key].removeAll keys = [key] := by simp [List.removeAll, h]
    rw [if_neg h, hnew]
    rfl

theorem eraseDups_of_nodup {keys : List String} (h : keys.Nodup) : keys.eraseDups = keys := by
  induction keys with
  | nil => rfl
  | cons key rest ih =>
    obtain ⟨hkey, hrest⟩ := List.nodup_cons.1 h
    have hothers : rest.filter (fun other => !other == key) = rest := by
      rw [List.filter_eq_self]
      intro other hother
      have hne : other ≠ key := fun heq => hkey (heq ▸ hother)
      simp [hne]
    rw [List.eraseDups_cons, hothers, ih hrest]

namespace Node

/-! ### Setting attributes -/

/-- What a node `n` comes to when attributes are set on it one after the other: the attributes of
`m` are a map in the order of insertion. -/
structure SetFrom (n : Node) (pairs : List (String × String)) (m : Node) : Prop where
  distinct : m.keys.Nodup
  /-- A key has the value that it was given last, or else the value that it had. -/
  value (key : String) : m.attr? key = (pairs.reverse.lookup key).or (n.attr? key)
  /-- Keys stand in the order in which they first appear, those that the node had before those that
  are set. -/
  order : m.keys = (n.keys ++ pairs.map Prod.fst).eraseDups
  tag : m.tag = n.tag
  children : m.children = n.children

theorem setFrom_nil {n : Node} (h : n.keys.Nodup) : n.SetFrom [] n where
  distinct := h
  value _ := rfl
  order := by rw [List.map_nil, List.append_nil, eraseDups_of_nodup h]
  tag := rfl
  children := rfl

/-- **One more attribute is set** in place, or behind the others if its key is new. -/
theorem SetFrom.setAttr {n m : Node} {pairs : List (String × String)} (h : n.SetFrom pairs m)
    (key value : String) : n.SetFrom (pairs ++ [(key, value)]) (m.setAttr key value) where
  distinct := by
    rw [keys_setAttr]
    by_cases hkey : key ∈ m.keys
    · rw [if_pos hkey]
      exact h.distinct
    · rw [if_neg hkey, ← List.concat_eq_append]
      exact h.distinct.concat hkey
  value other := by
    rw [List.reverse_concat, List.lookup_cons]
    by_cases heq : other = key
    · subst heq
      rw [attr?_setAttr_self, beq_self_eq_true]
      rfl
    · rw [attr?_setAttr_of_ne m heq, beq_false_of_ne heq]
      exact h.value other
  order := by
    have hmem : key ∈ m.keys ↔ key ∈ n.keys ++ pairs.map Prod.fst := by
      rw [h.order, List.mem_eraseDups]
    rw [keys_setAttr, List.map_append, ← List.append_assoc]
    show _ = (n.keys ++ pairs.map Prod.fst ++ [key]).eraseDups
    rw [eraseDups_concat, ← h.order]
    by_cases hkey : key ∈ m.keys
    · rw [if_pos hkey, if_pos (hmem.1 hkey)]
    · rw [if_neg hkey, if_neg (mt hmem.2 hkey)]
  tag := h.tag
  children := h.children

theorem setAttrs_concat (n : Node) (pairs : List (String × String)) (key value : String) :
    n.setAttrs (pairs ++ [(key, value)]) = (n.setAttrs pairs).setAttr key value := by
  rw [setAttrs, List.foldl_append]
  rfl

/-- **All attributes are set**, one after the other. -/
theorem setFrom_setAttrs {n : Node} (h : n.keys.Nodup) (pairs : List (String × String)) :
    n.SetFrom pairs (n.setAttrs pairs) := by
  -- the attribute that is set last decides what its key has, so the induction adds it at the end
  induction pairs using List.reverseRecOn with
  | nil => exact setFrom_nil h
  | append_singleton pairs pair ih =>
    obtain ⟨key, value⟩ := pair
    rw [setAttrs_concat]
    exact ih.setAttr key value

/-! ### Every node of a tree -/

/-- No node of a tree has a key twice. -/
def Keyed (root : Node) : Prop := ∀ node ∈ root.inOrder, node.keys.Nodup

theorem mem_inOrderAll {node : Node} {nodes : List Node} :
    node ∈ inOrderAll nodes ↔ ∃ root ∈ nodes, node ∈ root.inOrder := by
  induction nodes with
  | nil => simp [inOrderAll]
  | cons root rest ih => rw [inOrderAll, List.mem_append, ih, List.exists_mem_cons_iff]

theorem mem_inOrder {node root : Node} :
    node ∈ root.inOrder ↔ node = root ∨ ∃ child ∈ root.children, node ∈ child.inOrder := by
  obtain ⟨tag, attributes, children⟩ := root
  rw [inOrder, List.mem_cons, mem_inOrderAll]

theorem keyed_iff {root : Node} :
    root.Keyed ↔ root.keys.Nodup ∧ ∀ child ∈ root.children, child.Keyed := by
  constructor
  · intro h
    refine ⟨h root (mem_inOrder.2 (Or.inl rfl)), ?_⟩
    intro child hchild node hnode
    exact h node (mem_inOrder.2 (Or.inr ⟨child, hchild, hnode⟩))
  · rintro ⟨hkeys, hchildren⟩ node hnode
    rcases mem_inOrder.1 hnode with rfl | ⟨child, hchild, hbelow⟩
    · exact hkeys
    · exact hchildren child hchild node hbelow

theorem keyed_leaf (tag : String) : (leaf tag).Keyed :=
  keyed_iff.2 ⟨List.nodup_nil, fun _ h => absurd h List.not_mem_nil⟩

/-- Setting attributes on the root leaves the nodes below it. -/
theorem Keyed.setAttrs {root : Node} (h : root.Keyed) (pairs : List (String × String)) :
    (root.setAttrs pairs).Keyed := by
  obtain ⟨hkeys, hchildren⟩ := keyed_iff.1 h
  have hset := setFrom_setAttrs hkeys pairs
  rw [keyed_iff, hset.children]
  exact ⟨hset.distinct, hchildren⟩

theorem Keyed.pushChild {root child : Node} (h : root.Keyed) (hchild : child.Keyed) :
    (root.pushChild child).Keyed := by
  obtain ⟨hkeys, hchildren⟩ := keyed_iff.1 h
  refine keyed_iff.2 ⟨hkeys, ?_⟩
  intro other hother
  rcases List.mem_append.1 hother with hother | hother
  · exact hchildren other hother
  · rw [List.mem_singleton.1 hother]
    exact hchild

end Node

namespace Markup

namespace Assembly

/-! ### Trees under construction -/

/-- No node of a tree under construction has a key twice. -/
structure Keyed (a : Assembly) : Prop where
  opened : ∀ node ∈ a.opened, node.Keyed
  root : ∀ node ∈ a.root?, node.Keyed

theorem keyed_empty : empty.Keyed where
  opened _ h := absurd h List.not_mem_nil
  root _ h := by cases h

variable {a b : Assembly}

theorem Keyed.attach {node : Node} (h : a.Keyed) (hnode : node.Keyed)
    (hattach : a.attach node = .ok b) : b.Keyed := by
  obtain ⟨opened, root?⟩ := a
  cases opened with
  | cons parent outer =>
    cases hattach
    refine ⟨?_, h.root⟩
    intro other hother
    rcases List.mem_cons.1 hother with rfl | hother
    · exact (h.opened parent List.mem_cons_self).pushChild hnode
    · exact h.opened other (List.mem_cons_of_mem _ hother)
  | nil =>
    cases root? with
    | some root => cases hattach
    | none =>
      cases hattach
      refine ⟨h.opened, ?_⟩
      intro root hroot
      cases hroot
      exact hnode

/-- **An event leaves no node with a key twice**, even if it gives one twice. -/
theorem Keyed.step {event : Event} (h : a.Keyed) (hstep : a.step event = .ok b) : b.Keyed := by
  cases event with
  | opening tag attributes =>
    cases hstep
    refine ⟨?_, h.root⟩
    intro node hnode
    rcases List.mem_cons.1 hnode with rfl | hnode
    · exact (Node.keyed_leaf tag).setAttrs attributes
    · exact h.opened node hnode
  | selfClosing tag attributes =>
    exact h.attach ((Node.keyed_leaf tag).setAttrs attributes) hstep
  | closing tag =>
    obtain ⟨opened, root?⟩ := a
    cases opened with
    | nil => cases hstep
    | cons node outer =>
      have houter : Keyed ⟨outer, root?⟩ :=
        ⟨fun other hother => h.opened other (List.mem_cons_of_mem _ hother), h.root⟩
      exact houter.attach (h.opened node List.mem_cons_self) hstep

theorem Keyed.run {events : List Event} (h : a.Keyed) (hrun : a.run events = .ok b) : b.Keyed := by
  induction events generalizing a with
  | nil =>
    cases hrun
    exact h
  | cons event rest ih =>
    obtain ⟨next, hstep, hrest⟩ := bind_eq_ok_iff.1 hrun
    exact ih (h.step hstep) hrest

theorem Keyed.finish {root : Node} (h : a.Keyed) (hfinish : a.finish = .ok root) : root.Keyed := by
  obtain ⟨opened, root?⟩ := a
  cases opened with
  | cons node outer => cases hfinish
  | nil =>
    cases root? with
    | none => cases hfinish
    | some root =>
      cases hfinish
      exact h.root _ rfl

end Assembly

/-! ### Reading -/

theorem keyed_parse {text : String} {root : Node} (h : parse text = .ok root) : root.Keyed := by
  have hfault := fault?_eq_none_of_parse h
  cases hrun : Assembly.empty.run (events text).items with
  | error fault =>
    rw [parse, hrun] at h
    cases h
  | ok assembly =>
    have hassembly := Assembly.keyed_empty.run hrun
    rw [parse_of_run hfault hrun] at h
    exact hassembly.finish (mapError_eq_ok_iff.1 h)

/-- **Attributes are a map in the order of insertion.**  Attributes that are set on a node with
distinct keys leave its keys distinct and in the order of their first appearance, each with the
value that it was given last, and leave the rest of the node as it is.  So the keys of every node of
a tree that is read are distinct. -/
theorem keys_distinct :
    (∀ (n : Node) (pairs : List (String × String)), n.keys.Nodup →
      n.SetFrom pairs (n.setAttrs pairs))
    ∧ ∀ (text : String) (root : Node), parse text = .ok root →
      ∀ node ∈ root.inOrder, node.keys.Nodup := by
  constructor
  · intro n pairs hkeys
    exact Node.setFrom_setAttrs hkeys pairs
  · intro text root hroot
    exact keyed_parse hroot

/-- One key is set in place and one twice behind the others.  In the document a tag gives a key
twice. -/
theorem keys_distinct_swordDocument :
    let data : Node := ⟨"Data", [("name", "rank"), ("type", "int")], [.leaf "Note"]⟩
    let pairs := [("default", "1"), ("name", "level"), ("default", "2")]
    let text := "<Item name='Sword'><Data name='level' name='rank' type='int'/></Item>"
    let child : Node := ⟨"Data", [("name", "level"), ("type", "int")], []⟩
    let root : Node := ⟨"Item", [("name", "Sword")], [child]⟩
    (data.keys.Nodup ∧ data.SetFrom pairs (data.setAttrs pairs)
      ∧ (data.setAttrs pairs).attributes
        = [("name", "level"), ("type", "int"), ("default", "2")])
    ∧ parse text = .ok root ∧ child ∈ root.inOrder ∧ child.keys.Nodup := by
  intro data pairs text child root
  have hkeys : data.keys.Nodup := by decide
  have hparse : parse text = .ok root := by decide +kernel
  have hself : child ∈ child.inOrder := Node.mem_inOrder.2 (Or.inl rfl)
  have hchild : child ∈ root.inOrder :=
    Node.mem_inOrder.2 (Or.inr ⟨child, List.mem_singleton_self _, hself⟩)
  obtain ⟨hset, hread⟩ := keys_distinct
  refine ⟨⟨hkeys, hset data pairs hkeys, by decide⟩, hparse, hchild, ?_⟩
  exact hread text root hparse child hchild

end Markup

end SchemaBinding
