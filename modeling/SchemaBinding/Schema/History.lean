import SchemaBinding.Schema.Resolve

/-!
# Histories of documents

A document changes step by step: a declaration is offered, one that is stored is changed where it
stands, or everything is resolved.
-/

namespace SchemaBinding.Schema

/-- A step in the history of a document.  A declaration is changed at its slot, in any of its parts
and its name too. -/
inductive Step where
  | offerEnum (e : EnumDecl)
  | offerClass (c : ClassDecl)
  | changeEnum (slot : Nat) (change : EnumDecl → EnumDecl)
  | changeClass (slot : Nat) (change : ClassDecl → ClassDecl)
  | changeMember (slot member : Nat) (change : Member → Member)
  | resolve

def Step.next (doc : Document) : Step → Document
  | offerEnum e => (doc.offerEnum e).1
  | offerClass c => (doc.offerClass c).1
  | changeEnum slot change => doc.modifyEnum slot change
  | changeClass slot change => doc.modifyClass slot change
  | changeMember slot member change => doc.modifyMember slot member change
  | resolve => doc.resolve.1

def Document.after (doc : Document) (steps : List Step) : Document := steps.foldl Step.next doc

/-- The name and the slot of the enum that a step stores. -/
def Step.enumSlot? (doc : Document) : Step → Option (String × Nat)
  | offerEnum e =>
    match (doc.offerEnum e).2 with
    | none => some (e.name, doc.enums.items.length)
    | some _ => none
  | _ => none

def Step.classSlot? (doc : Document) : Step → Option (String × Nat)
  | offerClass c =>
    match (doc.offerClass c).2 with
    | none => some (c.name, doc.classes.items.length)
    | some _ => none
  | _ => none

/-- A step gives no stored declaration another name. -/
def Step.KeepsNames (doc : Document) : Step → Prop
  | changeEnum slot change => ∀ e, doc.enums.items[slot]? = some e → (change e).name = e.name
  | changeClass slot change => ∀ c, doc.classes.items[slot]? = some c → (change c).name = c.name
  | _ => True

namespace Document

def NamesKept (doc : Document) : List Step → Prop
  | [] => True
  | step :: rest => step.KeepsNames doc ∧ (step.next doc).NamesKept rest

/-- What the steps of a history store, in order. -/
def stored (slot? : Document → Step → Option (String × Nat)) (doc : Document) :
    List Step → List (String × Nat)
  | [] => []
  | step :: rest => (slot? doc step).toList ++ stored slot? (step.next doc) rest

/-- The enums that are stored in a history, each by its name at that time and its slot. -/
def storedEnums (doc : Document) (steps : List Step) : List (String × Nat) :=
  stored Step.enumSlot? doc steps

/-- The classes that are stored in a history, each by its name at that time and its slot. -/
def storedClasses (doc : Document) (steps : List Step) : List (String × Nat) :=
  stored Step.classSlot? doc steps

end Document

end SchemaBinding.Schema
