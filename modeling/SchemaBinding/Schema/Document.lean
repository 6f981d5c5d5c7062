import SchemaBinding.Schema.Declaration
import SchemaBinding.Schema.Registry

/-!
# Schema documents

A document has a namespace, enums and classes.  Enums and classes share their names: one that is
taken is refused, and the document stays as it is.
-/

namespace SchemaBinding.Schema

structure Document where
  /-- The namespace of generated code, empty if there is none. -/
  nameSpace : String
  enums : Registry EnumDecl
  classes : Registry ClassDecl
deriving DecidableEq, Repr

namespace Document

def empty (nameSpace : String) : Document := ⟨nameSpace, .empty, .empty⟩

/-- Whether an enum or a class was added under this name. -/
def hasTypeName (doc : Document) (name : String) : Bool :=
  doc.enums.contains name || doc.classes.contains name

/-- Adds an enum, unless its name is taken. -/
def addEnum? (doc : Document) (e : EnumDecl) : Option Document :=
  if doc.hasTypeName e.name then none else some { doc with enums := doc.enums.add e.name e }

/-- Adds a class, unless its name is taken. -/
def addClass? (doc : Document) (c : ClassDecl) : Option Document :=
  if doc.hasTypeName c.name then none else some { doc with classes := doc.classes.add c.name c }

/-- Offers an enum.  The document takes it, or stays as it is and the enum comes back. -/
def offerEnum (doc : Document) (e : EnumDecl) : Document × Option EnumDecl :=
  match doc.addEnum? e with
  | some extended => (extended, none)
  | none => (doc, some e)

/-- Offers a class.  The document takes it, or stays as it is and the class comes back. -/
def offerClass (doc : Document) (c : ClassDecl) : Document × Option ClassDecl :=
  match doc.addClass? c with
  | some extended => (extended, none)
  | none => (doc, some c)

/-- The enum that was added under a name. -/
def enum? (doc : Document) (name : String) : Option EnumDecl := doc.enums.find? name

def class? (doc : Document) (name : String) : Option ClassDecl := doc.classes.find? name

def parentOf? (doc : Document) (c : ClassDecl) : Option ClassDecl := c.parent?.bind doc.class?

def isEmpty (doc : Document) : Bool := doc.enums.items.isEmpty && doc.classes.items.isEmpty

def modifyEnum (doc : Document) (index : Nat) (change : EnumDecl → EnumDecl) : Document :=
  { doc with enums := doc.enums.modify index change }

def modifyClass (doc : Document) (index : Nat) (change : ClassDecl → ClassDecl) : Document :=
  { doc with classes := doc.classes.modify index change }

def modifyMember (doc : Document) (index member : Nat) (change : Member → Member) : Document :=
  doc.modifyClass index fun c => { c with members := c.members.modify member change }

end Document

end SchemaBinding.Schema
