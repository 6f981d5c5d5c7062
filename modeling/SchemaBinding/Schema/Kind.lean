/-!
# Kinds of classes and of values

A class is a datasheet, which is only read, or a datasave, which is also written.  A value of a
member is a primitive, or it belongs to a declared enum or class.

* `ClassKind.ofKeyword?_eq_some_iff`, `Primitive.ofKeyword?_eq_some_iff`: a keyword names exactly
  one kind.
-/

namespace SchemaBinding.Schema

inductive ClassKind where
  /-- A record that is read and never written. -/
  | datasheet
  /-- A record that is read and written. -/
  | datasave
deriving DecidableEq, Repr

namespace ClassKind

def keyword : ClassKind → String
  | datasheet => "datasheet"
  | datasave => "datasave"

def ofKeyword? (word : String) : Option ClassKind :=
  if word = "datasheet" then some datasheet
  else if word = "datasave" then some datasave
  else none

/-- Only a datasave is written. -/
def serializable : ClassKind → Bool
  | datasheet => false
  | datasave => true

def rootClass : ClassKind → String
  | datasheet => "DatasheetObject"
  | datasave => "DatasaveObject"

theorem ofKeyword?_eq_some_iff {word : String} {kind : ClassKind} :
    ofKeyword? word = some kind ↔ word = kind.keyword := by
  constructor
  · intro h
    simp only [ofKeyword?] at h
    split at h
    · next hw => cases h; exact hw
    · split at h
      · next hw => cases h; exact hw
      · cases h
  · rintro rfl
    cases kind <;> decide

end ClassKind

inductive Primitive where
  | string
  | int
  | float
  | bool
deriving DecidableEq, Repr

namespace Primitive

def keyword : Primitive → String
  | string => "string"
  | int => "int"
  | float => "float"
  | bool => "bool"

def ofKeyword? (word : String) : Option Primitive :=
  if word = "string" then some string
  else if word = "int" then some int
  else if word = "float" then some float
  else if word = "bool" then some bool
  else none

def fieldType : Primitive → String
  | string => "std::string"
  | int => "int"
  | float => "float"
  | bool => "bool"

theorem ofKeyword?_eq_some_iff {word : String} {p : Primitive} :
    ofKeyword? word = some p ↔ word = p.keyword := by
  constructor
  · intro h
    simp only [ofKeyword?] at h
    split at h
    · next hw => cases h; exact hw
    · split at h
      · next hw => cases h; exact hw
      · split at h
        · next hw => cases h; exact hw
        · split at h
          · next hw => cases h; exact hw
          · cases h
  · rintro rfl
    cases p <;> decide

end Primitive

inductive Ownership where
  /-- A link to an object that belongs to something else. -/
  | reference
  /-- The object itself. -/
  | owned
deriving DecidableEq, Repr

inductive Category where
  | primitive (p : Primitive)
  | enumeration (name : String)
  | object (name : String) (ownership : Ownership)
deriving DecidableEq, Repr

def Category.ownership? : Category → Option Ownership
  | object _ ownership => some ownership
  | _ => none

end SchemaBinding.Schema
