import SchemaBinding.Schema.Declaration

/-!
# Routines

Every member is read, and in a datasave also written, by one routine of the runtime.  `select`
chooses the routine by the category of the member and the kind of the class that it belongs to.
Unless the member owns an object, reading and writing use routines of the same shape.
-/

namespace SchemaBinding.Code

open Schema

inductive Direction where
  | read
  | write
deriving DecidableEq, Repr

inductive Shape where
  | string
  | int
  | float
  | bool
  | enumeration
  /-- A link to a datasheet. -/
  | datasheetReference
  /-- A datasheet of its own. -/
  | datasheetInstance
  /-- A datasave of its own. -/
  | datasaveInstance
deriving DecidableEq, Repr

structure Routine where
  direction : Direction
  shape : Shape
  isArray : Bool
deriving DecidableEq, Repr

namespace Routine

/-- The shape of values of a category, in a class of kind `owner`.  Only reading knows datasheets
of their own, and only in a datasheet. -/
def shapeOf (direction : Direction) (owner : ClassKind) : Category → Shape
  | .primitive .string => .string
  | .primitive .int => .int
  | .primitive .float => .float
  | .primitive .bool => .bool
  | .enumeration _ => .enumeration
  | .object _ .reference => .datasheetReference
  | .object _ .owned =>
    match direction, owner with
    | .read, .datasheet => .datasheetInstance
    | _, _ => .datasaveInstance

/-- The routine for values of a category, in a class of kind `owner`. -/
def select (direction : Direction) (category : Category) (isArray : Bool) (owner : ClassKind) :
    Routine :=
  ⟨direction, shapeOf direction owner category, isArray⟩

/-- What a routine is named after.  No routine writes a datasheet of its own. -/
def stem (direction : Direction) : Shape → String
  | .string => "String"
  | .int => "Int"
  | .float => "Float"
  | .bool => "Bool"
  | .enumeration => "Enum"
  | .datasheetReference => "DatasheetReference"
  | .datasheetInstance =>
    match direction with
    | .read => "DatasheetInstance"
    | .write => "DatasaveInstance"
  | .datasaveInstance => "DatasaveInstance"

def name (r : Routine) : String :=
  (match r.direction with
    | .read => "Read"
    | .write => "Write")
    ++ stem r.direction r.shape ++ (if r.isArray then "Array" else "")

/-- Whether the routine is also given the name of the type: the runtime needs it to find the
values of an enum or to make an object. -/
def takesTypeName (r : Routine) : Bool :=
  match r.shape with
  | .enumeration | .datasheetInstance | .datasaveInstance => true
  | _ => false

end Routine

end SchemaBinding.Code
