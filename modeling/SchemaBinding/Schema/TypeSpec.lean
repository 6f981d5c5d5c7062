import SchemaBinding.Schema.Kind
import SchemaBinding.Text.Blank
import SchemaBinding.Text.Fields

/-!
# Type strings

The type of a member is written as flags and a base type with colons between them, such as
`array:reference:item`.  The last token is the base type; `array`, `reference` and `instance` among
the tokens are flags, and other tokens mean nothing.
-/

namespace SchemaBinding.Schema

structure TypeSpec where
  isArray : Bool
  isReference : Bool
  isInstance : Bool
  base : String
deriving DecidableEq, Repr

namespace TypeSpec

def none : TypeSpec := ⟨false, false, false, ""⟩

def tokens (text : String) : List String :=
  (Text.fields ':' text.toList).map fun token => String.ofList (Text.trimList token)

def parse (text : String) : TypeSpec where
  isArray := (tokens text).contains "array"
  isReference := (tokens text).contains "reference"
  isInstance := (tokens text).contains "instance"
  base := (tokens text).getLast?.getD ""

/-- What the member holds of an object, if a flag says so.  A reference goes before an
instance. -/
def ownership? (spec : TypeSpec) : Option Ownership :=
  if spec.isReference then some .reference
  else if spec.isInstance then some .owned
  else Option.none

end TypeSpec

end SchemaBinding.Schema
