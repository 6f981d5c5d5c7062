/-!
# Functions

A `Signature` is written in two places: in a declaration, and before the body of a definition, there
qualified by the scope that the function belongs to.
-/

namespace SchemaBinding.Code

def indent (line : String) : String := "    " ++ line

structure Signature where
  /-- The type of the result; a constructor and a destructor have none. -/
  result? : Option String
  name : String
  /-- The parameter with its type, empty if there is none. -/
  parameter : String
  isConst : Bool
deriving DecidableEq, Repr

/-- A signature in a scope, which is empty or ends in `::`. -/
def Signature.text (s : Signature) (scope : String) : String :=
  (match s.result? with
    | some result => result ++ " "
    | none => "")
    ++ scope ++ s.name ++ "(" ++ s.parameter ++ ")" ++ (if s.isConst then " const" else "")

/-- A function with the lines of its body.  An empty line only separates. -/
structure Function where
  signature : Signature
  body : List String
deriving DecidableEq, Repr

/-- A line of a body, one level in; a separating line stays empty. -/
def bodyLine (line : String) : String := if line = "" then "" else indent line

def Function.lines (f : Function) (scope : String) : List String :=
  [f.signature.text scope, "\x7b"] ++ f.body.map bodyLine ++ ["\x7d"]

end SchemaBinding.Code
