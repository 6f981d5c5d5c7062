import SchemaBinding.Text.Fields

/-!
# Paths

A path is a text of names with slashes between them.  One that begins with a slash leads from the
root, any other from the directory in which the program stands.  A dot leads nowhere and two dots
lead out of a directory; an empty name stands where two slashes meet, and behind a slash at the end.
-/

namespace SchemaBinding

def namesOf (path : String) : List String := (Text.fields '/' path.toList).map String.ofList

def isAbsolute (path : String) : Bool := path.toList.head? = some '/'

/-- The path of a file in a directory.  A name that leads from the root is a path by itself. -/
def joinPath (directory name : String) : String :=
  if isAbsolute name ∨ directory = "" then name
  else if directory.toList.getLast? = some '/' then directory ++ name
  else directory ++ "/" ++ name

/-- The names of a path that lead somewhere. -/
def stepsOf (path : String) : List String :=
  (namesOf path).filter fun name => name ≠ "" ∧ name ≠ "."

/-- The paths of the directories that lead to the last step of a path, innermost first. -/
def leadingPaths (path : String) : List String :=
  let root := if isAbsolute path then "/" else ""
  ((List.range (stepsOf path).length).drop 1).reverse.map fun n =>
    root ++ "/".intercalate ((stepsOf path).take n)

end SchemaBinding
