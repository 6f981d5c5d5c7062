/-!
# Diagnostics

A diagnostic says what is wrong in a schema, how serious it is and where it was found.  It is a
value and not a failure: reading a schema goes on behind it.

* `errorCount_eq_zero_iff`: no error is counted exactly when every diagnostic is a warning.
-/

namespace SchemaBinding

inductive Severity where
  /-- Suspicious input from which the intended code is still generated. -/
  | warning
  /-- Input that is left out of the generated code. -/
  | error
deriving DecidableEq, Repr

namespace Severity

def text : Severity → String
  | warning => "warning"
  | error => "error"

def max : Severity → Severity → Severity
  | warning, s => s
  | error, _ => error

end Severity

inductive Problem where
  /-- A required attribute is absent or empty. -/
  | missingAttribute (element key : String)
  /-- An attribute value is none of the accepted ones. -/
  | invalidAttribute (element key value : String)
  /-- The name of an enum or a class is taken. -/
  | duplicateType (name : String)
  /-- A reference or instance member names no class. -/
  | unresolvedReference (member typeName : String)
  /-- A member type is neither an enum nor a primitive keyword. -/
  | unknownType (member typeName : String)
  /-- The bases of a class lead back to it along these names. -/
  | cyclicBase (path : List String)
  /-- A base names no class. -/
  | unresolvedBase (base : String)
  /-- An enum has no values. -/
  | emptyEnum (name : String)
  /-- A default is no value of the enum of its member. -/
  | unknownEnumValue (enumName value : String)
deriving DecidableEq, Repr

def Problem.message : Problem → String
  | missingAttribute element key =>
    "missing required attribute '" ++ key ++ "' on " ++ element
  | invalidAttribute element key value =>
    "invalid value '" ++ value ++ "' for attribute '" ++ key ++ "' on " ++ element
  | duplicateType name => "type '" ++ name ++ "' has already been declared"
  | unresolvedReference member typeName =>
    "unresolved type reference '" ++ typeName ++ "' for member '" ++ member ++ "'"
  | unknownType member typeName => "unknown type '" ++ typeName ++ "' for member '" ++ member ++ "'"
  | cyclicBase path => "cyclic base class chain: " ++ " -> ".intercalate path
  | unresolvedBase base =>
    "base class '" ++ base ++ "' is not a declared class, using the default root"
  | emptyEnum name => "enum '" ++ name ++ "' declares no values"
  | unknownEnumValue enumName value =>
    "default '" ++ value ++ "' is not a value of enum '" ++ enumName ++ "'"

/-- Where something is wrong.  An index is a place among the declarations of one sort; a name is
empty where it is missing. -/
inductive Location where
  | document
  | enumeration (index : Nat) (name : String)
  | classAt (index : Nat) (name : String)
  | method (owner : String) (index : Nat)
  | member (owner : String) (index : Nat) (name : String)
deriving DecidableEq, Repr

/-- A declaration is shown by its name, or by its place if it has none. -/
def Location.shown (index : Nat) (name : String) : String :=
  if name = "" then "#" ++ toString index else "'" ++ name ++ "'"

def Location.text : Location → String
  | document => "document root"
  | enumeration index name => "enum " ++ shown index name
  | classAt index name => "class " ++ shown index name
  | method owner index => "class '" ++ owner ++ "', method #" ++ toString index
  | member owner index name => "class '" ++ owner ++ "', member " ++ shown index name

structure Diagnostic where
  severity : Severity
  problem : Problem
  location : Location
deriving DecidableEq, Repr

namespace Diagnostic

def error (problem : Problem) (location : Location) : Diagnostic := ⟨.error, problem, location⟩

def warning (problem : Problem) (location : Location) : Diagnostic := ⟨.warning, problem, location⟩

def text (d : Diagnostic) : String :=
  d.severity.text ++ ": " ++ d.problem.message ++ " (" ++ d.location.text ++ ")"

def isError (d : Diagnostic) : Bool := d.severity = .error

/-- A cycle of bases is fatal: nothing is generated from a schema that has one. -/
def isFatal (d : Diagnostic) : Bool :=
  match d.problem with
  | .cyclicBase _ => true
  | _ => false

def errorCount (ds : List Diagnostic) : Nat := ds.countP isError

def fatalCount (ds : List Diagnostic) : Nat := ds.countP isFatal

def anyFatal (ds : List Diagnostic) : Bool := ds.any isFatal

def worst? : List Diagnostic → Option Severity
  | [] => none
  | d :: rest =>
    match worst? rest with
    | none => some d.severity
    | some s => some (d.severity.max s)

theorem errorCount_eq_zero_iff {ds : List Diagnostic} :
    errorCount ds = 0 ↔ ∀ d ∈ ds, d.severity = .warning := by
  rw [errorCount, List.countP_eq_zero]
  refine forall_congr' fun d => imp_congr_right fun _ => ?_
  cases h : d.severity <;> simp [isError, h]

end Diagnostic

end SchemaBinding
