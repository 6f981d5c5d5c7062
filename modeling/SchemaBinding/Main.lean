import SchemaBinding.Command.Run

/-!
# The program

The outer layer: the files of the machine as a store, the arguments and the exit code.
-/

namespace SchemaBinding

/-- The number of a failure of the machine, which may be given with either sign. -/
def failureNumber (code : UInt32) : Nat := min code.toNat (0 - code).toNat

/-- The fault behind a failure of the machine. -/
def faultOf (error : IO.Error) : FileFault :=
  match error with
  | .noFileOrDirectory .. => .notFound
  | .alreadyExists .. => .alreadyExists
  | .inappropriateType _ code _ =>
    if failureNumber code = 21 then .isDirectory else .notDirectory
  | .invalidArgument _ code _ =>
    if failureNumber code = 36 then .nameTooLong else .other (toString error)
  | _ => .other (toString error)

/-- Runs an operation on files, with its failure as a value. -/
def attempt {α : Type} (action : IO α) : IO (Except FileFault α) := do
  match ← action.toBaseIO with
  | .ok value => return .ok value
  | .error error => return .error (faultOf error)

/-- The files of the machine. -/
def machine : FileStore IO where
  readText path := do
    match ← attempt (IO.FS.readBinFile path) with
    | .error fault => return .error fault
    | .ok content =>
      match String.fromUTF8? content with
      | some text => return .ok text
      | none => return .error .notText
  ensureDirectory path := do
    match ← attempt (IO.FS.createDir path) with
    | .error .alreadyExists => attempt (IO.FS.createDirAll path)
    | result => return result
  writeText path text := attempt (IO.FS.writeFile path text)

end SchemaBinding

def main (arguments : List String) : IO UInt32 := do
  let outcome ← SchemaBinding.Command.run SchemaBinding.machine arguments
  for line in outcome.lines do
    IO.println line.text
  return outcome.exitCode.toUInt32
