import SchemaBinding.Binding
import SchemaBinding.Command.Arguments
import SchemaBinding.File.Store
import SchemaBinding.Text.Visible

/-!
# Running a command

`run` follows an invocation in any file store and answers an `Outcome`: the exit code and what is
printed.  A schema is reported on and never changed; files are written only by `generate`, and only
once a binding exists.

`readSchema` and `writeBinding` are the two places where files are touched.
-/

namespace SchemaBinding

inductive SchemaFault where
  | unreadable (fault : FileFault)
  | malformed (fault : Markup.Fault)
deriving DecidableEq, Repr

def FileFault.described (fault : FileFault) : String := "IO error: " ++ fault.message

def SchemaFault.message : SchemaFault → String
  | unreadable fault => fault.described
  | malformed fault => fault.message

/-- The wordings beneath a fault, outermost first. -/
def SchemaFault.causes : SchemaFault → List String
  | unreadable fault => [fault.message]
  | malformed fault => fault.causes

/-- The wording of a fault where a binding was asked for. -/
def SchemaFault.refusal : SchemaFault → String
  | unreadable fault => fault.described
  | malformed fault => "schema parse error: " ++ fault.message

/-- The wordings beneath a fault where a binding was asked for, outermost first. -/
def SchemaFault.refusalCauses : SchemaFault → List String
  | unreadable fault => [fault.message]
  | malformed fault => fault.message :: fault.causes

def readSchema {m : Type → Type} [Monad m] (store : FileStore m) (path : String) :
    m (Except SchemaFault Node) := do
  match ← store.readText path with
  | .error fault => return .error (.unreadable fault)
  | .ok text => return (Markup.parse text).mapError .malformed

/-- Writes the two files of a binding to a directory, first the header, and answers their paths. -/
def writeBinding {m : Type → Type} [Monad m] (store : FileStore m) (directory : String)
    (b : Binding) : m (Except FileFault (String × String)) := do
  let headerPath := joinPath directory b.headerFile
  let sourcePath := joinPath directory b.sourceFile
  match ← store.makeDirectories directory with
  | .error fault => return .error fault
  | .ok () =>
    match ← store.writeText headerPath b.header with
    | .error fault => return .error fault
    | .ok () =>
      match ← store.writeText sourcePath b.source with
      | .error fault => return .error fault
      | .ok () => return .ok (headerPath, sourcePath)

namespace Command

inductive Line where
  /-- An answer. -/
  | printed (text : String)
  /-- A message, with how serious it is. -/
  | logged (severity : Severity) (text : String)
deriving DecidableEq, Repr

/-- The text of a line.  A message quotes what it is about, so its control characters are made
visible; an answer is given as it is. -/
def Line.text : Line → String
  | printed text => text
  | logged .error text => "ERROR " ++ Text.visible text
  | logged .warning text => "WARN " ++ Text.visible text

structure Outcome where
  exitCode : Nat
  lines : List Line
deriving DecidableEq, Repr

def versionText : String := "databind 0.1.0"

def report (diagnostics : List Diagnostic) : List Line :=
  diagnostics.map fun d => .logged d.severity d.text

def summary (input : String) (diagnostics : List Diagnostic) : Line :=
  let errors := Diagnostic.errorCount diagnostics
  .printed (input ++ ": " ++ toString errors ++ " error(s), "
    ++ toString (diagnostics.length - errors) ++ " warning(s)")

def inventory (input : String) (doc : Schema.Document) : Line :=
  .printed (input ++ ": " ++ toString doc.enums.items.length ++ " enum(s), "
    ++ toString doc.classes.items.length ++ " class(es)")

/-- The program gives up: what it was doing, and the causes beneath. -/
def failure (context : String) (causes : List String) : Line :=
  .logged .error (": ".intercalate (context :: causes))

/-- The answer to a schema that was read for a check. -/
def checked (input : String) : Except SchemaFault Node → Outcome
  | .error fault => ⟨1, [failure ("failed to read " ++ input) (fault.message :: fault.causes)]⟩
  | .ok root =>
    let loaded := Schema.Document.load root
    { exitCode := if Diagnostic.errorCount loaded.2 > 0 then 1 else 0
      lines := report loaded.2 ++ [inventory input loaded.1, summary input loaded.2] }

def GenerateOptions.settings (options : GenerateOptions) : Code.Settings :=
  let named := (options.name?.map Code.Settings.standard.withBaseName).getD .standard
  (options.runtimeNamespace?.map named.withRuntimeNamespace).getD named

/-- The binding to write for a schema, with what is printed before; or the answer, if nothing is to
be written. -/
def generated (options : GenerateOptions) :
    Except SchemaFault Node → Except Outcome (Binding × List Line)
  | .error fault =>
    .error ⟨1, [failure ("failed to generate from " ++ options.input)
      (fault.refusal :: fault.refusalCauses)]⟩
  | .ok root =>
    match Binding.generate options.settings root with
    | .error diagnostics =>
      .error ⟨1, report diagnostics
        ++ [.logged .error ("schema has fatal diagnostics, nothing emitted diagnostics="
          ++ toString diagnostics.length), summary options.input diagnostics]⟩
    | .ok binding =>
      let lines := report binding.diagnostics ++ [summary options.input binding.diagnostics]
      if options.denyWarnings ∧ binding.hasDiagnostics then
        .error ⟨1, lines ++ [.logged .error "diagnostics denied, nothing written"]⟩
      else .ok (binding, lines)

/-- The last line, once files are written or not. -/
def written (options : GenerateOptions) : Except FileFault (String × String) → Outcome
  | .error fault =>
    ⟨1, [failure ("failed to write to " ++ options.outputDirectory)
      [fault.described, fault.message]]⟩
  | .ok (header, source) => ⟨0, [.printed ("Generated " ++ header ++ " and " ++ source)]⟩

def Invocation.run {m : Type → Type} [Monad m] (store : FileStore m) : Invocation → m Outcome
  | .version => return ⟨0, [.printed versionText]⟩
  | .check input => return checked input (← readSchema store input)
  | .generate options => do
    match generated options (← readSchema store options.input) with
    | .error outcome => return outcome
    | .ok (binding, lines) =>
      let last := written options (← writeBinding store options.outputDirectory binding)
      return { last with lines := lines ++ last.lines }

/-- Runs the program.  Arguments that are not understood have an exit code of their own. -/
def run {m : Type → Type} [Monad m] (store : FileStore m) (arguments : List String) : m Outcome :=
  match Invocation.parse? arguments with
  | none => return ⟨2, []⟩
  | some invocation => invocation.run store

end Command

end SchemaBinding
