import SchemaBinding.Markup.Document
import SchemaBinding.Schema.Resolve
import SchemaBinding.Code.Unit

/-!
# Bindings

A binding is the generated code of a schema: two files with their names and everything that was
found wrong on the way.  `generate` refuses a schema with a fatal diagnostic and no other.

* `generate_eq_ok_iff`: a binding is generated exactly when no diagnostic is fatal.
-/

namespace SchemaBinding

structure Binding where
  headerFile : String
  header : String
  sourceFile : String
  source : String
  diagnostics : List Diagnostic
deriving DecidableEq, Repr

namespace Binding

def ofDocument (settings : Code.Settings) (doc : Schema.Document) (diagnostics : List Diagnostic) :
    Binding where
  headerFile := settings.headerFile
  header := Code.header settings doc
  sourceFile := settings.sourceFile
  source := Code.source settings doc
  diagnostics := diagnostics

def hasDiagnostics (b : Binding) : Bool := !b.diagnostics.isEmpty

/-- The binding of a schema, or all diagnostics if one of them is fatal. -/
def generate (settings : Code.Settings) (root : Node) : Except (List Diagnostic) Binding :=
  let loaded := Schema.Document.load root
  if Diagnostic.anyFatal loaded.2 then .error loaded.2
  else .ok (ofDocument settings loaded.1 loaded.2)

def refusal (diagnostics : List Diagnostic) : String :=
  "schema has " ++ toString (Diagnostic.fatalCount diagnostics) ++ " fatal diagnostic(s)"

theorem generate_eq_ok_iff {settings : Code.Settings} {root : Node} {b : Binding} :
    generate settings root = .ok b
      ↔ Diagnostic.anyFatal (Schema.Document.load root).2 = false
        ∧ b = ofDocument settings (Schema.Document.load root).1 (Schema.Document.load root).2 := by
  simp only [generate]
  cases Diagnostic.anyFatal (Schema.Document.load root).2 <;> simp [eq_comm]

end Binding

end SchemaBinding
