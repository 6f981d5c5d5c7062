import SchemaBinding.Text.Fields
import SchemaBinding.Code.EnumBlock
import SchemaBinding.Code.ClassBlock

/-!
# Units

The generated code is two files: a header with the declarations and a source with the definitions.
Both hold the blocks of the enums and then those of the classes, in the order of the schema, and end
with two free routines: one registers the enums, the other makes an object of a named class.
-/

namespace SchemaBinding.Code

open Schema

/-- The line above every block. -/
def banner : String := String.ofList (List.replicate 64 '/')

def sectionTitle (title : String) : List String := [banner, "// " ++ title, ""]

def includeLine (file : String) : String := "#include " ++ "\"" ++ file ++ "\""

def includeSection (files : List String) : List String :=
  if files = [] then [] else sectionTitle "Includes" ++ files.map includeLine ++ [""]

def opening (nameSpace : String) : List String :=
  if nameSpace = "" then [] else ["namespace " ++ nameSpace ++ " \x7b", ""]

def closing (nameSpace : String) : List String :=
  if nameSpace = "" then [] else ["\x7d // namespace " ++ nameSpace]

/-! ### Free routines -/

def registerSignature (settings : Settings) : Signature :=
  ⟨some "void", settings.registerRoutine, "", false⟩

def factorySignature (settings : Settings) : Signature :=
  ⟨some (settings.runtime "DataObject" ++ "*"), settings.factoryRoutine,
    "std::string_view classType", false⟩

/-- Registers every enum and then the factory. -/
def registerFunction (settings : Settings) (doc : Document) : Function where
  signature := registerSignature settings
  body :=
    doc.enums.items.map (fun e => e.generatedName ++ "::Register();")
    ++ (if doc.enums.items = [] then [] else [""])
    ++ [settings.runtime "GetResources" ++ "()->RegisterDataObjectFactory("
        ++ settings.factoryRoutine ++ ");"]

/-- A branch of the factory: the name that is asked for and the class that is made. -/
structure FactoryBranch where
  name : String
  generatedName : String
deriving DecidableEq, Repr

/-- The branches of the factory: no object is made of an abstract class. -/
def factoryBranches (doc : Document) : List FactoryBranch :=
  (doc.classes.items.filter (!·.isAbstract)).map fun c => ⟨c.name, c.generatedName⟩

def FactoryBranch.lines (b : FactoryBranch) : List String :=
  ["if (classType == " ++ quoted b.name ++ ")", "\x7b",
    indent ("return new " ++ b.generatedName ++ ";"), "\x7d", ""]

/-- Makes an object of the named class, if there is one. -/
def factoryFunction (settings : Settings) (doc : Document) : Function where
  signature := factorySignature settings
  body := (factoryBranches doc).flatMap FactoryBranch.lines ++ ["return nullptr;"]

/-! ### The two files -/

/-- The declarations that the others may name. -/
def forwardDeclarations (doc : Document) : List String :=
  if doc.classes.items = [] then []
  else doc.classes.items.map (fun c => "class " ++ c.generatedName ++ ";") ++ [""]

def headerLines (settings : Settings) (doc : Document) : List String :=
  ["#pragma once", ""]
    ++ includeSection settings.headerIncludes
    ++ sectionTitle "File Declarations"
    ++ opening doc.nameSpace
    ++ forwardDeclarations doc
    ++ doc.enums.items.flatMap (fun e => [banner] ++ EnumBlock.declaration settings e ++ [""])
    ++ doc.classes.items.flatMap
      (fun c => [banner] ++ ClassBlock.declaration settings doc c ++ [""])
    ++ [banner, (registerSignature settings).text "" ++ ";",
      (factorySignature settings).text "" ++ ";", ""]
    ++ closing doc.nameSpace

def sourceLines (settings : Settings) (doc : Document) : List String :=
  sectionTitle "Header"
    ++ [includeLine settings.headerFile, ""]
    ++ includeSection settings.sourceIncludes
    ++ sectionTitle "File Implementation"
    ++ opening doc.nameSpace
    ++ doc.enums.items.flatMap (fun e => [banner] ++ EnumBlock.definition settings e ++ [""])
    ++ doc.classes.items.flatMap (fun c => [banner] ++ ClassBlock.definition settings doc c)
    ++ [banner] ++ (registerFunction settings doc).lines "" ++ [""]
    ++ (factoryFunction settings doc).lines "" ++ [""]
    ++ closing doc.nameSpace

def header (settings : Settings) (doc : Document) : String :=
  Text.unlines (headerLines settings doc)

def source (settings : Settings) (doc : Document) : String :=
  Text.unlines (sourceLines settings doc)

end SchemaBinding.Code
