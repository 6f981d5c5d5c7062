import SchemaBinding.Schema.Declaration
import SchemaBinding.Code.Function
import SchemaBinding.Code.Literal
import SchemaBinding.Code.Settings

/-!
# Blocks of enums

An enum is a namespace that holds a type with its values and four functions.  `declaration` is its
block in the header and `definition` its block in the source.  The runtime knows the enum by its
schema name.
-/

namespace SchemaBinding.Code.EnumBlock

open Schema

variable (settings : Settings) (e : EnumDecl)

/-- The runtime type that describes an enum. -/
def infos : String := settings.runtime "DataEnumInfos"

/-- The runtime object that keeps the descriptions. -/
def resources : String := settings.runtime "GetResources" ++ "()"

def registerSignature : Signature := ⟨some "void", "Register", "", false⟩

def infosSignature : Signature :=
  ⟨some ("const " ++ infos settings ++ "*"), "GetDataEnumInfos", "", false⟩

def valuesSignature : Signature :=
  ⟨some "void", "GetEnumValues", "std::vector<" ++ e.generatedName ++ "::Type>& enumValues", false⟩

def sizeSignature : Signature := ⟨some "size_t", "GetSize", "", false⟩

def enumerators : List String := e.values.map (· ++ ",")

def registrations : List String :=
  e.values.map fun value => "enumInfos->values.push_back(" ++ quoted value ++ ");"

def collections : List String :=
  e.values.map fun value => "enumValues.push_back(" ++ e.generatedName ++ "::" ++ value ++ ");"

def count : String := toString e.values.length

/-- Describes the enum to the runtime. -/
def register : Function where
  signature := registerSignature
  body :=
    [infos settings ++ "* enumInfos = new " ++ infos settings ++ ";",
      "enumInfos->values.reserve(" ++ count e ++ ");"]
    ++ registrations e
    ++ [resources settings ++ "->RegisterDataEnumInfos(" ++ quoted e.name ++ ", enumInfos);"]

def getInfos : Function where
  signature := infosSignature settings
  body := ["return " ++ resources settings ++ "->GetDataEnumInfos(" ++ quoted e.name ++ ");"]

def getValues : Function where
  signature := valuesSignature e
  body := ["enumValues.reserve(" ++ count e ++ ");"] ++ collections e

def getSize : Function where
  signature := sizeSignature
  body := ["return " ++ count e ++ ";"]

def declared (s : Signature) : String := indent (s.text "" ++ ";")

def declaration : List String :=
  ["namespace " ++ e.generatedName, "\x7b", indent "enum Type", indent "\x7b"]
    ++ (enumerators e).map (indent ∘ indent)
    ++ [indent "\x7d;", "", declared (infosSignature settings), declared (valuesSignature e),
      declared sizeSignature, "", declared registerSignature, "\x7d"]

def defined (f : Function) : List String := (f.lines "").map indent

def definition : List String :=
  ["namespace " ++ e.generatedName, "\x7b"]
    ++ defined (register settings e) ++ [""]
    ++ defined (getInfos settings e) ++ [""]
    ++ defined (getValues e) ++ [""]
    ++ defined (getSize e)
    ++ ["\x7d"]

end SchemaBinding.Code.EnumBlock
