import SchemaBinding.Text.Blank

/-!
# Settings

The settings of generated code: the name that files and routines are named after, the namespace of
the runtime that the code is written for, and the files that each unit includes.
-/

namespace SchemaBinding.Code

structure Settings where
  baseName : String
  /-- Empty if the runtime has no namespace. -/
  runtimeNamespace : String
  headerIncludes : List String
  sourceIncludes : List String
deriving DecidableEq, Repr

namespace Settings

def defaultBaseName : String := "DataBinding"

def standard : Settings where
  baseName := defaultBaseName
  runtimeNamespace := "gugu"
  headerIncludes :=
    ["Gugu/Data/DataBindingUtility.h", "Gugu/Data/DatasheetObject.h", "Gugu/Data/DatasaveObject.h"]
  sourceIncludes := ["Gugu/Resources/ManagerResources.h", "Gugu/System/SystemUtility.h"]

/-- Sets the base name, trimmed; a blank name stands for the default one. -/
def withBaseName (s : Settings) (name : String) : Settings :=
  { s with baseName := if Text.trim name = "" then defaultBaseName else Text.trim name }

/-- Sets the namespace of the runtime, as it is given. -/
def withRuntimeNamespace (s : Settings) (name : String) : Settings :=
  { s with runtimeNamespace := name }

def withHeaderIncludes (s : Settings) (files : List String) : Settings :=
  { s with headerIncludes := files }

def withSourceIncludes (s : Settings) (files : List String) : Settings :=
  { s with sourceIncludes := files }

def headerFile (s : Settings) : String := s.baseName ++ ".h"

def sourceFile (s : Settings) : String := s.baseName ++ ".cpp"

/-- The routine that registers enums and the factory. -/
def registerRoutine (s : Settings) : String := s.baseName ++ "_Register"

/-- The routine that makes an object of a named class. -/
def factoryRoutine (s : Settings) : String := s.baseName ++ "_InstanciateDataObject"

def runtime (s : Settings) (item : String) : String :=
  if s.runtimeNamespace = "" then item else s.runtimeNamespace ++ "::" ++ item

end Settings

end SchemaBinding.Code
