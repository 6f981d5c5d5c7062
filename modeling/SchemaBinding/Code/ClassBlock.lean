import SchemaBinding.Schema.Document
import SchemaBinding.Code.Function
import SchemaBinding.Code.Literal
import SchemaBinding.Code.Routine
import SchemaBinding.Code.Settings

/-!
# Blocks of classes

A class has a field for every member that takes part in generated code.  What its functions do with
the fields is data before it is text: the constructor is a list of `Assignment`s, the destructor a
list of `Release`s, and reading and writing are lists of `Access`es behind those of the parent.
-/

namespace SchemaBinding.Schema

/-- The expression that a field is set to.  A sequence is empty by itself. -/
def DefaultValue.expression? : DefaultValue → Option String
  | text value => some (Code.quoted value)
  | int literal | float literal | bool literal => some literal
  | enumerator enumName value => some (enumName ++ "::" ++ value)
  | noEnumerators => some "NoValuesDefined"
  | null => some "nullptr"
  | emptySequence => none

end SchemaBinding.Schema

namespace SchemaBinding.Code

open Schema

structure Assignment where
  field : String
  expression : String
deriving DecidableEq, Repr

def Assignment.text (a : Assignment) : String := a.field ++ " = " ++ a.expression ++ ";"

inductive Release where
  /-- A link is forgotten. -/
  | unlink (field : String)
  /-- Links are forgotten. -/
  | unlinkAll (field : String)
  /-- An object is deleted. -/
  | delete (field : String)
  /-- Objects are deleted. -/
  | deleteAll (field : String)
deriving DecidableEq, Repr

def Release.text : Release → String
  | unlink field => field ++ " = nullptr;"
  | unlinkAll field => field ++ ".clear();"
  | delete field => "SafeDelete(" ++ field ++ ");"
  | deleteAll field => "ClearStdVector(" ++ field ++ ");"

/-- A field is read or written under a key, for some values also by the name of their type. -/
structure Access where
  routine : Routine
  key : String
  typeName? : Option String
  field : String
deriving DecidableEq, Repr

def Access.text (settings : Settings) (a : Access) : String :=
  settings.runtime ("binding::" ++ a.routine.name) ++ "(context, " ++ quoted a.key ++ ", "
    ++ (match a.typeName? with
      | some typeName => quoted typeName ++ ", "
      | none => "")
    ++ a.field ++ ");"

namespace ClassBlock

def categoryName? : Category → Option String
  | .primitive _ => none
  | .enumeration name => some name
  | .object name _ => some name

/-- How a member of a class of kind `owner` is read or written. -/
def access (direction : Direction) (owner : ClassKind) (m : Member) (r : Resolution) : Access :=
  let routine := Routine.select direction r.category r.isArray owner
  { routine := routine
    key := m.name
    typeName? := if routine.takesTypeName then categoryName? r.category else none
    field := m.generatedName }

def accesses (direction : Direction) (c : ClassDecl) : List Access :=
  c.emittedMembers.map fun (m, r) => access direction c.kind m r

/-- What the constructor sets a field to, if it sets it. -/
def assignment? (m : Member) (r : Resolution) : Option Assignment :=
  if r.isArray then none else r.default.expression?.map (⟨m.generatedName, ·⟩)

def assignments (c : ClassDecl) : List Assignment :=
  c.emittedMembers.filterMap fun (m, r) => assignment? m r

/-- How a field is given up, if it holds objects. -/
def release? (m : Member) (r : Resolution) : Option Release :=
  match r.category.ownership?, r.isArray with
  | some .reference, false => some (.unlink m.generatedName)
  | some .reference, true => some (.unlinkAll m.generatedName)
  | some .owned, false => some (.delete m.generatedName)
  | some .owned, true => some (.deleteAll m.generatedName)
  | none, _ => none

def releases (c : ClassDecl) : List Release :=
  c.emittedMembers.filterMap fun (m, r) => release? m r

/-! ### Signatures -/

def constructorSignature (c : ClassDecl) : Signature := ⟨none, c.generatedName, "", false⟩

def destructorSignature (c : ClassDecl) : Signature := ⟨none, "~" ++ c.generatedName, "", false⟩

def parseSignature (settings : Settings) : Signature :=
  ⟨some "void", "ParseMembers", settings.runtime "DataParseContext" ++ "& context", false⟩

def serializeSignature (settings : Settings) : Signature :=
  ⟨some "void", "SerializeMembers", settings.runtime "DataSaveContext" ++ "& context", true⟩

def instanceTypeSignature : Signature :=
  ⟨some "const std::string&", "GetDataInstanceType", "", true⟩

/-! ### Functions -/

def constructor (c : ClassDecl) : Function :=
  ⟨constructorSignature c, (assignments c).map Assignment.text⟩

def destructor (c : ClassDecl) : Function :=
  ⟨destructorSignature c, (releases c).map Release.text⟩

/-- The call of the function of the same name of the parent, if there is a parent. -/
def parentCall? (doc : Document) (signature : Signature) (c : ClassDecl) : Option String :=
  (doc.parentOf? c).map fun parent =>
    parent.generatedName ++ "::" ++ signature.name ++ "(context);"

/-- A function that reads or writes the members: those of the parent first, by a call.  An empty
line separates the call from the members, if there are both. -/
def accessFunction (settings : Settings) (doc : Document) (signature : Signature)
    (direction : Direction) (c : ClassDecl) : Function where
  signature := signature
  body :=
    (match parentCall? doc signature c with
      | some call => call :: if c.emittedMembers = [] then [] else [""]
      | none => [])
    ++ (accesses direction c).map (Access.text settings)

def parse (settings : Settings) (doc : Document) (c : ClassDecl) : Function :=
  accessFunction settings doc (parseSignature settings) .read c

def serialize (settings : Settings) (doc : Document) (c : ClassDecl) : Function :=
  accessFunction settings doc (serializeSignature settings) .write c

/-- Answers the name that the factory knows the class by. -/
def instanceType (c : ClassDecl) : Function where
  signature := instanceTypeSignature
  body :=
    ["static const std::string dataInstanceType = " ++ quoted c.name ++ ";",
      "return dataInstanceType;"]

/-! ### Blocks -/

/-- The class that a class is derived from: its parent, or the root of its kind. -/
def parentType (settings : Settings) (doc : Document) (c : ClassDecl) : String :=
  match doc.parentOf? c with
  | some parent => parent.generatedName
  | none => settings.runtime c.kind.rootClass

def fieldLine (m : Member) (r : Resolution) : String :=
  indent (r.signature ++ " " ++ m.generatedName ++ ";")

def publicSection (lines : List String) : List String :=
  if lines = [] then [] else ["", "public:", ""] ++ lines

/-- The declarations of the functions that are called by the runtime. -/
def overrides (settings : Settings) (c : ClassDecl) : List String :=
  (parseSignature settings
      :: if c.kind.serializable then [serializeSignature settings, instanceTypeSignature] else [])
    |>.map fun s => indent ("virtual " ++ s.text "" ++ " override;")

/-- The block of a class in the header. -/
def declaration (settings : Settings) (doc : Document) (c : ClassDecl) : List String :=
  ["class " ++ c.generatedName ++ " : public " ++ parentType settings doc c, "\x7b", "public:", "",
      indent ((constructorSignature c).text "" ++ ";"),
      indent ("virtual " ++ (destructorSignature c).text "" ++ ";")]
    ++ publicSection (c.methods.map indent)
    ++ publicSection (c.emittedMembers.map fun (m, r) => fieldLine m r)
    ++ ["", "protected:", ""]
    ++ overrides settings c
    ++ ["\x7d;"]

def functions (settings : Settings) (doc : Document) (c : ClassDecl) : List Function :=
  [constructor c, destructor c, parse settings doc c]
    ++ if c.kind.serializable then [serialize settings doc c, instanceType c] else []

/-- The block of a class in the source: its functions, with an empty line after each. -/
def definition (settings : Settings) (doc : Document) (c : ClassDecl) : List String :=
  (functions settings doc c).flatMap fun f => f.lines (c.generatedName ++ "::") ++ [""]

end ClassBlock

end SchemaBinding.Code
