/-!
# Arguments

The program is given a command with options, or asked for its version.  `Invocation.parse?` reads
the arguments and answers nothing if they are not understood.

An option has its value in the next argument or in its own: `-i file`, `-ifile`, `-i=file`,
`--input file` and `--input=file` mean the same.  Each option is given at most once.
-/

namespace SchemaBinding.Command

inductive Flag where
  | input
  | outputDirectory
  | name
  | runtimeNamespace
  | denyWarnings
deriving DecidableEq, Repr

namespace Flag

def takesValue : Flag → Bool
  | denyWarnings => false
  | _ => true

/-- Whether a value is accepted: a path is never empty. -/
def accepts (value : String) : Flag → Bool
  | input | outputDirectory => value ≠ ""
  | _ => true

end Flag

/-- The options that a command knows, by their long and by their short names. -/
structure FlagNames where
  long : List (List Char × Flag)
  short : List (Char × Flag)

def checkFlags : FlagNames where
  long := [("input".toList, .input)]
  short := [('i', .input)]

def generateFlags : FlagNames where
  long :=
    [("input".toList, .input), ("output-dir".toList, .outputDirectory), ("name".toList, .name),
      ("runtime-namespace".toList, .runtimeNamespace), ("deny-warnings".toList, .denyWarnings)]
  short := [('i', .input), ('o', .outputDirectory), ('n', .name)]

/-- The option that an argument names, with the value if the argument holds it. -/
def FlagNames.read? (names : FlagNames) (argument : List Char) : Option (Flag × Option String) :=
  match argument with
  | '-' :: '-' :: body =>
    (names.long.lookup (body.takeWhile (· ≠ '='))).map fun flag =>
      match body.dropWhile (· ≠ '=') with
      | _ :: value => (flag, some (String.ofList value))
      | [] => (flag, none)
  | '-' :: letter :: body =>
    (names.short.lookup letter).map fun flag =>
      match body with
      | [] => (flag, none)
      | '=' :: value => (flag, some (String.ofList value))
      | _ => (flag, some (String.ofList body))
  | _ => none

/-- An argument that begins with a hyphen is no value, unless it is nothing else. -/
def isValue (argument : String) : Bool := argument = "-" || argument.toList.head? ≠ some '-'

/-- Reads options behind those already given.  Two hyphens end them, and nothing may follow. -/
def readFlags (names : FlagNames) (given : List (Flag × String)) :
    List String → Option (List (Flag × String))
  | [] => some given
  | argument :: rest =>
    if argument = "--" then if rest = [] then some given else none
    else
      match names.read? argument.toList with
      | none => none
      | some (flag, attached?) =>
        if (given.lookup flag).isSome then none
        else if flag.takesValue then
          match attached? with
          | some value =>
            if flag.accepts value then readFlags names ((flag, value) :: given) rest else none
          | none =>
            match rest with
            | [] => none
            | value :: others =>
              if isValue value ∧ flag.accepts value then
                readFlags names ((flag, value) :: given) others
              else none
        else if attached? = none then readFlags names ((flag, "") :: given) rest
        else none

structure GenerateOptions where
  input : String
  outputDirectory : String
  name? : Option String
  runtimeNamespace? : Option String
  denyWarnings : Bool
deriving DecidableEq, Repr

inductive Invocation where
  | version
  | check (input : String)
  | generate (options : GenerateOptions)
deriving DecidableEq, Repr

/-- Whether an argument asks for the version.  What follows the short name is not read. -/
def asksVersion (argument : String) : Bool :=
  argument = "--version" || argument.toList.take 2 = ['-', 'V']

def Invocation.parse? : List String → Option Invocation
  | [] => none
  | command :: rest =>
    if asksVersion command then some .version
    else if command = "check" then do
      let given ← readFlags checkFlags [] rest
      let input ← given.lookup .input
      return .check input
    else if command = "generate" then do
      let given ← readFlags generateFlags [] rest
      let input ← given.lookup .input
      let outputDirectory ← given.lookup .outputDirectory
      return .generate
        { input := input
          outputDirectory := outputDirectory
          name? := given.lookup .name
          runtimeNamespace? := given.lookup .runtimeNamespace
          denyWarnings := (given.lookup .denyWarnings).isSome }
    else none

end SchemaBinding.Command
