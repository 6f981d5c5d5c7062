import SchemaBinding.File.Path

/-!
# File stores

What a program needs of the files around it is three operations: to read a text, to see that a
directory is there, and to write a text.  A `FileStore` offers them in any monad, each with a
`FileFault` where it fails.

`FileStore.makeDirectories` makes a directory with all that lead to it.  The directory itself is
tried first: only where it cannot be made for want of another is that one made before it.
-/

namespace SchemaBinding

inductive FileFault where
  | notFound
  | alreadyExists
  | notDirectory
  | isDirectory
  | notText
  | nameTooLong
  | nulInPath
  | other (text : String)
deriving DecidableEq, Repr

def FileFault.message : FileFault → String
  | notFound => "No such file or directory (os error 2)"
  | alreadyExists => "File exists (os error 17)"
  | notDirectory => "Not a directory (os error 20)"
  | isDirectory => "Is a directory (os error 21)"
  | notText => "stream did not contain valid UTF-8"
  | nameTooLong => "File name too long (os error 36)"
  | nulInPath => "file name contained an unexpected NUL byte"
  | other text => text

structure FileStore (m : Type → Type) where
  readText : String → m (Except FileFault String)
  /-- Makes a directory in one that is there, or finds it there. -/
  ensureDirectory : String → m (Except FileFault Unit)
  writeText : String → String → m (Except FileFault Unit)

namespace FileStore

variable {m : Type → Type} [Monad m]

/-- Makes a directory, and where one is wanting on the way, first those that lead to it, which are
given innermost first. -/
def makeBehind (store : FileStore m) (path : String) : List String → m (Except FileFault Unit)
  | [] => store.ensureDirectory path
  | outer :: rest => do
    match ← store.ensureDirectory path with
    | .error .notFound =>
      match ← store.makeBehind outer rest with
      | .error fault => return .error fault
      | .ok () => store.ensureDirectory path
    | done => return done

/-- Makes a directory with those that lead to it.  What was made before a failure stays.  The empty
path stands for the directory in which the program is, so nothing is made. -/
def makeDirectories (store : FileStore m) (path : String) : m (Except FileFault Unit) :=
  if path = "" then return .ok () else store.makeBehind path (leadingPaths path)

end FileStore

end SchemaBinding
