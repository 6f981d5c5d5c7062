import SchemaBinding.File.Store

/-!
# Trees of files

`FileTree` is a file system as a value: a map from places to files and directories.  A place is the
list of names that lead to it from the root.  The program stands in one directory of the tree, its
home, and the home and what leads to it are always directories.  A path is followed name by name;
`..` leads out of a directory only once that directory has been reached.

* `find?_insert_self`, `find?_insert_of_ne`: what adding an entry does to the look-up.
-/

namespace SchemaBinding

inductive FileEntry where
  | file (content : ByteArray)
  | directory

/-- Files and directories by their places, and the place in which the program stands. -/
structure FileTree where
  home : List String
  entries : List (List String × FileEntry)

namespace FileTree

def empty (home : List String) : FileTree := ⟨home, []⟩

def find? (t : FileTree) (place : List String) : Option FileEntry :=
  if place.isPrefixOf t.home then some .directory else t.entries.lookup place

/-- Puts an entry at a place, instead of what is there. -/
def insert (t : FileTree) (place : List String) (entry : FileEntry) : FileTree :=
  { t with entries := t.entries.filter (·.1 ≠ place) ++ [(place, entry)] }

def hasDirectory (t : FileTree) (place : List String) : Bool :=
  match t.find? place with
  | some .directory => true
  | _ => false

/-- The longest name of a file, in bytes of UTF-8. -/
def longestName : Nat := 255

/-- The longest path, in bytes of UTF-8. -/
def longestPath : Nat := 4095

/-- Follows names from a directory to a place, at which there may be nothing yet. -/
def follow (t : FileTree) (place : List String) : List String → Except FileFault (List String)
  | [] => .ok place
  | name :: rest =>
    if name = "" ∨ name = "." then t.follow place rest
    else if name = ".." then t.follow place.dropLast rest
    else if name.utf8ByteSize > longestName then .error .nameTooLong
    else if rest = [] then .ok (place ++ [name])
    else
      match t.find? (place ++ [name]) with
      | some .directory => t.follow (place ++ [name]) rest
      | some (.file _) => .error .notDirectory
      | none => .error .notFound

/-- The place that a path leads to by its names.  A path with a NUL is refused before any other. -/
def locate (t : FileTree) (path : String) (names : List String) :
    Except FileFault (List String) :=
  if path.toList.contains '\x00' then .error .nulInPath
  else if path = "" then .error .notFound
  else if path.utf8ByteSize > longestPath then .error .nameTooLong
  else t.follow (if isAbsolute path then [] else t.home) names

/-- Reads the text of a file.  A slash behind the name of a file asks for a directory, like a dot. -/
def readText (t : FileTree) (path : String) : Except FileFault String :=
  match t.locate path (namesOf path) with
  | .error fault => .error fault
  | .ok place =>
    match t.find? place with
    | none => .error .notFound
    | some .directory => .error .isDirectory
    | some (.file content) =>
      match String.fromUTF8? content with
      | some text => .ok text
      | none => .error .notText

/-- Writes the text of a file, in a directory that is there. -/
def writeText (t : FileTree) (path text : String) : Except FileFault FileTree :=
  match t.locate path (namesOf path) with
  | .error fault => .error fault
  | .ok place =>
    if t.hasDirectory place then .error .isDirectory
    else .ok (t.insert place (.file text.toUTF8))

/-- Makes a directory in one that is there, or finds it there.  Slashes behind the name of the
directory change nothing, but a dot behind it asks for one that is there. -/
def ensureDirectory (t : FileTree) (path : String) : Except FileFault FileTree :=
  match t.locate path ((namesOf path).filter (· ≠ "")) with
  | .error fault => .error fault
  | .ok place =>
    match t.find? place with
    | none => .ok (t.insert place .directory)
    | some .directory => .ok t
    | some (.file _) => .error .alreadyExists

/-- An operation that changes the tree, unless it fails. -/
def change (operation : FileTree → Except FileFault FileTree) :
    StateM FileTree (Except FileFault Unit) := fun t =>
  match operation t with
  | .ok changed => (.ok (), changed)
  | .error fault => (.error fault, t)

def store : FileStore (StateM FileTree) where
  readText path := fun t => (t.readText path, t)
  ensureDirectory path := change fun t => t.ensureDirectory path
  writeText path text := change fun t => t.writeText path text

/-! ### Look-up -/

theorem lookup_filter_of_ne {entries : List (List String × FileEntry)} {place other : List String}
    (h : other ≠ place) :
    (entries.filter (·.1 ≠ place)).lookup other = entries.lookup other := by
  induction entries with
  | nil => rfl
  | cons entry rest ih =>
    obtain ⟨k, v⟩ := entry
    by_cases hk : k = place
    · subst hk
      rw [List.filter_cons_of_neg (by simp), ih, List.lookup_cons, beq_false_of_ne h]
    · rw [List.filter_cons_of_pos (by simpa using hk), List.lookup_cons, List.lookup_cons, ih]

theorem lookup_filter_self (entries : List (List String × FileEntry)) (place : List String) :
    (entries.filter (·.1 ≠ place)).lookup place = none := by
  rw [List.lookup_eq_none_iff]
  intro entry hentry
  rw [bne_iff_ne]
  exact (of_decide_eq_true (List.mem_filter.1 hentry).2).symm

theorem find?_insert_self {t : FileTree} {place : List String}
    (h : place.isPrefixOf t.home = false) (entry : FileEntry) :
    (t.insert place entry).find? place = some entry := by
  rw [find?, insert, if_neg (by simp [h]), List.lookup_append, lookup_filter_self, Option.none_or,
    List.lookup_cons_self]

theorem find?_insert_of_ne {place other : List String} (h : other ≠ place) (t : FileTree)
    (entry : FileEntry) : (t.insert place entry).find? other = t.find? other := by
  have hentry : [(place, entry)].lookup other = none := by
    rw [List.lookup_cons, beq_false_of_ne h, List.lookup_nil]
  simp only [find?, insert, List.lookup_append, lookup_filter_of_ne h, hentry, Option.or_none]

end FileTree

end SchemaBinding
