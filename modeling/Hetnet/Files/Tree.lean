import Std.Data.ExtTreeMap
import Hetnet.Files

/-!
# Trees of files

A tree of files is a place with files that is a value: it holds text files in
directories, and every operation on it is a function from trees to trees. Entries are
kept under their full names, the names of the directories above them joined by
slashes; the directory in which relative paths begin has the empty name.

A path is walked name by name. Empty names and single dots stand for where the walk is,
double dots for the directory above. Above the first directory there is one of which
nothing is known, another one above that, and so on. A path that begins with a slash
begins in the directory of the whole system, of which little is known.
-/

namespace Hetnet

/-- What has a name in a tree. -/
inductive FileEntry
  | file (text : String)
  | directory
deriving DecidableEq, Inhabited

/-- Files and directories under their full names. -/
structure FileTree where
  entries : Std.ExtTreeMap String FileEntry := ∅

namespace FileTree

instance : Inhabited FileTree := ⟨{}⟩

instance : EmptyCollection FileTree := ⟨{}⟩

/-- The names that lead to an entry. Double dots are the first names or none; an empty first name
stands for the directory of the whole system. -/
abbrev Place := List String

/-- The full name of an entry. -/
def fullName (place : Place) : String := "/".intercalate place

/-- The directory of the whole system. -/
def systemPlace : Place := [""]

/-- Whether a place is the directory in which relative paths begin or above it. -/
def isAtOrAboveStart (place : Place) : Bool := place.all (· = "..")

/-- The entry at a place. -/
def entry? (t : FileTree) (place : Place) : Option FileEntry :=
  if isAtOrAboveStart place ∨ place = systemPlace then some .directory
  else t.entries[fullName place]?

/-- The place above a place. -/
def above (place : Place) : Place :=
  if place = systemPlace then systemPlace
  else if isAtOrAboveStart place then place ++ [".."]
  else place.dropLast

/-- The names that a path is made of. -/
def pathNames (path : String) : List String := (path.toList.splitOn '/').map String.ofList

/-- The greatest number of bytes in a name. -/
def longestName : Nat := 255

/-- The greatest number of bytes in a path. -/
def longestPath : Nat := 4095

/-- Takes one step of a walk from a place, which must be a directory. There need not be an
entry at the next place. -/
def stepTo (t : FileTree) (place : Place) (name : String) : Except FileFault Place :=
  match t.entry? place with
  | none => .error .notFound
  | some (.file _) => .error .notADirectory
  | some .directory =>
      if name = "" ∨ name = "." then .ok place
      else if name = ".." then .ok (above place)
      else if longestName < name.utf8ByteSize then .error .nameTooLong
      else .ok (place ++ [name])

/-- The place where a walk along some names begins: an empty first name is what stands before
a slash. -/
def startOf (names : List String) : Place :=
  if names.head? = some "" then systemPlace else []

/-- The place that a walk leads to; only the last name may be new. -/
def walk (t : FileTree) (names : List String) : Except FileFault Place :=
  names.foldlM t.stepTo (startOf names)

/-- The names of a path, unless the path is longer than paths can be or empty. -/
def namesOf (path : String) : Except FileFault (List String) :=
  if path = "" then .error .notFound
  else if longestPath < path.utf8ByteSize then .error .nameTooLong
  else .ok (pathNames path)

/-- The place that a path leads to; only its last name may be new. -/
def resolve (t : FileTree) (path : String) : Except FileFault Place := do
  t.walk (← namesOf path)

/-- The contents of the file that a path leads to. -/
def read (t : FileTree) (path : String) : Except FileFault String := do
  match t.entry? (← t.resolve path) with
  | none => throw .notFound
  | some .directory => throw .isADirectory
  | some (.file text) => return text

/-- Puts an entry at a place. -/
def put (t : FileTree) (place : Place) (entry : FileEntry) : FileTree :=
  ⟨t.entries.insert (fullName place) entry⟩

/-- Gives the file that a path leads to new contents. -/
def write (t : FileTree) (path text : String) : Except FileFault FileTree := do
  let place ← t.resolve path
  match t.entry? place with
  | some .directory => throw .isADirectory
  | _ => return t.put place (.file text)

/-- Makes a directory at a place unless something is there. -/
def enter (t : FileTree) (place : Place) : FileTree :=
  match t.entry? place with
  | none => t.put place .directory
  | some _ => t

/-- Some names without empty ones at their end. -/
def withoutSlashes (names : List String) : List String :=
  (names.reverse.dropWhile (· = "")).reverse

/-- Makes one directory, whose name must be new. Dots are no new name. -/
def makeDirectory (t : FileTree) (names : List String) : Except FileFault FileTree := do
  let place ← t.walk (withoutSlashes names)
  if (t.entry? place).isSome then throw .alreadyExists
  return t.put place .directory

/-- Whether some names lead to a directory. -/
def hasDirectory (t : FileTree) (names : List String) : Bool :=
  match t.walk names with
  | .ok place => t.entry? place = some .directory
  | .error _ => false

/-- Makes one directory unless it is there. -/
def ensureDirectory (t : FileTree) (names : List String) : Except FileFault FileTree :=
  match t.makeDirectory names with
  | .ok t => .ok t
  | .error fault => if t.hasDirectory names then .ok t else .error fault

/-- Makes a directory unless it is there, and if that fails because the directory above it is
missing, makes that one first. The names are given from the last to the first. -/
def ensureAll (t : FileTree) : List String → Except FileFault FileTree
  | [] => .ok t
  | name :: outer => do
      let names := (name :: outer).reverse
      match t.ensureDirectory names with
      | .error .notFound => (← t.ensureAll outer).ensureDirectory names
      | result => result

/-- The names of a path that lead somewhere else. -/
def movingNames : List String → List String
  | [] => []
  | first :: rest =>
      let rest := rest.filter fun name => name ≠ "" ∧ name ≠ "."
      if first = "." then rest else first :: rest

/-- Makes the directory that a path leads to and those above it, as far as they are missing. When
the directories above are named, dots are left out: a path that ends in a dot needs its
directory before. -/
def makeDirectories (t : FileTree) (path : String) : Except FileFault FileTree := do
  if path = "" then return t
  let names ← namesOf path
  match t.ensureDirectory names with
  | .error .notFound => (← t.ensureAll (movingNames names).dropLast.reverse).ensureDirectory names
  | result => result

/-- Adds a file and the directories above it. -/
def addFile (t : FileTree) (place : Place) (text : String) : FileTree :=
  let above := (List.range place.length).foldl (fun t n => t.enter (place.take n)) t
  above.put place (.file text)

/-- What is known of the whole system: a directory for what is passing, and devices from which
nothing comes. -/
def system : FileTree :=
  let t := (∅ : FileTree).enter ["", "tmp"]
  (t.addFile ["", "dev", "null"] "").addFile ["", "dev", "stdin"] ""

/-- The tree of some files, given by their paths. -/
def ofFiles (files : List (String × String)) : FileTree :=
  files.foldl (fun t (path, text) => t.addFile (pathNames path) text) system

/-- The last name of a place, if it stands directly in a directory. -/
def lastNameIn? (directory place : Place) : Option String :=
  if place.dropLast = directory then place.getLast? else none

/-- The files that stand directly in the directory that a path leads to. -/
def filesIn (t : FileTree) (path : String) : List (String × String) :=
  match t.resolve path with
  | .error _ => []
  | .ok directory =>
      t.entries.toList.filterMap fun (name, entry) =>
        match entry with
        | .file text => (lastNameIn? directory (pathNames name)).map fun last => (last, text)
        | .directory => none

/-- Changes the tree unless the change fails. -/
def update (change : FileTree → Except FileFault FileTree) :
    StateM FileTree (Except FileFault Unit) := do
  match change (← get) with
  | .ok t =>
      set t
      return .ok ()
  | .error fault => return .error fault

instance : Files (StateM FileTree) where
  read path := return (← get).read path
  makeDirectory path := update fun t => t.makeDirectories path
  write path text := update fun t => t.write path text

end FileTree

end Hetnet
