/-!
# Files

The commands read files, make one directory and write files into it, and that is all
they ask of the place they run in. `Files` says what such a place can do; a
`FileFault` says why it did not. `Hetnet.Files.Tree` is a place that is a value.
-/

namespace Hetnet

/-- Why an operation on a file or directory failed. -/
inductive FileFault
  /-- Nothing has this name. -/
  | notFound
  /-- Something that is no directory already has this name. -/
  | alreadyExists
  /-- The path goes through something that is no directory. -/
  | notADirectory
  /-- A file was wanted, and this is a directory. -/
  | isADirectory
  /-- The path or a name in it is longer than it can be. -/
  | nameTooLong
  /-- Any other fault, in the words of the system. -/
  | other (words : String)
deriving DecidableEq, Inhabited

/-- The words for the fault, with its number. -/
def FileFault.message : FileFault → String
  | notFound => "No such file or directory (os error 2)"
  | alreadyExists => "File exists (os error 17)"
  | notADirectory => "Not a directory (os error 20)"
  | isADirectory => "Is a directory (os error 21)"
  | nameTooLong => "File name too long (os error 36)"
  | other words => words

/-- The path of something in a directory. -/
def pathIn (directory name : String) : String :=
  if directory = "" ∨ directory.endsWith "/" then directory ++ name else directory ++ "/" ++ name

/-- What a place with files can do. -/
class Files (m : Type → Type) where
  /-- The contents of a file. -/
  read : String → m (Except FileFault String)
  /-- Makes a directory and the directories above it, as far as they are missing. -/
  makeDirectory : String → m (Except FileFault Unit)
  /-- Gives a file new contents, and makes it if it is missing. -/
  write : String → String → m (Except FileFault Unit)

end Hetnet
