/-!
# ChipEight.Cli.FileTree — files by path

A command sees the files through a function from paths to entries (`Files`).  A `FileTree` is such
a function given by a table: every file with its place, which is the list of the names that lead to
it from the root.  A path is walked name by name from the root or from the working directory, and
every name but the last has to lead to a directory.
-/

namespace ChipEight.Cli

/-- What a path leads to. -/
inductive Entry where
  | file (bytes : List UInt8)
  | directory
  /-- Nothing, for the reason given by the system. -/
  | nothing (reason : String)
  deriving DecidableEq, Repr

/-- The files a command sees. -/
abbrev Files := String → Entry

/-- Why a file cannot be reached. -/
inductive PathError where
  | noSuchFile
  | permissionDenied
  | notDirectory
  | isDirectory
  | nameTooLong
  deriving DecidableEq, Repr

/-- The reason that the system gives, with its number. -/
def PathError.message : PathError → String
  | .noSuchFile => "No such file or directory (os error 2)"
  | .permissionDenied => "Permission denied (os error 13)"
  | .notDirectory => "Not a directory (os error 20)"
  | .isDirectory => "Is a directory (os error 21)"
  | .nameTooLong => "File name too long (os error 36)"

/-- A path that leads nowhere. -/
def Entry.failed (e : PathError) : Entry := .nothing e.message

/-- The names from the root to a file or a directory; the root itself has none. -/
abbrev Place := List String

namespace Place

/-- One part of a path further: a dot and no name at all stay, two dots go up, and at the root there
is nothing above. -/
def step (here : Place) (part : String) : Place :=
  if part = "" || part = "." then here
  else if part = ".." then here.dropLast
  else here ++ [part]

end Place

/-- Files and directories. -/
structure FileTree where
  files : List (Place × List UInt8) := []
  /-- Directories, empty ones too.  Those above a directory or a file need not be named. -/
  directories : List Place := []
  /-- The working directory. -/
  home : Place := []

namespace FileTree

/-- The parts of a path. -/
def parts (path : String) : List String := path.splitOn "/"

/-- Where a path starts. -/
def start (t : FileTree) (path : String) : Place := if path.startsWith "/" then [] else t.home

/-- One more file, at a path. -/
def add (t : FileTree) (path : String) (bytes : List UInt8) : FileTree :=
  { t with files := ((parts path).foldl Place.step (t.start path), bytes) :: t.files }

/-- The bytes of the file at a place. -/
def file? (t : FileTree) (place : Place) : Option (List UInt8) := t.files.lookup place

/-- The place leads on to a directory or a file. -/
def leadsOn (t : FileTree) (place : Place) : Bool :=
  (t.home :: t.directories ++ t.files.map Prod.fst).any place.isPrefixOf

/-- The most bytes of a name. -/
abbrev nameLimit : Nat := 255

/-- The most bytes of a path. -/
abbrev pathLimit : Nat := 4095

/-- What the rest of a path leads to from a directory. -/
def walk (t : FileTree) (here : Place) : List String → Entry
  | [] => .directory
  | part :: rest =>
    if nameLimit < part.utf8ByteSize then .failed .nameTooLong
    else
      let next := here.step part
      match t.file? next with
      | some bytes => if rest.isEmpty then .file bytes else .failed .notDirectory
      | none => if t.leadsOn next then t.walk next rest else .failed .noSuchFile

/-- What a path leads to. -/
def find (t : FileTree) : Files := fun path =>
  if path = "" then .failed .noSuchFile
  else if pathLimit < path.utf8ByteSize then .failed .nameTooLong
  else t.walk (t.start path) (parts path)

end FileTree

end ChipEight.Cli
