import LedgerBench.Files.Tree

/-!
# Files around a working directory

Files are named by paths relative to a working directory. The parts of a path are separated by
slashes, and a slash at its end demands a directory. Writing creates the file if it has to, but
never a directory; a file or directory that is laid out brings the directories above it with it.
-/

namespace LedgerBench

/-- Files and directories around a working directory. -/
structure Files where
  /-- The outermost directory. -/
  root : Files.Tree

namespace Files

/-- Where the working directory is: two levels below the outermost directory. No part of a path is
empty, so a path that has left these levels cannot come back to them. -/
def workingDirectory : List String := ["", ""]

/-- An empty working directory. -/
def empty : Files := ⟨.directory [("", .directory [("", .empty)])]⟩

/-- The parts of a path, from the outermost directory. -/
def parts (path : String) : List String :=
  workingDirectory ++ (path.splitOn "/").filter (· != "")

/-- Whether a path can only name a directory. -/
def demandsDirectory (path : String) : Bool := path.endsWith "/"

/-- Whether a path names nothing: an empty one, or one that starts at a place of its own. -/
def isForeign (path : String) : Bool := path = "" || path.startsWith "/"

/-- What a path names. -/
def find (files : Files) (path : String) : Except FileFault Tree :=
  if isForeign path then .error .notFound
  else
    match files.root.walk [] (parts path) with
    | .ok (.file content) =>
      if demandsDirectory path then .error .notDirectory else .ok (.file content)
    | other => other

/-- Whether a path names anything. -/
def contains (files : Files) (path : String) : Bool := (files.find path).isOk

/-- The text of the file at a path. -/
def read (files : Files) (path : String) : Except FileFault String :=
  match files.find path with
  | .error e => .error e
  | .ok (.directory _) => .error .isDirectory
  | .ok (.file content) =>
    match String.fromUTF8? content with
    | some text => .ok text
    | none => .error .notText

/-- Writes a text to the file at a path, which is created if it does not exist. What is wrong with
the way to the file comes before what is wrong with its name. -/
def write (files : Files) (path text : String) : Except FileFault Files :=
  if isForeign path then .error .notFound
  else
    match files.root.walk [] (parts path).dropLast with
    | .error e => .error e
    | .ok (.file _) => .error .notDirectory
    | .ok (.directory _) =>
      let name := (parts path).getLast?
      if demandsDirectory path || name = some "." || name = some ".." then .error .isDirectory
      else
        (files.root.place false (.file text.toUTF8) (Tree.resolve [] (parts path))).map Files.mk

/-- Lays out a file or directory with the directories above it. -/
def add (files : Files) (path : String) (child : Tree) : Except FileFault Files :=
  (files.root.place true child (Tree.resolve [] (parts path))).map Files.mk

end Files

end LedgerBench
