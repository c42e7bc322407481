import LedgerBench.Files.Fault

/-!
# Directory trees

A tree is a file or a directory with named entries. A tree is walked by the parts of a path: `.`
stays where it is, `..` goes back up, and every other part goes to an entry. Each part, these two
included, can only be followed from a directory.
-/

namespace LedgerBench.Files

/-- A file or a directory. -/
inductive Tree where
  /-- A file. -/
  | file (content : ByteArray)
  /-- A directory. -/
  | directory (entries : List (String × Tree))

namespace Tree

/-- The empty directory. -/
def empty : Tree := directory []

/-- The entry of a directory. -/
def entry? (name : String) (entries : List (String × Tree)) : Option Tree :=
  (entries.find? fun e => e.1 == name).map (·.2)

/-- Sets an entry of a directory. -/
def setEntry (name : String) (child : Tree) : List (String × Tree) → List (String × Tree)
  | [] => [(name, child)]
  | e :: rest => if e.1 = name then (name, child) :: rest else e :: setEntry name child rest

/-- Follows the parts of a path, given the directories above, innermost first. Nothing lies above
the outermost directory, so `..` stays there. -/
def walk (t : Tree) (above : List Tree) : List String → Except FileFault Tree
  | [] => .ok t
  | part :: rest =>
    match t with
    | file _ => .error .notDirectory
    | directory entries =>
      if part = "." then walk t above rest
      else if part = ".." then
        match above with
        | [] => walk t [] rest
        | parent :: above => walk parent above rest
      else
        match entry? part entries with
        | none => .error .notFound
        | some child => walk child (t :: above) rest

/-- The parts of a path without `.` and with every `..` taken back. -/
def resolve : List String → List String → List String
  | done, [] => done.reverse
  | done, part :: rest =>
    if part = "." then resolve done rest
    else if part = ".." then resolve done.tail rest
    else resolve (part :: done) rest

/-- Puts a file or directory at the end of a chain of names. Directories on the way have to exist,
unless `creating` them is asked for. A directory that exists already stays as it is. -/
def place (t : Tree) (creating : Bool) (child : Tree) : List String → Except FileFault Tree
  | [] => .error .isDirectory
  | [name] =>
    match t with
    | file _ => .error .notDirectory
    | directory entries =>
      match child, entry? name entries with
      | file _, some (directory _) => .error .isDirectory
      | directory _, some (directory _) => .ok t
      | _, _ => .ok (directory (setEntry name child entries))
  | name :: rest =>
    match t with
    | file _ => .error .notDirectory
    | directory entries =>
      match entry? name entries with
      | none =>
        if creating then
          (place empty creating child rest).map fun t => directory (setEntry name t entries)
        else .error .notFound
      | some t => (place t creating child rest).map fun t => directory (setEntry name t entries)

end Tree

end LedgerBench.Files
