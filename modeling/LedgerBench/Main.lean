import LedgerBench.CommandLine.Run

/-!
# The program

Reads event logs, prints the report as a table, and writes it to a file if asked to. Notices go to
the standard error output.
-/

namespace LedgerBench.Main

/-- The fault of a file that the system tells of. -/
def fileFault : IO.Error → FileFault
  | .noFileOrDirectory .. => .notFound
  | .inappropriateType .. => .isDirectory
  | _ => .other

/-- Reads a file as text. -/
def readText (path : String) : IO (Except FileFault String) := do
  try
    match String.fromUTF8? (← IO.FS.readBinFile path) with
    | some text => return .ok text
    | none => return .error .notText
  catch e => return .error (fileFault e)

/-- Writes a text to a file. -/
def writeText (path text : String) : IO (Except FileFault Unit) := do
  try
    IO.FS.writeFile path text
    return .ok ()
  catch e => return .error (fileFault e)

/-- Whether a path names a file or a directory. -/
def pathExists (path : String) : IO Bool := do
  try
    discard (IO.FS.readBinFile path)
    return true
  catch e => return !(fileFault e matches .notFound)

/-- The line of a notice: its urgency, its wording and its details. -/
def noticeLine (n : Notice) : String :=
  let level := match n.level with
    | .debug => "DEBUG"
    | .info => "INFO"
    | .warn => "WARN"
  let detail := n.details.map fun (name, d) =>
    match d with
    | .number n => s!" {name}={n}"
    | .text s => s!" {name}={s}"
  level ++ " " ++ n.message ++ String.join detail

/-- The running system. -/
def host : Host IO where
  contains := pathExists
  read := readText
  write := writeText
  print := IO.print
  notify n := if n.level matches .debug then pure () else IO.eprintln (noticeLine n)

/-- How the program is used. -/
def usage : String :=
  "Usage: ledger-bench --client <FILE> [--peer <FILE>]... [--storage <FILE>]... [--output <FILE>]"

end LedgerBench.Main

/-- Runs the program. -/
def main (args : List String) : IO UInt32 := do
  let ending ← LedgerBench.runCommand LedgerBench.Main.host args
  match ending with
  | .refused .helpWanted => IO.println LedgerBench.Main.usage
  | .refused _ => IO.eprintln LedgerBench.Main.usage
  | _ => if let some text := ending.errorText? then IO.eprint text
  return ending.code.toUInt32
