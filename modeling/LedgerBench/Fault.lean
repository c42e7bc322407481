import LedgerBench.Event.Log
import LedgerBench.Event.Verdict
import LedgerBench.Files.Fault

/-!
# What can stop an analysis

A fault says where the trouble is and what it is. Its headline is the outermost of these, its
message goes from the outside to the inside.
-/

namespace LedgerBench

/-- What can stop an analysis. -/
inductive Fault where
  /-- A log cannot be read. -/
  | unreadable (path : String) (cause : FileFault)
  /-- A line of a log is no record. -/
  | badLine (path : String) (cause : LineFault)
  /-- A record cannot be used. -/
  | badRecord (path : String) (line : Nat) (cause : RecordFault)
  /-- The client does not tell when it began to send. -/
  | noStart
  /-- The client does not tell when it had sent everything. -/
  | noStop
  /-- There is no client log. -/
  | noClient (path : String)
  /-- The report cannot be written. -/
  | unwritable (path : String) (cause : FileFault)

namespace Fault

/-- The outermost part of the message. -/
def headline : Fault → String
  | unreadable path _ => "read " ++ path
  | badLine path _ => "parse event log " ++ path
  | badRecord path line _ => path ++ ":" ++ toString line
  | noStart => "insufficient data: client stream has no start-send-tx event"
  | noStop => "insufficient data: client stream has no end-send-tx event"
  | noClient path => "client log not found: " ++ path
  | unwritable path _ => "write " ++ path

/-- The parts of the message from the outside to the inside, without foreign causes. -/
def message (f : Fault) : String :=
  match f with
  | badLine _ cause => f.headline ++ ": " ++ cause.message
  | badRecord _ _ cause => f.headline ++ ": " ++ cause.message
  | _ => f.headline

end Fault

end LedgerBench
