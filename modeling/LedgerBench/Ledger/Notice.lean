import LedgerBench.Event.Log
import LedgerBench.Event.Verdict

/-!
# Notices

What an analysis has to say while it runs: which records it passed over, what it read from each
stream, and what lies outside the send window.
-/

namespace LedgerBench

/-- How the records of a stream were judged. -/
structure Tally where
  /-- The number of accepted records. -/
  applied : Nat := 0
  /-- The number of records that the role is not believed about. -/
  ignored : Nat := 0
  /-- The number of unknown records. -/
  unrecognized : Nat := 0
  /-- The number of executions that no storage node reported. -/
  missingNode : Nat := 0
deriving Repr, DecidableEq

/-- Counts one more verdict. -/
def Tally.add (t : Tally) : Verdict → Tally
  | .applied _ => { t with applied := t.applied + 1 }
  | .ignored => { t with ignored := t.ignored + 1 }
  | .unrecognized => { t with unrecognized := t.unrecognized + 1 }
  | .missingNode => { t with missingNode := t.missingNode + 1 }

/-- How urgent a notice is. -/
inductive Level where
  /-- For those who look for a fault. -/
  | debug
  /-- For everyone. -/
  | info
  /-- Something may be wrong. -/
  | warn
deriving Repr, DecidableEq

/-- The least urgent level that is passed on unless something else is asked for. -/
def Level.defaultFilter : String := "info"

/-- A notice. -/
inductive Notice where
  /-- The role of the stream is not believed about a record. -/
  | ignored (source : Source) (line : Nat) (label : String)
  /-- A record is unknown. -/
  | unrecognized (source : Source) (line : Nat) (kind label : String)
  /-- A record tells of an execution, but its stream is no storage node's. -/
  | missingNode (source : Source) (line : Nat) (label : String)
  /-- A stream has been read to its end. -/
  | processed (source : Source) (tally : Tally)
  /-- Everything outside the send window has been dropped. -/
  | windowApplied (blocksKept blocksDropped txsKept txsDropped : Nat)
  /-- All streams have been read. -/
  | loaded
  /-- The report is complete. -/
  | aggregated
  /-- The report has been written to a file. -/
  | written (path : String)
deriving DecidableEq

namespace Notice

/-- How urgent a notice is. -/
def level : Notice → Level
  | ignored .. | loaded | aggregated => .debug
  | unrecognized .. | missingNode .. => .warn
  | processed .. | windowApplied .. | written .. => .info

/-- The wording of a notice. -/
def message : Notice → String
  | ignored .. => "event not accepted from this stream"
  | unrecognized .. => "unrecognized event, skipped"
  | missingNode .. => "exec_time outside a storage-node stream, skipped"
  | processed .. => "stream processed"
  | windowApplied .. => "window applied"
  | loaded => "load_and_apply_streams"
  | aggregated => "aggregate"
  | written _ => "result written"

/-- A detail of a notice: a number or a text. -/
inductive Detail where
  /-- A number. -/
  | number (n : Nat)
  /-- A text. -/
  | text (s : String)
deriving Repr, DecidableEq

/-- The details of a notice by name. -/
def details : Notice → List (String × Detail)
  | ignored source line label | missingNode source line label =>
    [("file", .text source.path), ("line", .number line), ("label", .text label),
      ("role", .text source.role.name)]
  | unrecognized source line kind label =>
    [("file", .text source.path), ("line", .number line), ("kind", .text kind),
      ("label", .text label)]
  | processed source tally =>
    [("file", .text source.path), ("role", .text source.role.name),
      ("applied", .number tally.applied), ("ignored", .number tally.ignored),
      ("unrecognized", .number tally.unrecognized),
      ("missing_storage_id", .number tally.missingNode)]
  | windowApplied blocksKept blocksDropped txsKept txsDropped =>
    [("blocks_kept", .number blocksKept), ("blocks_dropped", .number blocksDropped),
      ("txs_kept", .number txsKept), ("txs_dropped", .number txsDropped)]
  | loaded | aggregated => []
  | written path => [("path", .text path)]

/-- The notice about a record that was passed over. -/
def ofVerdict? (source : Source) (entry : Entry) : Verdict → Option Notice
  | .applied _ => none
  | .ignored => some (.ignored source entry.line entry.record.label)
  | .unrecognized => some (.unrecognized source entry.line entry.record.kind entry.record.label)
  | .missingNode => some (.missingNode source entry.line entry.record.label)

end Notice

end LedgerBench
