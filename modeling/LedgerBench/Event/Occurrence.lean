/-!
# What a record can tell

The kind and the label of a record name one of eleven occurrences. Nodes log some labels that only
the client may be believed about.
-/

namespace LedgerBench

/-- The two kinds of record. -/
inductive RecordKind where
  /-- Something has happened at some time. -/
  | event
  /-- Something has taken some time. -/
  | time
deriving Repr, DecidableEq

/-- The kind of a name. -/
def RecordKind.ofName? : String → Option RecordKind
  | "event" => some event
  | "time" => some time
  | _ => none

/-- What a record can tell. -/
inductive Occurrence where
  /-- The client begins to send. -/
  | sendingStarted
  /-- The client has sent everything. -/
  | sendingEnded
  /-- A transaction has been sent. -/
  | txSent
  /-- A block has been committed. -/
  | blockCommitted
  /-- A transaction has failed because it came too late. -/
  | txOutdated
  /-- A transaction has failed because of a conflict. -/
  | txConflicted
  /-- A transaction has reached the proposer. -/
  | txReceived
  /-- The proposal of a block has ended. -/
  | proposalEnded
  /-- A block has been verified. -/
  | blockVerified
  /-- A block has been mined. -/
  | blockMined
  /-- A storage node has executed a transaction. -/
  | txExecuted
deriving Repr, DecidableEq

namespace Occurrence

/-- The occurrence of a kind and a label. -/
def ofLabel? : RecordKind → String → Option Occurrence
  | .event, "start-send-tx" => some sendingStarted
  | .event, "end-send-tx" => some sendingEnded
  | .event, "tx_begin" => some txSent
  | .event, "tx_commit" => some blockCommitted
  | .event, "tx_outdated" => some txOutdated
  | .event, "tx_conflict" => some txConflicted
  | .event, "blk_recv_tx" => some txReceived
  | .event, "propose_end" => some proposalEnded
  | .time, "verify_block" => some blockVerified
  | .time, "mining" => some blockMined
  | .time, "exec_time" => some txExecuted
  | _, _ => none

/-- The occurrence that a kind and a label name. -/
def ofNames? (kind label : String) : Option Occurrence :=
  (RecordKind.ofName? kind).bind fun k => ofLabel? k label

/-- Whether only the client is believed. -/
def isClientOnly : Occurrence → Bool
  | sendingStarted | sendingEnded | txSent | blockCommitted | txOutdated | txConflicted => true
  | _ => false

end Occurrence

end LedgerBench
