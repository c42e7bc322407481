import LedgerBench.Event.Occurrence
import LedgerBench.Event.Record
import LedgerBench.Event.Source
import LedgerBench.Json.Printer
import LedgerBench.Time.Timestamp

/-!
# What becomes of a record

A record is judged by itself and by the role of its stream, never by what was recorded before. If it
is accepted, its effect says all that it changes. If a field that it needs cannot be used, the first
such field is the fault.
-/

namespace LedgerBench

/-- The name of a transaction. -/
abbrev TxId := String

/-- The height of a block. -/
abbrev Height := Nat

/-- What an accepted record changes. -/
inductive Effect where
  /-- The send window opens. -/
  | openWindow (time : Instant)
  /-- The send window closes; the client may report its send rate. -/
  | closeWindow (time : Instant) (rate : Option Float)
  /-- A transaction is sent. -/
  | send (id : TxId) (time : Instant)
  /-- A block with these transactions is committed. -/
  | commit (height : Height) (time : Instant) (ids : List TxId)
  /-- A transaction is outdated. -/
  | outdate (id : TxId)
  /-- A transaction is in conflict. -/
  | conflict (id : TxId)
  /-- A transaction reaches the proposer. -/
  | receive (id : TxId) (time : Instant)
  /-- The proposal of a block ends. -/
  | endProposal (height : Height) (time : Instant)
  /-- The verification of a block took so many microseconds. -/
  | verify (height : Height) (us : Float)
  /-- The mining of a block took so many microseconds. -/
  | mine (height : Height) (us : Float)
  /-- The execution of a transaction on a storage node took so many microseconds. -/
  | execute (id : TxId) (us : Float) (node : Nat)
deriving DecidableEq

/-- What becomes of a record. -/
inductive Verdict where
  /-- It is accepted. -/
  | applied (effect : Effect)
  /-- It is known, but the role of its stream is not believed about it. -/
  | ignored
  /-- Its kind or label is unknown. -/
  | unrecognized
  /-- It tells of an execution, but its stream is no storage node's. -/
  | missingNode
deriving DecidableEq

/-- Why a record cannot be used. -/
inductive RecordFault where
  /-- An event without a time. -/
  | noTimestamp (label : String)
  /-- The time of an event is no string. -/
  | timestampNotText (label : String) (value : Json)
  /-- The time of an event cannot be read. -/
  | badTimestamp (text : String) (cause : TimestampFault)
  /-- A measurement without a duration. -/
  | noDuration (label : String)
  /-- The duration of a measurement is no number. -/
  | durationNotNumber (label : String) (value : Json)
  /-- There is no usable name of a transaction. -/
  | noTxId
  /-- There is no usable height of a block. -/
  | noHeight
  /-- There is no list of transactions. -/
  | noTxIds
  /-- An item of the list of transactions is no name. -/
  | badTxId (value : Json)

/-- The text of a timestamp's fault, without its cause. -/
def badTimestampMessage (text : String) : String := "invalid timestamp '" ++ text ++ "'"

/-- The text of a fault, without its cause. -/
def RecordFault.message : RecordFault → String
  | noTimestamp label => "'" ++ label ++ "' event has no ts"
  | timestampNotText label v => "'" ++ label ++ "' event has a non-string ts: " ++ v.compact
  | badTimestamp text _ => badTimestampMessage text
  | noDuration label => "'" ++ label ++ "' time record has no t_in_us"
  | durationNotNumber label v =>
    "'" ++ label ++ "' time record has a non-numeric t_in_us: " ++ v.compact
  | noTxId => "payload has no tx_id"
  | noHeight => "payload has no numeric height"
  | noTxIds => "payload has no tx_ids array"
  | badTxId v => "invalid entry in tx_ids: " ++ v.compact

/-- The name that a value gives to a transaction: a string as it is, a number by its JSON text. -/
def TxId.ofJson? : Json → Option TxId
  | .text s => some s
  | .number n => some (String.ofList n.characters)
  | _ => none

namespace Record

/-- When the event of a record happened. -/
def instant (r : Record) : Except RecordFault Instant :=
  match r.timestamp with
  | none => .error (.noTimestamp r.label)
  | some (.text s) =>
    match Timestamp.read s with
    | .ok t => .ok t
    | .error cause => .error (.badTimestamp s cause)
  | some v => .error (.timestampNotText r.label v)

/-- The duration that a record has measured, in microseconds. -/
def micros (r : Record) : Except RecordFault Float :=
  match r.duration with
  | none => .error (.noDuration r.label)
  | some (.number n) => .ok n.toFloat
  | some v => .error (.durationNotNumber r.label v)

/-- The transaction that a record is about. -/
def txId (r : Record) : Except RecordFault TxId :=
  match (r.payload.get? "tx_id").bind TxId.ofJson? with
  | some id => .ok id
  | none => .error .noTxId

/-- The height of the block that a record is about. -/
def height (r : Record) : Except RecordFault Height :=
  match r.payload.get? "height" with
  | some (.number n) =>
    match n.toNat? with
    | some h => .ok h
    | none => .error .noHeight
  | _ => .error .noHeight

/-- The transaction that an item of a list names. -/
def itemTxId (v : Json) : Except RecordFault TxId :=
  match TxId.ofJson? v with
  | some id => .ok id
  | none => .error (.badTxId v)

/-- The transactions of the block that a record is about. -/
def txIds (r : Record) : Except RecordFault (List TxId) :=
  match r.payload.get? "tx_ids" with
  | some (.array items) => items.mapM itemTxId
  | _ => .error .noTxIds

/-- The send rate that a record reports. -/
def rate? (r : Record) : Option Float :=
  match r.payload.get? "rate" with
  | some (.number n) => some n.toFloat
  | _ => none

/-- The effect of an occurrence on a stream whose role is believed about it. -/
def effect (r : Record) (role : Role) : Occurrence → Except RecordFault Verdict
  | .sendingStarted => do return .applied (.openWindow (← r.instant))
  | .sendingEnded => do return .applied (.closeWindow (← r.instant) r.rate?)
  | .txSent => do
    let t ← r.instant
    return .applied (.send (← r.txId) t)
  | .blockCommitted => do
    let t ← r.instant
    let h ← r.height
    return .applied (.commit h t (← r.txIds))
  | .txOutdated => do return .applied (.outdate (← r.txId))
  | .txConflicted => do return .applied (.conflict (← r.txId))
  | .txReceived => do
    let t ← r.instant
    return .applied (.receive (← r.txId) t)
  | .proposalEnded => do
    let t ← r.instant
    return .applied (.endProposal (← r.height) t)
  | .blockVerified => do
    let us ← r.micros
    return .applied (.verify (← r.height) us)
  | .blockMined => do
    let us ← r.micros
    return .applied (.mine (← r.height) us)
  | .txExecuted =>
    match role.node? with
    | none => .ok .missingNode
    | some node => do
      let us ← r.micros
      return .applied (.execute (← r.txId) us node)

/-- Judges a record of a stream with the given role. -/
def judge (role : Role) (r : Record) : Except RecordFault Verdict :=
  match Occurrence.ofNames? r.kind r.label with
  | none => .ok .unrecognized
  | some occurrence =>
    if occurrence.isClientOnly && !role.isClient then .ok .ignored
    else r.effect role occurrence

end Record

end LedgerBench
