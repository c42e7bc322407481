import LedgerBench.Ledger.Entity

/-!
# What the records of a benchmark add up to

A session holds everything that accepted records have told. Each effect writes fields of one entity;
a commit also writes to the transactions of its block.
-/

namespace LedgerBench

/-- The send window as the client reported it. -/
structure SendWindow where
  /-- When the client began to send. -/
  start : Option Instant := none
  /-- When the client had sent everything. -/
  stop : Option Instant := none
  /-- The send rate that the client reported, in transactions per second. -/
  reportedRate : Option Float := none
  /-- The number of transactions sent inside the window, counted before any is dropped. -/
  sentCount : Option Nat := none
deriving DecidableEq

/-- Everything that has been recorded. -/
structure Session where
  /-- The blocks by height. -/
  blocks : Registry Height Block := ∅
  /-- The transactions by name. -/
  txs : Registry TxId Transaction := ∅
  /-- The send window. -/
  window : SendWindow := {}

namespace Session

/-- The session before any record. -/
def empty : Session := {}

instance : EmptyCollection Session := ⟨empty⟩

/-- Changes a transaction. -/
def updateTx (s : Session) (id : TxId) (f : Transaction → Transaction) : Session :=
  { s with txs := s.txs.update id f }

/-- Changes a block. -/
def updateBlock (s : Session) (height : Height) (f : Block → Block) : Session :=
  { s with blocks := s.blocks.update height f }

/-- Marks transactions as committed. -/
def commitTxs (s : Session) (height : Height) (time : Instant) (ids : List TxId) : Session :=
  ids.foldl
    (fun s id => s.updateTx id fun t => { t with height := some height, commitTime := some time }) s

/-- Carries out the effect of a record. -/
def apply (s : Session) : Effect → Session
  | .openWindow time => { s with window := { s.window with start := some time } }
  | .closeWindow time rate =>
    { s with window := { s.window with stop := some time, reportedRate := rate } }
  | .send id time => s.updateTx id fun t => { t with sendTime := some time }
  | .commit height time ids =>
    (s.commitTxs height time ids).updateBlock height fun b =>
      { b with commitTime := some time, txIds := ids }
  | .outdate id => s.updateTx id fun t => { t with outdated := true }
  | .conflict id => s.updateTx id fun t => { t with conflicted := true }
  | .receive id time => s.updateTx id fun t => { t with receiveTime := some time }
  | .endProposal height time => s.updateBlock height fun b => { b with proposeEnd := some time }
  | .verify height us => s.updateBlock height fun b => { b with verifyTime := some us }
  | .mine height us => s.updateBlock height fun b => { b with miningTime := some us }
  | .execute id us node =>
    s.updateTx id fun t => { t with execTime := some us, execNode := some node }

/-- Carries out effects one after the other. -/
def applyAll (s : Session) (effects : List Effect) : Session := effects.foldl apply s

/-- Effects in two parts are carried out one part after the other. -/
theorem applyAll_append (s : Session) (a b : List Effect) :
    s.applyAll (a ++ b) = (s.applyAll a).applyAll b := List.foldl_append

/-- What a verdict changes. -/
def settle (s : Session) : Verdict → Session
  | .applied effect => s.apply effect
  | _ => s

/-- The block at a height. -/
def blockAt (s : Session) (height : Height) : Option Block := s.blocks[height]?

end Session

end LedgerBench
