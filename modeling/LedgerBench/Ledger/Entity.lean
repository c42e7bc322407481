import LedgerBench.Event.Verdict
import LedgerBench.Ledger.Registry

/-!
# Transactions and blocks

What has been recorded about a transaction and about a block, and the times that follow from it. All
fields are empty until a record fills them.
-/

namespace LedgerBench

/-- What is known about a block. -/
structure Block where
  /-- When the block was committed. -/
  commitTime : Option Instant := none
  /-- The transactions of the block in order; a name may occur more than once. -/
  txIds : List TxId := []
  /-- How long mining took, in microseconds. -/
  miningTime : Option Float := none
  /-- How long verification took, in microseconds. -/
  verifyTime : Option Float := none
  /-- When the proposal of the block ended. -/
  proposeEnd : Option Instant := none
deriving DecidableEq

instance : Inhabited Block := ⟨{}⟩

/-- What is known about a transaction. -/
structure Transaction where
  /-- The height of the block in which the transaction was committed. -/
  height : Option Height := none
  /-- When the client sent the transaction. -/
  sendTime : Option Instant := none
  /-- When the proposer received the transaction. -/
  receiveTime : Option Instant := none
  /-- When the transaction was committed. -/
  commitTime : Option Instant := none
  /-- How long execution took, in microseconds. -/
  execTime : Option Float := none
  /-- The storage node that measured the execution. -/
  execNode : Option Nat := none
  /-- Whether the transaction failed because it came too late. -/
  outdated : Bool := false
  /-- Whether the transaction failed because of a conflict. -/
  conflicted : Bool := false
deriving DecidableEq

instance : Inhabited Transaction := ⟨{}⟩

namespace Transaction

/-- Whether the transaction has been committed. -/
def isCommitted (t : Transaction) : Bool := t.commitTime.isSome

/-- Whether the fate of the transaction is known. -/
def isResolved (t : Transaction) : Bool := t.isCommitted || t.outdated || t.conflicted

/-- The time from sending to commit, in microseconds. -/
def latency? (t : Transaction) : Option Float := do
  let sent ← t.sendTime
  let committed ← t.commitTime
  return sent.elapsed committed

/-- The block of the transaction, given the blocks by height. -/
def block? (t : Transaction) (blockAt : Height → Option Block) : Option Block :=
  t.height.bind blockAt

/-- The time from the reception of the transaction to the end of its block's proposal, in
microseconds. -/
def proposeTime? (t : Transaction) (blockAt : Height → Option Block) : Option Float := do
  let block ← t.block? blockAt
  let received ← t.receiveTime
  let ended ← block.proposeEnd
  return received.elapsed ended

/-- The mining time of the transaction's block. -/
def miningTime? (t : Transaction) (blockAt : Height → Option Block) : Option Float :=
  (t.block? blockAt).bind Block.miningTime

/-- The verification time of the transaction's block. -/
def verifyTime? (t : Transaction) (blockAt : Height → Option Block) : Option Float :=
  (t.block? blockAt).bind Block.verifyTime

end Transaction

end LedgerBench
