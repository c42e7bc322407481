import LedgerBench.Ledger.Entity
import LedgerBench.Stats.Scalar

/-!
# Samples and counts

The series of which a report gives the figures. Transactions contribute to the series only when they
have been committed. Samples stand in the order in which the entities are listed; no figure depends
on that order.
-/

namespace LedgerBench

/-- How transactions have fared. -/
structure SuccessCounts where
  /-- The number of transactions. -/
  total : Nat
  /-- The number of committed ones. -/
  committed : Nat
  /-- The number of those in conflict. -/
  conflicted : Nat
  /-- The number of outdated ones. -/
  outdated : Nat
deriving Repr, DecidableEq

/-- Counts how transactions have fared. -/
def SuccessCounts.ofTxs (txs : List Transaction) : SuccessCounts where
  total := txs.length
  committed := txs.countP Transaction.isCommitted
  conflicted := txs.countP Transaction.conflicted
  outdated := txs.countP Transaction.outdated

/-- A count as a fraction of a total; there is none of an empty total. -/
def fractionOf (n total : Nat) : Float :=
  if total = 0 then noValue else Float.ofNat n / Float.ofNat total

/-- The series over committed transactions, in microseconds. -/
structure TxSamples where
  /-- The times from sending to commit. -/
  latency : List Float
  /-- The execution times; zero where none was measured. -/
  execTime : List Float
  /-- The times from reception to the end of the proposal. -/
  proposeTime : List Float
  /-- The mining times of the blocks; zero where none was measured. -/
  miningTime : List Float
  /-- The verification times of the blocks. -/
  verifyTime : List Float

/-- Collects the series of transactions, given the blocks by height. -/
def TxSamples.collect (blockAt : Height → Option Block) (txs : List Transaction) : TxSamples :=
  let committed := txs.filter Transaction.isCommitted
  { latency := committed.filterMap fun t => t.latency?
    execTime := committed.map fun t => t.execTime.getD 0.0
    proposeTime := committed.filterMap fun t => t.proposeTime? blockAt
    miningTime := committed.map fun t => (t.miningTime? blockAt).getD 0.0
    verifyTime := committed.filterMap fun t => t.verifyTime? blockAt }

/-- The series over blocks. -/
structure BlockSamples where
  /-- The numbers of transactions. -/
  txCount : List Float
  /-- The mining times in microseconds; zero where none was measured. -/
  miningTime : List Float
  /-- The verification times in microseconds. -/
  verifyTime : List Float

/-- Collects the series of blocks. -/
def BlockSamples.collect (blocks : List Block) : BlockSamples where
  txCount := blocks.map fun b => Float.ofNat b.txIds.length
  miningTime := blocks.map fun b => b.miningTime.getD 0.0
  verifyTime := blocks.filterMap fun b => b.verifyTime

/-- How many executions each storage node measured, by ascending number of the node. -/
def nodeCounts (txs : List Transaction) : List (Nat × Nat) :=
  let nodes := txs.filterMap fun t => if t.execTime.isSome then t.execNode else none
  (nodes.foldl (fun (counts : Registry Nat Nat) node => counts.update node (· + 1)) ∅).toList

end LedgerBench
