import LedgerBench.Ledger.Window
import LedgerBench.Stats.Scalar

/-!
# Rates

The throughput is the rate of commits between the first and the last committed block. The first
block only marks the beginning, so its transactions are not counted. The send rate is the one that
the client reported, or else the number of transactions sent over the length of the window.
-/

namespace LedgerBench

/-- Microseconds in a second. -/
def microsPerSecond : Float := 1000000.0

/-- What the throughput needs to know about a committed block. -/
structure CommittedBlock where
  /-- When the block was committed. -/
  time : Instant
  /-- The height of the block. -/
  height : Height
  /-- The number of its transactions. -/
  size : Nat
deriving Repr, DecidableEq

namespace CommittedBlock

/-- The committed ones among blocks with their heights. -/
def ofBlocks (blocks : List (Height × Block)) : List CommittedBlock :=
  blocks.filterMap fun (height, b) => b.commitTime.map fun time => ⟨time, height, b.txIds.length⟩

/-- The order of commit: by time, and by height at the same time. -/
def notAfter (a b : CommittedBlock) : Bool :=
  a.time < b.time || (a.time = b.time && a.height ≤ b.height)

/-- The number of transactions in blocks. -/
def countTxs (blocks : List CommittedBlock) : Nat := blocks.foldl (fun n b => n + b.size) 0

end CommittedBlock

/-- The committed blocks in the order of commit. -/
def commitOrder (blocks : List (Height × Block)) : List CommittedBlock :=
  (CommittedBlock.ofBlocks blocks).mergeSort CommittedBlock.notAfter

/-- The time from the first commit to the last one. -/
structure CommitSpan where
  /-- When the first block was committed. -/
  start : Instant
  /-- When the last block was committed. -/
  stop : Instant
  /-- The number of transactions in all blocks but the first. -/
  counted : Nat
deriving Repr, DecidableEq

/-- The span of commits; it takes two blocks to have one. -/
def CommitSpan.ofBlocks? (blocks : List (Height × Block)) : Option CommitSpan :=
  match commitOrder blocks with
  | first :: second :: rest =>
    some {
      start := first.time
      stop := (rest.getLastD second).time
      counted := CommittedBlock.countTxs (first :: second :: rest) - first.size }
  | _ => none

/-- Transactions per second from the first committed block to the last one. There is no throughput
with fewer than two blocks or if no time passes between them. -/
def throughput (blocks : List (Height × Block)) : Float :=
  match CommitSpan.ofBlocks? blocks with
  | none => noValue
  | some span =>
    let micros := span.start.elapsed span.stop
    if micros ≤ 0.0 then noValue
    else Float.ofNat span.counted / (micros / microsPerSecond)

/-- Transactions sent per second of a window. -/
def sendRate (reported : SendWindow) (w : Window) (txs : List Transaction) : Float :=
  match reported.reportedRate with
  | some rate => rate
  | none =>
    let seconds := w.start.elapsed w.stop / microsPerSecond
    if seconds ≤ 0.0 then noValue
    else Float.ofNat (reported.sentCount.getD (w.countSent txs)) / seconds

end LedgerBench
