import Mathlib.Data.List.Basic
import LedgerBench.Report.Aggregate

/-!
# Entities that look alike in a report

Of a transaction a report reads its fate, its execution, and differences of times; of a block it
reads the number of transactions and two durations. Names, heights and points in time do not show.
`Transaction.Alike` and `Block.Alike` list what does, and `Report.aggregate_map` says that nothing
else matters: if every entity is replaced by one that looks alike, all metrics stay the same that
are not about the whole window.
-/

namespace LedgerBench

/-- Two transactions, each among the blocks of its own session, look alike in a report. -/
structure Transaction.Alike (blockAt blockAt' : Height → Option Block) (t t' : Transaction) :
    Prop where
  /-- Both are committed or neither is. -/
  isCommitted : t'.isCommitted = t.isCommitted
  /-- Both are in conflict or neither is. -/
  conflicted : t'.conflicted = t.conflicted
  /-- Both are outdated or neither is. -/
  outdated : t'.outdated = t.outdated
  /-- Their executions took the same time. -/
  execTime : t'.execTime = t.execTime
  /-- Their executions were measured by the same storage node. -/
  execNode : t'.execNode = t.execNode
  /-- They took the same time from sending to commit. -/
  latency : t'.latency? = t.latency?
  /-- They took the same time from reception to the end of the proposal. -/
  proposeTime : t'.proposeTime? blockAt' = t.proposeTime? blockAt
  /-- Their blocks have the same mining time. -/
  miningTime : t'.miningTime? blockAt' = t.miningTime? blockAt
  /-- Their blocks have the same verification time. -/
  verifyTime : t'.verifyTime? blockAt' = t.verifyTime? blockAt

/-- Two blocks look alike in a report. -/
structure Block.Alike (b b' : Block) : Prop where
  /-- They have as many transactions. -/
  txCount : b'.txIds.length = b.txIds.length
  /-- They have the same mining time. -/
  miningTime : b'.miningTime = b.miningTime
  /-- They have the same verification time. -/
  verifyTime : b'.verifyTime = b.verifyTime

section Alike

variable {blockAt blockAt' : Height → Option Block} {txs : List Transaction}
  {tx : Transaction → Transaction}

/-- Transactions that look alike have fared alike. -/
theorem SuccessCounts.ofTxs_map (h : ∀ t ∈ txs, t.Alike blockAt blockAt' (tx t)) :
    ofTxs (txs.map tx) = ofTxs txs := by
  unfold ofTxs
  simp only [List.length_map, List.countP_map]
  congr 1
  · exact List.countP_congr fun t ht => by simp only [Function.comp_apply, (h t ht).isCommitted]
  · exact List.countP_congr fun t ht => by simp only [Function.comp_apply, (h t ht).conflicted]
  · exact List.countP_congr fun t ht => by simp only [Function.comp_apply, (h t ht).outdated]

/-- Transactions that look alike have the same samples. -/
theorem TxSamples.collect_map (h : ∀ t ∈ txs, t.Alike blockAt blockAt' (tx t)) :
    collect blockAt' (txs.map tx) = collect blockAt txs := by
  have hcommitted : (txs.map tx).filter Transaction.isCommitted =
      (txs.filter Transaction.isCommitted).map tx := by
    rw [List.filter_map]
    exact congrArg _ (List.filter_congr fun t ht => (h t ht).isCommitted)
  have halike : ∀ t ∈ txs.filter Transaction.isCommitted, t.Alike blockAt blockAt' (tx t) :=
    fun t ht => h t (List.mem_of_mem_filter ht)
  unfold collect
  dsimp only
  rw [hcommitted]
  simp only [List.filterMap_map, List.map_map]
  congr 1
  · exact List.filterMap_congr fun t ht => (halike t ht).latency
  · exact List.map_congr_left fun t ht => congrArg (·.getD 0.0) (halike t ht).execTime
  · exact List.filterMap_congr fun t ht => (halike t ht).proposeTime
  · exact List.map_congr_left fun t ht => congrArg (·.getD 0.0) (halike t ht).miningTime
  · exact List.filterMap_congr fun t ht => (halike t ht).verifyTime

/-- Transactions that look alike were executed on the same nodes. -/
theorem nodeCounts_map (h : ∀ t ∈ txs, t.Alike blockAt blockAt' (tx t)) :
    nodeCounts (txs.map tx) = nodeCounts txs := by
  unfold nodeCounts
  rw [List.filterMap_map]
  have hnodes : txs.filterMap ((fun t => if t.execTime.isSome then t.execNode else none) ∘ tx) =
      txs.filterMap fun t => if t.execTime.isSome then t.execNode else none :=
    List.filterMap_congr fun t ht => by
      simp only [Function.comp_apply, (h t ht).execTime, (h t ht).execNode]
  rw [hnodes]

/-- Blocks that look alike have the same samples. -/
theorem BlockSamples.collect_map {blocks : List Block} {block : Block → Block}
    (h : ∀ b ∈ blocks, b.Alike (block b)) : collect (blocks.map block) = collect blocks := by
  unfold collect
  simp only [List.map_map, List.filterMap_map]
  congr 1
  · exact List.map_congr_left fun b hb => congrArg Float.ofNat (h b hb).txCount
  · exact List.map_congr_left fun b hb => congrArg (·.getD 0.0) (h b hb).miningTime
  · exact List.filterMap_congr fun b hb => (h b hb).verifyTime

/-- All metrics are the same of entities that look alike, if the blocks have the same throughput and
the windows the same length and send rate. -/
theorem Report.aggregate_map {reported reported' : SendWindow} {w w' : Window}
    {blocks : List (Height × Block)} (height : Height → Height) (block : Block → Block)
    (htxs : ∀ t ∈ txs, t.Alike blockAt blockAt' (tx t)) (hblocks : ∀ b : Block, b.Alike (block b))
    (hthroughput : throughput (blocks.map fun e => (height e.1, block e.2)) = throughput blocks)
    (hduration : w'.start.elapsed w'.stop = w.start.elapsed w.stop)
    (hrate : sendRate reported' w' (txs.map tx) = sendRate reported w txs) :
    aggregate reported' w' blockAt' (txs.map tx) (blocks.map fun e => (height e.1, block e.2)) =
      aggregate reported w blockAt txs blocks := by
  have hlist : (blocks.map fun e => (height e.1, block e.2)).map (·.2) =
      (blocks.map (·.2)).map block := by
    rw [List.map_map, List.map_map]
    rfl
  unfold aggregate successEntries txEntries blockEntries nodeEntries
  rw [hlist, SuccessCounts.ofTxs_map htxs, TxSamples.collect_map htxs,
    BlockSamples.collect_map fun b _ => hblocks b, List.length_map, hthroughput, hduration, hrate,
    nodeCounts_map htxs]

end Alike

end LedgerBench
