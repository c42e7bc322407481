import LedgerBench.Report.Basic
import LedgerBench.Report.Samples
import LedgerBench.Report.Throughput
import LedgerBench.Stats.Summary

/-!
# From a session to a report

The metrics of a report and their order. The entities come as lists; in whatever order they are
listed, the report is the same.
-/

namespace LedgerBench.Report

/-- The names of the series over transactions, in the order of the report. -/
def txSeriesNames : List String :=
  ["tx_latency", "tx_exec_time", "tx_propose_time", "tx_mining_time", "tx_verify_time"]

/-- The names of the series over blocks, in the order of the report. -/
def blockSeriesNames : List String := ["blk_tx_num", "blk_mining_time", "blk_verify_time"]

/-- The name of the metric that counts the executions on a storage node. -/
def nodeKey (node : Nat) : String := s!"storage_node_{node}_exec_tx_count"

/-- The metrics of one series; a figure that does not exist is not-a-number. -/
def seriesEntries (name : String) (metric : Float → Metric) (samples : List Float) :
    List (String × Metric) :=
  (Summary.ofSamples samples).entries.map fun (suffix, figure) =>
    (name ++ "_" ++ suffix, metric (figure.getD noValue))

/-- How the transactions have fared. -/
def successEntries (txs : List Transaction) : List (String × Metric) :=
  let counts := SuccessCounts.ofTxs txs
  [("total_tx", .count counts.total),
    ("committed_tx", .count counts.committed),
    ("conflicted_tx", .count counts.conflicted),
    ("outdated_tx", .count counts.outdated),
    ("committed_tx_percentage", .ratio (fractionOf counts.committed counts.total)),
    ("conflicted_tx_percentage", .ratio (fractionOf counts.conflicted counts.total)),
    ("outdated_tx_percentage", .ratio (fractionOf counts.outdated counts.total))]

/-- The series over transactions. -/
def txEntries (blockAt : Height → Option Block) (txs : List Transaction) : List (String × Metric) :=
  let samples := TxSamples.collect blockAt txs
  (txSeriesNames.zip [samples.latency, samples.execTime, samples.proposeTime, samples.miningTime,
    samples.verifyTime]).flatMap fun (name, series) => seriesEntries name .duration series

/-- The number of blocks and the series over them. -/
def blockEntries (blocks : List Block) : List (String × Metric) :=
  let samples := BlockSamples.collect blocks
  ("total_blocks", .count blocks.length) ::
    (blockSeriesNames.zip [(Metric.number, samples.txCount), (Metric.duration, samples.miningTime),
      (Metric.duration, samples.verifyTime)]).flatMap fun (name, metric, series) =>
        seriesEntries name metric series

/-- The executions on each storage node. -/
def nodeEntries (txs : List Transaction) : List (String × Metric) :=
  (nodeCounts txs).map fun (node, n) => (nodeKey node, .count n)

/-- All metrics in order, given the entities as lists and the blocks also by height. -/
def aggregate (reported : SendWindow) (w : Window) (blockAt : Height → Option Block)
    (txs : List Transaction) (blocks : List (Height × Block)) : List (String × Metric) :=
  successEntries txs ++ txEntries blockAt txs ++ blockEntries (blocks.map (·.2)) ++
    [("throughput", .rate (throughput blocks)),
      ("window_duration", .duration (w.start.elapsed w.stop)),
      ("tx_send_rate", .rate (sendRate reported w txs))] ++
    nodeEntries txs

/-- The report on a session that has been pruned to a window. -/
def ofSession (s : Session) (w : Window) : Report :=
  ofList (aggregate s.window w s.blockAt s.txs.values s.blocks.toList)

end LedgerBench.Report
