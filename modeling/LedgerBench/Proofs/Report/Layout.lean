import Mathlib.Data.Finset.Sort
import LedgerBench.Proofs.Report.Attribution

/-!
# The layout of a report

Every report has the same names in the same order, and behind them the counters of the storage nodes
by ascending number (`ofSession_layout`). A report is drawn up by entering its metrics one after the
other, and a metric that is entered under the name of an earlier one would replace it without a
word. This never happens: the fixed names are all different, no two nodes share the name of their
counter (`nodeKey_injective`), and no counter has a fixed name (`nodeKey_not_mem_fixedNames`).

The nodes are counted in a registry, which lists them in ascending order and each of them once
(`map_fst_nodeCounts`).
-/

namespace LedgerBench

/-- The storage nodes that executed transactions: the nodes of those with an execution time. -/
def executingNodes (txs : List Transaction) : Finset ℕ :=
  (txs.filterMap fun t => if t.execTime.isSome then t.execNode else none).toFinset

/-- A node executed transactions if it is the node of one with an execution time. -/
theorem mem_executingNodes {txs : List Transaction} {node : ℕ} :
    node ∈ executingNodes txs ↔ ∃ t ∈ txs, t.execTime.isSome = true ∧ t.execNode = some node := by
  unfold executingNodes
  rw [List.mem_toFinset, List.mem_filterMap]
  simp only [Option.ite_none_right_eq_some]

/-- These are the nodes with a positive number of executions. -/
theorem countP_pos_iff_mem_executingNodes {txs : List Transaction} {node : ℕ} :
    0 < txs.countP (fun t => t.execTime.isSome && t.execNode == some node) ↔
      node ∈ executingNodes txs := by
  rw [mem_executingNodes, List.countP_pos_iff]
  simp only [Bool.and_eq_true, beq_iff_eq]

/-- The executions are counted for the nodes that executed transactions, in ascending order. -/
theorem map_fst_nodeCounts (txs : List Transaction) :
    (nodeCounts txs).map (·.1) = (executingNodes txs).sort (· ≤ ·) := by
  have hascending : ((nodeCounts txs).map (·.1)).Pairwise (· < ·) := by
    unfold nodeCounts
    dsimp only
    rw [Std.ExtTreeMap.map_fst_toList_eq_keys]
    exact Std.ExtTreeMap.ordered_keys.imp fun hlt => Nat.compare_eq_lt.mp hlt
  have hnodes : ((nodeCounts txs).map (·.1)).toFinset = executingNodes txs := by
    ext node
    rw [List.mem_toFinset, List.mem_map, ← countP_pos_iff_mem_executingNodes]
    constructor
    · rintro ⟨⟨node', n⟩, hmem, rfl⟩
      obtain ⟨hn, hcount⟩ := mem_nodeCounts_iff.mp hmem
      exact hcount ▸ Nat.pos_of_ne_zero hn
    · exact fun hpos => ⟨(node, _), mem_nodeCounts_iff.mpr ⟨hpos.ne', rfl⟩, rfl⟩
  rw [← hnodes]
  exact ((List.toFinset_sort (· ≤ ·) (hascending.imp Nat.ne_of_lt)).mpr
    (hascending.imp Nat.le_of_lt)).symm

namespace Report

/-- The counters are entered under the names of these nodes. -/
theorem map_fst_nodeEntries (txs : List Transaction) :
    (nodeEntries txs).map (·.1) = ((executingNodes txs).sort (· ≤ ·)).map nodeKey := by
  rw [← map_fst_nodeCounts, nodeEntries, List.map_map, List.map_map]
  rfl

/-- The metrics are entered under the fixed names first, and then under those of the nodes. -/
theorem map_fst_aggregate (reported : SendWindow) (w : Window) (blockAt : Height → Option Block)
    (txs : List Transaction) (blocks : List (Height × Block)) :
    (aggregate reported w blockAt txs blocks).map (·.1) =
      fixedNames ++ ((executingNodes txs).sort (· ≤ ·)).map nodeKey := by
  obtain ⟨fixed, heq, hnames⟩ := exists_aggregate_eq_append reported w blockAt txs blocks
  rw [heq, List.map_append, hnames, map_fst_nodeEntries]

/-- The fixed names and the names of the counters of different nodes are all different. -/
theorem nodup_names {nodes : List ℕ} (h : nodes.Nodup) :
    (fixedNames ++ nodes.map nodeKey).Nodup := by
  have hfixed : fixedNames.Nodup := by decide +kernel
  have hcounters : (nodes.map nodeKey).Nodup := h.map fun _ _ => nodeKey_injective
  refine hfixed.append hcounters fun name hname hcounter => ?_
  obtain ⟨node, -, rfl⟩ := List.mem_map.mp hcounter
  exact nodeKey_not_mem_fixedNames node hname

/-- How a report is laid out that results from entering metrics one after the other, given the
storage nodes that executed transactions. -/
structure LaidOut (r : Report) (entered : List (String × Metric)) (nodes : Finset ℕ) : Prop where
  /-- The names in order: those that every report has, and then those of the nodes' counters by
  ascending number. -/
  keys : r.keys = fixedNames ++ (nodes.sort (· ≤ ·)).map nodeKey
  /-- No name occurs twice. -/
  nodup : r.keys.Nodup
  /-- Each metric is entered under a name that has none yet. -/
  fresh : ∀ before e after, entered = before ++ e :: after → (ofList before).get? e.1 = none
  /-- So the entries are what has been entered. -/
  entries : r.entries = entered
  /-- There is one metric for each of the forty-three fixed names and for each node. -/
  size : r.size = 43 + nodes.card
  /-- The counter of each node shows at least one execution. -/
  counter : ∀ node ∈ nodes, ∃ n, r.get? (nodeKey node) = some (.count n) ∧ 1 ≤ n

/-- The layout of a report is fixed by the storage nodes that executed transactions. For every
session and window these are the nodes of the transactions with an execution time; the report has
the forty-three fixed names in order and a counter for each of the nodes by ascending number. No
name occurs twice, and no metric replaces an earlier one while the report is drawn up. -/
theorem ofSession_layout (s : Session) (w : Window) :
    ∃ nodes : Finset ℕ,
      (∀ node, node ∈ nodes ↔
        ∃ t ∈ s.txs.values, t.execTime.isSome = true ∧ t.execNode = some node) ∧
      (ofSession s w).LaidOut (aggregate s.window w s.blockAt s.txs.values s.blocks.toList)
        nodes := by
  have hnames := map_fst_aggregate s.window w s.blockAt s.txs.values s.blocks.toList
  have hnodup := nodup_names (Finset.sort_nodup (executingNodes s.txs.values) (· ≤ ·))
  rw [← hnames] at hnodup
  have hentries : (ofSession s w).entries =
      aggregate s.window w s.blockAt s.txs.values s.blocks.toList := entries_ofList hnodup
  have hkeys : (ofSession s w).keys =
      fixedNames ++ ((executingNodes s.txs.values).sort (· ≤ ·)).map nodeKey := by
    rw [← hnames, keys, hentries]
  refine ⟨executingNodes s.txs.values, fun _ => mem_executingNodes, hkeys, ?_, ?_, hentries, ?_, ?_⟩
  · rwa [hkeys, ← hnames]
  · intro before e after heq
    rw [heq, List.map_append, List.map_cons] at hnodup
    obtain ⟨hbefore, -, hnew⟩ := List.nodup_append.mp hnodup
    rw [get?_eq_none_iff, keys, entries_ofList hbefore]
    exact fun hmem => hnew e.1 hmem e.1 List.mem_cons_self rfl
  · have hlength := congrArg List.length hkeys
    rw [List.length_append, List.length_map, Finset.length_sort] at hlength
    rw [size, ← List.length_map (f := (·.1))]
    exact hlength
  · intro node hnode
    have hpos := countP_pos_iff_mem_executingNodes.mpr hnode
    exact ⟨_, get?_ofSession_nodeKey.mpr ⟨_, hpos.ne', rfl, rfl⟩, hpos⟩

/-- The fixed names, spelt out. -/
example : fixedNames =
    ["total_tx", "committed_tx", "conflicted_tx", "outdated_tx", "committed_tx_percentage",
      "conflicted_tx_percentage", "outdated_tx_percentage",
      "tx_latency_mean", "tx_latency_p50", "tx_latency_p90", "tx_latency_p95",
      "tx_exec_time_mean", "tx_exec_time_p50", "tx_exec_time_p90", "tx_exec_time_p95",
      "tx_propose_time_mean", "tx_propose_time_p50", "tx_propose_time_p90", "tx_propose_time_p95",
      "tx_mining_time_mean", "tx_mining_time_p50", "tx_mining_time_p90", "tx_mining_time_p95",
      "tx_verify_time_mean", "tx_verify_time_p50", "tx_verify_time_p90", "tx_verify_time_p95",
      "total_blocks", "blk_tx_num_mean", "blk_tx_num_p50", "blk_tx_num_p90", "blk_tx_num_p95",
      "blk_mining_time_mean", "blk_mining_time_p50", "blk_mining_time_p90", "blk_mining_time_p95",
      "blk_verify_time_mean", "blk_verify_time_p50", "blk_verify_time_p90", "blk_verify_time_p95",
      "throughput", "window_duration", "tx_send_rate"] := by decide +kernel

end Report

end LedgerBench
