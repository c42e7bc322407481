import Mathlib.Algebra.BigOperators.Group.Finset.Piecewise
import Mathlib.Order.Interval.Finset.Nat
import Std.Data.String.ToNat
import LedgerBench.Proofs.Ledger.Executions
import LedgerBench.Proofs.Report.ClientMetrics
import LedgerBench.Proofs.Report.Survivors

/-!
# Executions by storage node

A report has a counter for each storage node that executed transactions. This module says which
counters there are and what they show (`analyze_attributes`): the last execution of each surviving
transaction counts, for the storage node in whose log it is recorded.

The session knows the node of each last execution (`exists_logs_of_absorb`), and counting goes by
these nodes (`mem_nodeCounts_iff`). The counters can be looked up because no two nodes share a name
(`Report.nodeKey_injective`) and no other metric has the name of a counter
(`Report.nodeKey_not_mem_fixedNames`). They add up because every survivor has one last execution or
none (`sum_countP_eq`).
-/

namespace LedgerBench

/-! ## The names of the counters -/

/-- Different nodes have counters with different names. -/
theorem Report.nodeKey_injective {node node' : Nat} (h : nodeKey node = nodeKey node') :
    node = node' := by
  have hchars := congrArg String.toList h
  simp only [nodeKey, String.toList_append] at hchars
  exact Nat.repr_injective (String.toList_injective
    (List.append_cancel_left (List.append_cancel_right hchars)))

/-! ## Counting -/

/-- Counting keys one after the other adds up how often each occurs. -/
theorem Registry.getElem?_foldl_count (keys : List Nat) (r : Registry Nat Nat) (key : Nat) :
    (keys.foldl (fun (counts : Registry Nat Nat) k => counts.update k (· + 1)) r)[key]? =
      if key ∈ keys then some (r[key]?.getD 0 + keys.count key) else r[key]? := by
  induction keys generalizing r with
  | nil => simp
  | cons k keys ih =>
    rw [List.foldl_cons, ih, getElem?_update]
    by_cases hk : k = key
    · subst hk
      have hdefault : r[k]?.getD default = r[k]?.getD 0 := rfl
      rw [if_pos rfl, if_pos List.mem_cons_self, List.count_cons_self]
      by_cases hmem : k ∈ keys
      · rw [if_pos hmem, Option.getD_some, hdefault, Nat.add_right_comm, Nat.add_assoc]
      · rw [if_neg hmem, hdefault, List.count_eq_zero_of_not_mem hmem]
    · simp [hk, Ne.symm hk]

/-- Every node has the number of transactions whose execution it measured; a node without any has no
number. -/
theorem mem_nodeCounts_iff {txs : List Transaction} {node n : Nat} :
    (node, n) ∈ nodeCounts txs ↔
      n ≠ 0 ∧ n = txs.countP fun t => t.execTime.isSome && t.execNode == some node := by
  have hnodes : (txs.filterMap fun t => if t.execTime.isSome then t.execNode else none).count node =
      txs.countP fun t => t.execTime.isSome && t.execNode == some node := by
    rw [List.count_filterMap]
    refine List.countP_congr fun t _ => ?_
    cases t.execTime.isSome <;> simp
  have hempty : (∅ : Registry Nat Nat)[node]? = none := Std.ExtTreeMap.getElem?_empty
  unfold nodeCounts
  rw [Std.ExtTreeMap.mem_toList_iff_getElem?_eq_some, Registry.getElem?_foldl_count, hempty,
    ← hnodes]
  split
  · rename_i hmem
    have hpos := List.count_pos_iff.mpr hmem
    simp
    omega
  · rename_i hmem
    have hzero := List.count_eq_zero_of_not_mem hmem
    simp
    omega

/-- Items that have one answer each, or none, are counted answer by answer. -/
theorem sum_countP_eq {α : Type} {answers : Finset Nat} {answer : α → Option Nat} {items : List α}
    (h : ∀ x ∈ items, ∀ n, answer x = some n → n ∈ answers) :
    ∑ n ∈ answers, items.countP (fun x => answer x = some n) =
      items.countP fun x => (answer x).isSome := by
  induction items with
  | nil => simp
  | cons x items ih =>
    have hone : ∑ n ∈ answers, (if answer x = some n then 1 else 0) =
        if (answer x).isSome = true then 1 else 0 := by
      cases hx : answer x with
      | none => simp
      | some n =>
        simp only [Option.some.injEq, Option.isSome_some, if_true]
        rw [Finset.sum_ite_eq, if_pos (h x (.head _) n hx)]
    simp only [List.countP_cons, decide_eq_true_eq, Finset.sum_add_distrib, hone,
      ih fun y hy => h y (.tail _ hy)]

/-! ## The counters of a report -/

namespace Report

/-- The names of the figures of a series. -/
def seriesNames (name : String) : List String :=
  ["mean", "p50", "p90", "p95"].map fun suffix => name ++ "_" ++ suffix

/-- The names of the metrics that every report has, in order. -/
def fixedNames : List String :=
  ["total_tx", "committed_tx", "conflicted_tx", "outdated_tx", "committed_tx_percentage",
    "conflicted_tx_percentage", "outdated_tx_percentage"] ++ txSeriesNames.flatMap seriesNames ++
  "total_blocks" :: blockSeriesNames.flatMap seriesNames ++
  ["throughput", "window_duration", "tx_send_rate"]

/-- The metrics of a report are those with the fixed names, and then the counters. -/
theorem exists_aggregate_eq_append (reported : SendWindow) (w : Window)
    (blockAt : Height → Option Block) (txs : List Transaction) (blocks : List (Height × Block)) :
    ∃ fixed, aggregate reported w blockAt txs blocks = fixed ++ nodeEntries txs ∧
      fixed.map (·.1) = fixedNames :=
  ⟨_, rfl, rfl⟩

/-- No fixed name is that of a counter. -/
theorem nodeKey_not_mem_fixedNames (node : Nat) : nodeKey node ∉ fixedNames := by
  have hall : ∀ name ∈ fixedNames, name.toList.head? ≠ some 's' := by decide +kernel
  exact fun h => hall _ h (head?_nodeKey node)

/-- A counter is entered for every node that executed a transaction. -/
theorem mem_aggregate_nodeKey {reported : SendWindow} {w : Window}
    {blockAt : Height → Option Block} {txs : List Transaction} {blocks : List (Height × Block)}
    {node : Nat} {m : Metric} :
    (nodeKey node, m) ∈ aggregate reported w blockAt txs blocks ↔
      ∃ n, (node, n) ∈ nodeCounts txs ∧ m = .count n := by
  obtain ⟨fixed, heq, hnames⟩ := exists_aggregate_eq_append reported w blockAt txs blocks
  rw [heq, List.mem_append]
  constructor
  · rintro (hfixed | hnode)
    · have hname := List.mem_map_of_mem (f := (·.1)) hfixed
      rw [hnames] at hname
      exact absurd hname (nodeKey_not_mem_fixedNames node)
    · obtain ⟨⟨node', n⟩, hmem, heq⟩ := List.mem_map.mp hnode
      obtain ⟨hkey, rfl⟩ := Prod.mk.inj heq
      cases nodeKey_injective hkey
      exact ⟨n, hmem, rfl⟩
  · rintro ⟨n, hmem, rfl⟩
    exact .inr (List.mem_map.mpr ⟨_, hmem, rfl⟩)

/-- The counter of a node is the number of transactions whose execution it measured; there is none
if it measured no execution. -/
theorem get?_ofSession_nodeKey {s : Session} {w : Window} {node : Nat} {m : Metric} :
    (ofSession s w).get? (nodeKey node) = some m ↔
      ∃ n, n ≠ 0 ∧ m = .count n ∧
        n = s.txs.values.countP fun t => t.execTime.isSome && t.execNode == some node := by
  unfold ofSession
  rw [get?_ofList_eq_some_iff]
  · simp only [mem_aggregate_nodeKey, mem_nodeCounts_iff]
    constructor
    · rintro ⟨n, ⟨hn, hcount⟩, hm⟩
      exact ⟨n, hn, hm, hcount⟩
    · rintro ⟨n, hn, hm, hcount⟩
      exact ⟨n, ⟨hn, hcount⟩, hm⟩
  · -- no name has two counters
    intro m' hm' m'' hm''
    obtain ⟨n', hn', rfl⟩ := mem_aggregate_nodeKey.mp hm'
    obtain ⟨n'', hn'', rfl⟩ := mem_aggregate_nodeKey.mp hm''
    rw [(mem_nodeCounts_iff.mp hn').2, (mem_nodeCounts_iff.mp hn'').2]

/-- The number that a counter shows; zero if there is none. -/
def counter (r : Report) (name : String) : Nat :=
  match r.get? name with
  | some (.count n) => n
  | _ => 0

/-- The counter of a node shows the number of transactions whose execution it measured, or there is
none and the number is zero. -/
theorem counter_ofSession_nodeKey (s : Session) (w : Window) (node : Nat) :
    (ofSession s w).counter (nodeKey node) =
      s.txs.values.countP fun t => t.execTime.isSome && t.execNode == some node := by
  unfold counter
  cases hget : (ofSession s w).get? (nodeKey node) with
  | some m =>
    obtain ⟨n, -, rfl, hcount⟩ := get?_ofSession_nodeKey.mp hget
    exact hcount
  | none =>
    by_contra hzero
    rw [get?_ofSession_nodeKey.mpr ⟨_, Ne.symm hzero, rfl, rfl⟩] at hget
    cases hget

end Report

/-! ## The executions of the survivors -/

/-- The counters of a report attribute the executions of the surviving transactions to the storage
nodes as their logs do. -/
structure Report.Attributes (report : Report) (logs : List (List Entry))
    (survivors : Registry TxId Transaction) : Prop where
  /-- A node has a counter if it is one of the storage nodes and some survivor's last execution was
  on it, and the counter is the number of these survivors. -/
  counter_iff : ∀ node m, report.get? (nodeKey node) = some m ↔
    1 ≤ node ∧ node ≤ logs.length ∧ (∃ id ∈ survivors, lastExecution logs id = some node) ∧
      m = .count (survivors.keys.countP fun id => lastExecution logs id = some node)
  /-- The counters add up to the number of survivors with an execution time. -/
  sum_counters : ∑ node ∈ Finset.Icc 1 logs.length, report.counter (nodeKey node) =
    survivors.values.countP fun t => t.execTime.isSome

/-- The survivors of the pruning can be counted under their keys, as they were recorded. -/
theorem Session.countP_values_prune (s : Session) (w : Window) (p : Transaction → Bool) :
    (s.prune w).txs.values.countP p = (s.prune w).txs.keys.countP fun id => p (s.tx id) := by
  rw [Registry.values_eq_map_toList, ← Std.ExtTreeMap.map_fst_toList_eq_keys, List.countP_map,
    List.countP_map]
  refine List.countP_congr fun e he => ?_
  have hsome := Std.ExtTreeMap.mem_toList_iff_getElem?_eq_some.mp he
  obtain ⟨-, hfind⟩ := (Registry.getElem?_keep_eq_some_iff rfl).mp hsome
  simp only [Function.comp_apply, Session.tx, hfind]

/-- A session whose last executions are those of the logs has a report whose counters attribute them
in the same way. -/
theorem attributes_ofSession_prune {s : Session} {logs : List (List Entry)}
    (hnode : ∀ id, (s.tx id).execNode = lastExecution logs id)
    (htime : ∀ id, (s.tx id).execTime.isSome = (lastExecution logs id).isSome) (w : Window) :
    (Report.ofSession (s.prune w) w).Attributes logs (s.prune w).txs := by
  have hcount : ∀ node, ((s.prune w).txs.values.countP fun t =>
      t.execTime.isSome && t.execNode == some node) =
        (s.prune w).txs.keys.countP fun id => lastExecution logs id = some node := by
    intro node
    rw [s.countP_values_prune]
    refine List.countP_congr fun id _ => ?_
    rw [hnode, htime]
    cases lastExecution logs id <;> simp
  have hsurvivor : ∀ node, (((s.prune w).txs.keys.countP fun id =>
      lastExecution logs id = some node) ≠ 0) ↔
        ∃ id ∈ (s.prune w).txs, lastExecution logs id = some node := by
    intro node
    rw [← Nat.pos_iff_ne_zero, List.countP_pos_iff]
    simp only [Std.ExtTreeMap.mem_keys, decide_eq_true_eq]
  constructor
  · intro node m
    rw [Report.get?_ofSession_nodeKey, hcount]
    constructor
    · rintro ⟨n, hn, rfl, rfl⟩
      obtain ⟨id, hid, hlast⟩ := (hsurvivor node).mp hn
      obtain ⟨hfirst, hbound⟩ := lastExecution_bounds hlast
      exact ⟨hfirst, hbound, ⟨id, hid, hlast⟩, rfl⟩
    · rintro ⟨-, -, hsome, rfl⟩
      exact ⟨_, (hsurvivor node).mpr hsome, rfl, rfl⟩
  · -- every survivor counts for the node of its last execution, if it has one
    simp only [Report.counter_ofSession_nodeKey, hcount]
    rw [sum_countP_eq fun id _ node hlast => Finset.mem_Icc.mpr (lastExecution_bounds hlast),
      s.countP_values_prune]
    exact List.countP_congr fun id _ => by rw [htime]

/-- Executions are attributed to the storage nodes that logged them last. Whenever an analysis
succeeds, the logs of the storage nodes can be read, and the report has a counter for a node exactly
if the last execution of some surviving transaction stands in its log: the number of these
transactions. So no execution in another log counts, no transaction counts twice, and the counters
add up to the number of survivors with an execution time. -/
theorem analyze_attributes {files : String → Except FileFault String} {client : String}
    {peers storages : List String} {report : Report}
    (h : (analyze (benchmarkLogs files client peers storages)).outcome = .ok report) :
    ∃ kept logs, (recorded (benchmarkLogs files client peers storages)).applyWindow = .ok kept ∧
      report = .ofSession kept.session kept.window ∧
        List.Forall₂ (ReadsAs files) storages logs ∧ report.Attributes logs kept.session.txs := by
  obtain ⟨hout, w, hw, rfl⟩ := analyze_eq_ok_iff.mp h
  obtain ⟨logs, hreads, hexec⟩ := exists_logs_of_absorb hout
  generalize hlogs : benchmarkLogs files client peers storages = inputs at hw hexec ⊢
  have hkept : (recorded inputs).applyWindow = .ok ⟨w, (recorded inputs).prune w,
      (recorded inputs).pruneNotice ((recorded inputs).prune w)⟩ :=
    Session.applyWindow_eq_ok_iff.mpr ⟨hw, rfl, rfl⟩
  exact ⟨_, logs, hkept, rfl, hreads,
    attributes_ofSession_prune (fun id => (hexec id).1) (fun id => (hexec id).2) w⟩

/-- The log of a node that executed the transaction. -/
def executionLog : List Char := Log.measuredLine "exec_time" "30" "\"tx_id\":\"a\""

/-- The entries of its log. -/
def executionEntries : List Entry := [⟨1, .measured "exec_time" 30 [("tx_id", .text "a")]⟩]

/-- The client's log and, under every other name, that of a node that executed the transaction. -/
def executedFiles (path : String) : Except FileFault String :=
  .ok (.ofList (if path = "client.log" then committedLog else executionLog))

set_option maxRecDepth 10000 in
/-- The log of a node is read. -/
theorem read_executionLog : Log.read (.ofList executionLog) = .ok executionEntries :=
  (Log.read_ofList _).trans rfl

/-- A peer and two storage nodes have logged the execution of the only survivor: the report on the
session counts it on the second storage node. -/
theorem exists_report_executed :
    ∃ s w, (analyze (benchmarkLogs executedFiles "client.log" ["peer.log"]
      ["first.log", "second.log"])).outcome = .ok (.ofSession s w) ∧
        (s.txs.values.countP fun t => t.execTime.isSome && t.execNode == some 2) = 1 := by
  have hload : (benchmarkLogs executedFiles "client.log" ["peer.log"]
      ["first.log", "second.log"]).mapM Input.load =
        .ok [⟨⟨"client.log", .client⟩, committedEntries⟩, ⟨⟨"peer.log", .peer⟩, executionEntries⟩,
          ⟨⟨"first.log", .storage 1⟩, executionEntries⟩,
          ⟨⟨"second.log", .storage 2⟩, executionEntries⟩] :=
    mapM_eq_ok.mpr (.cons load_committedLog
      (.cons (Input.load_eq_ok.mpr ⟨_, _, rfl, read_executionLog, rfl⟩)
        (.cons (Input.load_eq_ok.mpr ⟨_, _, rfl, read_executionLog, rfl⟩)
          (.cons (Input.load_eq_ok.mpr ⟨_, _, rfl, read_executionLog, rfl⟩) .nil))))
  simp only [analyze_eq_ok_iff, absorb_eq_replayAll hload]
  refine ⟨_, _, ⟨rfl, _, rfl, rfl⟩, ?_⟩
  decide +kernel

/-- The counter of the second storage node is one, and so its log is the last with the execution. -/
theorem analyze_attributes_executed :
    ∃ report logs, ∃ kept : Session, (analyze (benchmarkLogs executedFiles "client.log" ["peer.log"]
        ["first.log", "second.log"])).outcome = .ok report ∧
      report.get? (Report.nodeKey 2) = some (.count 1) ∧
      (∃ id ∈ kept.txs, lastExecution logs id = some 2) ∧ report.Attributes logs kept.txs := by
  obtain ⟨s, w, h, hone⟩ := exists_report_executed
  obtain ⟨kept, logs, -, -, -, hattributes⟩ := analyze_attributes h
  have hcounter : (Report.ofSession s w).get? (Report.nodeKey 2) = some (.count 1) :=
    Report.get?_ofSession_nodeKey.mpr ⟨1, by decide, rfl, hone.symm⟩
  obtain ⟨-, -, hsurvivor, -⟩ := (hattributes.counter_iff 2 _).mp hcounter
  exact ⟨_, logs, kept.session, h, hcounter, hsurvivor, hattributes⟩

end LedgerBench
