import LedgerBench.Proofs.Ledger.ClientPart
import LedgerBench.Proofs.Report.Lookup

/-!
# Metrics that are the client's own

The peers and the storage nodes measure times, and some metrics are made of these. All others
(`clientMetrics`) belong to the client: `analyze_clientMetrics` shows that two analyses of one
client's log agree in them, whatever the logs of the nodes say and however many there are.

The two sessions agree in the client's part (`SameClientPart`). Whether an entity survives the
pruning depends on this part alone, and an entity that only nodes have told of is empty in it, so
the pruned sessions have the same keys, with the same client's part under each
(`SameClientPart.txs_prune`, `SameClientPart.blocks_prune`). The client's metrics are entered from
nothing else (`clientEntries_clientPart`), and the nodes' metrics go by other names
(`filter_aggregate`).
-/

namespace LedgerBench

/-- The metrics that depend on nothing but the client's log. -/
def clientMetrics : List String :=
  ["total_tx", "committed_tx", "conflicted_tx", "outdated_tx", "committed_tx_percentage",
    "conflicted_tx_percentage", "outdated_tx_percentage", "tx_latency_mean", "tx_latency_p50",
    "tx_latency_p90", "tx_latency_p95", "total_blocks", "blk_tx_num_mean", "blk_tx_num_p50",
    "blk_tx_num_p90", "blk_tx_num_p95", "throughput", "window_duration", "tx_send_rate"]

/-- The entries of the client's metrics, given the entities as lists. -/
def clientEntries (reported : SendWindow) (w : Window) (txs : List Transaction)
    (blocks : List (Height × Block)) : List (String × Metric) :=
  Report.successEntries txs ++
    Report.seriesEntries "tx_latency" .duration
      ((txs.filter Transaction.isCommitted).filterMap Transaction.latency?) ++
    ("total_blocks", .count blocks.length) ::
      Report.seriesEntries "blk_tx_num" .number
        (blocks.map fun e => Float.ofNat e.2.txIds.length) ++
    [("throughput", .rate (throughput blocks)),
      ("window_duration", .duration (w.start.elapsed w.stop)),
      ("tx_send_rate", .rate (sendRate reported w txs))]

/-! ## The nodes' metrics go by other names -/

/-- The client's metrics are entered under their names. -/
theorem map_fst_clientEntries (reported : SendWindow) (w : Window) (txs : List Transaction)
    (blocks : List (Height × Block)) :
    (clientEntries reported w txs blocks).map (·.1) = clientMetrics := rfl

/-- The name of a count of executions begins with this letter. -/
theorem Report.head?_nodeKey (node : Nat) : (nodeKey node).toList.head? = some 's' := by
  simp only [nodeKey, String.toList_append, List.head?_append]
  rfl

/-- The count of a storage node's executions is no metric of the client. -/
theorem nodeKey_not_mem_clientMetrics (node : Nat) : Report.nodeKey node ∉ clientMetrics := by
  have hall : ∀ name ∈ clientMetrics, name.toList.head? ≠ some 's' := by decide
  exact fun h => hall _ h (Report.head?_nodeKey node)

/-- No metric of the client counts executions. -/
theorem filter_nodeEntries (txs : List Transaction) :
    ((Report.nodeEntries txs).filter fun e => e.1 ∈ clientMetrics) = [] := by
  rw [List.filter_eq_nil_iff]
  intro e he
  obtain ⟨⟨node, n⟩, -, rfl⟩ := List.mem_map.mp he
  simpa using nodeKey_not_mem_clientMetrics node

/-- Among all entries of a report those with the client's names are the client's entries. -/
theorem filter_aggregate (reported : SendWindow) (w : Window) (blockAt : Height → Option Block)
    (txs : List Transaction) (blocks : List (Height × Block)) :
    ((Report.aggregate reported w blockAt txs blocks).filter fun e => e.1 ∈ clientMetrics) =
      clientEntries reported w txs blocks := by
  have hlength : (blocks.map (·.2)).length = blocks.length := List.length_map _
  have hcount : (BlockSamples.collect (blocks.map (·.2))).txCount =
      blocks.map fun e => Float.ofNat e.2.txIds.length := List.map_map
  unfold Report.aggregate Report.blockEntries
  dsimp only
  rw [List.filter_append, filter_nodeEntries, List.append_nil, hlength, hcount]
  -- all other names are fixed, so that the filter can be computed
  rfl

/-- The client's metrics of a session can be looked up among the client's entries. -/
theorem get?_ofSession (s : Session) (w : Window) {name : String} (h : name ∈ clientMetrics) :
    (Report.ofSession s w).get? name =
      (Report.ofList (clientEntries s.window w s.txs.values s.blocks.toList)).get? name := by
  have hentries : ((Report.aggregate s.window w s.blockAt s.txs.values s.blocks.toList).filter
      fun e => e.1 ∈ clientMetrics) =
        (clientEntries s.window w s.txs.values s.blocks.toList).filter
          fun e => e.1 ∈ clientMetrics := by
    rw [filter_aggregate]
    rfl
  exact Report.get?_ofList_congr hentries h

/-- Every session has all metrics of the client. -/
theorem exists_get?_ofSession (s : Session) (w : Window) {name : String}
    (h : name ∈ clientMetrics) : ∃ m, (Report.ofSession s w).get? name = some m := by
  rw [get?_ofSession s w h]
  apply Report.exists_get?_ofList
  rw [map_fst_clientEntries]
  exact h

/-! ## The client's metrics are made of the client's part -/

/-- The client's entries can be drawn up from the client's part of every entity. -/
theorem clientEntries_clientPart (reported : SendWindow) (w : Window) (txs : List Transaction)
    (blocks : List (Height × Block)) :
    clientEntries reported w (txs.map Transaction.clientPart)
      (blocks.map fun e => (e.1, e.2.clientPart)) = clientEntries reported w txs blocks := by
  have hsuccess : SuccessCounts.ofTxs (txs.map Transaction.clientPart) =
      SuccessCounts.ofTxs txs := by
    unfold SuccessCounts.ofTxs
    simp only [List.length_map, List.countP_map]
    rfl
  have hlatency : ((txs.map Transaction.clientPart).filter Transaction.isCommitted).filterMap
      Transaction.latency? =
        (txs.filter Transaction.isCommitted).filterMap Transaction.latency? := by
    rw [List.filter_map, List.filterMap_map]
    rfl
  have hthroughput : throughput (blocks.map fun e => (e.1, e.2.clientPart)) =
      throughput blocks := by
    unfold throughput CommitSpan.ofBlocks? commitOrder CommittedBlock.ofBlocks
    rw [List.filterMap_map]
    rfl
  have hrate : sendRate reported w (txs.map Transaction.clientPart) = sendRate reported w txs := by
    unfold sendRate Window.countSent
    rw [List.countP_map]
    rfl
  -- the numbers of transactions in blocks are left: they are not blanked out either
  unfold clientEntries Report.successEntries
  dsimp only
  rw [hsuccess, hlatency, hthroughput, hrate, List.length_map, List.map_map]
  rfl

/-! ## What survives the pruning -/

namespace SameClientPart

variable {s s' : Session}

/-- Sessions that agree keep transactions under the same keys, with the same client's part. -/
theorem txs_prune (h : SameClientPart s s') (w : Window) :
    Registry.SamePart Transaction.clientPart (s.prune w).txs (s'.prune w).txs :=
  Registry.samePart_keep rfl (fun _ => rfl) h.tx

/-- Sessions that agree keep blocks under the same keys, with the same client's part. -/
theorem blocks_prune (h : SameClientPart s s') (w : Window) :
    Registry.SamePart Block.clientPart (s.prune w).blocks (s'.prune w).blocks :=
  Registry.samePart_keep rfl (fun _ => rfl) h.block

/-- Sessions that agree have as many transactions sent inside the window. -/
theorem countSent_eq (h : SameClientPart s s') (w : Window) :
    w.countSent s.txs.values = w.countSent s'.txs.values := by
  have hsent : Registry.SamePart Transaction.clientPart (s.txs.keep w.sentInside)
      (s'.txs.keep w.sentInside) := Registry.samePart_keep rfl (fun _ => rfl) h.tx
  have hlength := congrArg List.length hsent.map_values_eq
  rw [List.length_map, List.length_map, Registry.values_keep, Registry.values_keep] at hlength
  unfold Window.countSent
  rw [List.countP_eq_length_filter, List.countP_eq_length_filter, hlength]

/-- Sessions that agree give the client's metrics the same entries. -/
theorem clientEntries_prune (h : SameClientPart s s') (w : Window) :
    clientEntries (s.prune w).window w (s.prune w).txs.values (s.prune w).blocks.toList =
      clientEntries (s'.prune w).window w (s'.prune w).txs.values (s'.prune w).blocks.toList := by
  have hwindow : (s.prune w).window = (s'.prune w).window := by
    unfold Session.prune
    rw [h.window, h.countSent_eq w]
  have hblocks : (s.prune w).blocks.toList.map (fun e => (e.1, e.2.clientPart)) =
      (s'.prune w).blocks.toList.map fun e => (e.1, e.2.clientPart) := h.blocks_prune w
  rw [← clientEntries_clientPart, (h.txs_prune w).map_values_eq, hblocks,
    clientEntries_clientPart, hwindow]

/-- Sessions that agree give the same reports as far as the client's metrics go. -/
theorem get?_ofSession_prune (h : SameClientPart s s') (w : Window) {name : String}
    (hname : name ∈ clientMetrics) :
    (Report.ofSession (s.prune w) w).get? name = (Report.ofSession (s'.prune w) w).get? name := by
  rw [get?_ofSession _ _ hname, get?_ofSession _ _ hname, h.clientEntries_prune w]

/-- Sessions that agree have the same window. -/
theorem sendWindow_eq (h : SameClientPart s s') : s.sendWindow = s'.sendWindow := by
  unfold Session.sendWindow
  rw [h.window]

end SameClientPart

/-! ## Two analyses -/

/-- What the logs of a benchmark add up to before anything is dropped. -/
def recorded (logs : List Input) : Session := (Session.empty.absorb logs).session

/-- Benchmarks with one client's log add up to sessions that agree. -/
theorem sameClientPart_recorded {files files' : String → Except FileFault String} {client : String}
    {peers peers' storages storages' : List String} (hclient : files client = files' client)
    (h : (Session.empty.absorb (benchmarkLogs files client peers storages)).outcome = .ok ())
    (h' : (Session.empty.absorb (benchmarkLogs files' client peers' storages')).outcome = .ok ()) :
    SameClientPart (recorded (benchmarkLogs files client peers storages))
      (recorded (benchmarkLogs files' client peers' storages')) := by
  obtain ⟨text, entries, effects, others, htext, hread, htold, hothers, hs⟩ :=
    exists_told_of_absorb h
  obtain ⟨text', entries', effects', others', htext', hread', htold', hothers', hs'⟩ :=
    exists_told_of_absorb h'
  -- the client's log is read in the same way
  rw [← hclient, htext] at htext'
  cases htext'
  rw [hread] at hread'
  cases hread'
  cases htold.unique htold'
  unfold recorded
  rw [hs, hs']
  exact (SameClientPart.applyAll_append hothers _ _).trans
    (SameClientPart.applyAll_append hothers' _ _).symm

/-- The logs of the nodes do not influence the client's metrics. Two analyses of one client's log,
each with any logs of peers and storage nodes, agree in these metrics if both succeed; and the same
transactions and blocks survive in both. -/
theorem analyze_clientMetrics {files files' : String → Except FileFault String} {client : String}
    {peers peers' storages storages' : List String} {report report' : Report}
    (hclient : files client = files' client)
    (h : (analyze (benchmarkLogs files client peers storages)).outcome = .ok report)
    (h' : (analyze (benchmarkLogs files' client peers' storages')).outcome = .ok report') :
    (∀ name ∈ clientMetrics, ∃ m, report.get? name = some m ∧ report'.get? name = some m) ∧
      ∃ w s s', s = (recorded (benchmarkLogs files client peers storages)).prune w ∧
        s' = (recorded (benchmarkLogs files' client peers' storages')).prune w ∧
          report = .ofSession s w ∧ report' = .ofSession s' w ∧
            s.txs.keys = s'.txs.keys ∧ s.blocks.keys = s'.blocks.keys := by
  obtain ⟨hout, w, hw, rfl⟩ := analyze_eq_ok_iff.mp h
  obtain ⟨hout', w', hw', rfl⟩ := analyze_eq_ok_iff.mp h'
  have hsame := sameClientPart_recorded hclient hout hout'
  cases Except.ok.inj (hw.symm.trans (hsame.sendWindow_eq.trans hw'))
  constructor
  · intro name hname
    obtain ⟨m, hm⟩ := exists_get?_ofSession
      ((recorded (benchmarkLogs files client peers storages)).prune w) w hname
    exact ⟨m, hm, (hsame.get?_ofSession_prune w hname).symm.trans hm⟩
  · exact ⟨w, _, _, rfl, rfl, rfl, rfl, (hsame.txs_prune w).keys_eq,
      (hsame.blocks_prune w).keys_eq⟩

/-- The client sends a transaction and sees it committed. -/
def committedLog : List Char :=
  Log.eventLine "start-send-tx" "2021-01-01T00:00:00Z" "" ++
    Log.eventLine "tx_begin" "2021-01-01T00:00:01Z" "\"tx_id\":\"a\"" ++
    Log.eventLine "tx_commit" "2021-01-01T00:00:02Z" "\"height\":7,\"tx_ids\":[\"a\"]" ++
    Log.eventLine "end-send-tx" "2021-01-01T00:00:09Z" ""

/-- The entries of its log. -/
def committedEntries : List Entry :=
  [⟨1, .event "start-send-tx" "2021-01-01T00:00:00Z" []⟩,
    ⟨2, .event "tx_begin" "2021-01-01T00:00:01Z" [("tx_id", .text "a")]⟩,
    ⟨3, .event "tx_commit" "2021-01-01T00:00:02Z"
      [("height", .number (.integer 7)), ("tx_ids", .array [.text "a"])]⟩,
    ⟨4, .event "end-send-tx" "2021-01-01T00:00:09Z" []⟩]

/-- A node receives a transaction that was never sent, and claims that it was committed. -/
def meddlingLog : List Char :=
  Log.eventLine "blk_recv_tx" "2021-01-01T00:00:02Z" "\"tx_id\":\"b\"" ++
    Log.eventLine "tx_commit" "2021-01-01T00:00:03Z" "\"height\":8,\"tx_ids\":[\"b\"]"

/-- The entries of its log. -/
def meddlingEntries : List Entry :=
  [⟨1, .event "blk_recv_tx" "2021-01-01T00:00:02Z" [("tx_id", .text "b")]⟩,
    ⟨2, .event "tx_commit" "2021-01-01T00:00:03Z"
      [("height", .number (.integer 8)), ("tx_ids", .array [.text "b"])]⟩]

/-- The client's log and, under every other name, the log of a node. -/
def meddledFiles (path : String) : Except FileFault String :=
  .ok (.ofList (if path = "client.log" then committedLog else meddlingLog))

set_option maxRecDepth 10000 in
/-- The client's log is read. -/
theorem load_committedLog : (Source.fetch meddledFiles ⟨"client.log", .client⟩).load =
    .ok ⟨⟨"client.log", .client⟩, committedEntries⟩ :=
  Input.load_eq_ok.mpr ⟨_, _, rfl, (Log.read_ofList _).trans rfl, rfl⟩

set_option maxRecDepth 10000 in
/-- The log of a node is read. -/
theorem read_meddlingLog : Log.read (.ofList meddlingLog) = .ok meddlingEntries :=
  (Log.read_ofList _).trans rfl

/-- The analysis of the client's log alone succeeds. -/
theorem exists_report_unmeddled :
    ∃ report, (analyze (benchmarkLogs meddledFiles "client.log" [] [])).outcome = .ok report := by
  have hload : (benchmarkLogs meddledFiles "client.log" [] []).mapM Input.load =
      .ok [⟨⟨"client.log", .client⟩, committedEntries⟩] :=
    mapM_eq_ok.mpr (.cons load_committedLog .nil)
  simp only [analyze_eq_ok_iff, absorb_eq_replayAll hload]
  exact ⟨_, rfl, _, rfl, rfl⟩

/-- So does that of all logs, and only the transaction that was sent survives. -/
theorem exists_report_meddled :
    ∃ s w, (analyze (benchmarkLogs meddledFiles "client.log" ["peer.log"]
      ["storage.log"])).outcome = .ok (.ofSession s w) ∧ s.txs.values.length = 1 := by
  have hload : (benchmarkLogs meddledFiles "client.log" ["peer.log"] ["storage.log"]).mapM
      Input.load = .ok [⟨⟨"client.log", .client⟩, committedEntries⟩,
        ⟨⟨"peer.log", .peer⟩, meddlingEntries⟩, ⟨⟨"storage.log", .storage 1⟩, meddlingEntries⟩] :=
    mapM_eq_ok.mpr (.cons load_committedLog
      (.cons (Input.load_eq_ok.mpr ⟨_, _, rfl, read_meddlingLog, rfl⟩)
        (.cons (Input.load_eq_ok.mpr ⟨_, _, rfl, read_meddlingLog, rfl⟩) .nil)))
  simp only [analyze_eq_ok_iff, absorb_eq_replayAll hload]
  refine ⟨_, _, ⟨rfl, _, rfl, rfl⟩, ?_⟩
  decide +kernel

/-- A peer and a storage node that meddle with the client's transactions do not influence its
metrics. -/
theorem analyze_clientMetrics_meddled :
    ∃ report report', (analyze (benchmarkLogs meddledFiles "client.log" [] [])).outcome =
        .ok report ∧
      (analyze (benchmarkLogs meddledFiles "client.log" ["peer.log"] ["storage.log"])).outcome =
        .ok report' ∧
      ∀ name ∈ clientMetrics, ∃ m, report.get? name = some m ∧ report'.get? name = some m := by
  obtain ⟨report, h⟩ := exists_report_unmeddled
  obtain ⟨s, w, h', -⟩ := exists_report_meddled
  exact ⟨report, _, h, h', (analyze_clientMetrics rfl h h').1⟩

end LedgerBench
