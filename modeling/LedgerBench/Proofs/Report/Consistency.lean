import LedgerBench.Proofs.Ledger.Times
import LedgerBench.Proofs.Ledger.Window
import LedgerBench.Proofs.Report.Counts
import LedgerBench.Proofs.Report.Survivors
import LedgerBench.Proofs.Stats.Defined

/-!
# A report agrees with itself

The figures of a report are drawn up one by one, and nothing compares them. They agree because of
what the pruning leaves: transactions that were sent inside the window and whose fate is known, and
blocks that were committed inside it. `Report.Consistent` says what follows, and
`analyze_consistent` shows it of every analysis that succeeds.

The counts compare because every survivor is resolved (`SuccessCounts.total_le`) and was counted as
sent before anything was dropped (`length_prune_le`). The series over transactions have a sample for
each committed one because a survivor has a send time (`latency_of_mem_prune`). That a figure is
not-a-number only if its series is empty is a matter of doubles: all times come from timestamps that
can be read, so latencies are bounded (`isBounded_latency`).
-/

namespace LedgerBench

/-- Under the name the report has a fraction of the total. It is not-a-number exactly if the total
is zero, and otherwise the quotient, which lies between zero and one. -/
def Report.HasFraction (r : Report) (name : String) (part total : ℕ) : Prop :=
  ∃ x, r.get? name = some (.ratio x) ∧ (x.isNaN = true ↔ total = 0) ∧
    (total ≠ 0 → x = Float.ofNat part / Float.ofNat total ∧ 0.0 ≤ x ∧ x ≤ 1.0)

/-- The series over transactions are those of so many committed ones. -/
structure TxSamples.Sized (samples : TxSamples) (committed : ℕ) : Prop where
  /-- Every one has a latency. -/
  latency : samples.latency.length = committed
  /-- Every one has an execution time. -/
  execTime : samples.execTime.length = committed
  /-- At most every one has a proposal time. -/
  proposeTime : samples.proposeTime.length ≤ committed
  /-- Every one has a mining time. -/
  miningTime : samples.miningTime.length = committed
  /-- At most every one has a verification time. -/
  verifyTime : samples.verifyTime.length ≤ committed

/-- The series over blocks are those of so many blocks. -/
structure BlockSamples.Sized (samples : BlockSamples) (blocks : ℕ) : Prop where
  /-- Every one has a number of transactions. -/
  txCount : samples.txCount.length = blocks
  /-- Every one has a mining time. -/
  miningTime : samples.miningTime.length = blocks
  /-- At most every one has a verification time. -/
  verifyTime : samples.verifyTime.length ≤ blocks

/-- What ties the figures of a report to each other, to the numbers of samples that they are made
of, and to the number of transactions that were sent inside the window. Percentages and means divide
by counts as doubles, and a double does not hold counts of any size; it holds all that fit a machine
word, as every count of a running analysis does. -/
structure Report.Consistent (r : Report) (s : Session) (counts : SuccessCounts) (blockCount : ℕ) :
    Prop where
  /-- The report has the number of transactions. -/
  total : r.get? "total_tx" = some (.count counts.total)
  /-- It has the number of committed ones. -/
  committed : r.get? "committed_tx" = some (.count counts.committed)
  /-- It has the number of those in conflict. -/
  conflicted : r.get? "conflicted_tx" = some (.count counts.conflicted)
  /-- It has the number of outdated ones. -/
  outdated : r.get? "outdated_tx" = some (.count counts.outdated)
  /-- It has the number of blocks. -/
  blocks : r.get? "total_blocks" = some (.count blockCount)
  /-- No more are committed than there are. -/
  committed_le : counts.committed ≤ counts.total
  /-- No more are in conflict. -/
  conflicted_le : counts.conflicted ≤ counts.total
  /-- No more are outdated. -/
  outdated_le : counts.outdated ≤ counts.total
  /-- Every one is committed, in conflict or outdated. -/
  total_le : counts.total ≤ counts.committed + counts.conflicted + counts.outdated
  /-- The number of those that were sent inside the window has been recorded, and no more are
  left. -/
  sent : ∃ n, s.window.sentCount = some n ∧ counts.total ≤ n
  /-- The percentages are fractions of the total. -/
  fractions : counts.total < 2 ^ 64 →
    r.HasFraction "committed_tx_percentage" counts.committed counts.total ∧
      r.HasFraction "conflicted_tx_percentage" counts.conflicted counts.total ∧
        r.HasFraction "outdated_tx_percentage" counts.outdated counts.total
  /-- No committed transaction that is left lacks a latency. -/
  latency : ∀ t ∈ s.txs.values, t.isCommitted = true → ∃ us, t.latency? = some us
  /-- The series over transactions are those of the committed ones. -/
  txSamples : (TxSamples.collect s.blockAt s.txs.values).Sized counts.committed
  /-- The series over blocks are those of all that are left. -/
  blockSamples : (BlockSamples.collect (s.blocks.toList.map (·.2))).Sized blockCount
  /-- The figures of the latency are not-a-number exactly if nothing is committed. -/
  latencyFigures : counts.total < 2 ^ 64 →
    ∀ name ∈ ["tx_latency_mean", "tx_latency_p50", "tx_latency_p90", "tx_latency_p95"],
      ∃ us, r.get? name = some (.duration us) ∧ (us.isNaN = true ↔ counts.committed = 0)

/-! ## Counts -/

/-- If the fate of every transaction is known, each is counted as committed, in conflict or
outdated. -/
theorem SuccessCounts.total_le {txs : List Transaction} (h : ∀ t ∈ txs, t.isResolved = true) :
    (ofTxs txs).total ≤
      (ofTxs txs).committed + (ofTxs txs).conflicted + (ofTxs txs).outdated := by
  unfold ofTxs
  dsimp only
  induction txs with
  | nil => exact le_rfl
  | cons t txs ih =>
    have hrest := ih fun t' ht' => h t' (List.mem_cons_of_mem _ ht')
    have ht := h t List.mem_cons_self
    unfold Transaction.isResolved at ht
    rw [List.length_cons, List.countP_cons, List.countP_cons, List.countP_cons]
    -- the first transaction is counted at least once
    cases hc : t.isCommitted <;> cases ho : t.outdated <;> cases hf : t.conflicted <;>
      simp [hc, ho, hf] at ht ⊢ <;> omega

section Prune

variable (s : Session) (w : Window)

/-- No more transactions are left than were sent inside the window. -/
theorem length_prune_le : (s.prune w).txs.values.length ≤ w.countSent s.txs.values := by
  unfold Session.prune Window.countSent
  dsimp only
  rw [Registry.values_keep, ← List.countP_eq_length_filter]
  exact List.countP_mono_left fun t _ hkept => (Window.keepsTx_iff.mp hkept).1

/-- A committed transaction that is left has a latency, from its send time to its commit time. -/
theorem latency_of_mem_prune {t : Transaction} (h : t ∈ (s.prune w).txs.values)
    (hcommitted : t.isCommitted = true) :
    ∃ sent committed, t.sendTime = some sent ∧ t.commitTime = some committed ∧
      t.latency? = some (sent.elapsed committed) := by
  obtain ⟨-, hkept⟩ := (mem_values_prune s w).mp h
  obtain ⟨committed, hcommit⟩ := Option.isSome_iff_exists.mp hcommitted
  obtain ⟨sent, hsent, -⟩ := Window.sentInside_iff.mp (Window.keepsTx_iff.mp hkept).1
  refine ⟨sent, committed, hsent, hcommit, ?_⟩
  unfold Transaction.latency?
  rw [hsent, hcommit]
  rfl

end Prune

/-! ## Samples -/

/-- Transactions that all have a latency if they are committed give a sample for each committed
one. -/
theorem TxSamples.collect_sized (blockAt : Height → Option Block) {txs : List Transaction}
    (h : ∀ t ∈ txs, t.isCommitted = true → t.latency?.isSome = true) :
    (collect blockAt txs).Sized (SuccessCounts.ofTxs txs).committed := by
  have hlength : (txs.filter Transaction.isCommitted).length =
      (SuccessCounts.ofTxs txs).committed := List.countP_eq_length_filter.symm
  rw [← hlength]
  refine ⟨?_, List.length_map _, List.length_filterMap_le _ _, List.length_map _,
    List.length_filterMap_le _ _⟩
  refine List.filterMap_length_eq_length.mpr fun t ht => ?_
  obtain ⟨ht, hcommitted⟩ := List.mem_filter.mp ht
  exact h t ht hcommitted

/-- Blocks give a sample each, except where one is missing. -/
theorem BlockSamples.collect_sized (blocks : List Block) :
    (collect blocks).Sized blocks.length :=
  ⟨List.length_map _, List.length_map _, List.length_filterMap_le _ _⟩

/-! ## Times -/

/-- The times at which a transaction was sent and committed lie in the range of timestamps. -/
structure Transaction.InRange (t : Transaction) : Prop where
  /-- The send time does. -/
  sendTime : ∀ time, t.sendTime = some time → time.InRange
  /-- The commit time does. -/
  commitTime : ∀ time, t.commitTime = some time → time.InRange

/-- The latency of such a transaction is bounded. -/
theorem Transaction.InRange.isBounded_latency {t : Transaction} (h : t.InRange) {us : Float}
    (hlatency : t.latency? = some us) : IsBounded us := by
  obtain ⟨sent, hsent, hrest⟩ := Option.bind_eq_some_iff.mp hlatency
  obtain ⟨committed, hcommitted, hus⟩ := Option.bind_eq_some_iff.mp hrest
  cases hus
  exact Instant.elapsed_isBounded (h.sendTime sent hsent) (h.commitTime committed hcommitted)

/-- What records tell of transactions lies in the range of timestamps. -/
theorem inRange_of_told {run : List StreamRecord} {effects : List Effect} (h : Told run effects)
    {t : Transaction} (ht : t ∈ (Session.empty.applyAll effects).txs.values) : t.InRange := by
  have htimes := (Session.EveryTime.of_told h).of_mem_txs ht
  exact ⟨fun time hsend => htimes time (by simp [Transaction.times, hsend]),
    fun time hcommit => htimes time (by simp [Transaction.times, hcommit])⟩

/-! ## Figures -/

/-- A count that a machine word holds is in the range of doubles. -/
theorem le_of_lt_word {n : ℕ} (h : n < 2 ^ 64) : n ≤ 2 ^ 1023 :=
  h.le.trans (pow_le_pow_right₀ one_le_two (by norm_num))

/-- A fraction of a count that a machine word holds is not-a-number exactly if there is none. -/
theorem Report.HasFraction.of_get? {r : Report} {name : String} {part total : ℕ}
    (h : r.get? name = some (.ratio (fractionOf part total))) (hle : part ≤ total)
    (hsize : total < 2 ^ 64) : r.HasFraction name part total := by
  refine ⟨_, h, ?_⟩
  by_cases hzero : total = 0
  · subst hzero
    have hnone : fractionOf part 0 = noValue := if_pos rfl
    rw [hnone]
    exact ⟨iff_of_true rfl rfl, fun hne => absurd rfl hne⟩
  · have hpos := Nat.pos_of_ne_zero hzero
    obtain ⟨hnan, hlow, hhigh⟩ := fractionOf_bounds hle hpos (le_of_lt_word hsize)
    rw [hnan]
    exact ⟨iff_of_false Bool.false_ne_true hzero, fun hne => ⟨if_neg hne, hlow, hhigh⟩⟩

/-- The percentages among the client's metrics are fractions of the number of transactions. -/
theorem get?_percentages (s : Session) (w : Window) :
    (Report.ofSession s w).get? "committed_tx_percentage" = some (.ratio (fractionOf
        (SuccessCounts.ofTxs s.txs.values).committed (SuccessCounts.ofTxs s.txs.values).total)) ∧
      (Report.ofSession s w).get? "conflicted_tx_percentage" = some (.ratio (fractionOf
        (SuccessCounts.ofTxs s.txs.values).conflicted (SuccessCounts.ofTxs s.txs.values).total)) ∧
      (Report.ofSession s w).get? "outdated_tx_percentage" = some (.ratio (fractionOf
        (SuccessCounts.ofTxs s.txs.values).outdated (SuccessCounts.ofTxs s.txs.values).total)) := by
  refine ⟨?_, ?_, ?_⟩ <;>
    rw [get?_ofSession s w (by decide), Report.get?_ofList] <;> rfl

/-- The metrics of the latency are the figures of its series. -/
theorem get?_latency (s : Session) (w : Window) {summary : Summary Float}
    (h : summary = .ofSamples (TxSamples.collect s.blockAt s.txs.values).latency) :
    (Report.ofSession s w).get? "tx_latency_mean" =
        some (.duration (summary.mean.getD noValue)) ∧
      (Report.ofSession s w).get? "tx_latency_p50" =
        some (.duration (summary.p50.getD noValue)) ∧
      (Report.ofSession s w).get? "tx_latency_p90" =
        some (.duration (summary.p90.getD noValue)) ∧
      (Report.ofSession s w).get? "tx_latency_p95" =
        some (.duration (summary.p95.getD noValue)) := by
  subst h
  refine ⟨?_, ?_, ?_, ?_⟩ <;>
    rw [get?_ofSession s w (by decide), Report.get?_ofList] <;> rfl

/-- The metrics of the latency are not-a-number exactly if nothing is committed. -/
theorem isNaN_latency_iff {s : Session} (w : Window) (h : ∀ t ∈ s.txs.values, t.InRange)
    (hsized : (TxSamples.collect s.blockAt s.txs.values).Sized
      (SuccessCounts.ofTxs s.txs.values).committed)
    (hsize : (SuccessCounts.ofTxs s.txs.values).total < 2 ^ 64) {name : String}
    (hname : name ∈ ["tx_latency_mean", "tx_latency_p50", "tx_latency_p90", "tx_latency_p95"]) :
    ∃ us, (Report.ofSession s w).get? name = some (.duration us) ∧
      (us.isNaN = true ↔ (SuccessCounts.ofTxs s.txs.values).committed = 0) := by
  have hbounded : ∀ us ∈ (TxSamples.collect s.blockAt s.txs.values).latency, IsBounded us := by
    intro us hus
    obtain ⟨t, ht, hlatency⟩ := List.mem_filterMap.mp hus
    exact (h t (List.mem_filter.mp ht).1).isBounded_latency hlatency
  have hcount : (TxSamples.collect s.blockAt s.txs.values).latency.length ≤ 2 ^ 1023 := by
    rw [hsized.latency]
    exact List.countP_le_length.trans (le_of_lt_word hsize)
  -- the series is empty exactly if nothing is committed
  have hfigure : ∀ entry ∈ (Summary.ofSamples (TxSamples.collect s.blockAt
      s.txs.values).latency).entries, (entry.2.getD noValue).isNaN = true ↔
        (SuccessCounts.ofTxs s.txs.values).committed = 0 := by
    intro entry hentry
    rw [isNaN_figure_iff hbounded hcount hentry, ← hsized.latency, List.length_eq_zero_iff]
  obtain ⟨hmean, hp50, hp90, hp95⟩ := get?_latency s w rfl
  simp only [List.mem_cons, List.not_mem_nil, or_false] at hname
  rcases hname with rfl | rfl | rfl | rfl
  · exact ⟨_, hmean, hfigure ("mean", _) (.head _)⟩
  · exact ⟨_, hp50, hfigure ("p50", _) (.tail _ (.head _))⟩
  · exact ⟨_, hp90, hfigure ("p90", _) (.tail _ (.tail _ (.head _)))⟩
  · exact ⟨_, hp95, hfigure ("p95", _) (.tail _ (.tail _ (.tail _ (.head _))))⟩

/-- The report on a session that has been pruned is consistent, if the times of the session lie in
the range of timestamps. -/
theorem ofSession_prune_consistent {s : Session} (w : Window)
    (h : ∀ t ∈ s.txs.values, t.InRange) :
    (Report.ofSession (s.prune w) w).Consistent (s.prune w)
      (SuccessCounts.ofTxs (s.prune w).txs.values) (s.prune w).blocks.toList.length := by
  obtain ⟨htotal, hcommitted, hconflicted, houtdated, hblocks, -⟩ := get?_counts (s.prune w) w
  obtain ⟨hfraction, hfraction', hfraction''⟩ := get?_percentages (s.prune w) w
  -- what is left was sent inside the window and is resolved
  have hlatency : ∀ t ∈ (s.prune w).txs.values, t.isCommitted = true →
      ∃ us, t.latency? = some us := by
    intro t ht hc
    obtain ⟨sent, committed, -, -, hus⟩ := latency_of_mem_prune s w ht hc
    exact ⟨_, hus⟩
  have hsized := TxSamples.collect_sized (s.prune w).blockAt fun t ht hc =>
    Option.isSome_iff_exists.mpr (hlatency t ht hc)
  have hresolved : ∀ t ∈ (s.prune w).txs.values, t.isResolved = true := by
    intro t ht
    obtain ⟨-, hkept⟩ := (mem_values_prune s w).mp ht
    exact (Window.keepsTx_iff.mp hkept).2.2
  have hblockSized := BlockSamples.collect_sized ((s.prune w).blocks.toList.map (·.2))
  rw [List.length_map] at hblockSized
  exact {
    total := htotal
    committed := hcommitted
    conflicted := hconflicted
    outdated := houtdated
    blocks := hblocks
    committed_le := List.countP_le_length
    conflicted_le := List.countP_le_length
    outdated_le := List.countP_le_length
    total_le := SuccessCounts.total_le hresolved
    sent := ⟨_, rfl, length_prune_le s w⟩
    fractions := fun hsize => ⟨.of_get? hfraction List.countP_le_length hsize,
      .of_get? hfraction' List.countP_le_length hsize,
      .of_get? hfraction'' List.countP_le_length hsize⟩
    latency := hlatency
    txSamples := hsized
    blockSamples := hblockSized
    latencyFigures := fun hsize _ hname => isNaN_latency_iff w
      (fun t ht => h t ((mem_values_prune s w).mp ht).1) hsized hsize hname }

/-- The report of every analysis that succeeds agrees with itself. It is drawn up from what is left
of the session in its send window, and it is consistent with that. -/
theorem analyze_consistent {files : String → Except FileFault String} {client : String}
    {peers storages : List String} {report : Report}
    (h : (analyze (benchmarkLogs files client peers storages)).outcome = .ok report) :
    ∃ kept counts blockCount,
      (recorded (benchmarkLogs files client peers storages)).applyWindow = .ok kept ∧
        report = .ofSession kept.session kept.window ∧
          report.Consistent kept.session counts blockCount := by
  generalize benchmarkLogs files client peers storages = logs at h ⊢
  obtain ⟨hout, w, hw, rfl⟩ := analyze_eq_ok_iff.mp h
  obtain ⟨streams, vs, -, happly⟩ := Session.applyRecords_of_absorb hout
  obtain ⟨effects, htold, hs⟩ := Session.told_of_applyRecords happly
  have hrange : ∀ t ∈ (recorded logs).txs.values, t.InRange := by
    unfold recorded
    rw [hs]
    exact fun t => inRange_of_told htold
  have hkept : (recorded logs).applyWindow = .ok ⟨w, (recorded logs).prune w,
      (recorded logs).pruneNotice ((recorded logs).prune w)⟩ :=
    Session.applyWindow_eq_ok_iff.mpr ⟨hw, rfl, rfl⟩
  exact ⟨_, _, _, hkept, rfl, ofSession_prune_consistent w hrange⟩

/-- The report on the benchmark in which the nodes meddle agrees with itself: one transaction is
left, and its fate is known. -/
theorem analyze_consistent_meddled :
    ∃ report kept counts blockCount,
      (analyze (benchmarkLogs meddledFiles "client.log" ["peer.log"] ["storage.log"])).outcome =
        .ok report ∧
      counts.total = 1 ∧ report.Consistent kept counts blockCount := by
  obtain ⟨s, w, h, hone⟩ := exists_report_meddled
  obtain ⟨kept, counts, blockCount, -, -, hconsistent⟩ := analyze_consistent h
  have htotal := (get?_counts s w).1
  rw [hone, hconsistent.total, Option.some.injEq, Metric.count.injEq] at htotal
  exact ⟨_, kept.session, counts, blockCount, h, htotal, hconsistent⟩

end LedgerBench
