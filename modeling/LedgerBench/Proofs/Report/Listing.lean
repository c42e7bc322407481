import LedgerBench.Proofs.Ledger.Registry
import LedgerBench.Proofs.Report.CommitOrder
import LedgerBench.Proofs.Stats.Order
import LedgerBench.Report.Aggregate

/-!
# The report does not depend on the order of the registries

A report is drawn up from lists of the transactions and blocks of a session. A registry has no order
of its own, so the entities may be listed in any order (`Session.Listing`), and the reports on two
listings have the same names in the same order and under each the same number
(`report_sameFigures`).

Each part of a report has its own reason. Counts do not see the order of what they count. The series
are sorted before their figures are taken (`Summary.ofSamples_perm`). Blocks are sorted by commit
time and height, and no two blocks of a registry share a height, so there is only one such order
(`commitOrder_perm`). The executions are counted in a registry of their own, where the order of the
counting is lost (`nodeCounts_perm`).
-/

namespace LedgerBench

/-! ## Series and counts -/

/-- The series of two listings of transactions have the same samples. -/
structure TxSamples.Reordered (a b : TxSamples) : Prop where
  /-- The times from sending to commit. -/
  latency : a.latency.Perm b.latency
  /-- The execution times. -/
  execTime : a.execTime.Perm b.execTime
  /-- The times from reception to the end of the proposal. -/
  proposeTime : a.proposeTime.Perm b.proposeTime
  /-- The mining times of the blocks. -/
  miningTime : a.miningTime.Perm b.miningTime
  /-- The verification times of the blocks. -/
  verifyTime : a.verifyTime.Perm b.verifyTime

/-- Transactions in another order have the same samples. -/
theorem TxSamples.collect_perm (blockAt : Height → Option Block) {txs txs' : List Transaction}
    (h : txs.Perm txs') : (collect blockAt txs).Reordered (collect blockAt txs') := by
  have hcommitted := h.filter Transaction.isCommitted
  exact ⟨hcommitted.filterMap _, hcommitted.map _, hcommitted.filterMap _, hcommitted.map _,
    hcommitted.filterMap _⟩

/-- The series of two listings of blocks have the same samples. -/
structure BlockSamples.Reordered (a b : BlockSamples) : Prop where
  /-- The numbers of transactions. -/
  txCount : a.txCount.Perm b.txCount
  /-- The mining times. -/
  miningTime : a.miningTime.Perm b.miningTime
  /-- The verification times. -/
  verifyTime : a.verifyTime.Perm b.verifyTime

/-- Blocks in another order have the same samples. -/
theorem BlockSamples.collect_perm {blocks blocks' : List Block} (h : blocks.Perm blocks') :
    (collect blocks).Reordered (collect blocks') :=
  ⟨h.map _, h.map _, h.filterMap _⟩

/-- Transactions in another order have fared alike. -/
theorem SuccessCounts.ofTxs_perm {txs txs' : List Transaction} (h : txs.Perm txs') :
    ofTxs txs = ofTxs txs' := by
  unfold ofTxs
  rw [h.length_eq, h.countP_eq, h.countP_eq, h.countP_eq]

/-- Updates of a registry by one function may change places. -/
theorem Registry.update_comm {κ α : Type} [Ord κ] [Std.TransOrd κ] [Std.LawfulEqOrd κ]
    [Inhabited α] [DecidableEq κ] (r : Registry κ α) (key key' : κ) (f : α → α) :
    (r.update key f).update key' f = (r.update key' f).update key f := by
  apply ext_find
  · intro k
    rw [mem_update, mem_update, mem_update, mem_update, or_right_comm]
  · intro k
    rw [find_update, find_update, find_update, find_update]
    by_cases h : key = k <;> by_cases h' : key' = k <;> simp only [h, h', if_true, if_false]

/-- The executions of transactions in another order are counted alike. -/
theorem nodeCounts_perm {txs txs' : List Transaction} (h : txs.Perm txs') :
    nodeCounts txs = nodeCounts txs' := by
  unfold nodeCounts
  dsimp only
  congr 1
  refine (h.filterMap _).foldl_eq' (fun node _ node' _ counts => ?_) ∅
  exact Registry.update_comm counts node node' (· + 1)

/-! ## Rates -/

/-- Blocks of a registry, in another order, are committed in the same order. -/
theorem commitOrder_perm {blocks blocks' : List (Height × Block)} (h : blocks.Perm blocks')
    (hdistinct : (blocks.map (·.1)).Nodup) : commitOrder blocks = commitOrder blocks' := by
  -- blocks that are not after each other have the same height, so they are the same
  have hantisymm : ∀ a b : CommittedBlock, a ∈ commitOrder blocks → b ∈ commitOrder blocks' →
      a.notAfter b = true → b.notAfter a = true → a = b := by
    intro a b ha hb hab hba
    have hheight : a.height = b.height := CommittedBlock.height_eq_of_notAfter hab hba
    obtain ⟨block, hmem, htime, hsize⟩ :=
      CommittedBlock.mem_ofBlocks.mp (List.mem_mergeSort.mp ha)
    obtain ⟨block', hmem', htime', hsize'⟩ :=
      CommittedBlock.mem_ofBlocks.mp (List.mem_mergeSort.mp hb)
    have hentry : (a.height, block) = (b.height, block') :=
      List.inj_on_of_nodup_map hdistinct hmem (h.mem_iff.mpr hmem') hheight
    obtain ⟨-, rfl⟩ := Prod.mk.inj hentry
    obtain ⟨time, height, size⟩ := a
    cases hheight
    cases htime.symm.trans htime'
    cases hsize.symm.trans hsize'
    rfl
  have hperm : (commitOrder blocks).Perm (commitOrder blocks') :=
    (List.mergeSort_perm _ _).trans ((h.filterMap _).trans (List.mergeSort_perm _ _).symm)
  exact hperm.eq_of_pairwise hantisymm (pairwise_commitOrder blocks) (pairwise_commitOrder blocks')

/-- The throughput of the blocks of a registry is the same in any order. -/
theorem throughput_perm {blocks blocks' : List (Height × Block)} (h : blocks.Perm blocks')
    (hdistinct : (blocks.map (·.1)).Nodup) : throughput blocks = throughput blocks' := by
  unfold throughput CommitSpan.ofBlocks?
  rw [commitOrder_perm h hdistinct]

/-- The send rate is the same in any order of the transactions. -/
theorem sendRate_perm (reported : SendWindow) (w : Window) {txs txs' : List Transaction}
    (h : txs.Perm txs') : sendRate reported w txs = sendRate reported w txs' := by
  unfold sendRate Window.countSent
  rw [h.countP_eq]

/-! ## Metrics -/

/-- Two metrics are of one kind and the same number. -/
def Metric.SameFigure : Metric → Metric → Prop
  | .count n, .count n' => n = n'
  | .number x, .number x' => SameNumber x x'
  | .ratio x, .ratio x' => SameNumber x x'
  | .duration us, .duration us' => SameNumber us us'
  | .rate x, .rate x' => SameNumber x x'
  | _, _ => False

/-- A metric is the same number as itself. -/
theorem Metric.SameFigure.refl (m : Metric) : m.SameFigure m := by
  cases m with
  | count n => exact Eq.refl n
  | number x | ratio x | duration x | rate x => exact SameNumber.refl x

namespace Report

/-- Two lists have the same names in order, and under each the same number. -/
def SameEntries (entries entries' : List (String × Metric)) : Prop :=
  List.Forall₂ (fun e e' => e.1 = e'.1 ∧ e.2.SameFigure e'.2) entries entries'

/-- Two reports have the same names in order, and under each the same number. -/
def SameFigures (r r' : Report) : Prop := SameEntries r.entries r'.entries

namespace SameEntries

/-- A list has the same entries as itself. -/
theorem refl (entries : List (String × Metric)) : SameEntries entries entries :=
  List.forall₂_same.mpr fun e _ => ⟨rfl, .refl e.2⟩

/-- Lists that are put together from the same entries have the same entries. -/
theorem append {a a' b b' : List (String × Metric)} (ha : SameEntries a a')
    (hb : SameEntries b b') : SameEntries (a ++ b) (a' ++ b') :=
  List.rel_append ha hb

/-- To enter the same metric under one name keeps two lists the same. -/
theorem insertEntry {entries entries' : List (String × Metric)} (h : SameEntries entries entries')
    (name : String) {m m' : Metric} (hm : m.SameFigure m') :
    SameEntries (insertEntry name m entries) (insertEntry name m' entries') := by
  induction h with
  | nil => exact .cons ⟨rfl, hm⟩ .nil
  | @cons e e' rest rest' he hrest ih =>
    unfold Report.insertEntry
    rw [← he.1]
    split
    · exact .cons ⟨rfl, hm⟩ hrest
    · exact .cons he ih

/-- Reports that are the same stay so when the same entries are entered. -/
theorem foldl_insert {entries entries' : List (String × Metric)} (h : SameEntries entries entries')
    {r r' : Report} (hr : r.SameFigures r') :
    (entries.foldl (fun r e => r.insert e.1 e.2) r).SameFigures
      (entries'.foldl (fun r e => r.insert e.1 e.2) r') := by
  induction h generalizing r r' with
  | nil => exact hr
  | @cons e e' rest rest' he _ ih =>
    have hinsert : (r.insert e.1 e.2).SameFigures (r'.insert e'.1 e'.2) := by
      rw [he.1]
      exact insertEntry hr e'.1 he.2
    exact ih hinsert

/-- Reports that are drawn up from the same entries have the same figures. -/
theorem ofList {entries entries' : List (String × Metric)} (h : SameEntries entries entries') :
    (ofList entries).SameFigures (ofList entries') := by
  have hempty : empty.SameFigures empty := List.Forall₂.nil
  exact foldl_insert h hempty

end SameEntries

/-- The entries of a series are the same in any order of its samples. -/
theorem seriesEntries_perm (name : String) {metric : Float → Metric}
    (hmetric : ∀ x x', SameNumber x x' → (metric x).SameFigure (metric x'))
    {samples samples' : List Float} (h : samples.Perm samples') :
    SameEntries (seriesEntries name metric samples) (seriesEntries name metric samples') := by
  have hfigures := Summary.ofSamples_perm h
  unfold seriesEntries SameEntries
  rw [List.forall₂_map_left_iff, List.forall₂_map_right_iff]
  refine hfigures.imp fun e e' he => ?_
  obtain ⟨suffix, figure⟩ := e
  obtain ⟨suffix', figure'⟩ := e'
  obtain ⟨rfl, hfigure⟩ := he
  refine ⟨rfl, hmetric _ _ ?_⟩
  dsimp only at hfigure
  cases hfigure with
  | none => exact .refl _
  | some hsame => exact hsame

/-- The entries of transactions are the same in any order of them. -/
theorem txEntries_perm (blockAt : Height → Option Block) {txs txs' : List Transaction}
    (h : txs.Perm txs') : SameEntries (txEntries blockAt txs) (txEntries blockAt txs') := by
  have hsamples := TxSamples.collect_perm blockAt h
  have hseries : ∀ (name : String) {samples samples' : List Float}, samples.Perm samples' →
      SameEntries (seriesEntries name .duration samples) (seriesEntries name .duration samples') :=
    fun name _ _ => seriesEntries_perm name fun _ _ => id
  exact (hseries "tx_latency" hsamples.latency).append
    ((hseries "tx_exec_time" hsamples.execTime).append
      ((hseries "tx_propose_time" hsamples.proposeTime).append
        ((hseries "tx_mining_time" hsamples.miningTime).append
          ((hseries "tx_verify_time" hsamples.verifyTime).append (.refl [])))))

/-- The entries of blocks are the same in any order of them. -/
theorem blockEntries_perm {blocks blocks' : List Block} (h : blocks.Perm blocks') :
    SameEntries (blockEntries blocks) (blockEntries blocks') := by
  have hsamples := BlockSamples.collect_perm h
  refine .cons ⟨rfl, h.length_eq⟩ ?_
  exact (seriesEntries_perm "blk_tx_num" (fun _ _ => id) hsamples.txCount).append
    ((seriesEntries_perm "blk_mining_time" (fun _ _ => id) hsamples.miningTime).append
      ((seriesEntries_perm "blk_verify_time" (fun _ _ => id) hsamples.verifyTime).append
        (.refl [])))

/-- All entries are the same in any order of the transactions and of the blocks of a registry. -/
theorem aggregate_perm (reported : SendWindow) (w : Window) (blockAt : Height → Option Block)
    {txs txs' : List Transaction} {blocks blocks' : List (Height × Block)} (htxs : txs.Perm txs')
    (hblocks : blocks.Perm blocks') (hdistinct : (blocks.map (·.1)).Nodup) :
    SameEntries (aggregate reported w blockAt txs blocks)
      (aggregate reported w blockAt txs' blocks') := by
  unfold aggregate nodeEntries successEntries
  rw [SuccessCounts.ofTxs_perm htxs, throughput_perm hblocks hdistinct,
    sendRate_perm reported w htxs, nodeCounts_perm htxs]
  exact ((((SameEntries.refl _).append (txEntries_perm blockAt htxs)).append
    (blockEntries_perm (hblocks.map _))).append (.refl _)).append (.refl _)

end Report

/-! ## Listings of a session -/

/-- An order in which the entities of a session are listed. -/
structure Session.Listing (s : Session) where
  /-- The transactions with their names. -/
  txs : List (TxId × Transaction)
  /-- The blocks with their heights. -/
  blocks : List (Height × Block)
  /-- Every transaction is listed once. -/
  txs_perm : txs.Perm s.txs.toList
  /-- Every block is listed once. -/
  blocks_perm : blocks.Perm s.blocks.toList

namespace Session.Listing

/-- The listing by ascending names and heights. -/
def ascending (s : Session) : s.Listing := ⟨s.txs.toList, s.blocks.toList, .refl _, .refl _⟩

/-- The report on a session whose entities are listed in this order. -/
def report {s : Session} (l : s.Listing) (w : Window) : Report :=
  .ofList (Report.aggregate s.window w s.blockAt (l.txs.map (·.2)) l.blocks)

/-- No height is listed twice. -/
theorem nodup_heights {s : Session} (l : s.Listing) : (l.blocks.map (·.1)).Nodup := by
  rw [(l.blocks_perm.map _).nodup_iff, Std.ExtTreeMap.map_fst_toList_eq_keys]
  exact Std.ExtTreeMap.nodup_keys

end Session.Listing

/-- The report on a session does not depend on the order in which its entities are listed. In any
two orders the report has the same names in the same order, and under each a metric of the same kind
and the same number; and the report on the session is one of these. -/
theorem report_sameFigures (s : Session) (w : Window) :
    (Session.Listing.ascending s).report w = .ofSession s w ∧
      ∀ l l' : s.Listing, (l.report w).SameFigures (l'.report w) := by
  constructor
  · unfold Session.Listing.report Report.ofSession
    rw [Registry.values_eq_map_toList]
    dsimp only [Session.Listing.ascending]
  · intro l l'
    have htxs : (l.txs.map (·.2)).Perm (l'.txs.map (·.2)) :=
      (l.txs_perm.trans l'.txs_perm.symm).map _
    have hblocks : l.blocks.Perm l'.blocks := l.blocks_perm.trans l'.blocks_perm.symm
    have hentries := Report.aggregate_perm s.window w s.blockAt htxs hblocks l.nodup_heights
    exact hentries.ofList

end LedgerBench
