import LedgerBench.Proofs.Ledger.Renaming
import LedgerBench.Proofs.Report.Alike
import LedgerBench.Proofs.Report.Listing
import LedgerBench.Proofs.Report.Survivors

/-!
# Reports under a renaming

No figure of a report depends on what transactions are called, and none on a height but through the
order of the heights. `Renaming.equivariant` says so of whole runs: of a run and the renamed run, if
the renaming tells the transactions of the run apart and keeps the order of its heights.

A renamed session stays so when it is pruned, since the tests of a window read neither names nor
heights (`Renames.prune`). Its entities are listed in another order than the renamed ones, but that
does not matter for a report (`Report.aggregate_perm`). Then every entity looks like the old one: a
transaction finds its block at the new height (`transaction_alike`), and the only place where
heights are compared is the order of commit (`throughput_map`).
-/

namespace LedgerBench

namespace Renaming

variable {ρ : Renaming} {ids : Set TxId} {heights : Set Height} {s s' : Session}

/-! ## The send window -/

/-- What is left of a session in its send window, with the new names and heights. -/
def windowed (ρ : Renaming) (k : Session.Windowed) : Session.Windowed :=
  ⟨k.window, ρ.session k.session, k.notice⟩

/-- The transactions of a renamed session are the renamed ones in some order. -/
theorem Renames.txs_perm (h : ρ.Renames ids heights s s') :
    s'.txs.values.Perm (s.txs.values.map ρ.transaction) := by
  have hperm := h.txs.toList_perm.map Prod.snd
  rw [List.map_map] at hperm
  rw [Registry.values_eq_map_toList, Registry.values_eq_map_toList, List.map_map]
  exact hperm

/-- Dropping what lies outside a window leaves the renamed session. -/
theorem Renames.prune (h : ρ.Renames ids heights s s') (w : Window) :
    ρ.Renames ids heights (s.prune w) (s'.prune w) := by
  refine ⟨h.txs.keep (fun _ => rfl) rfl rfl, h.blocks.keep (fun _ => rfl) rfl rfl,
    fun id height hheight => ?_, ?_⟩
  · have hfind : (s.prune w).tx id = if w.keepsTx (s.tx id) then s.tx id else default :=
      s.txs.find_keep rfl id
    -- what is kept was recorded before
    rw [hfind] at hheight
    split at hheight
    · exact h.committedIn id height hheight
    · cases hheight
  · have hcount : w.countSent s'.txs.values = w.countSent s.txs.values := by
      unfold Window.countSent
      rw [h.txs_perm.countP_eq, List.countP_map]
      rfl
    unfold Session.prune
    dsimp only
    rw [h.window, hcount]

/-- A renamed session has as many transactions and blocks. -/
theorem Renames.size_eq (h : ρ.Renames ids heights s s') :
    s'.txs.size = s.txs.size ∧ s'.blocks.size = s.blocks.size := by
  have htxs := h.txs.toList_perm.length_eq
  have hblocks := h.blocks.toList_perm.length_eq
  rw [List.length_map] at htxs hblocks
  simp only [Std.ExtTreeMap.length_toList] at htxs hblocks
  exact ⟨htxs, hblocks⟩

/-- In its send window a renamed session keeps what is renamed of what the session keeps. -/
theorem Renames.applyWindow (h : ρ.Renames ids heights s s') :
    s'.applyWindow = s.applyWindow.map ρ.windowed := by
  have hwindow : s'.sendWindow = s.sendWindow := by
    unfold Session.sendWindow
    rw [h.window]
  unfold Session.applyWindow
  rw [hwindow]
  cases s.sendWindow with
  | error fault => rfl
  | ok w =>
    have hpruned := h.prune w
    obtain ⟨htxs, hblocks⟩ := h.size_eq
    obtain ⟨htxs', hblocks'⟩ := hpruned.size_eq
    have hnotice : Session.pruneNotice s' (s'.prune w) = Session.pruneNotice s (s.prune w) := by
      unfold Session.pruneNotice
      rw [htxs, hblocks, htxs', hblocks']
    dsimp only
    rw [hnotice, hpruned.eq_session]
    rfl

/-! ## Figures -/

/-- A renamed transaction looks like the transaction if it has the renamed block. -/
theorem transaction_alike {blockAt blockAt' : Height → Option Block} {t : Transaction}
    (h : ∀ height, t.height = some height →
      blockAt' (ρ.height height) = (blockAt height).map ρ.block) :
    t.Alike blockAt blockAt' (ρ.transaction t) := by
  have hblock : (ρ.transaction t).block? blockAt' = (t.block? blockAt).map ρ.block := by
    unfold Transaction.block? transaction
    cases hheight : t.height with
    | none => rfl
    | some height => exact h height hheight
  refine ⟨rfl, rfl, rfl, rfl, rfl, rfl, ?_, ?_, ?_⟩
  · unfold Transaction.proposeTime?
    rw [hblock]
    cases t.block? blockAt <;> rfl
  · unfold Transaction.miningTime?
    rw [hblock]
    cases t.block? blockAt <;> rfl
  · unfold Transaction.verifyTime?
    rw [hblock]
    cases t.block? blockAt <;> rfl

/-- A renamed block looks like the block. -/
theorem block_alike (b : Block) : b.Alike (ρ.block b) := ⟨List.length_map ρ.tx, rfl, rfl⟩

/-- Blocks at new heights have the same throughput. -/
theorem throughput_map {blocks : List (Height × Block)}
    (hheights : StrictMonoOn ρ.height {height | ∃ b, (height, b) ∈ blocks}) :
    throughput (blocks.map fun e => (ρ.height e.1, ρ.block e.2)) = throughput blocks := by
  have hlisted : ∀ c ∈ CommittedBlock.ofBlocks blocks,
      c.height ∈ {height | ∃ b, (height, b) ∈ blocks} := by
    intro c hc
    obtain ⟨b, hb, -⟩ := CommittedBlock.mem_ofBlocks.mp hc
    exact ⟨b, hb⟩
  have htime : ∀ b, (ρ.block b).commitTime = b.commitTime.map id :=
    fun b => (congrFun Option.map_id b.commitTime).symm
  refine LedgerBench.throughput_map id ρ.height ρ.block htime (fun b => (block_alike b).txCount)
    (fun a ha b hb => ?_) fun _ _ => rfl
  -- the order looks at the heights only to compare them
  have hle := hheights.le_iff_le (hlisted a ha) (hlisted b hb)
  simp only [CommittedBlock.notAfter, CommittedBlock.moved, hle]
  rfl

/-- Renamed transactions have the same send rate. -/
theorem sendRate_map (reported : SendWindow) (w : Window) (txs : List Transaction) :
    sendRate reported w (txs.map ρ.transaction) = sendRate reported w txs := by
  unfold sendRate Window.countSent
  rw [List.countP_map]
  rfl

/-- All metrics are the same of renamed transactions and blocks. -/
theorem aggregate_map (reported : SendWindow) (w : Window)
    {blockAt blockAt' : Height → Option Block} {txs : List Transaction}
    {blocks : List (Height × Block)}
    (hblockAt : ∀ t ∈ txs, ∀ height, t.height = some height →
      blockAt' (ρ.height height) = (blockAt height).map ρ.block)
    (hheights : StrictMonoOn ρ.height {height | ∃ b, (height, b) ∈ blocks}) :
    Report.aggregate reported w blockAt' (txs.map ρ.transaction)
        (blocks.map fun e => (ρ.height e.1, ρ.block e.2)) =
      Report.aggregate reported w blockAt txs blocks :=
  Report.aggregate_map ρ.height ρ.block (fun t ht => transaction_alike (hblockAt t ht)) block_alike
    (throughput_map hheights) rfl (sendRate_map reported w txs)

/-- The reports on a session and on the renamed one have the same figures, in whatever orders their
entities are listed. -/
theorem Renames.sameFigures (h : ρ.Renames ids heights s s')
    (hheights : StrictMonoOn ρ.height heights) (w : Window) (l : s.Listing) (l' : s'.Listing) :
    (l.report w).SameFigures (l'.report w) := by
  -- the entities are listed once each, here under the old names and there under the new ones
  have htxs : ((l.txs.map (·.2)).map ρ.transaction).Perm (l'.txs.map (·.2)) := by
    have hentries := (h.txs.toList_perm.symm.trans l'.txs_perm.symm).map (·.2)
    rw [List.map_map] at hentries
    rw [List.map_map]
    exact (l.txs_perm.map _).trans hentries
  have hblocks : (l.blocks.map fun e => (ρ.height e.1, ρ.block e.2)).Perm l'.blocks :=
    (l.blocks_perm.map _).trans (h.blocks.toList_perm.symm.trans l'.blocks_perm.symm)
  have hdistinct : ((l.blocks.map fun e => (ρ.height e.1, ρ.block e.2)).map (·.1)).Nodup := by
    rw [(hblocks.map _).nodup_iff]
    exact l'.nodup_heights
  have hblockAt : ∀ t ∈ l.txs.map (·.2), ∀ height, t.height = some height →
      s'.blockAt (ρ.height height) = (s.blockAt height).map ρ.block := by
    intro t ht height hheight
    obtain ⟨e, he, rfl⟩ := List.mem_map.mp ht
    obtain ⟨-, hfind⟩ := Registry.mem_toList_iff.mp (l.txs_perm.mem_iff.mp he)
    exact h.blocks.getElem?_eq (h.committedIn e.1 height (by rw [← hheight, ← hfind]; rfl))
  have hlisted : StrictMonoOn ρ.height {height | ∃ b, (height, b) ∈ l.blocks} := by
    refine hheights.mono ?_
    rintro height ⟨b, hb⟩
    exact h.blocks.subset height (Registry.mem_toList_iff.mp (l.blocks_perm.mem_iff.mp hb)).1
  have hsame : Report.aggregate s'.window w s'.blockAt ((l.txs.map (·.2)).map ρ.transaction)
      (l.blocks.map fun e => (ρ.height e.1, ρ.block e.2)) =
        Report.aggregate s.window w s.blockAt (l.txs.map (·.2)) l.blocks := by
    rw [h.window]
    exact aggregate_map s.window w hblockAt hlisted
  have hentries := Report.aggregate_perm s'.window w s'.blockAt htxs hblocks hdistinct
  rw [hsame] at hentries
  exact hentries.ofList

/-! ## Runs -/

/-- A run and the renamed run differ in names and heights only. -/
structure Equivariant (ρ : Renaming) (streams : List Stream) : Prop where
  /-- Every record has the renamed verdict, or the same fault. -/
  judge : ∀ stream ∈ streams, ∀ e ∈ stream.entries,
    (ρ.record e.record).judge stream.source.role =
      (e.record.judge stream.source.role).map ρ.verdict
  /-- The replay ends in the same way. -/
  outcome : (Session.empty.replayAll (streams.map ρ.stream)).outcome =
    (Session.empty.replayAll streams).outcome
  /-- There are the same notices. -/
  notices : (Session.empty.replayAll (streams.map ρ.stream)).notices =
    (Session.empty.replayAll streams).notices
  /-- The session is the renamed one. -/
  session : (Session.empty.replayAll (streams.map ρ.stream)).session =
    ρ.session (Session.empty.replayAll streams).session
  /-- In its send window the same is kept, renamed, and as many transactions count as sent. -/
  applyWindow : (Session.empty.replayAll (streams.map ρ.stream)).session.applyWindow =
    (Session.empty.replayAll streams).session.applyWindow.map ρ.windowed
  /-- The reports on what is kept have the same figures, in whatever orders it is listed. -/
  report : ∀ kept, (Session.empty.replayAll streams).session.applyWindow = .ok kept →
    ∀ (l : kept.session.Listing) (l' : (ρ.windowed kept).session.Listing),
      (l.report kept.window).SameFigures (l'.report kept.window)

/-- Names do not matter, and heights only by their order. If a renaming gives different names to
different transactions of a run, and keeps the order of the heights, it changes nothing but the
names and heights: neither verdicts nor notices, neither what is recorded and kept nor any figure of
the report. -/
theorem equivariant (ρ : Renaming) (streams : List Stream)
    (hids : Set.InjOn ρ.tx (namedTxs (streams.flatMap Stream.records)))
    (hheights : StrictMonoOn ρ.height (namedHeights (streams.flatMap Stream.records))) :
    ρ.Equivariant streams := by
  have hrecords : ∀ stream ∈ streams, ∀ r ∈ stream.records, r ∈ streams.flatMap Stream.records :=
    fun stream hstream r hr => List.mem_flatMap.mpr ⟨stream, hstream, hr⟩
  obtain ⟨houtcome, hnotices, hsession⟩ := (renames_empty hids hheights.injOn).replayAll
    (fun stream hstream id ⟨r, hr, hid⟩ => ⟨r, hrecords stream hstream r hr, hid⟩)
    fun stream hstream height ⟨r, hr, hh⟩ => ⟨r, hrecords stream hstream r hr, hh⟩
  refine ⟨fun stream _ e _ => ρ.judge_record e.record stream.source.role, houtcome, hnotices,
    hsession.eq_session, hsession.applyWindow, fun kept hkept l l' => ?_⟩
  -- what is kept of the renamed session is what is kept of the session, renamed
  obtain ⟨-, hpruned, -⟩ := Session.applyWindow_eq_ok_iff.mp hkept
  have hrenames := hsession.prune kept.window
  rw [← hpruned] at hrenames
  have heq := hrenames.eq_session
  rw [heq] at hrenames
  exact hrenames.sameFigures hheights kept.window l l'

/-- New names with a letter in front, and heights that leave gaps. -/
def spaced : Renaming := ⟨fun id => "x" ++ id, fun height => 2 * height + 1⟩

/-- Two blocks are committed at the same time, the one of them with a transaction that is named by a
number, and a storage node executes this transaction. -/
def tiedStreams : List Stream :=
  [⟨⟨"client.log", .client⟩,
    [⟨1, .event "start-send-tx" "2021-01-01T00:00:00Z" []⟩,
      ⟨2, .event "tx_begin" "2021-01-01T00:00:01Z" [("tx_id", .text "a")]⟩,
      ⟨3, .event "tx_begin" "2021-01-01T00:00:01Z" [("tx_id", .number (.integer 5))]⟩,
      ⟨4, .event "tx_commit" "2021-01-01T00:00:02Z"
        [("height", .number (.integer 8)), ("tx_ids", .array [.number (.integer 5)])]⟩,
      ⟨5, .event "tx_commit" "2021-01-01T00:00:02Z"
        [("height", .number (.integer 7)), ("tx_ids", .array [.text "a"])]⟩,
      ⟨6, .event "end-send-tx" "2021-01-01T00:00:09Z" []⟩]⟩,
    ⟨⟨"storage.log", .storage 1⟩, [⟨1, .measured "exec_time" 30 [("tx_id", .text "5")]⟩]⟩]

/-- The tied run has the same report under new names and heights, with two transactions. -/
theorem equivariant_tied :
    ∃ kept, (Session.empty.replayAll tiedStreams).session.applyWindow = .ok kept ∧
      kept.session.txs.size = 2 ∧ spaced.Equivariant tiedStreams ∧
        ((Session.Listing.ascending kept.session).report kept.window).SameFigures
          ((Session.Listing.ascending (spaced.windowed kept).session).report kept.window) := by
  have hequivariant : spaced.Equivariant tiedStreams := by
    refine equivariant spaced tiedStreams (fun id _ id' _ heq => ?_)
      fun height _ height' _ hlt => ?_
    · have hchars := congrArg String.toList heq
      simp only [spaced, String.toList_append] at hchars
      exact String.toList_injective (List.append_cancel_left hchars)
    · exact Nat.succ_lt_succ (Nat.mul_lt_mul_of_pos_left hlt (Nat.succ_pos 1))
  refine ⟨_, rfl, ?_, hequivariant, hequivariant.report _ rfl _ _⟩
  decide +kernel

end Renaming

end LedgerBench
