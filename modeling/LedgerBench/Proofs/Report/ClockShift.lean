import LedgerBench.Proofs.Ledger.Times
import LedgerBench.Proofs.Report.Alike
import LedgerBench.Proofs.Report.Listing
import LedgerBench.Proofs.Report.Survivors
import LedgerBench.Proofs.Time.Elapsed

/-!
# Reports under a clock that is set differently

A report depends on the differences of times and on their order, and not on the times. If all times
of a session are later by the same number of nanoseconds, and none lies in a leap second, the send
window is found or missed in the same way, the same transactions and blocks are kept, and the report
is the same (`Session.report_shift`).

Each test of a window compares two times (`Window.keepsTx_shift`, `Window.keepsBlock_shift`), so
dropping what lies outside leaves the shifted session (`Session.prune_shift`). Every figure that
comes from times comes from a difference, which is taken before it is cut off to microseconds
(`Transaction.alike_shift`), and the order of commit compares two times again
(`throughput_shift`).
-/

namespace LedgerBench

/-! ## Shifted sessions -/

/-- The times of the client when its clock is ahead. -/
def SendWindow.shift (w : SendWindow) (d : ℤ) : SendWindow :=
  { w with start := w.start.map (·.shift d), stop := w.stop.map (·.shift d) }

/-- The window when the clock is ahead. -/
def Window.shift (w : Window) (d : ℤ) : Window := ⟨w.start.shift d, w.stop.shift d⟩

/-- The transaction when all clocks are ahead. -/
def Transaction.shift (t : Transaction) (d : ℤ) : Transaction :=
  { t with
    sendTime := t.sendTime.map (·.shift d)
    receiveTime := t.receiveTime.map (·.shift d)
    commitTime := t.commitTime.map (·.shift d) }

/-- The block when all clocks are ahead. -/
def Block.shift (b : Block) (d : ℤ) : Block :=
  { b with
    commitTime := b.commitTime.map (·.shift d)
    proposeEnd := b.proposeEnd.map (·.shift d) }

namespace Session

/-- The session when all clocks are ahead by that many nanoseconds. -/
def shift (s : Session) (d : ℤ) : Session where
  blocks := s.blocks.map fun _ b => b.shift d
  txs := s.txs.map fun _ t => t.shift d
  window := s.window.shift d

/-- What is left in a window when all clocks are ahead. -/
def Windowed.shift (k : Windowed) (d : ℤ) : Windowed :=
  ⟨k.window.shift d, k.session.shift d, k.notice⟩

/-- No time of the session lies in a leap second. -/
def NoLeap (s : Session) : Prop := s.EveryTime fun time => time.isLeap = false

end Session

/-- Neither end of the window lies in a leap second. -/
structure Window.NoLeap (w : Window) : Prop where
  /-- The beginning does not. -/
  start : w.start.isLeap = false
  /-- The end does not. -/
  stop : w.stop.isLeap = false

/-! ## The send window -/

namespace Window

variable {w : Window} (hw : w.NoLeap) (d : ℤ)

include hw

/-- A time lies inside a window or not however the clock is set. -/
theorem contains_shift {time : Instant} (h : time.isLeap = false) :
    (w.shift d).contains (time.shift d) = w.contains time := by
  unfold contains shift
  simp only [Instant.shift_lt_shift hw.start h, Instant.shift_lt_shift h hw.stop]

/-- A transaction was sent inside a window or not however the clock is set. -/
theorem sentInside_shift {t : Transaction} (h : ∀ time ∈ t.times, time.isLeap = false) :
    (w.shift d).sentInside (t.shift d) = w.sentInside t := by
  unfold sentInside Transaction.shift
  cases hsend : t.sendTime with
  | none => rfl
  | some time => exact contains_shift hw d (h time (by simp [Transaction.times, hsend]))

/-- A transaction is kept or not however the clock is set. -/
theorem keepsTx_shift {t : Transaction} (h : ∀ time ∈ t.times, time.isLeap = false) :
    (w.shift d).keepsTx (t.shift d) = w.keepsTx t := by
  have hcommitted : (w.shift d).committedInTime (t.shift d) = w.committedInTime t := by
    unfold committedInTime Transaction.shift shift
    cases hcommit : t.commitTime with
    | none => rfl
    | some time =>
      have htime := h time (by simp [Transaction.times, hcommit])
      simp only [Option.map_some, Instant.shift_lt_shift htime hw.stop]
  have hresolved : (t.shift d).isResolved = t.isResolved := by
    unfold Transaction.isResolved Transaction.isCommitted Transaction.shift
    rw [Option.isSome_map]
  unfold keepsTx
  rw [sentInside_shift hw d h, hcommitted, hresolved]

/-- A block is kept or not however the clock is set. -/
theorem keepsBlock_shift {b : Block} (h : ∀ time ∈ b.times, time.isLeap = false) :
    (w.shift d).keepsBlock (b.shift d) = w.keepsBlock b := by
  unfold keepsBlock Block.shift
  cases hcommit : b.commitTime with
  | none => rfl
  | some time => exact contains_shift hw d (h time (by simp [Block.times, hcommit]))

/-- As many transactions were sent inside a window however the clock is set. -/
theorem countSent_shift {txs : List Transaction}
    (h : ∀ t ∈ txs, ∀ time ∈ t.times, time.isLeap = false) :
    (w.shift d).countSent (txs.map (·.shift d)) = w.countSent txs := by
  unfold countSent
  rw [List.countP_map]
  refine List.countP_congr fun t ht => ?_
  rw [Function.comp_apply, sentInside_shift hw d (h t ht)]

end Window

namespace Session

variable {s : Session} {w : Window}

/-- The client tells a shifted window, or fails to tell the same end. -/
theorem sendWindow_shift (s : Session) (d : ℤ) :
    (s.shift d).sendWindow = s.sendWindow.map (·.shift d) := by
  unfold sendWindow shift SendWindow.shift
  cases s.window.start with
  | none => rfl
  | some start => cases s.window.stop <;> rfl

/-- The window of a session without leap seconds has none. -/
theorem NoLeap.sendWindow (h : s.NoLeap) (hw : s.sendWindow = .ok w) : w.NoLeap :=
  ⟨(h.of_sendWindow hw).1, (h.of_sendWindow hw).2⟩

/-- Dropping what lies outside a shifted window leaves the shifted session. -/
theorem prune_shift (h : s.NoLeap) (hw : w.NoLeap) (d : ℤ) :
    (s.shift d).prune (w.shift d) = (s.prune w).shift d := by
  have htxs : (s.shift d).txs.keep (w.shift d).keepsTx = ((s.prune w).shift d).txs :=
    s.txs.keep_map _ fun id => Window.keepsTx_shift hw d (h.txs id)
  have hblocks : (s.shift d).blocks.keep (w.shift d).keepsBlock = ((s.prune w).shift d).blocks :=
    s.blocks.keep_map _ fun height => Window.keepsBlock_shift hw d (h.blocks height)
  have hvalues : (s.shift d).txs.values = s.txs.values.map (·.shift d) :=
    s.txs.values_map _
  have hcount : (w.shift d).countSent (s.shift d).txs.values = w.countSent s.txs.values := by
    rw [hvalues]
    exact Window.countSent_shift hw d fun t ht => h.of_mem_txs ht
  unfold prune at htxs hblocks ⊢
  rw [htxs, hblocks, hcount]
  rfl

/-- A shifted session has as many transactions and blocks. -/
theorem size_shift (s : Session) (d : ℤ) :
    (s.shift d).txs.size = s.txs.size ∧ (s.shift d).blocks.size = s.blocks.size :=
  ⟨Std.ExtTreeMap.size_map, Std.ExtTreeMap.size_map⟩

/-- In its send window a shifted session keeps what the session keeps, shifted. -/
theorem applyWindow_shift (h : s.NoLeap) (d : ℤ) :
    (s.shift d).applyWindow = s.applyWindow.map (·.shift d) := by
  unfold applyWindow
  rw [sendWindow_shift]
  cases hw : s.sendWindow with
  | error fault => rfl
  | ok w =>
    have hpruned := prune_shift h (h.sendWindow hw) d
    obtain ⟨htxs, hblocks⟩ := s.size_shift d
    obtain ⟨htxs', hblocks'⟩ := (s.prune w).size_shift d
    have hnotice : pruneNotice (s.shift d) ((s.prune w).shift d) = pruneNotice s (s.prune w) := by
      unfold pruneNotice
      rw [htxs, hblocks, htxs', hblocks']
    simp only [Except.map, hpruned, hnotice]
    rfl

end Session

/-! ## Figures -/

/-- A shifted session has the shifted block at each height. -/
theorem Session.blockAt_shift (s : Session) (d : ℤ) (height : Height) :
    (s.shift d).blockAt height = (s.blockAt height).map (·.shift d) :=
  Std.ExtTreeMap.getElem?_map

/-- A shifted transaction looks like the transaction. -/
theorem Transaction.alike_shift {s : Session} (h : s.NoLeap) (d : ℤ) {t : Transaction}
    (ht : ∀ time ∈ t.times, time.isLeap = false) :
    t.Alike s.blockAt (s.shift d).blockAt (t.shift d) := by
  have hblock : (t.shift d).block? (s.shift d).blockAt = (t.block? s.blockAt).map (·.shift d) := by
    unfold block? shift
    cases t.height with
    | none => rfl
    | some height => exact s.blockAt_shift d height
  refine ⟨Option.isSome_map, rfl, rfl, rfl, rfl, ?_, ?_, ?_, ?_⟩
  · unfold latency? shift
    cases hsend : t.sendTime with
    | none => rfl
    | some sent =>
      cases hcommit : t.commitTime with
      | none => rfl
      | some committed =>
        have hsent := ht sent (by simp [times, hsend])
        have hcommitted := ht committed (by simp [times, hcommit])
        exact congrArg some (Instant.elapsed_shift hsent hcommitted d)
  · unfold proposeTime?
    rw [hblock]
    cases hb : t.block? s.blockAt with
    | none => rfl
    | some b =>
      obtain ⟨height, -, hat⟩ := Option.bind_eq_some_iff.mp hb
      unfold shift Block.shift
      cases hreceive : t.receiveTime with
      | none => rfl
      | some received =>
        cases hpropose : b.proposeEnd with
        | none => simp [hpropose]
        | some ended =>
          have hreceived := ht received (by simp [times, hreceive])
          have hended := h.of_blockAt hat ended (by simp [Block.times, hpropose])
          simp [hpropose, Instant.elapsed_shift hreceived hended d]
  · unfold miningTime?
    rw [hblock]
    cases t.block? s.blockAt <;> rfl
  · unfold verifyTime?
    rw [hblock]
    cases t.block? s.blockAt <;> rfl

/-- A shifted block looks like the block. -/
theorem Block.alike_shift (d : ℤ) (b : Block) : b.Alike (b.shift d) := ⟨rfl, rfl, rfl⟩

section Lists

variable {w : Window} {txs : List Transaction} {blocks : List (Height × Block)}

/-- Shifted blocks have the same throughput. -/
theorem throughput_shift (h : ∀ e ∈ blocks, ∀ time ∈ e.2.times, time.isLeap = false) (d : ℤ) :
    throughput (blocks.map fun e => (e.1, e.2.shift d)) = throughput blocks := by
  have hcommitted : ∀ c ∈ CommittedBlock.ofBlocks blocks, c.time.isLeap = false := by
    intro c hc
    obtain ⟨b, hb, htime, -⟩ := CommittedBlock.mem_ofBlocks.mp hc
    exact h _ hb c.time (by simp [Block.times, htime])
  refine throughput_map (·.shift d) (fun height => height) (·.shift d) (fun _ => rfl)
    (fun _ => rfl) (fun a ha b hb => ?_) fun span hspan => ?_
  · -- the order compares two times
    rw [Bool.eq_iff_iff, CommittedBlock.notAfter_iff, CommittedBlock.notAfter_iff]
    unfold CommittedBlock.moved
    simp only [Instant.shift_lt_shift (hcommitted a ha) (hcommitted b hb),
      Instant.shift_inj (hcommitted a ha) (hcommitted b hb)]
  · obtain ⟨first, hfirst, last, hlast, -, hstart, hstop⟩ := CommitSpan.exists_ends hspan
    rw [hstart, hstop]
    exact Instant.elapsed_shift (hcommitted first hfirst) (hcommitted last hlast) d

/-- Shifted transactions have the same send rate. -/
theorem sendRate_shift (reported : SendWindow) (hw : w.NoLeap)
    (h : ∀ t ∈ txs, ∀ time ∈ t.times, time.isLeap = false) (d : ℤ) :
    sendRate (reported.shift d) (w.shift d) (txs.map (·.shift d)) = sendRate reported w txs := by
  unfold sendRate
  rw [Window.countSent_shift hw d h]
  unfold Window.shift
  rw [Instant.elapsed_shift hw.start hw.stop]
  rfl

/-- All metrics of a shifted session are the same. -/
theorem aggregate_shift {s : Session} (h : s.NoLeap) (hw : w.NoLeap) (d : ℤ)
    (htxs : ∀ t ∈ txs, ∀ time ∈ t.times, time.isLeap = false)
    (hblocks : ∀ e ∈ blocks, ∀ time ∈ e.2.times, time.isLeap = false) :
    Report.aggregate (s.shift d).window (w.shift d) (s.shift d).blockAt (txs.map (·.shift d))
        (blocks.map fun e => (e.1, e.2.shift d)) =
      Report.aggregate s.window w s.blockAt txs blocks :=
  Report.aggregate_map (fun height => height) (·.shift d)
    (fun t ht => Transaction.alike_shift h d (htxs t ht)) (Block.alike_shift d)
    (throughput_shift hblocks d) (Instant.elapsed_shift hw.start hw.stop d)
    (sendRate_shift s.window hw htxs d)

end Lists

/-! ## Reports -/

namespace Session

/-- A shifted session lists the shifted transactions and blocks under the same names and heights. -/
theorem toList_shift (s : Session) (d : ℤ) :
    (s.shift d).txs.toList = s.txs.toList.map (fun e => (e.1, e.2.shift d)) ∧
      (s.shift d).blocks.toList = s.blocks.toList.map fun e => (e.1, e.2.shift d) :=
  ⟨Std.ExtTreeMap.toList_map, Std.ExtTreeMap.toList_map⟩

/-- Two sessions that are left in their windows show the same in a report. -/
structure Windowed.ShowsAs (k k' : Windowed) : Prop where
  /-- The same transactions are kept. -/
  txs : k'.session.txs.keys = k.session.txs.keys
  /-- The same blocks are kept. -/
  blocks : k'.session.blocks.keys = k.session.blocks.keys
  /-- As many transactions count as sent. -/
  sentCount : k'.session.window.sentCount = k.session.window.sentCount
  /-- The report is the same. -/
  report : Report.ofSession k'.session k'.window = Report.ofSession k.session k.window
  /-- It has the same figures in whatever orders the entities are listed. -/
  listings : ∀ (l : k.session.Listing) (l' : k'.session.Listing),
    (l.report k.window).SameFigures (l'.report k'.window)

/-- What is kept of a session shows the same however the clock is set. -/
theorem Windowed.showsAs_shift {k : Windowed} (h : k.session.NoLeap) (hw : k.window.NoLeap)
    (d : ℤ) : k.ShowsAs (k.shift d) where
  txs := Std.ExtTreeMap.keys_map
  blocks := Std.ExtTreeMap.keys_map
  sentCount := rfl
  report := by
    have hvalues : (k.session.shift d).txs.values = k.session.txs.values.map (·.shift d) :=
      k.session.txs.values_map _
    unfold Report.ofSession Windowed.shift
    rw [hvalues, (k.session.toList_shift d).2,
      aggregate_shift h hw d (fun t ht => h.of_mem_txs ht) fun e he => h.of_mem_blocks he]
  listings := by
    intro l l'
    obtain ⟨htoList, hblocksToList⟩ := k.session.toList_shift d
    -- the entities are listed once each, here as they are and there shifted
    have htxs : ((l.txs.map (·.2)).map (·.shift d)).Perm (l'.txs.map (·.2)) := by
      have hentries := (l.txs_perm.map fun e => (e.1, e.2.shift d)).trans
        ((htoList ▸ l'.txs_perm).symm)
      have hvalues := hentries.map (·.2)
      rw [List.map_map] at hvalues
      rw [List.map_map]
      exact hvalues
    have hblocks : (l.blocks.map fun e => (e.1, e.2.shift d)).Perm l'.blocks :=
      (l.blocks_perm.map _).trans (hblocksToList ▸ l'.blocks_perm).symm
    have hdistinct : ((l.blocks.map fun e => (e.1, e.2.shift d)).map (·.1)).Nodup := by
      rw [(hblocks.map _).nodup_iff]
      exact l'.nodup_heights
    have hentries := Report.aggregate_perm (k.session.shift d).window (k.window.shift d)
      (k.session.shift d).blockAt htxs hblocks hdistinct
    rw [aggregate_shift h hw d] at hentries
    · exact hentries.ofList
    · intro t ht
      obtain ⟨e, he, rfl⟩ := List.mem_map.mp ht
      obtain ⟨-, hfind⟩ := Registry.mem_toList_iff.mp (l.txs_perm.mem_iff.mp he)
      exact hfind ▸ h.txs e.1
    · exact fun e he => h.of_mem_blocks (l.blocks_perm.mem_iff.mp he)

/-- A report does not show how the clock was set. If no time of a session lies in a leap second, and
all times are later by the same number of nanoseconds, the send window is found or fails to be found
in the same way, and what is kept in it shows the same in the report. -/
theorem report_shift {s : Session} (h : s.NoLeap) (d : ℤ) :
    (s.shift d).applyWindow = s.applyWindow.map (·.shift d) ∧
      ∀ kept, s.applyWindow = .ok kept → kept.ShowsAs (kept.shift d) := by
  refine ⟨applyWindow_shift h d, fun kept hkept => ?_⟩
  obtain ⟨hwindow, hsession, -⟩ := applyWindow_eq_ok_iff.mp hkept
  have hleft : kept.session.NoLeap := hsession ▸ h.prune kept.window
  exact Windowed.showsAs_shift hleft (h.sendWindow hwindow) d

/-- Two transactions are committed within a microsecond, the one of them less than a microsecond
after it was sent, and the window begins and ends within a microsecond as well. -/
def hastyEffects : List Effect :=
  [.openWindow ⟨1609459199, 999999999⟩, .send "a" ⟨1609459200, 1⟩, .send "b" ⟨1609459200, 2⟩,
    .receive "a" ⟨1609459200, 1⟩, .commit 7 ⟨1609459200, 999⟩ ["a"],
    .endProposal 7 ⟨1609459200, 1002⟩, .commit 8 ⟨1609459200, 1000⟩ ["b"],
    .closeWindow ⟨1609459200, 1001⟩ none]

/-- The hasty session keeps both transactions, and its report is the same on a clock that is set
back by a second and a half and one nanosecond. -/
theorem report_shift_hasty :
    (empty.applyAll hastyEffects).NoLeap ∧ ∃ kept,
      (empty.applyAll hastyEffects).applyWindow = .ok kept ∧ kept.session.txs.size = 2 ∧
        ((empty.applyAll hastyEffects).shift (-1500000001)).applyWindow =
          .ok (kept.shift (-1500000001)) ∧ kept.ShowsAs (kept.shift (-1500000001)) := by
  have hnoLeap : (empty.applyAll hastyEffects).NoLeap := EveryTime.empty.applyAll (by decide)
  obtain ⟨hshift, hshows⟩ := report_shift hnoLeap (-1500000001)
  refine ⟨hnoLeap, _, rfl, ?_, hshift, hshows _ rfl⟩
  decide +kernel

end Session

end LedgerBench
