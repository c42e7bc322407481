import LedgerBench.Proofs.Ledger.Times
import LedgerBench.Proofs.Report.CommitOrder
import LedgerBench.Proofs.Report.Consistency
import LedgerBench.Proofs.Time.Ordinary

/-!
# Measured intervals fit the window

A report measures three kinds of intervals: the latencies of transactions, the span of commits, and
the window itself. What is left in a window was sent and committed between its ends, by strict
comparisons of nanoseconds; the intervals are cut off to microseconds, toward zero and not downward.
The order of the intervals survives the cut (`Instant.microsBetween_mono`), so no latency and no
span is longer than the window (`Session.Windowed.fits`). A latency may be negative, though, when
clocks disagree, and so may the length of a window in which nothing is left.

`analyze_intervals` says this of every analysis that succeeds on ordinary timestamps.
-/

namespace LedgerBench

/-- The intervals that are measured in what is left of a session fit its window. -/
structure Session.Windowed.Fits (k : Windowed) : Prop where
  /-- The report gives the length of the window in microseconds. -/
  duration : (Report.ofSession k.session k.window).get? "window_duration" =
    some (.duration (Float.ofInt (k.window.start.microsBetween k.window.stop)))
  /-- A latency is the time from the sending of a transaction to its commit. It is not longer than
  the window, as a whole number or as a double. -/
  latency : ∀ us ∈ (TxSamples.collect k.session.blockAt k.session.txs.values).latency,
    ∃ t ∈ k.session.txs.values, ∃ sent committed, t.sendTime = some sent ∧
      t.commitTime = some committed ∧ us = Float.ofInt (sent.microsBetween committed) ∧
        sent.microsBetween committed ≤ k.window.start.microsBetween k.window.stop ∧
          us ≤ Float.ofInt (k.window.start.microsBetween k.window.stop)
  /-- The span of commits is not negative and not longer than the window. -/
  span : ∀ span, CommitSpan.ofBlocks? k.session.blocks.toList = some span →
    span.start.elapsed span.stop = Float.ofInt (span.start.microsBetween span.stop) ∧
      0 ≤ span.start.microsBetween span.stop ∧
        span.start.microsBetween span.stop ≤ k.window.start.microsBetween k.window.stop
  /-- If anything is left in the window, its length is not negative. -/
  nonneg : k.session.txs.values ≠ [] ∨ k.session.blocks.toList ≠ [] →
    0 ≤ k.window.start.microsBetween k.window.stop

/-! ## Reports -/

/-- The length of the window is among the metrics of a report. -/
theorem get?_windowDuration (s : Session) (w : Window) :
    (Report.ofSession s w).get? "window_duration" =
      some (.duration (w.start.elapsed w.stop)) := by
  rw [get?_ofSession s w (by decide), Report.get?_ofList]
  rfl

namespace Session

variable {s : Session} {w : Window} (hleft : (s.prune w).EveryTime Instant.IsOrdinary)
  (hstart : w.start.IsOrdinary) (hstop : w.stop.IsOrdinary)

include hleft hstart hstop

/-- A latency is not longer than the window: the transaction was not sent before the window began,
and it was committed before the window ended, perhaps even before it was sent. -/
theorem latency_le_window {t : Transaction} (ht : t ∈ (s.prune w).txs.values) {us : Float}
    (hus : t.latency? = some us) : ∃ sent committed, t.sendTime = some sent ∧
      t.commitTime = some committed ∧ us = Float.ofInt (sent.microsBetween committed) ∧
        sent.microsBetween committed ≤ w.start.microsBetween w.stop ∧
          us ≤ Float.ofInt (w.start.microsBetween w.stop) := by
  obtain ⟨sent, hsend, hus⟩ := Option.bind_eq_some_iff.mp hus
  obtain ⟨committed, hcommit, hus⟩ := Option.bind_eq_some_iff.mp hus
  cases hus
  have hsent : sent.IsOrdinary := hleft.of_mem_txs ht sent (by simp [Transaction.times, hsend])
  have hcommitted : committed.IsOrdinary :=
    hleft.of_mem_txs ht committed (by simp [Transaction.times, hcommit])
  obtain ⟨hinside, hintime, -⟩ := Window.keepsTx_iff.mp ((mem_values_prune s w).mp ht).2
  obtain ⟨_, hsend', hafter, -⟩ := Window.sentInside_iff.mp hinside
  cases hsend.symm.trans hsend'
  have hbefore := Window.committedInTime_iff.mp hintime committed hcommit
  have hmicros : sent.microsBetween committed ≤ w.start.microsBetween w.stop :=
    Instant.microsBetween_le_of_inside hstart.isLeap hsent.isLeap hcommitted.isLeap hstop.isLeap
      (Instant.le_of_lt hafter) (Instant.le_of_lt hbefore)
  have hword : ((2 : ℤ) ^ 60) ≤ 2 ^ 1023 := pow_le_pow_right₀ one_le_two (by norm_num)
  rw [Instant.elapsed_eq hsent hcommitted]
  exact ⟨sent, committed, hsend, hcommit, rfl, hmicros,
    ofInt_le_ofInt ((hsent.abs_microsBetween_le hcommitted).trans hword)
      ((hstart.abs_microsBetween_le hstop).trans hword) hmicros⟩

/-- The span of commits begins and ends inside the window, and it does not run backward. -/
theorem span_le_window {span : CommitSpan}
    (hspan : CommitSpan.ofBlocks? (s.prune w).blocks.toList = some span) :
    span.start.elapsed span.stop = Float.ofInt (span.start.microsBetween span.stop) ∧
      0 ≤ span.start.microsBetween span.stop ∧
        span.start.microsBetween span.stop ≤ w.start.microsBetween w.stop := by
  have hinside : ∀ c ∈ CommittedBlock.ofBlocks (s.prune w).blocks.toList,
      c.time.IsOrdinary ∧ w.start < c.time ∧ c.time < w.stop := by
    intro c hc
    obtain ⟨b, hb, htime, -⟩ := CommittedBlock.mem_ofBlocks.mp hc
    obtain ⟨committed, hcommit, hafter, hbefore⟩ :=
      Window.keepsBlock_iff.mp ((mem_blocks_prune s w).mp hb).2
    cases htime.symm.trans hcommit
    exact ⟨hleft.of_mem_blocks hb _ (by simp [Block.times, htime]), hafter, hbefore⟩
  obtain ⟨first, hfirst, last, hlast, horder, hstart', hstop'⟩ := CommitSpan.exists_ends hspan
  obtain ⟨hfirst, hafter, -⟩ := hinside first hfirst
  obtain ⟨hlast, -, hbefore⟩ := hinside last hlast
  rw [hstart', hstop']
  refine ⟨Instant.elapsed_eq hfirst hlast, ?_, ?_⟩
  · exact Instant.microsBetween_nonneg hfirst.isLeap hlast.isLeap
      (CommittedBlock.le_of_notAfter horder)
  · exact Instant.microsBetween_le_of_inside hstart.isLeap hfirst.isLeap hlast.isLeap hstop.isLeap
      (Instant.le_of_lt hafter) (Instant.le_of_lt hbefore)

omit hleft in
/-- A window in which something is left does not run backward. -/
theorem window_nonneg (h : (s.prune w).txs.values ≠ [] ∨ (s.prune w).blocks.toList ≠ []) :
    0 ≤ w.start.microsBetween w.stop := by
  have hinside : ∃ time, w.start < time ∧ time < w.stop := by
    rcases h with htxs | hblocks
    · obtain ⟨t, ht⟩ := List.exists_mem_of_ne_nil _ htxs
      obtain ⟨hinside, -⟩ := Window.keepsTx_iff.mp ((mem_values_prune s w).mp ht).2
      obtain ⟨sent, -, hinside⟩ := Window.sentInside_iff.mp hinside
      exact ⟨sent, hinside⟩
    · obtain ⟨e, he⟩ := List.exists_mem_of_ne_nil _ hblocks
      obtain ⟨committed, -, hinside⟩ :=
        Window.keepsBlock_iff.mp ((mem_blocks_prune s w).mp he).2
      exact ⟨committed, hinside⟩
  obtain ⟨time, hafter, hbefore⟩ := hinside
  exact Instant.microsBetween_nonneg hstart.isLeap hstop.isLeap
    (Instant.le_trans (Instant.le_of_lt hafter) (Instant.le_of_lt hbefore))

omit hleft hstart hstop in
/-- What is left of a session with ordinary times fits its window. -/
theorem Windowed.fits {kept : Windowed} (h : s.EveryTime Instant.IsOrdinary)
    (hkept : s.applyWindow = .ok kept) : kept.Fits := by
  obtain ⟨hw, hsession, -⟩ := applyWindow_eq_ok_iff.mp hkept
  obtain ⟨hstart, hstop⟩ := h.of_sendWindow hw
  have hleft := h.prune kept.window
  constructor
  · rw [get?_windowDuration, Instant.elapsed_eq hstart hstop]
  · intro us hus
    rw [hsession] at hus ⊢
    obtain ⟨t, ht, hlatency⟩ := List.mem_filterMap.mp hus
    have ht := List.mem_of_mem_filter ht
    exact ⟨t, ht, latency_le_window hleft hstart hstop ht hlatency⟩
  · rw [hsession]
    exact fun span hspan => span_le_window hleft hstart hstop hspan
  · rw [hsession]
    exact window_nonneg hstart hstop

end Session

/-- Measured intervals fit inside the window. The time between two ordinary instants is a whole
number of microseconds, the difference in nanoseconds cut off toward zero; it changes its sign with
the direction, grows with the later instant and shrinks with the earlier one. So if an analysis
succeeds, and all accepted timestamps are ordinary, no latency is longer than the window, nor is the
span of commits, which does not run backward; and neither does the window if anything is left in
it. -/
theorem analyze_intervals {inputs : List Input} {report : Report}
    (h : (analyze inputs).outcome = .ok report)
    (hordinary : ∀ r ∈ absorbedRecords inputs, ∀ e, r.Tells e → ∀ time ∈ e.time?, time.IsOrdinary) :
    (∀ a b c : Instant, a.IsOrdinary → b.IsOrdinary → c.IsOrdinary → Instant.Intervals a b c) ∧
      ∃ kept, (Session.empty.absorb inputs).session.applyWindow = .ok kept ∧
        report = .ofSession kept.session kept.window ∧ kept.Fits := by
  refine ⟨fun a b c ha hb hc => Instant.intervals ha hb hc, ?_⟩
  obtain ⟨-, w, hw, rfl⟩ := analyze_eq_ok_iff.mp h
  obtain ⟨vs, happly⟩ := Session.empty.applyRecords_absorbedRecords inputs
  obtain ⟨effects, htold, hs⟩ := Session.told_of_applyRecords happly
  have htimes : (Session.empty.absorb inputs).session.EveryTime Instant.IsOrdinary := by
    rw [hs]
    refine Session.EveryTime.empty.applyAll fun e he => ?_
    obtain ⟨r, hr, htells⟩ := htold.exists_tells he
    exact hordinary r hr e htells
  generalize (Session.empty.absorb inputs).session = s at hw htimes ⊢
  have hkept : s.applyWindow = .ok ⟨w, s.prune w, s.pruneNotice (s.prune w)⟩ :=
    Session.applyWindow_eq_ok_iff.mpr ⟨hw, rfl, rfl⟩
  exact ⟨_, hkept, rfl, Session.Windowed.fits htimes hkept⟩

/-- The log of a client whose clocks disagree: its first transaction was committed a microsecond and
a half before it was sent. Most times are no whole microseconds. -/
def skewedLog : List Char :=
  Log.eventLine "start-send-tx" "2021-01-01T00:00:00.000000001Z" "" ++
    Log.eventLine "tx_begin" "2021-01-01T00:00:01.0000015Z" "\"tx_id\":\"a\"" ++
    Log.eventLine "tx_begin" "2021-01-01T00:00:01Z" "\"tx_id\":\"b\"" ++
    Log.eventLine "tx_commit" "2021-01-01T00:00:01Z" "\"height\":7,\"tx_ids\":[\"a\"]" ++
    Log.eventLine "tx_commit" "2021-01-01T00:00:02.0000005Z" "\"height\":8,\"tx_ids\":[\"b\"]" ++
    Log.eventLine "end-send-tx" "2021-01-01T00:00:09.0000015Z" ""

/-- The entries of its log. -/
def skewedEntries : List Entry :=
  [⟨1, .event "start-send-tx" "2021-01-01T00:00:00.000000001Z" []⟩,
    ⟨2, .event "tx_begin" "2021-01-01T00:00:01.0000015Z" [("tx_id", .text "a")]⟩,
    ⟨3, .event "tx_begin" "2021-01-01T00:00:01Z" [("tx_id", .text "b")]⟩,
    ⟨4, .event "tx_commit" "2021-01-01T00:00:01Z"
      [("height", .number (.integer 7)), ("tx_ids", .array [.text "a"])]⟩,
    ⟨5, .event "tx_commit" "2021-01-01T00:00:02.0000005Z"
      [("height", .number (.integer 8)), ("tx_ids", .array [.text "b"])]⟩,
    ⟨6, .event "end-send-tx" "2021-01-01T00:00:09.0000015Z" []⟩]

/-- The log of the client. -/
def skewedInput : Input := ⟨⟨"client.log", .client⟩, .ok (.ofList skewedLog)⟩

set_option maxRecDepth 10000 in
/-- The log is read. -/
theorem load_skewedInput :
    [skewedInput].mapM Input.load = .ok [⟨skewedInput.source, skewedEntries⟩] :=
  mapM_eq_ok.mpr (.cons (Input.load_eq_ok.mpr ⟨_, _, rfl, (Log.read_ofList _).trans rfl, rfl⟩) .nil)

/-- What its records tell. -/
def skewedEffects : List Effect :=
  [.openWindow ⟨1609459200, 1⟩, .send "a" ⟨1609459201, 1500⟩, .send "b" ⟨1609459201, 0⟩,
    .commit 7 ⟨1609459201, 0⟩ ["a"], .commit 8 ⟨1609459202, 500⟩ ["b"],
    .closeWindow ⟨1609459209, 1500⟩ none]

/-- All its records are applied. -/
theorem told_skewedEffects : Told (absorbedRecords [skewedInput]) skewedEffects := by
  have hjudge : Judges (skewedEntries.map fun entry => ⟨.client, entry.record⟩)
      (skewedEffects.map .applied) :=
    .cons rfl (.cons rfl (.cons rfl (.cons rfl (.cons rfl (.cons rfl .nil)))))
  have hall : [(⟨skewedInput.source, skewedEntries⟩ : Stream)].flatMap Stream.records =
      (skewedEntries.map fun entry => ⟨.client, entry.record⟩) ++ [] := rfl
  rw [absorbedRecords_eq_takeWhile load_skewedInput, hall, hjudge.takeWhile_append]
  exact (List.append_nil _).symm ▸ hjudge.told

/-- Its times are ordinary. -/
theorem isOrdinary_skewedEffects :
    ∀ e ∈ skewedEffects, ∀ time ∈ e.time?, time.IsOrdinary := by
  have hread : ∀ (text : String) (time : Instant),
      Timestamp.readZoned text.toList = .ok time → time.isLeap = false → time.IsOrdinary :=
    fun _ _ => Timestamp.readZoned_isOrdinary
  intro e he time htime
  simp only [skewedEffects, List.mem_cons, List.not_mem_nil, or_false] at he
  rcases he with rfl | rfl | rfl | rfl | rfl | rfl <;> cases htime
  · exact hread "2021-01-01T00:00:00.000000001Z" _ rfl rfl
  · exact hread "2021-01-01T00:00:01.0000015Z" _ rfl rfl
  · exact hread "2021-01-01T00:00:01Z" _ rfl rfl
  · exact hread "2021-01-01T00:00:01Z" _ rfl rfl
  · exact hread "2021-01-01T00:00:02.0000005Z" _ rfl rfl
  · exact hread "2021-01-01T00:00:09.0000015Z" _ rfl rfl

/-- Both transactions are left, and the intervals fit the window, which has 9,000,001 microseconds.
The first latency is -1.5 microseconds, cut off to -1. -/
theorem analyze_intervals_skewed : ∃ report kept,
    (analyze [skewedInput]).outcome = .ok report ∧
      (∀ r ∈ absorbedRecords [skewedInput], ∀ e, r.Tells e → ∀ time ∈ e.time?, time.IsOrdinary) ∧
      (Session.empty.absorb [skewedInput]).session.applyWindow = .ok kept ∧ kept.Fits ∧
        kept.window.start.microsBetween kept.window.stop = 9000001 ∧
          kept.session.txs.values.map (fun t => (t.sendTime, t.commitTime)) =
            [(some ⟨1609459201, 1500⟩, some ⟨1609459201, 0⟩),
              (some ⟨1609459201, 0⟩, some ⟨1609459202, 500⟩)] ∧
            Instant.microsBetween ⟨1609459201, 1500⟩ ⟨1609459201, 0⟩ = -1 := by
  have hreport : ∃ report, (analyze [skewedInput]).outcome = .ok report := by
    simp only [analyze_eq_ok_iff, absorb_eq_replayAll load_skewedInput]
    exact ⟨_, rfl, _, rfl, rfl⟩
  obtain ⟨report, hreport⟩ := hreport
  have hordinary : ∀ r ∈ absorbedRecords [skewedInput], ∀ e, r.Tells e →
      ∀ time ∈ e.time?, time.IsOrdinary :=
    fun r hr e he => isOrdinary_skewedEffects e (told_skewedEffects.mem_of_tells hr he)
  obtain ⟨-, kept, hkept, -, hfits⟩ := analyze_intervals hreport hordinary
  refine ⟨report, kept, hreport, hordinary, hkept, hfits, ?_⟩
  rw [absorb_eq_replayAll load_skewedInput] at hkept
  cases hkept
  exact ⟨rfl, by decide +kernel, rfl⟩

end LedgerBench
