import LedgerBench.Ledger.Replay
import LedgerBench.Ledger.Window
import LedgerBench.Report.Aggregate

/-!
# The analysis of a benchmark

From the logs of a benchmark to the report: replay the records, drop what lies outside the send
window, and draw up the metrics.
-/

namespace LedgerBench

/-- What an analysis has to say. -/
structure Analysis where
  /-- The notices in order. -/
  notices : List Notice
  /-- The report, or what stopped the analysis. -/
  outcome : Except Fault Report

/-- Analyses the logs of a benchmark. -/
def analyze (inputs : List Input) : Analysis :=
  let replay := Session.empty.absorb inputs
  match replay.outcome with
  | .error fault => ⟨replay.notices, .error fault⟩
  | .ok () =>
    let notices := replay.notices ++ [.loaded]
    match replay.session.applyWindow with
    | .error fault => ⟨notices, .error fault⟩
    | .ok kept =>
      ⟨notices ++ [kept.notice, .aggregated], .ok (.ofSession kept.session kept.window)⟩

end LedgerBench
