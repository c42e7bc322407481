import LedgerBench.Ledger.Window
import LedgerBench.Proofs.Ledger.Registry

/-!
# What a window keeps

A window keeps a transaction that was sent inside the window, was not committed too late, and has a
known fate (`Window.keepsTx_iff`), and a block that was committed inside it
(`Window.keepsBlock_iff`). What is left of a session in a window is what the window keeps
(`mem_values_prune`, `mem_blocks_prune`). Proofs about pruned sessions use these instead of the
tests themselves.
-/

namespace LedgerBench

namespace Window

variable {w : Window} {t : Transaction} {b : Block}

/-- A time lies inside a window if it comes after its beginning and before its end. -/
theorem contains_iff {time : Instant} :
    w.contains time = true ↔ w.start < time ∧ time < w.stop := by
  unfold contains
  rw [Bool.and_eq_true, decide_eq_true_eq, decide_eq_true_eq]

/-- A transaction was sent inside a window if its send time lies there. -/
theorem sentInside_iff :
    w.sentInside t = true ↔ ∃ sent, t.sendTime = some sent ∧ w.start < sent ∧ sent < w.stop := by
  unfold sentInside
  cases t.sendTime with
  | none => simp
  | some sent => simp [contains_iff]

/-- A transaction was not committed too late if it was committed before the window ended, or not at
all. -/
theorem committedInTime_iff : w.committedInTime t = true ↔
    ∀ committed, t.commitTime = some committed → committed < w.stop := by
  unfold committedInTime
  cases t.commitTime with
  | none => simp
  | some committed => simp

/-- A transaction is kept if it passes the three tests. -/
theorem keepsTx_iff : w.keepsTx t = true ↔
    w.sentInside t = true ∧ w.committedInTime t = true ∧ t.isResolved = true := by
  unfold keepsTx
  rw [Bool.and_eq_true, Bool.and_eq_true, and_assoc]

/-- A block is kept if its commit time lies inside the window. -/
theorem keepsBlock_iff : w.keepsBlock b = true ↔
    ∃ committed, b.commitTime = some committed ∧ w.start < committed ∧ committed < w.stop := by
  unfold keepsBlock
  cases b.commitTime with
  | none => simp
  | some committed => simp [contains_iff]

end Window

section Prune

variable (s : Session) (w : Window)

/-- A transaction that is left has passed the test of the window. -/
theorem mem_values_prune {t : Transaction} :
    t ∈ (s.prune w).txs.values ↔ t ∈ s.txs.values ∧ w.keepsTx t = true := by
  unfold Session.prune
  rw [Registry.values_keep, List.mem_filter]

/-- A block that is left has passed the test of the window. -/
theorem mem_blocks_prune {e : Height × Block} :
    e ∈ (s.prune w).blocks.toList ↔ e ∈ s.blocks.toList ∧ w.keepsBlock e.2 = true := by
  unfold Session.prune Registry.keep
  dsimp only
  rw [Std.ExtTreeMap.toList_filter, List.mem_filter]

end Prune

end LedgerBench
