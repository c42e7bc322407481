import LedgerBench.Fault
import LedgerBench.Ledger.Notice
import LedgerBench.Ledger.Session

/-!
# The send window

A report is about what lies strictly between the times at which the client began and ended to send:
transactions sent inside the window, whose fate is known and which were not committed after it, and
blocks committed inside it.
-/

namespace LedgerBench

/-- A span of time; neither end belongs to it. -/
structure Window where
  /-- When it begins. -/
  start : Instant
  /-- When it ends. -/
  stop : Instant
deriving Repr, DecidableEq

namespace Window

/-- Whether an instant lies inside the window. -/
def contains (w : Window) (t : Instant) : Bool := w.start < t && t < w.stop

/-- Whether a transaction was sent inside the window. -/
def sentInside (w : Window) (t : Transaction) : Bool :=
  match t.sendTime with
  | some time => w.contains time
  | none => false

/-- The number of transactions that were sent inside the window. -/
def countSent (w : Window) (txs : List Transaction) : Nat := txs.countP w.sentInside

/-- Whether a transaction was committed before the window ended, or not at all. -/
def committedInTime (w : Window) (t : Transaction) : Bool :=
  match t.commitTime with
  | some time => time < w.stop
  | none => true

/-- Whether a transaction belongs to the report. -/
def keepsTx (w : Window) (t : Transaction) : Bool :=
  w.sentInside t && w.committedInTime t && t.isResolved

/-- Whether a block belongs to the report. -/
def keepsBlock (w : Window) (b : Block) : Bool :=
  match b.commitTime with
  | some time => w.contains time
  | none => false

end Window

namespace Session

/-- The send window, if the client has told both its ends. -/
def sendWindow (s : Session) : Except Fault Window :=
  match s.window.start, s.window.stop with
  | none, _ => .error .noStart
  | some _, none => .error .noStop
  | some start, some stop => .ok ⟨start, stop⟩

/-- Drops what does not belong to the report of a window, after counting the transactions sent
inside it. -/
def prune (s : Session) (w : Window) : Session where
  blocks := s.blocks.keep w.keepsBlock
  txs := s.txs.keep w.keepsTx
  window := { s.window with sentCount := some (w.countSent s.txs.values) }

/-- The notice about dropping, given the session before and after. -/
def pruneNotice (before after : Session) : Notice :=
  .windowApplied after.blocks.size (before.blocks.size - after.blocks.size) after.txs.size
    (before.txs.size - after.txs.size)

/-- What is left of a session in its send window. -/
structure Windowed where
  /-- The window. -/
  window : Window
  /-- The session without what lies outside. -/
  session : Session
  /-- The notice about it. -/
  notice : Notice

/-- Drops what does not belong to the report of the send window. -/
def applyWindow (s : Session) : Except Fault Windowed :=
  match s.sendWindow with
  | .error fault => .error fault
  | .ok w => .ok ⟨w, s.prune w, pruneNotice s (s.prune w)⟩

end Session

end LedgerBench
