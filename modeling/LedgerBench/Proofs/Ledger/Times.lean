import LedgerBench.Ledger.Window
import LedgerBench.Proofs.Ledger.Records
import LedgerBench.Proofs.Ledger.Writes
import LedgerBench.Proofs.Time.Range

/-!
# The times of a session

A session holds no other times than those that effects record: the ends of the send window, the
times of transactions, and the times of blocks. So what is true of the time of every effect is true
of every time of the session (`Session.EveryTime.applyAll`), and it stays true when entities are
dropped (`Session.EveryTime.prune`). Effects that records tell have the times that were read from
them, so all times of such a session lie in the range of timestamps (`Session.EveryTime.of_told`).
-/

namespace LedgerBench

/-- The times of a send window. -/
def SendWindow.times (w : SendWindow) : List Instant := w.start.toList ++ w.stop.toList

/-- The times of a transaction. -/
def Transaction.times (t : Transaction) : List Instant :=
  t.sendTime.toList ++ t.receiveTime.toList ++ t.commitTime.toList

/-- The times of a block. -/
def Block.times (b : Block) : List Instant := b.commitTime.toList ++ b.proposeEnd.toList

/-- The property holds of every time of a session. -/
structure Session.EveryTime (P : Instant → Prop) (s : Session) : Prop where
  /-- It holds of the times of the send window. -/
  window : ∀ time ∈ s.window.times, P time
  /-- It holds of the times of every transaction. -/
  txs : ∀ id, ∀ time ∈ (s.tx id).times, P time
  /-- It holds of the times of every block. -/
  blocks : ∀ height, ∀ time ∈ (s.block height).times, P time

namespace Effect

variable {e : Effect} {time : Instant}

/-- An effect writes its own time to a send window, or none. -/
theorem mem_times_onWindow {w : SendWindow} (h : time ∈ (e.onWindow w).times) :
    time ∈ e.time? ∨ time ∈ w.times := by
  unfold SendWindow.times at *
  cases e <;> grind [onWindow, time?]

/-- An effect writes its own time to a transaction, or none. -/
theorem mem_times_onTx {id : TxId} {t : Transaction} (h : time ∈ (e.onTx id t).times) :
    time ∈ e.time? ∨ time ∈ t.times := by
  unfold Transaction.times at *
  cases e <;> grind [onTx, time?]

/-- An effect writes its own time to a block, or none. -/
theorem mem_times_onBlock {height : Height} {b : Block} (h : time ∈ (e.onBlock height b).times) :
    time ∈ e.time? ∨ time ∈ b.times := by
  unfold Block.times at *
  cases e <;> grind [onBlock, time?]

end Effect

namespace Session.EveryTime

variable {P : Instant → Prop} {s : Session}

/-- Before any record there is no time. -/
theorem empty : Session.empty.EveryTime P where
  window := by
    intro time htime
    cases htime
  txs := by
    intro id time htime
    rw [tx_empty] at htime
    cases htime
  blocks := by
    intro height time htime
    rw [block_empty] at htime
    cases htime

/-- An effect adds its own time only. -/
theorem apply (h : s.EveryTime P) {e : Effect} (he : ∀ time ∈ e.time?, P time) :
    (s.apply e).EveryTime P where
  window := by
    intro time htime
    rw [window_apply] at htime
    exact (Effect.mem_times_onWindow htime).elim (he time) (h.window time)
  txs := by
    intro id time htime
    rw [tx_apply] at htime
    exact (Effect.mem_times_onTx htime).elim (he time) (h.txs id time)
  blocks := by
    intro height time htime
    rw [block_apply] at htime
    exact (Effect.mem_times_onBlock htime).elim (he time) (h.blocks height time)

/-- Effects add their own times only. -/
theorem applyAll (h : s.EveryTime P) {effects : List Effect}
    (heffects : ∀ e ∈ effects, ∀ time ∈ e.time?, P time) :
    (s.applyAll effects).EveryTime P := by
  induction effects generalizing s with
  | nil => exact h
  | cons e effects ih =>
    exact ih (h.apply (heffects e List.mem_cons_self)) fun e' he' =>
      heffects e' (List.mem_cons_of_mem _ he')

/-- An entity that is listed has only times of the session. -/
theorem of_mem_txs (h : s.EveryTime P) {t : Transaction} (ht : t ∈ s.txs.values) :
    ∀ time ∈ t.times, P time := by
  obtain ⟨id, rfl⟩ := Registry.exists_find_of_mem_values ht
  exact h.txs id

/-- A block that is listed has only times of the session. -/
theorem of_mem_blocks (h : s.EveryTime P) {e : Height × Block} (he : e ∈ s.blocks.toList) :
    ∀ time ∈ e.2.times, P time := by
  obtain ⟨-, hfind⟩ := Registry.mem_toList_iff.mp he
  exact hfind ▸ h.blocks e.1

/-- So has the block at a height. -/
theorem of_blockAt (h : s.EveryTime P) {height : Height} {b : Block}
    (hb : s.blockAt height = some b) : ∀ time ∈ b.times, P time := by
  have hfind : s.block height = b := by
    unfold block Registry.find
    unfold blockAt at hb
    rw [hb]
    rfl
  exact hfind ▸ h.blocks height

/-- The ends of a window that the client has told are times of the session. -/
theorem of_sendWindow (h : s.EveryTime P) {w : Window} (hw : s.sendWindow = .ok w) :
    P w.start ∧ P w.stop := by
  unfold sendWindow at hw
  split at hw
  · cases hw
  · cases hw
  · rename_i start stop hstart hstop
    cases hw
    exact ⟨h.window start (by simp [SendWindow.times, hstart]),
      h.window stop (by simp [SendWindow.times, hstop])⟩

/-- What is left in a window has only times of the session. -/
theorem prune (h : s.EveryTime P) (w : Window) : (s.prune w).EveryTime P where
  window := h.window
  txs := by
    intro id
    have hfind : (s.prune w).tx id = if w.keepsTx (s.tx id) then s.tx id else default :=
      s.txs.find_keep rfl id
    rw [hfind]
    split
    · exact h.txs id
    · exact fun _ htime => by cases htime
  blocks := by
    intro height
    have hfind : (s.prune w).block height =
        if w.keepsBlock (s.block height) then s.block height else default :=
      s.blocks.find_keep rfl height
    rw [hfind]
    split
    · exact h.blocks height
    · exact fun _ htime => by cases htime

/-- The times of a session of records lie in the range of timestamps. -/
theorem of_told {run : List StreamRecord} {effects : List Effect} (h : Told run effects) :
    (Session.empty.applyAll effects).EveryTime Instant.InRange := by
  refine empty.applyAll fun e he time htime => ?_
  obtain ⟨r, -, htells⟩ := h.exists_tells he
  exact Record.Tells.inRange htells htime

end Session.EveryTime

end LedgerBench
