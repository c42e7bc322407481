import LedgerBench.Proofs.Ledger.InPlace
import LedgerBench.Proofs.Report.Counts
import LedgerBench.Proofs.Report.Survivors

/-!
# Dropping what lies outside the send window

Dropping removes entities and takes a count, and does nothing else (`Session.Drops`). What a window
keeps, each wider window keeps as well (`Window.keepsTx_mono`, `Window.keepsBlock_mono`), so
dropping for a wider window first makes no difference to what is left (`prune_prune`). Only the
count tells the two apart, since it is taken before anything is dropped.

`Session.windowInPlace` carries the dropping out in place: it reads the markers, writes the count,
drops the blocks and then the transactions. `Session.applyWindow_prunes` shows that it is
`Session.applyWindow`, that it changes nothing if a marker is missing, and what it does otherwise.
-/

namespace LedgerBench

/-! ## Wider windows -/

namespace Window

/-- A window lies inside another one. -/
structure Within (inner outer : Window) : Prop where
  /-- It does not begin earlier. -/
  start : outer.start ≤ inner.start
  /-- It does not end later. -/
  stop : inner.stop ≤ outer.stop

/-- Every window lies inside itself. -/
theorem Within.refl (w : Window) : w.Within w :=
  ⟨(Instant.le_total w.start w.start).elim id id, (Instant.le_total w.stop w.stop).elim id id⟩

variable {inner outer : Window}

/-- A transaction that was sent inside a window was sent inside every wider one. -/
theorem sentInside_mono {t : Transaction} (h : inner.Within outer)
    (hsent : inner.sentInside t = true) : outer.sentInside t = true := by
  obtain ⟨sent, htime, hstart, hstop⟩ := sentInside_iff.mp hsent
  exact sentInside_iff.mpr ⟨sent, htime, Instant.lt_of_le_of_lt h.start hstart,
    Instant.lt_of_lt_of_le hstop h.stop⟩

/-- A transaction that a window keeps is kept by every wider one. -/
theorem keepsTx_mono {t : Transaction} (h : inner.Within outer) (hkept : inner.keepsTx t = true) :
    outer.keepsTx t = true := by
  obtain ⟨hsent, hintime, hresolved⟩ := keepsTx_iff.mp hkept
  refine keepsTx_iff.mpr ⟨sentInside_mono h hsent, ?_, hresolved⟩
  exact committedInTime_iff.mpr fun committed htime =>
    Instant.lt_of_lt_of_le (committedInTime_iff.mp hintime committed htime) h.stop

/-- A block that a window keeps is kept by every wider one. -/
theorem keepsBlock_mono {b : Block} (h : inner.Within outer) (hkept : inner.keepsBlock b = true) :
    outer.keepsBlock b = true := by
  obtain ⟨committed, htime, hstart, hstop⟩ := keepsBlock_iff.mp hkept
  exact keepsBlock_iff.mpr ⟨committed, htime, Instant.lt_of_le_of_lt h.start hstart,
    Instant.lt_of_lt_of_le hstop h.stop⟩

end Window

/-- The client has told both ends of a window. -/
structure SendWindow.Marks (m : SendWindow) (w : Window) : Prop where
  /-- It has told the beginning. -/
  start : m.start = some w.start
  /-- It has told the end. -/
  stop : m.stop = some w.stop

namespace Session

variable {s : Session} {w : Window}

/-! ## What is dropped -/

/-- What is left in a window when everything outside is dropped. -/
structure Drops (w : Window) (s s' : Session) : Prop where
  /-- The blocks that are left are those that were committed inside the window, as they were. -/
  block : ∀ (height : Height) (b : Block), s'.blocks[height]? = some b ↔ s.blocks[height]? = some b ∧
    ∃ committed, b.commitTime = some committed ∧ w.start < committed ∧ committed < w.stop
  /-- The transactions that are left are those that were sent inside the window, not committed too
  late and have a known fate, as they were. -/
  tx : ∀ (id : TxId) (t : Transaction), s'.txs[id]? = some t ↔ s.txs[id]? = some t ∧
    (∃ sent, t.sendTime = some sent ∧ w.start < sent ∧ sent < w.stop) ∧
      (∀ committed, t.commitTime = some committed → committed < w.stop) ∧ t.isResolved = true
  /-- The beginning of the window stays. -/
  start : s'.window.start = s.window.start
  /-- Its end stays. -/
  stop : s'.window.stop = s.window.stop
  /-- The rate that the client reported stays. -/
  rate : s'.window.reportedRate = s.window.reportedRate
  /-- The count is that of the transactions that had been sent inside the window before anything was
  dropped. -/
  count : ∃ n : Nat, s'.window.sentCount = some n ∧
    {id | ∃ sent, (s.tx id).sendTime = some sent ∧ w.start < sent ∧ sent < w.stop}.encard = n

/-- Pruning leaves what lies in the window. -/
theorem drops_prune (s : Session) (w : Window) : Drops w s (s.prune w) where
  block height b := by
    unfold prune
    rw [Registry.getElem?_keep, Option.filter_eq_some_iff, Window.keepsBlock_iff]
  tx id t := by
    unfold prune
    rw [Registry.getElem?_keep, Option.filter_eq_some_iff, Window.keepsTx_iff,
      Window.sentInside_iff, Window.committedInTime_iff]
  start := rfl
  stop := rfl
  rate := rfl
  count := by
    refine ⟨w.countSent s.txs.values, rfl, ?_⟩
    have hset : {id | ∃ sent, (s.tx id).sendTime = some sent ∧ w.start < sent ∧ sent < w.stop} =
        {id | w.sentInside (s.txs.find id) = true} :=
      Set.ext fun id => Window.sentInside_iff.symm
    unfold Window.countSent
    rw [hset, List.countP_eq_length_filter, ← Registry.values_keep]
    exact encard_keep s.txs w.sentInside rfl

/-- Dropping for a wider window first leaves the same entities. -/
theorem prune_prune {inner outer : Window} (h : inner.Within outer) (s : Session) :
    ((s.prune outer).prune inner).blocks = (s.prune inner).blocks ∧
      ((s.prune outer).prune inner).txs = (s.prune inner).txs :=
  ⟨Registry.keep_keep s.blocks fun _ => Window.keepsBlock_mono h,
    Registry.keep_keep s.txs fun _ => Window.keepsTx_mono h⟩

/-- All transactions that are left were sent inside the window. -/
theorem countSent_prune (s : Session) (w : Window) :
    w.countSent (s.prune w).txs.values = (s.prune w).txs.size := by
  have hall : w.countSent (s.prune w).txs.values = (s.prune w).txs.values.length :=
    List.countP_eq_length.mpr fun t ht =>
      (Window.keepsTx_iff.mp ((mem_values_prune s w).mp ht).2).1
  rw [hall, Registry.values_eq_map_toList, List.length_map, Std.ExtTreeMap.length_toList]

/-- Dropping for the same window again only sets the count to what is left. -/
theorem prune_again (s : Session) (w : Window) :
    (s.prune w).prune w = { s.prune w with
      window := { (s.prune w).window with sentCount := some (s.prune w).txs.size } } := by
  obtain ⟨hblocks, htxs⟩ := s.prune_prune (Window.Within.refl w)
  rw [← countSent_prune]
  exact congrArg₂ (fun blocks txs => (⟨blocks, txs, _⟩ : Session)) hblocks htxs

/-! ## In place -/

/-- Reads the session, which may turn out to be unfit. -/
def look (f : Session → Except Fault Window) : InPlace Fault Window :=
  ExceptT.mk fun s => (f s, s)

/-- Drops what lies outside the send window, in place: the count comes first, and the blocks are
dropped before the transactions. -/
def windowInPlace : InPlace Fault Window := do
  let w ← look sendWindow
  InPlace.change fun s =>
    { s with window := { s.window with sentCount := some (w.countSent s.txs.values) } }
  InPlace.change fun s => { s with blocks := s.blocks.keep w.keepsBlock }
  InPlace.change fun s => { s with txs := s.txs.keep w.keepsTx }
  return w

/-- In place the session is pruned to its send window, or nothing is changed. -/
theorem runOn_windowInPlace (s : Session) : windowInPlace.runOn s =
    match s.applyWindow with
    | .ok kept => (.ok kept.window, kept.session)
    | .error fault => (.error fault, s) := by
  have hlook : (look sendWindow).runOn s = (s.sendWindow, s) := rfl
  unfold windowInPlace applyWindow
  rw [InPlace.runOn_bind, hlook]
  cases s.sendWindow <;> rfl

/-! ## The send window -/

/-- A session with both markers is pruned to its window. -/
theorem applyWindow_of_marks (h : s.window.Marks w) :
    s.applyWindow = .ok ⟨w, s.prune w, pruneNotice s (s.prune w)⟩ :=
  applyWindow_eq_ok_iff.mpr ⟨sendWindow_eq_ok_iff.mpr ⟨h.start, h.stop⟩, rfl, rfl⟩

/-- A session that is pruned has both markers. -/
theorem marks_of_applyWindow {kept : Windowed} (h : s.applyWindow = .ok kept) :
    s.window.Marks kept.window := by
  obtain ⟨hstart, hstop⟩ := sendWindow_eq_ok_iff.mp (applyWindow_eq_ok_iff.mp h).1
  exact ⟨hstart, hstop⟩

/-- A marker that is missing is a fault. -/
theorem applyWindow_eq_error_iff {fault : Fault} : s.applyWindow = .error fault ↔
    (s.window.start = none ∧ fault = .noStart) ∨
      (s.window.start ≠ none ∧ s.window.stop = none ∧ fault = .noStop) := by
  unfold applyWindow sendWindow
  cases s.window.start with
  | none => simp [eq_comm]
  | some start => cases s.window.stop <;> simp [eq_comm]

/-- What applying the send window does to a session. -/
structure Prunes (s : Session) : Prop where
  /-- Carried out in place, it does the same, and a fault leaves the session as it was. -/
  inPlace : windowInPlace.runOn s =
    match s.applyWindow with
    | .ok kept => (.ok kept.window, kept.session)
    | .error fault => (.error fault, s)
  /-- It is a fault exactly if a marker is missing, the beginning or else the end. -/
  fault : ∀ fault, s.applyWindow = .error fault ↔
    (s.window.start = none ∧ fault = .noStart) ∨
      (s.window.start ≠ none ∧ s.window.stop = none ∧ fault = .noStop)
  /-- With both markers it drops what lies outside their window. -/
  drops : ∀ w, s.window.Marks w →
    ∃ kept, s.applyWindow = .ok kept ∧ kept.window = w ∧ Drops w s kept.session
  /-- What is left, with the markers of a window inside the first one, is left with the same entities
  as the session itself with such markers. -/
  absorbs : ∀ kept, s.applyWindow = .ok kept → ∀ w : Window, w.Within kept.window →
    ∀ m m' : SendWindow, m.Marks w → m'.Marks w → ∃ later direct,
      { kept.session with window := m }.applyWindow = .ok later ∧
        { s with window := m' }.applyWindow = .ok direct ∧
          later.session.blocks = direct.session.blocks ∧ later.session.txs = direct.session.txs
  /-- With the same markers nothing more is dropped, but the count becomes that of the transactions
  that are left. -/
  repeats : ∀ kept, s.applyWindow = .ok kept → ∃ again, kept.session.applyWindow = .ok again ∧
    again.session = { kept.session with
      window := { kept.session.window with sentCount := some kept.session.txs.size } }

/-- Applying the send window to a session only removes, and what a wider window removes first makes
no difference. -/
theorem applyWindow_prunes (s : Session) : s.Prunes where
  inPlace := s.runOn_windowInPlace
  fault _ := applyWindow_eq_error_iff
  drops w hmarks := ⟨_, applyWindow_of_marks hmarks, rfl, s.drops_prune w⟩
  absorbs kept hkept w hwithin m m' hm hm' := by
    obtain ⟨-, hsession, -⟩ := applyWindow_eq_ok_iff.mp hkept
    obtain ⟨hblocks, htxs⟩ := s.prune_prune hwithin
    rw [hsession]
    exact ⟨_, _, applyWindow_of_marks hm, applyWindow_of_marks hm', hblocks, htxs⟩
  repeats kept hkept := by
    obtain ⟨-, hsession, -⟩ := applyWindow_eq_ok_iff.mp hkept
    have hmarks := marks_of_applyWindow hkept
    rw [hsession]
    exact ⟨_, applyWindow_of_marks ⟨hmarks.start, hmarks.stop⟩, s.prune_again kept.window⟩

end Session

end LedgerBench
