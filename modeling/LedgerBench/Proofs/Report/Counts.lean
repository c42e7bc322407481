import Mathlib.Data.Set.Card
import LedgerBench.Proofs.Ledger.LastWrite
import LedgerBench.Proofs.Ledger.Window
import LedgerBench.Proofs.Report.ClientMetrics

/-!
# What the counts of a report count

The counts of a report have a meaning that mentions no session: they are numbers of transactions and
of heights about which the client's log tells something. `ClientCounts` says which, in terms of the
last effect of each kind, and `analyze_counts` shows it of every analysis that succeeds.

The session agrees in the client's part with one that has the effects of the client's log only, and
there the fields are the last writes (`ClientReading`). An entity is counted if it passes a test
that no empty entity passes, so the tests can be asked of all names at once, and the number of
entities that pass is the number of names that do (`encard_countP_keep`).
-/

namespace LedgerBench

/-! ## Counted names -/

/-- The transaction was last sent between the two times. -/
def SentBetween (effects : List Effect) (start stop : Instant) (id : TxId) : Prop :=
  ∃ time, lastTold (Effect.sent? id) effects = some time ∧ start < time ∧ time < stop

/-- The transaction was last committed, if ever, before the time. -/
def CommittedBefore (effects : List Effect) (stop : Instant) (id : TxId) : Prop :=
  ∀ c, lastTold (Effect.committed? id) effects = some c → c.2 < stop

/-- The transaction has been committed. -/
def Committed (effects : List Effect) (id : TxId) : Prop :=
  ∃ c, lastTold (Effect.committed? id) effects = some c

/-- The transaction belongs to the report. -/
structure Reported (effects : List Effect) (start stop : Instant) (id : TxId) : Prop where
  /-- It was sent between the two times. -/
  sent : SentBetween effects start stop id
  /-- It was not committed too late. -/
  inTime : CommittedBefore effects stop id
  /-- It was committed, or failed in one of two ways. -/
  resolved : Committed effects id ∨ Effect.outdate id ∈ effects ∨ Effect.conflict id ∈ effects

/-- The report has the number of elements of the set under the name. -/
def Report.HasCount {α : Type} (r : Report) (name : String) (counted : Set α) : Prop :=
  ∃ n : Nat, counted.encard = n ∧ r.get? name = some (.count n)

/-- The counts of a report, read off the effects of the client's log. -/
structure ClientCounts (effects : List Effect) (start stop : Instant) (rate : Option Float)
    (r : Report) : Prop where
  /-- The transactions. -/
  total : r.HasCount "total_tx" {id | Reported effects start stop id}
  /-- Those that were committed. -/
  committed : r.HasCount "committed_tx"
    {id | Reported effects start stop id ∧ Committed effects id}
  /-- Those in conflict. -/
  conflicted : r.HasCount "conflicted_tx"
    {id | Reported effects start stop id ∧ Effect.conflict id ∈ effects}
  /-- Those that came too late. -/
  outdated : r.HasCount "outdated_tx"
    {id | Reported effects start stop id ∧ Effect.outdate id ∈ effects}
  /-- The heights whose block was last committed between the two times. -/
  blocks : r.HasCount "total_blocks" {height | ∃ c,
    lastTold (Effect.blockCommitted? height) effects = some c ∧ start < c.1 ∧ c.1 < stop}
  /-- The send rate is the one that was reported; or else the number of all transactions sent
  between the two times, over the seconds between these, and not-a-number if there are none. -/
  sendRate : ∃ n : Nat, {id | SentBetween effects start stop id}.encard = n ∧
    r.get? "tx_send_rate" = some (.rate (rate.getD
      (if start.elapsed stop / microsPerSecond ≤ 0.0 then noValue
      else Float.ofNat n / (start.elapsed stop / microsPerSecond))))

/-! ## The session of a benchmark -/

/-- The session holds what the client's log said last. -/
structure ClientReading (s : Session) (effects : List Effect) : Prop where
  /-- When a transaction was sent. -/
  sendTime : ∀ id, (s.tx id).sendTime = lastTold (Effect.sent? id) effects
  /-- When a transaction was committed. -/
  commitTime : ∀ id, (s.tx id).commitTime = (lastTold (Effect.committed? id) effects).map (·.2)
  /-- Whether a transaction came too late. -/
  outdated : ∀ id, (s.tx id).outdated = true ↔ Effect.outdate id ∈ effects
  /-- Whether a transaction was in conflict. -/
  conflicted : ∀ id, (s.tx id).conflicted = true ↔ Effect.conflict id ∈ effects
  /-- When a block was committed. -/
  blockCommit : ∀ height, (s.block height).commitTime =
    (lastTold (Effect.blockCommitted? height) effects).map (·.1)
  /-- When the window began. -/
  start : s.window.start = lastTold Effect.opened? effects
  /-- When the window ended. -/
  stop : s.window.stop = (lastTold Effect.closed? effects).map (·.1)
  /-- The rate reported with its end. -/
  reportedRate : s.window.reportedRate = (lastTold Effect.closed? effects).bind (·.2)

namespace ClientReading

variable {s s' : Session} {effects : List Effect}

/-- The effects of the client's log alone are read so. -/
theorem applyAll_empty (effects : List Effect) :
    ClientReading (Session.empty.applyAll effects) effects := by
  have hlast := applyAll_lastWrites Session.empty effects
  -- nothing was recorded before, so the last writes are all there is
  refine ⟨fun id => ?_, fun id => ?_, fun id => ?_, fun id => ?_, fun height => ?_, ?_, ?_, ?_⟩
  · rw [hlast.sendTime, Session.tx_empty, Option.or_none]
  · have hcommit := congrArg Prod.snd (hlast.commit id)
    rw [Session.tx_empty] at hcommit
    refine hcommit.trans ?_
    cases lastTold (Effect.committed? id) effects <;> rfl
  · rw [hlast.outdated, Session.tx_empty]
    simp
  · rw [hlast.conflicted, Session.tx_empty]
    simp
  · have hcommit := congrArg Prod.fst (hlast.blockCommit height)
    rw [Session.block_empty] at hcommit
    refine hcommit.trans ?_
    cases lastTold (Effect.blockCommitted? height) effects <;> rfl
  · rw [hlast.start]
    exact Option.or_none
  · refine (congrArg Prod.fst hlast.stop).trans ?_
    cases lastTold Effect.closed? effects <;> rfl
  · refine (congrArg Prod.snd hlast.stop).trans ?_
    cases lastTold Effect.closed? effects <;> rfl

/-- A session that agrees in the client's part is read in the same way. -/
theorem congr (hread : ClientReading s' effects) (h : SameClientPart s s') :
    ClientReading s effects where
  sendTime id := (congrArg Transaction.sendTime (h.tx id)).trans (hread.sendTime id)
  commitTime id := (congrArg Transaction.commitTime (h.tx id)).trans (hread.commitTime id)
  outdated id := by
    rw [← hread.outdated]
    exact (congrArg Transaction.outdated (h.tx id)).congr_left
  conflicted id := by
    rw [← hread.conflicted]
    exact (congrArg Transaction.conflicted (h.tx id)).congr_left
  blockCommit height :=
    (congrArg Block.commitTime (h.block height)).trans (hread.blockCommit height)
  start := h.window ▸ hread.start
  stop := h.window ▸ hread.stop
  reportedRate := h.window ▸ hread.reportedRate

/-- A transaction passes the test for its send time if it was sent inside the window. -/
theorem sentInside_iff (h : ClientReading s effects) (w : Window) (id : TxId) :
    w.sentInside (s.tx id) = true ↔ SentBetween effects w.start w.stop id := by
  unfold SentBetween
  rw [Window.sentInside_iff, h.sendTime]

/-- A transaction passes the test for its commit time if it was not committed too late. -/
theorem committedInTime_iff (h : ClientReading s effects) (w : Window) (id : TxId) :
    w.committedInTime (s.tx id) = true ↔ CommittedBefore effects w.stop id := by
  unfold CommittedBefore
  rw [Window.committedInTime_iff, h.commitTime]
  constructor
  · intro hbefore c hc
    exact hbefore c.2 (Option.map_eq_some_iff.mpr ⟨c, hc, rfl⟩)
  · intro hbefore committed hcommit
    obtain ⟨c, hc, rfl⟩ := Option.map_eq_some_iff.mp hcommit
    exact hbefore c hc

/-- A transaction is committed in the session if the log tells so. -/
theorem isCommitted_iff (h : ClientReading s effects) (id : TxId) :
    (s.tx id).isCommitted = true ↔ Committed effects id := by
  unfold Transaction.isCommitted Committed
  rw [h.commitTime, Option.isSome_map, Option.isSome_iff_exists]

/-- The transactions that are kept are those that belong to the report. -/
theorem keepsTx_iff (h : ClientReading s effects) (w : Window) (id : TxId) :
    w.keepsTx (s.tx id) = true ↔ Reported effects w.start w.stop id := by
  rw [Window.keepsTx_iff, h.sentInside_iff, h.committedInTime_iff]
  unfold Transaction.isResolved
  rw [Bool.or_eq_true, Bool.or_eq_true, h.isCommitted_iff, h.outdated, h.conflicted, or_assoc]
  constructor
  · rintro ⟨hsent, htime, hresolved⟩
    exact ⟨hsent, htime, hresolved⟩
  · rintro ⟨hsent, htime, hresolved⟩
    exact ⟨hsent, htime, hresolved⟩

/-- The blocks that are kept are those last committed inside the window. -/
theorem keepsBlock_iff (h : ClientReading s effects) (w : Window) (height : Height) :
    w.keepsBlock (s.block height) = true ↔ ∃ c,
      lastTold (Effect.blockCommitted? height) effects = some c ∧ w.start < c.1 ∧ c.1 < w.stop := by
  rw [Window.keepsBlock_iff, h.blockCommit]
  simp

end ClientReading

/-! ## Counting entities -/

/-- The number of keys whose entity passes a test that no empty entity passes is the number of
entities that it keeps. -/
theorem encard_keep {κ α : Type} [Ord κ] [Std.TransOrd κ] [Std.LawfulEqOrd κ] [Inhabited α]
    (r : Registry κ α) (test : α → Bool) (h : test default = false) :
    {key | test (r.find key) = true}.encard = ((r.keep test).values.length : ℕ∞) := by
  classical
  have hkeys : {key | test (r.find key) = true} = ((r.keep test).keys.toFinset : Set κ) := by
    ext key
    rw [Set.mem_ofPred_eq, ← r.mem_keep h, List.coe_toFinset, Set.mem_ofPred_eq,
      Std.ExtTreeMap.mem_keys]
  rw [hkeys, Set.encard_coe_eq_coe_finsetCard,
    List.toFinset_card_of_nodup Std.ExtTreeMap.nodup_keys, Std.ExtTreeMap.length_keys,
    Registry.values_eq_map_toList, List.length_map, Std.ExtTreeMap.length_toList]

/-- Among the entities that a test keeps, those that pass another one are counted by their keys. -/
theorem encard_countP_keep {κ α : Type} [Ord κ] [Std.TransOrd κ] [Std.LawfulEqOrd κ] [Inhabited α]
    (r : Registry κ α) {test : α → Bool} (other : α → Bool) (h : test default = false) :
    {key | test (r.find key) = true ∧ other (r.find key) = true}.encard =
      ((r.keep test).values.countP other : ℕ∞) := by
  have hset : {key | (other (r.find key) && test (r.find key)) = true}.encard =
      ((r.keep fun a => other a && test a).values.length : ℕ∞) := by
    apply encard_keep r fun a => other a && test a
    rw [h, Bool.and_false]
  rw [Registry.values_keep, ← List.filter_filter, ← List.countP_eq_length_filter,
    ← Registry.values_keep] at hset
  rw [← hset]
  congr 1
  ext key
  simp [and_comm]

/-! ## The counts of a report -/

/-- The counts among the client's metrics are those of the entities. -/
theorem get?_counts (s : Session) (w : Window) :
    (Report.ofSession s w).get? "total_tx" = some (.count s.txs.values.length) ∧
      (Report.ofSession s w).get? "committed_tx" =
        some (.count (s.txs.values.countP Transaction.isCommitted)) ∧
      (Report.ofSession s w).get? "conflicted_tx" =
        some (.count (s.txs.values.countP Transaction.conflicted)) ∧
      (Report.ofSession s w).get? "outdated_tx" =
        some (.count (s.txs.values.countP Transaction.outdated)) ∧
      (Report.ofSession s w).get? "total_blocks" = some (.count s.blocks.toList.length) ∧
      (Report.ofSession s w).get? "tx_send_rate" =
        some (.rate (sendRate s.window w s.txs.values)) := by
  refine ⟨?_, ?_, ?_, ?_, ?_, ?_⟩ <;>
    rw [get?_ofSession s w (by decide), Report.get?_ofList] <;> rfl

/-- The report on a session that holds what the client's log said last has the counts of the log. -/
theorem ClientReading.clientCounts {s : Session} {effects : List Effect} {w : Window}
    (h : ClientReading s effects) :
    ClientCounts effects w.start w.stop s.window.reportedRate (.ofSession (s.prune w) w) := by
  obtain ⟨htotal, hcommitted, hconflicted, houtdated, hblocks, hrate⟩ := get?_counts (s.prune w) w
  -- a transaction counts if it is kept and passes one more test
  have hcount : ∀ (told : TxId → Prop) (test : Transaction → Bool),
      (∀ id, test (s.tx id) = true ↔ told id) →
        {id | Reported effects w.start w.stop id ∧ told id}.encard =
          ((s.prune w).txs.values.countP test : ℕ∞) := by
    intro told test htest
    have hset : {id | Reported effects w.start w.stop id ∧ told id} =
        {id | w.keepsTx (s.txs.find id) = true ∧ test (s.txs.find id) = true} :=
      Set.ext fun id => and_congr (h.keepsTx_iff w id).symm (htest id).symm
    rw [hset]
    exact encard_countP_keep s.txs test rfl
  refine ⟨⟨_, ?_, htotal⟩, ⟨_, hcount _ _ h.isCommitted_iff, hcommitted⟩,
    ⟨_, hcount _ _ h.conflicted, hconflicted⟩, ⟨_, hcount _ _ h.outdated, houtdated⟩,
    ⟨_, ?_, hblocks⟩, ?_⟩
  · have hset : {id | Reported effects w.start w.stop id} =
        {id | w.keepsTx (s.txs.find id) = true} := Set.ext fun id => (h.keepsTx_iff w id).symm
    rw [hset]
    exact encard_keep s.txs w.keepsTx rfl
  · have hset : {height | ∃ c, lastTold (Effect.blockCommitted? height) effects = some c ∧
        w.start < c.1 ∧ c.1 < w.stop} = {height | w.keepsBlock (s.blocks.find height) = true} :=
      Set.ext fun height => (h.keepsBlock_iff w height).symm
    have hlength : (s.prune w).blocks.toList.length = (s.prune w).blocks.values.length := by
      rw [Registry.values_eq_map_toList, List.length_map]
    rw [hset, hlength]
    exact encard_keep s.blocks w.keepsBlock rfl
  · have hset : {id | SentBetween effects w.start w.stop id} =
        {id | w.sentInside (s.txs.find id) = true} :=
      Set.ext fun id => (h.sentInside_iff w id).symm
    refine ⟨w.countSent s.txs.values, ?_, ?_⟩
    · unfold Window.countSent
      rw [hset, List.countP_eq_length_filter, ← Registry.values_keep]
      exact encard_keep s.txs w.sentInside rfl
    · -- the count was taken before anything was dropped
      rw [hrate]
      have hcounted : (s.prune w).window.sentCount = some (w.countSent s.txs.values) := rfl
      have hreported : (s.prune w).window.reportedRate = s.window.reportedRate := rfl
      unfold sendRate
      rw [hcounted, hreported]
      cases s.window.reportedRate <;> rfl

/-- A session has a window if its beginning and its end are known. -/
theorem sendWindow_eq_ok_iff {s : Session} {w : Window} :
    s.sendWindow = .ok w ↔ s.window.start = some w.start ∧ s.window.stop = some w.stop := by
  unfold Session.sendWindow
  obtain ⟨start, stop⟩ := w
  cases s.window.start with
  | none => simp
  | some t => cases s.window.stop <;> simp

/-- The counts of a report are those of the client's log. Whenever an analysis succeeds, the
client's log can be read, its records tell of a beginning and of an end, and between the last
beginning and the last end the report counts what the records tell. -/
theorem analyze_counts {files : String → Except FileFault String} {client : String}
    {peers storages : List String} {report : Report}
    (h : (analyze (benchmarkLogs files client peers storages)).outcome = .ok report) :
    ∃ text entries effects start stop rate, files client = .ok text ∧ Log.read text = .ok entries ∧
      Told (entries.map fun entry => ⟨.client, entry.record⟩) effects ∧
        lastTold Effect.opened? effects = some start ∧
          lastTold Effect.closed? effects = some (stop, rate) ∧
            ClientCounts effects start stop rate report := by
  obtain ⟨hout, w, hw, rfl⟩ := analyze_eq_ok_iff.mp h
  obtain ⟨text, entries, effects, others, htext, hread, htold, hothers, hs⟩ :=
    exists_told_of_absorb hout
  have hreading : ClientReading (Session.empty.absorb (benchmarkLogs files client peers
      storages)).session effects := by
    rw [hs]
    exact (ClientReading.applyAll_empty effects).congr (SameClientPart.applyAll_append hothers _ _)
  -- the window is the one that the log tells
  obtain ⟨hstart, hstop⟩ := sendWindow_eq_ok_iff.mp hw
  rw [hreading.start] at hstart
  rw [hreading.stop] at hstop
  obtain ⟨⟨stop, rate⟩, hclosed, rfl⟩ := Option.map_eq_some_iff.mp hstop
  have hcounts := hreading.clientCounts (w := w)
  rw [hreading.reportedRate, hclosed] at hcounts
  exact ⟨text, entries, effects, w.start, w.stop, rate, htext, hread, htold, hstart, hclosed,
    hcounts⟩

/-- The report on the benchmark in which the nodes meddle counts what the client's log tells: one
transaction. -/
theorem analyze_counts_meddled :
    ∃ report effects start stop rate,
      (analyze (benchmarkLogs meddledFiles "client.log" ["peer.log"] ["storage.log"])).outcome =
        .ok report ∧
      report.get? "total_tx" = some (.count 1) ∧
      Told (committedEntries.map fun entry => ⟨.client, entry.record⟩) effects ∧
        ClientCounts effects start stop rate report := by
  obtain ⟨s, w, h, hone⟩ := exists_report_meddled
  obtain ⟨text, entries, effects, start, stop, rate, htext, hread, htold, -, -, hcounts⟩ :=
    analyze_counts h
  obtain ⟨text', entries', htext', hread', hentries⟩ := Input.load_eq_ok.mp load_committedLog
  cases htext.symm.trans htext'
  cases hread.symm.trans hread'
  cases hentries
  have htotal := (get?_counts s w).1
  rw [hone] at htotal
  exact ⟨_, effects, start, stop, rate, h, htotal, htold, hcounts⟩

end LedgerBench
