import LedgerBench.Proofs.Ledger.LastWrite

/-!
# Coherent sessions

What a session records in one place agrees with what it records in the others: a committed
transaction has a block that exists and is committed, a block lists committed transactions only, an
execution time comes with the node that measured it (`Coherent`).

An effect may write to several places, and a commit does so in many steps; but each place has one
equation for the whole effect, so an invariant has to be checked before and after it only. Two facts
carry the proof: nothing that was committed ceases to be (`Effect.isCommitted_onTx`,
`Effect.isSome_commitTime_onBlock`), and the one effect that writes a height commits the block at
this height and the transactions that it lists there (`Coherent.apply`).
`tryRecords_coherent` puts it together for runs in which any records may be unusable.
-/

namespace LedgerBench

/-- The places of a session agree with each other. -/
structure Coherent (s : Session) : Prop where
  /-- A transaction has a commit time if and only if it has a height. -/
  commit : ∀ id, (s.tx id).commitTime.isSome ↔ (s.tx id).height.isSome
  /-- The block at the height of a transaction exists and is committed. -/
  block : ∀ id height, (s.tx id).height = some height →
    height ∈ s.blocks ∧ (s.block height).commitTime.isSome
  /-- The transactions in the list of a block exist and are committed. -/
  listed : ∀ height, ∀ id ∈ (s.block height).txIds, id ∈ s.txs ∧ (s.tx id).isCommitted
  /-- A block that is not committed lists no transaction. -/
  unlisted : ∀ height, (s.block height).commitTime = none → (s.block height).txIds = []
  /-- A transaction has an execution time if and only if it has an executing node. -/
  exec : ∀ id, (s.tx id).execTime.isSome ↔ (s.tx id).execNode.isSome
  /-- A rate is reported only with the end of the window. -/
  rate : s.window.reportedRate.isSome → s.window.stop.isSome
  /-- What was sent has not been counted. -/
  uncounted : s.window.sentCount = none

/-! ## One effect -/

namespace Effect

variable {e : Effect}

/-- The only effect that commits a transaction at a height commits the block at this height. -/
theorem committed?_eq_some_iff {id : TxId} {height : Height} {time : Instant} :
    e.committed? id = some (height, time) ↔ ∃ ids, e = commit height time ids ∧ id ∈ ids := by
  cases e <;> grind [committed?]

/-- The only effect that commits a block commits the transactions that it lists. -/
theorem blockCommitted?_eq_some_iff {height : Height} {time : Instant} {ids : List TxId} :
    e.blockCommitted? height = some (time, ids) ↔ e = commit height time ids := by
  cases e <;> grind [blockCommitted?]

/-- A committed transaction stays committed. -/
theorem isCommitted_onTx {id : TxId} {t : Transaction} (h : t.isCommitted) :
    (e.onTx id t).isCommitted := by
  obtain ⟨-, hcommit⟩ := Prod.mk.inj (e.onTx_commit t id)
  unfold Transaction.isCommitted at h ⊢
  rw [hcommit]
  cases e.committed? id with
  | none => exact h
  | some c => rfl

/-- A committed block stays committed. -/
theorem isSome_commitTime_onBlock {height : Height} {b : Block} (h : b.commitTime.isSome) :
    (e.onBlock height b).commitTime.isSome := by
  obtain ⟨hcommit, -⟩ := Prod.mk.inj (e.onBlock_commit b height)
  rw [hcommit]
  cases e.blockCommitted? height with
  | none => exact h
  | some c => rfl

end Effect

namespace Coherent

variable {s : Session}

/-- A session without records is coherent. -/
theorem empty : Coherent Session.empty := by
  refine ⟨fun id => ?_, fun id height h => ?_, fun height id h => ?_, fun height _ => ?_,
    fun id => ?_, fun h => ?_, rfl⟩
  · simp [Session.tx_empty]
  · simp [Session.tx_empty] at h
  · simp [Session.block_empty] at h
  · rw [Session.block_empty]
  · simp [Session.tx_empty]
  · cases h

/-- An effect keeps a session coherent. -/
theorem apply (h : Coherent s) (e : Effect) : Coherent (s.apply e) where
  commit id := by
    obtain ⟨hheight, htime⟩ := Prod.mk.inj (e.onTx_commit (s.tx id) id)
    rw [s.tx_apply, hheight, htime]
    cases e.committed? id with
    | none => exact h.commit id
    | some c => exact Iff.rfl
  block id height hat := by
    obtain ⟨hheight, -⟩ := Prod.mk.inj (e.onTx_commit (s.tx id) id)
    rw [s.tx_apply, hheight] at hat
    rw [s.mem_blocks_apply, s.block_apply]
    cases hc : e.committed? id with
    | none =>
      rw [hc] at hat
      obtain ⟨hmem, hsome⟩ := h.block id height hat
      exact ⟨.inl hmem, Effect.isSome_commitTime_onBlock hsome⟩
    | some c =>
      -- the transaction has just been committed, and with it the block
      rw [hc] at hat
      cases hat
      obtain ⟨ids, rfl, -⟩ := Effect.committed?_eq_some_iff.mp hc
      exact ⟨.inr (List.mem_singleton_self _), by simp [Effect.onBlock]⟩
  listed height id hid := by
    obtain ⟨-, hids⟩ := Prod.mk.inj (e.onBlock_commit (s.block height) height)
    rw [s.block_apply, hids] at hid
    rw [s.mem_txs_apply, s.tx_apply]
    cases hc : e.blockCommitted? height with
    | none =>
      rw [hc] at hid
      obtain ⟨hmem, hcommitted⟩ := h.listed height id hid
      exact ⟨.inl hmem, Effect.isCommitted_onTx hcommitted⟩
    | some c =>
      -- the block has just been committed, and with it the transactions that it lists
      rw [hc] at hid
      cases Effect.blockCommitted?_eq_some_iff.mp hc
      exact ⟨.inr hid, by simp [Effect.onTx, show id ∈ c.2 from hid, Transaction.isCommitted]⟩
  unlisted height hnone := by
    obtain ⟨htime, hids⟩ := Prod.mk.inj (e.onBlock_commit (s.block height) height)
    rw [s.block_apply] at hnone ⊢
    rw [htime] at hnone
    rw [hids]
    cases hc : e.blockCommitted? height with
    | none =>
      rw [hc] at hnone
      exact h.unlisted height hnone
    | some c =>
      rw [hc] at hnone
      cases hnone
  exec id := by
    obtain ⟨htime, hnode⟩ := Prod.mk.inj (e.onTx_exec (s.tx id) id)
    rw [s.tx_apply, htime, hnode]
    cases e.executed? id with
    | none => exact h.exec id
    | some x => exact Iff.rfl
  rate hrate := by
    obtain ⟨hstop, hreported⟩ := Prod.mk.inj (e.onWindow_stop s.window)
    rw [s.window_apply, hreported] at hrate
    rw [s.window_apply, hstop]
    cases hc : e.closed? with
    | none =>
      rw [hc] at hrate
      exact h.rate hrate
    | some c => rfl
  uncounted := by
    rw [s.window_apply, e.onWindow_sentCount]
    exact h.uncounted

/-- Effects that are carried out one after the other keep a session coherent. -/
theorem applyAll (h : Coherent s) (effects : List Effect) : Coherent (s.applyAll effects) := by
  induction effects generalizing s with
  | nil => exact h
  | cons e effects ih => exact ih (h.apply e)

end Coherent

/-! ## Runs of records -/

namespace Session

/-- Applies a record if it can be used; one that cannot be used changes nothing. -/
def tryRecord (s : Session) (r : StreamRecord) : Session :=
  match s.applyRecord r with
  | .ok (_, s') => s'
  | .error _ => s

/-- Applies the records of a run one after the other and passes over those that cannot be used. -/
def tryRecords (s : Session) (run : List StreamRecord) : Session := run.foldl tryRecord s

/-- A record changes a session by one effect or not at all. -/
theorem tryRecord_eq (s : Session) (r : StreamRecord) :
    (∃ e, r.Tells e ∧ s.tryRecord r = s.apply e) ∨ s.tryRecord r = s := by
  unfold tryRecord applyRecord
  cases hv : r.record.judge r.role with
  | error cause => exact .inr rfl
  | ok v =>
    cases v with
    | applied e => exact .inl ⟨e, Record.judge_eq_applied_iff.mp hv, rfl⟩
    | ignored => exact .inr rfl
    | unrecognized => exact .inr rfl
    | missingNode => exact .inr rfl

end Session

/-- A record keeps a session coherent, whether it can be used or not. -/
theorem Coherent.tryRecord {s : Session} (h : Coherent s) (r : StreamRecord) :
    Coherent (s.tryRecord r) := by
  rcases s.tryRecord_eq r with ⟨e, -, heq⟩ | heq
  · rw [heq]
    exact h.apply e
  · rw [heq]
    exact h

/-- Every run of records, whichever of them can be used, leads from the empty session to a coherent
one. -/
theorem tryRecords_coherent (run : List StreamRecord) :
    Coherent (Session.empty.tryRecords run) := by
  have hrun : ∀ s : Session, Coherent s → Coherent (s.tryRecords run) := by
    induction run with
    | nil => exact fun s h => h
    | cons r run ih => exact fun s h => ih (s.tryRecord r) (h.tryRecord r)
  exact hrun Session.empty .empty

end LedgerBench
