import LedgerBench.Proofs.Event.Outcome
import LedgerBench.Proofs.Json.Words
import LedgerBench.Proofs.Ledger.Coherence

/-!
# Records that are carried out in place

A record can be carried out in place: `StreamRecord.carryOut` checks the fields that an occurrence
needs one by one, then creates an entity if there is none, and then fills its fields one by one. A
fault stops it, and what has been changed before stays changed. So it matters that all fields are
checked before the first change. `StreamRecord.carryOut_atomic` shows that nothing is left of a
record that is not accepted, and that the outcome is a matter of the record and its role.

The proof compares the two computations step by step (`CarriesOut`): a check leaves the session as
it is (`CarriesOut.check`), and after the last check only changes are left, which together are the
effect (`CarriesOut.changes`).
-/

namespace LedgerBench

/-- A computation that changes a session in place. A fault stops it, and what has been changed until
then stays changed. -/
abbrev InPlace (ε α : Type) := ExceptT ε (StateM Session) α

namespace InPlace

variable {ε α β : Type}

/-- The result of a computation, and the session after it. -/
def runOn (x : InPlace ε α) (s : Session) : Except ε α × Session := StateT.run (ExceptT.run x) s

/-- Goes on with a result, or stops with a fault. -/
def check (x : Except ε α) : InPlace ε α := ExceptT.mk (pure x)

/-- Changes the session. -/
def change (f : Session → Session) : InPlace ε Unit := ExceptT.lift (modify f)

/-- A result changes nothing. -/
@[simp]
theorem runOn_pure (a : α) (s : Session) : (pure a : InPlace ε α).runOn s = (.ok a, s) := rfl

/-- What follows a computation meets the session after it, unless a fault stops both. -/
theorem runOn_bind (x : InPlace ε α) (f : α → InPlace ε β) (s : Session) :
    (x >>= f).runOn s =
      match x.runOn s with
      | (.ok a, s') => (f a).runOn s'
      | (.error e, s') => (.error e, s') := by
  change StateT.run (ExceptT.run x >>= ExceptT.bindCont f) s = _
  rw [StateT.run_bind]
  unfold runOn
  cases StateT.run (ExceptT.run x) s with
  | mk result s' => cases result <;> rfl

/-- A fault stops the computation and changes nothing. -/
theorem runOn_check_bind (x : Except ε α) (f : α → InPlace ε β) (s : Session) :
    (check x >>= f).runOn s =
      match x with
      | .ok a => (f a).runOn s
      | .error e => (.error e, s) := by
  cases x <;> rfl

/-- What follows a change meets the changed session. -/
@[simp]
theorem runOn_change_bind (g : Session → Session) (f : Unit → InPlace ε β) (s : Session) :
    (change g >>= f).runOn s = (f ()).runOn (g s) := rfl

/-- Creates a transaction about which nothing is recorded, if there is none. -/
def createTx (id : TxId) : InPlace ε Unit := change fun s => s.updateTx id fun t => t

/-- Fills fields of a transaction. -/
def setTx (id : TxId) (f : Transaction → Transaction) : InPlace ε Unit :=
  change fun s => s.updateTx id f

/-- Creates a block about which nothing is recorded, if there is none. -/
def createBlock (height : Height) : InPlace ε Unit :=
  change fun s => s.updateBlock height fun b => b

/-- Fills fields of a block. -/
def setBlock (height : Height) (f : Block → Block) : InPlace ε Unit :=
  change fun s => s.updateBlock height f

/-- Fills fields of the send window. -/
def setWindow (f : SendWindow → SendWindow) : InPlace ε Unit :=
  change fun s => { s with window := f s.window }

/-- Marks a transaction as committed, which is created before if there is none. -/
def commitTx (height : Height) (time : Instant) (id : TxId) : InPlace ε Unit := do
  createTx id
  setTx id fun t => { t with height := some height }
  setTx id fun t => { t with commitTime := some time }

end InPlace

namespace StreamRecord

open InPlace

/-- Carries out what an occurrence tells, which the role of the stream is believed about. Each
entity is created when it is needed and filled field by field. -/
def carryOutOccurrence (r : StreamRecord) : Occurrence → InPlace RecordFault Outcome
  | .sendingStarted => do
    let time ← check r.record.instant
    setWindow fun w => { w with start := some time }
    return .applied
  | .sendingEnded => do
    let time ← check r.record.instant
    setWindow fun w => { w with stop := some time }
    setWindow fun w => { w with reportedRate := r.record.rate? }
    return .applied
  | .txSent => do
    let time ← check r.record.instant
    let id ← check r.record.txId
    createTx id
    setTx id fun t => { t with sendTime := some time }
    return .applied
  | .blockCommitted => do
    let time ← check r.record.instant
    let height ← check r.record.height
    let ids ← check r.record.txIds
    forM ids (commitTx height time)
    createBlock height
    setBlock height fun b => { b with commitTime := some time }
    setBlock height fun b => { b with txIds := ids }
    return .applied
  | .txOutdated => do
    let id ← check r.record.txId
    createTx id
    setTx id fun t => { t with outdated := true }
    return .applied
  | .txConflicted => do
    let id ← check r.record.txId
    createTx id
    setTx id fun t => { t with conflicted := true }
    return .applied
  | .txReceived => do
    let time ← check r.record.instant
    let id ← check r.record.txId
    createTx id
    setTx id fun t => { t with receiveTime := some time }
    return .applied
  | .proposalEnded => do
    let time ← check r.record.instant
    let height ← check r.record.height
    createBlock height
    setBlock height fun b => { b with proposeEnd := some time }
    return .applied
  | .blockVerified => do
    let us ← check r.record.micros
    let height ← check r.record.height
    createBlock height
    setBlock height fun b => { b with verifyTime := some us }
    return .applied
  | .blockMined => do
    let us ← check r.record.micros
    let height ← check r.record.height
    createBlock height
    setBlock height fun b => { b with miningTime := some us }
    return .applied
  | .txExecuted =>
    match r.role.node? with
    | none => return .missingNode
    | some node => do
      let us ← check r.record.micros
      let id ← check r.record.txId
      createTx id
      setTx id fun t => { t with execTime := some us }
      setTx id fun t => { t with execNode := some node }
      return .applied

/-- Carries out a record in place. -/
def carryOut (r : StreamRecord) : InPlace RecordFault Outcome :=
  match Occurrence.ofNames? r.record.kind r.record.label with
  | none => return .unrecognized
  | some occurrence =>
    if occurrence.isClientOnly && !r.role.isClient then return .ignored
    else r.carryOutOccurrence occurrence

end StreamRecord

/-! ## Step by step -/

namespace Session

/-- What a judgement changes: a fault changes nothing. -/
def settleJudged (s : Session) : Except RecordFault Verdict → Session
  | .ok v => s.settle v
  | .error _ => s

/-- A transaction that is changed twice is changed once by both. -/
theorem updateTx_updateTx (s : Session) (id : TxId) (f g : Transaction → Transaction) :
    (s.updateTx id g).updateTx id f = s.updateTx id fun t => f (g t) := by
  unfold updateTx
  rw [Registry.update_update]

/-- A block that is changed twice is changed once by both. -/
theorem updateBlock_updateBlock (s : Session) (height : Height) (f g : Block → Block) :
    (s.updateBlock height g).updateBlock height f = s.updateBlock height fun b => f (g b) := by
  unfold updateBlock
  rw [Registry.update_update]

end Session

/-- A computation in place has the outcome of a judgement and changes what the judgement does. -/
def CarriesOut (x : InPlace RecordFault Outcome) (judged : Except RecordFault Verdict) : Prop :=
  ∀ s, x.runOn s = (judged.map Verdict.outcome, s.settleJudged judged)

namespace InPlace

variable {ε β : Type}

/-- Marking a transaction as committed, in three changes. -/
theorem runOn_commitTx_bind (height : Height) (time : Instant) (id : TxId)
    (f : Unit → InPlace ε β) (s : Session) :
    (commitTx height time id >>= f).runOn s = (f ()).runOn
      (s.updateTx id fun t => { t with height := some height, commitTime := some time }) := by
  unfold commitTx createTx setTx
  simp only [bind_assoc, runOn_change_bind, Session.updateTx_updateTx]

/-- Marking transactions as committed, one after the other. -/
theorem runOn_commitTxs_bind (height : Height) (time : Instant) (ids : List TxId)
    (f : Unit → InPlace ε β) (s : Session) :
    (forM ids (commitTx height time) >>= f).runOn s =
      (f ()).runOn (s.commitTxs height time ids) := by
  induction ids generalizing s with
  | nil => rfl
  | cons id ids ih =>
    rw [List.forM_cons, bind_assoc, runOn_commitTx_bind, ih]
    rfl

end InPlace

namespace CarriesOut

open InPlace

/-- A verdict without an effect changes nothing. -/
theorem of_pure {outcome : Outcome} {v : Verdict} (houtcome : v.outcome = outcome)
    (hsettle : ∀ s : Session, s.settle v = s) : CarriesOut (pure outcome) (.ok v) := by
  intro s
  rw [runOn_pure, Session.settleJudged, hsettle, ← houtcome]
  rfl

/-- A field that is checked leaves the session as it is. -/
theorem check {α : Type} {x : Except RecordFault α} {f : α → InPlace RecordFault Outcome}
    {g : α → Except RecordFault Verdict} (h : ∀ a, CarriesOut (f a) (g a)) :
    CarriesOut (check x >>= f) (x >>= g) := by
  intro s
  rw [runOn_check_bind]
  cases x with
  | error cause => rfl
  | ok a => exact h a s

/-- Changes after the last check are the effect. -/
theorem changes {x : InPlace RecordFault Outcome} {e : Effect}
    (h : ∀ s, x.runOn s = (.ok .applied, s.apply e)) : CarriesOut x (.ok (.applied e)) := h

end CarriesOut

namespace StreamRecord

open InPlace

/-- What becomes of the record, without its effect. -/
def outcome (r : StreamRecord) : Except RecordFault Outcome := r.record.outcome r.role

/-- What an occurrence tells is carried out like its effect. -/
theorem carriesOut_occurrence (r : StreamRecord) (o : Occurrence) :
    CarriesOut (r.carryOutOccurrence o) (r.record.effect r.role o) := by
  cases o with
  | sendingStarted =>
    exact .check fun time => .changes fun s => rfl
  | sendingEnded =>
    exact .check fun time => .changes fun s => rfl
  | txSent =>
    refine .check fun time => .check fun id => .changes fun s => ?_
    simp only [createTx, setTx, runOn_change_bind, Session.updateTx_updateTx]
    rfl
  | blockCommitted =>
    refine .check fun time => .check fun height => .check fun ids => .changes fun s => ?_
    rw [runOn_commitTxs_bind]
    simp only [createBlock, setBlock, runOn_change_bind, Session.updateBlock_updateBlock]
    rfl
  | txOutdated | txConflicted =>
    refine .check fun id => .changes fun s => ?_
    simp only [createTx, setTx, runOn_change_bind, Session.updateTx_updateTx]
    rfl
  | txReceived =>
    refine .check fun time => .check fun id => .changes fun s => ?_
    simp only [createTx, setTx, runOn_change_bind, Session.updateTx_updateTx]
    rfl
  | proposalEnded | blockVerified | blockMined =>
    refine .check fun _ => .check fun height => .changes fun s => ?_
    simp only [createBlock, setBlock, runOn_change_bind, Session.updateBlock_updateBlock]
    rfl
  | txExecuted =>
    unfold carryOutOccurrence Record.effect
    cases r.role.node? with
    | none => exact .of_pure rfl fun s => rfl
    | some node =>
      refine .check fun us => .check fun id => .changes fun s => ?_
      simp only [createTx, setTx, runOn_change_bind, Session.updateTx_updateTx]
      rfl

/-- A record is carried out in place like it is judged. -/
theorem carriesOut_carryOut (r : StreamRecord) : CarriesOut r.carryOut r.verdict := by
  unfold carryOut verdict Record.judge
  cases Occurrence.ofNames? r.record.kind r.record.label with
  | none => exact .of_pure (v := .unrecognized) rfl fun s => rfl
  | some occurrence =>
    dsimp only
    split
    · exact .of_pure (v := .ignored) rfl fun s => rfl
    · exact r.carriesOut_occurrence occurrence

/-! ## All or nothing -/

/-- What a record changes is what its verdict changes, if it has one. -/
theorem tryRecord_eq_settleJudged (r : StreamRecord) (s : Session) :
    s.tryRecord r = s.settleJudged r.verdict := by
  unfold Session.tryRecord Session.applyRecord verdict
  cases r.record.judge r.role <;> rfl

/-- A record that is not accepted changes nothing. -/
theorem tryRecord_eq_self {r : StreamRecord} (h : r.outcome ≠ .ok .applied) (s : Session) :
    s.tryRecord r = s := by
  rw [tryRecord_eq_settleJudged]
  unfold outcome Record.outcome at h
  unfold verdict
  cases hv : r.record.judge r.role with
  | error cause => rfl
  | ok v =>
    rw [hv] at h
    cases v with
    | applied e => exact absurd rfl h
    | ignored | unrecognized | missingNode => rfl

/-- A record that is accepted changes what it tells. -/
theorem exists_tells_of_applied {r : StreamRecord} (h : r.outcome = .ok .applied) :
    ∃ e, r.Tells e ∧ ∀ s : Session, s.tryRecord r = s.apply e := by
  simp only [tryRecord_eq_settleJudged]
  unfold outcome Record.outcome at h
  unfold verdict
  cases hv : r.record.judge r.role with
  | error cause =>
    rw [hv] at h
    cases h
  | ok v =>
    rw [hv] at h
    cases v with
    | applied e => exact ⟨e, Record.judge_eq_applied_iff.mp hv, fun s => rfl⟩
    | ignored | unrecognized | missingNode => cases h

/-- A stream of one record changes what the record does. -/
theorem session_replay_singleton (r : StreamRecord) (s : Session) (path : String) (line : Nat) :
    (s.replay ⟨⟨path, r.role⟩, [⟨line, r.record⟩]⟩).session = s.tryRecord r := by
  rw [tryRecord_eq_settleJudged]
  unfold Session.replay Judged.ofStream verdict
  dsimp only
  rw [Judged.ofEntries_cons, Judged.cons]
  cases r.record.judge r.role with
  | error cause => rfl
  | ok v => cases v <;> rfl

/-- A record is carried out as a whole or not at all, and which of these happens is decided by the
record and the role of its stream alone. -/
structure Atomic (r : StreamRecord) : Prop where
  /-- On every session the record has the same outcome, and there is nothing between the session
  before it and the one after it. -/
  carried : ∀ s : Session, r.carryOut.runOn s = (r.outcome, s.tryRecord r)
  /-- If it is not accepted, the session is the same as before. -/
  unchanged : r.outcome ≠ .ok .applied → ∀ s : Session, s.tryRecord r = s
  /-- If it is accepted, the session changes by what the record tells. -/
  changed : r.outcome = .ok .applied → ∃ e, r.Tells e ∧ ∀ s : Session, s.tryRecord r = s.apply e
  /-- This is also what becomes of the session if the record stands alone in a stream. -/
  replayed : ∀ (s : Session) (path : String) (line : Nat),
    (s.replay ⟨⟨path, r.role⟩, [⟨line, r.record⟩]⟩).session = s.tryRecord r
  /-- The outcome is the one that the table gives for the record and its role. -/
  decided : ∀ decided, r.outcome = decided ↔ r.record.Decided r.role decided
  /-- It is a fault exactly if the record has the names of an occurrence, the role is believed about
  it, and one of the fields that the occurrence needs cannot be used. -/
  fault : (∃ cause, r.outcome = .error cause) ↔
    ∃ o : Occurrence, r.record.Named o.names.1 o.names.2 ∧ o.BelievedOf r.role ∧
      ∃ need ∈ o.needs, ¬ r.record.Usable need
  /-- A height that can be used is an unsigned integer of 64 bits in a record that has been read. -/
  height : ∀ (line : List Char) (n : Nat), Record.read line = .ok r.record →
    r.record.payload.get? "height" = some (.number (.integer n)) → n < 2 ^ 64

/-- Every record is carried out as a whole or not at all. -/
theorem carryOut_atomic (r : StreamRecord) : r.Atomic where
  carried s := by
    rw [r.carriesOut_carryOut s, tryRecord_eq_settleJudged]
    rfl
  unchanged := tryRecord_eq_self
  changed := exists_tells_of_applied
  replayed := r.session_replay_singleton
  decided _ := Record.decided_iff.symm
  fault := Record.outcome_eq_error_iff
  height _ _ := Record.lt_of_height

end StreamRecord

end LedgerBench
