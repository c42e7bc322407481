import LedgerBench.Proofs.Ledger.Absorbed
import LedgerBench.Proofs.Ledger.ClientPart
import LedgerBench.Proofs.Ledger.LastWrite

/-!
# Where transactions were executed

The storage nodes are numbered by their logs, from one. `lastExecution` reads off these logs alone
which node a transaction was executed on last: it goes through the logs in order, and through each
line by line. `exists_logs_of_absorb` shows that the session of a benchmark says the same, and that
it knows an execution time exactly of the transactions with a last execution.

An execution is an answer to a question about the session, so the last one counts
(`LastWrites.exec`). It remains to find the answers in the logs: record by record
(`executed?_of_verdict`), for a run (`Judges.filterMap_executed?`), and for the logs of a benchmark,
where the client and the peers have no number and so give no answer.
-/

namespace LedgerBench

/-- Whether the record tells of an execution of the transaction. -/
def Record.executes (id : TxId) (r : Record) : Bool :=
  r.kind == "time" && r.label == "exec_time" && r.txId.toOption == some id

/-- For each record of an execution of the transaction the number of its log, in the order of the
logs and of their lines. The number of the first log is `n`. -/
def executionNodes (n : Nat) (logs : List (List Entry)) (id : TxId) : List Nat :=
  (logs.zipIdx n).flatMap fun (log, node) =>
    (log.filter fun entry => entry.record.executes id).map fun _ => node

/-- The number of the log with the last record of an execution of the transaction, counted from one.
-/
def lastExecution (logs : List (List Entry)) (id : TxId) : Option Nat :=
  (executionNodes 1 logs id).getLast?

/-- The last execution is recorded in one of the logs. -/
theorem lastExecution_bounds {logs : List (List Entry)} {id : TxId} {node : Nat}
    (h : lastExecution logs id = some node) : 1 ≤ node ∧ node ≤ logs.length := by
  have hmem : node ∈ executionNodes 1 logs id := List.mem_of_getLast? h
  obtain ⟨⟨log, n⟩, hlog, hnode⟩ := List.mem_flatMap.mp hmem
  obtain ⟨_, -, rfl⟩ := List.mem_map.mp hnode
  have hbounds := List.mem_zipIdx hlog
  omega

/-! ## Runs -/

/-- The storage node on which a record says that the transaction was executed. -/
def StreamRecord.executedOn? (id : TxId) (r : StreamRecord) : Option Nat :=
  if r.record.executes id then r.role.node? else none

/-- A record of an execution names the transaction. -/
theorem Record.executes_iff {id : TxId} {r : Record} :
    r.executes id = true ↔ r.Named "time" "exec_time" ∧ r.txId = .ok id := by
  unfold executes Named
  rw [Bool.and_eq_true, Bool.and_eq_true, beq_iff_eq, beq_iff_eq, beq_iff_eq]
  cases r.txId with
  | error fault => simp [Except.toOption]
  | ok i => simp [Except.toOption]

/-- A record is accepted as an execution on the node on which it says that the transaction was
executed. -/
theorem StreamRecord.executed?_of_verdict {r : StreamRecord} {v : Verdict} (h : r.verdict = .ok v)
    (id : TxId) : (v.effect?.bind (Effect.executed? id)).map Prod.snd = r.executedOn? id := by
  obtain ⟨role, r⟩ := r
  unfold executedOn?
  dsimp only
  by_cases hexec : r.executes id = true
  · -- whether an execution is accepted depends on the role alone
    rw [if_pos hexec]
    obtain ⟨⟨hkind, hlabel⟩, htx⟩ := Record.executes_iff.mp hexec
    obtain ⟨kind, label, timestamp, duration, payload⟩ := r
    cases hkind
    cases hlabel
    cases role with
    | client | peer =>
      cases h
      rfl
    | storage node =>
      obtain ⟨us, -, h⟩ := bind_eq_ok.mp h
      obtain ⟨i, hi, h⟩ := bind_eq_ok.mp h
      cases htx.symm.trans hi
      cases h
      simp [Verdict.effect?, Effect.executed?, Role.node?]
  · rw [if_neg hexec]
    have hnone : ∀ e, v = .applied e → Effect.executed? id e = none := by
      rintro e rfl
      cases Record.judge_eq_applied_iff.mp h with
      | @execute i us node names believed took tx =>
        refine if_neg ?_
        rintro rfl
        exact hexec (Record.executes_iff.mpr ⟨names, tx⟩)
      | _ => rfl
    cases v with
    | applied e => exact congrArg _ (hnone e rfl)
    | _ => rfl

/-- The executions that a run is accepted with are those of its records. -/
theorem Judges.filterMap_executed? {run : List StreamRecord} {vs : List Verdict}
    (h : Judges run vs) (id : TxId) :
    ((vs.filterMap Verdict.effect?).filterMap (Effect.executed? id)).map Prod.snd =
      run.filterMap (StreamRecord.executedOn? id) := by
  rw [List.filterMap_filterMap, List.map_filterMap]
  induction h with
  | nil => rfl
  | cons hv _ ih => rw [List.filterMap_cons, List.filterMap_cons, ih,
      StreamRecord.executed?_of_verdict hv id]

/-! ## The logs of a benchmark -/

/-- The entries of the log at a path. -/
def ReadsAs (files : String → Except FileFault String) (path : String) (log : List Entry) : Prop :=
  ∃ text, files path = .ok text ∧ Log.read text = .ok log

/-- A stream tells of executions by its records, and all on the node whose number it has. -/
theorem Stream.filterMap_executedOn? (stream : Stream) (id : TxId) :
    stream.records.filterMap (StreamRecord.executedOn? id) =
      (stream.entries.filter fun entry => entry.record.executes id).filterMap
        fun _ => stream.source.role.node? := by
  unfold Stream.records
  rw [List.filterMap_map, List.filterMap_filter]
  rfl

/-- The streams of storage nodes say on which nodes transactions were executed, as their logs do. -/
theorem exists_logs_of_load {files : String → Except FileFault String} {storages : List String}
    {n : Nat} {streams : List Stream}
    (h : List.Forall₂ (fun i stream => Input.load i = .ok stream) (storageLogs files n storages)
      streams) :
    ∃ logs, List.Forall₂ (ReadsAs files) storages logs ∧
      ∀ id, (streams.flatMap Stream.records).filterMap (StreamRecord.executedOn? id) =
        executionNodes (n + 1) logs id := by
  induction storages generalizing n streams with
  | nil =>
    cases h
    exact ⟨[], .nil, fun _ => rfl⟩
  | cons path storages ih =>
    unfold storageLogs at h
    rw [List.zipIdx_cons, List.map_cons] at h
    cases h with
    | cons hload hloads =>
      obtain ⟨text, log, htext, hread, rfl⟩ := Input.load_eq_ok.mp hload
      obtain ⟨logs, hreads, hlogs⟩ := ih hloads
      -- the first log has the number that the others count from
      refine ⟨log :: logs, .cons ⟨text, htext, hread⟩ hreads, fun id => ?_⟩
      have hmap : ∀ l : List Entry, (l.filterMap fun _ => some (n + 1)) = l.map fun _ => n + 1 :=
        congrFun (List.filterMap_eq_map (f := fun _ => n + 1))
      rw [List.flatMap_cons, List.filterMap_append, hlogs, Stream.filterMap_executedOn?]
      exact congrArg (· ++ executionNodes (n + 2) logs id) (hmap _)

/-- The session of a benchmark knows of every transaction where it was executed last, as the logs of
the storage nodes say, and knows an execution time exactly if there is a last execution. -/
theorem exists_logs_of_absorb {files : String → Except FileFault String} {client : String}
    {peers storages : List String}
    (h : (Session.empty.absorb (benchmarkLogs files client peers storages)).outcome = .ok ()) :
    ∃ logs, List.Forall₂ (ReadsAs files) storages logs ∧ ∀ id,
      ((Session.empty.absorb (benchmarkLogs files client peers storages)).session.tx id).execNode =
          lastExecution logs id ∧
        ((Session.empty.absorb (benchmarkLogs files client peers storages)).session.tx
          id).execTime.isSome = (lastExecution logs id).isSome := by
  obtain ⟨streams, vs, hload, happly⟩ := Session.applyRecords_of_absorb h
  obtain ⟨hjudge, hs⟩ := Session.applyRecords_eq_ok_iff.mp happly
  have hall := mapM_eq_ok.mp hload
  rw [benchmarkLogs_eq] at hall
  obtain ⟨nodeless, nodes, hnodeless, hnodes, rfl⟩ := exists_append_of_forall₂ hall
  obtain ⟨logs, hreads, hlogs⟩ := exists_logs_of_load hnodes
  -- the client and the peers have no number
  have hsilent : ∀ stream ∈ nodeless, stream.source.role.node? = none := by
    intro stream hstream
    obtain ⟨i, hi, hload⟩ := exists_of_mem_results hnodeless hstream
    obtain ⟨_, _, -, -, rfl⟩ := Input.load_eq_ok.mp hload
    rcases List.mem_cons.mp hi with rfl | hi
    · rfl
    · obtain ⟨path, -, rfl⟩ := List.mem_map.mp hi
      rfl
  have hnone : ∀ id, (nodeless.flatMap Stream.records).filterMap (StreamRecord.executedOn? id) =
      [] := by
    intro id
    rw [List.filterMap_flatMap, List.flatMap_eq_nil_iff]
    intro stream hstream
    rw [Stream.filterMap_executedOn?, hsilent stream hstream, List.filterMap_none]
  refine ⟨logs, hreads, fun id => ?_⟩
  -- the last effect of an execution comes from the last record of one
  have hlast : (lastTold (Effect.executed? id) (vs.filterMap Verdict.effect?)).map Prod.snd =
      lastExecution logs id := by
    unfold lastTold lastExecution
    rw [← List.getLast?_map, hjudge.filterMap_executed?, List.flatMap_append,
      List.filterMap_append, hnone, hlogs, List.nil_append]
  have hexec := (applyAll_lastWrites Session.empty (vs.filterMap Verdict.effect?)).exec id
  rw [← hs, Session.tx_empty] at hexec
  obtain ⟨htime, hnode⟩ := Prod.mk.inj hexec
  rw [hnode, htime, ← hlast]
  cases lastTold (Effect.executed? id) (vs.filterMap Verdict.effect?) with
  | none => exact ⟨rfl, rfl⟩
  | some x => exact ⟨rfl, rfl⟩

end LedgerBench
