import LedgerBench.Event.Verdict

/-!
# What an accepted record tells

`Tells` reads the effect of a record off its names and fields, one rule for each of the eleven
occurrences: which kind and label name it, which role is believed, which fields are needed and what
they give. `judge_eq_applied_iff` shows that a record is accepted with an effect exactly when it
tells that effect. The results about sessions speak of `Tells`, so that they say in terms of labels
and fields where the data of a session comes from.

The proof goes through the names: every occurrence has one pair of them (`ofNames?_eq_some_iff`), so
a rule is found by the occurrence of the record.
-/

namespace LedgerBench

/-- A computation in two parts ends well exactly when both of its parts do. -/
theorem bind_eq_ok {ε α β : Type} {x : Except ε α} {f : α → Except ε β} {b : β} :
    x >>= f = .ok b ↔ ∃ a, x = .ok a ∧ f a = .ok b := by
  cases x with
  | error e => simp [bind, Except.bind]
  | ok a => simp [bind, Except.bind]

/-- The kind and the label that name an occurrence. -/
def Occurrence.names : Occurrence → String × String
  | sendingStarted => ("event", "start-send-tx")
  | sendingEnded => ("event", "end-send-tx")
  | txSent => ("event", "tx_begin")
  | blockCommitted => ("event", "tx_commit")
  | txOutdated => ("event", "tx_outdated")
  | txConflicted => ("event", "tx_conflict")
  | txReceived => ("event", "blk_recv_tx")
  | proposalEnded => ("event", "propose_end")
  | blockVerified => ("time", "verify_block")
  | blockMined => ("time", "mining")
  | txExecuted => ("time", "exec_time")

/-- Every occurrence has one pair of names. -/
theorem Occurrence.ofNames?_eq_some_iff {kind label : String} {o : Occurrence} :
    ofNames? kind label = some o ↔ kind = o.names.1 ∧ label = o.names.2 := by
  constructor
  · intro h
    obtain ⟨k, hk, hl⟩ := Option.bind_eq_some_iff.mp h
    unfold RecordKind.ofName? at hk
    unfold ofLabel? at hl
    split at hk <;> cases hk <;> split at hl <;> cases hl <;>
      first | exact ⟨rfl, rfl⟩ | contradiction
  · rintro ⟨rfl, rfl⟩
    cases o <;> rfl

namespace Record

/-- The record has this kind and this label. -/
def Named (r : Record) (kind label : String) : Prop := r.kind = kind ∧ r.label = label

/-- What a record of a stream with the given role tells, read off its names and fields. The first
six are believed of the client only, an execution of storage nodes only. -/
inductive Tells (role : Role) (r : Record) : Effect → Prop where
  /-- The client began to send at the time of the record. -/
  | openWindow {time : Instant} (names : r.Named "event" "start-send-tx")
    (believed : role = .client) (ts : r.instant = .ok time) : Tells role r (.openWindow time)
  /-- The client had sent everything at the time of the record, and gives its rate if it is a
  number. -/
  | closeWindow {time : Instant} (names : r.Named "event" "end-send-tx") (believed : role = .client)
    (ts : r.instant = .ok time) : Tells role r (.closeWindow time r.rate?)
  /-- The client sent the transaction `tx_id` at the time of the record. -/
  | send {id : TxId} {time : Instant} (names : r.Named "event" "tx_begin")
    (believed : role = .client) (ts : r.instant = .ok time) (tx : r.txId = .ok id) :
    Tells role r (.send id time)
  /-- The block at `height` was committed at the time of the record with the transactions
  `tx_ids`. -/
  | commit {height : Height} {time : Instant} {ids : List TxId}
    (names : r.Named "event" "tx_commit") (believed : role = .client) (ts : r.instant = .ok time)
    (block : r.height = .ok height) (txs : r.txIds = .ok ids) :
    Tells role r (.commit height time ids)
  /-- The transaction `tx_id` came too late. -/
  | outdate {id : TxId} (names : r.Named "event" "tx_outdated") (believed : role = .client)
    (tx : r.txId = .ok id) : Tells role r (.outdate id)
  /-- The transaction `tx_id` was in conflict. -/
  | conflict {id : TxId} (names : r.Named "event" "tx_conflict") (believed : role = .client)
    (tx : r.txId = .ok id) : Tells role r (.conflict id)
  /-- The proposer received the transaction `tx_id` at the time of the record. -/
  | receive {id : TxId} {time : Instant} (names : r.Named "event" "blk_recv_tx")
    (ts : r.instant = .ok time) (tx : r.txId = .ok id) : Tells role r (.receive id time)
  /-- The proposal of the block at `height` ended at the time of the record. -/
  | endProposal {height : Height} {time : Instant} (names : r.Named "event" "propose_end")
    (ts : r.instant = .ok time) (block : r.height = .ok height) :
    Tells role r (.endProposal height time)
  /-- The verification of the block at `height` took the duration of the record. -/
  | verify {height : Height} {us : Float} (names : r.Named "time" "verify_block")
    (took : r.micros = .ok us) (block : r.height = .ok height) : Tells role r (.verify height us)
  /-- The mining of the block at `height` took the duration of the record. -/
  | mine {height : Height} {us : Float} (names : r.Named "time" "mining")
    (took : r.micros = .ok us) (block : r.height = .ok height) : Tells role r (.mine height us)
  /-- The execution of the transaction `tx_id` on the storage node that wrote the stream took the
  duration of the record. -/
  | execute {id : TxId} {us : Float} {node : Nat} (names : r.Named "time" "exec_time")
    (believed : role = .storage node) (took : r.micros = .ok us) (tx : r.txId = .ok id) :
    Tells role r (.execute id us node)

variable {r : Record} {role : Role} {e : Effect}

/-- A record that tells an effect is accepted with it. -/
theorem Tells.judge_eq (h : r.Tells role e) : r.judge role = .ok (.applied e) := by
  obtain ⟨kind, label, timestamp, duration, payload⟩ := r
  cases h with
  | openWindow names believed ts | closeWindow names believed ts =>
    obtain ⟨rfl, rfl⟩ := names
    subst believed
    exact bind_eq_ok.mpr ⟨_, ts, rfl⟩
  | outdate names believed tx | conflict names believed tx =>
    obtain ⟨rfl, rfl⟩ := names
    subst believed
    exact bind_eq_ok.mpr ⟨_, tx, rfl⟩
  | send names believed ts tx =>
    obtain ⟨rfl, rfl⟩ := names
    subst believed
    exact bind_eq_ok.mpr ⟨_, ts, bind_eq_ok.mpr ⟨_, tx, rfl⟩⟩
  | commit names believed ts block txs =>
    obtain ⟨rfl, rfl⟩ := names
    subst believed
    exact bind_eq_ok.mpr ⟨_, ts, bind_eq_ok.mpr ⟨_, block, bind_eq_ok.mpr ⟨_, txs, rfl⟩⟩⟩
  | receive names ts tx =>
    obtain ⟨rfl, rfl⟩ := names
    exact bind_eq_ok.mpr ⟨_, ts, bind_eq_ok.mpr ⟨_, tx, rfl⟩⟩
  | endProposal names ts block =>
    obtain ⟨rfl, rfl⟩ := names
    exact bind_eq_ok.mpr ⟨_, ts, bind_eq_ok.mpr ⟨_, block, rfl⟩⟩
  | verify names took block | mine names took block =>
    obtain ⟨rfl, rfl⟩ := names
    exact bind_eq_ok.mpr ⟨_, took, bind_eq_ok.mpr ⟨_, block, rfl⟩⟩
  | execute names believed took tx =>
    obtain ⟨rfl, rfl⟩ := names
    subst believed
    exact bind_eq_ok.mpr ⟨_, took, bind_eq_ok.mpr ⟨_, tx, rfl⟩⟩

/-- What an occurrence gives, when the role is believed about it, is what the record tells. -/
theorem Tells.of_effect_eq {o : Occurrence} (names : r.Named o.names.1 o.names.2)
    (believed : o.isClientOnly = true → role = .client)
    (h : r.effect role o = .ok (.applied e)) : r.Tells role e := by
  cases o with
  | sendingStarted =>
    obtain ⟨t, ht, he⟩ := bind_eq_ok.mp h
    cases he
    exact .openWindow names (believed rfl) ht
  | sendingEnded =>
    obtain ⟨t, ht, he⟩ := bind_eq_ok.mp h
    cases he
    exact .closeWindow names (believed rfl) ht
  | txSent =>
    obtain ⟨t, ht, h⟩ := bind_eq_ok.mp h
    obtain ⟨id, hid, he⟩ := bind_eq_ok.mp h
    cases he
    exact .send names (believed rfl) ht hid
  | blockCommitted =>
    obtain ⟨t, ht, h⟩ := bind_eq_ok.mp h
    obtain ⟨height, hheight, h⟩ := bind_eq_ok.mp h
    obtain ⟨ids, hids, he⟩ := bind_eq_ok.mp h
    cases he
    exact .commit names (believed rfl) ht hheight hids
  | txOutdated =>
    obtain ⟨id, hid, he⟩ := bind_eq_ok.mp h
    cases he
    exact .outdate names (believed rfl) hid
  | txConflicted =>
    obtain ⟨id, hid, he⟩ := bind_eq_ok.mp h
    cases he
    exact .conflict names (believed rfl) hid
  | txReceived =>
    obtain ⟨t, ht, h⟩ := bind_eq_ok.mp h
    obtain ⟨id, hid, he⟩ := bind_eq_ok.mp h
    cases he
    exact .receive names ht hid
  | proposalEnded =>
    obtain ⟨t, ht, h⟩ := bind_eq_ok.mp h
    obtain ⟨height, hheight, he⟩ := bind_eq_ok.mp h
    cases he
    exact .endProposal names ht hheight
  | blockVerified =>
    obtain ⟨us, hus, h⟩ := bind_eq_ok.mp h
    obtain ⟨height, hheight, he⟩ := bind_eq_ok.mp h
    cases he
    exact .verify names hus hheight
  | blockMined =>
    obtain ⟨us, hus, h⟩ := bind_eq_ok.mp h
    obtain ⟨height, hheight, he⟩ := bind_eq_ok.mp h
    cases he
    exact .mine names hus hheight
  | txExecuted =>
    cases role with
    | client => cases h
    | peer => cases h
    | storage node =>
      obtain ⟨us, hus, h⟩ := bind_eq_ok.mp h
      obtain ⟨id, hid, he⟩ := bind_eq_ok.mp h
      cases he
      exact .execute names rfl hus hid

/-- A record that is accepted with an effect tells it. -/
theorem Tells.of_judge_eq (h : r.judge role = .ok (.applied e)) : r.Tells role e := by
  unfold judge at h
  split at h
  · cases h
  · rename_i o ho
    split at h
    · cases h
    · -- the role is believed: the record passed the test of the client's own occurrences
      rename_i hrole
      refine .of_effect_eq (Occurrence.ofNames?_eq_some_iff.mp ho) (fun hclient => ?_) h
      rw [hclient, Bool.true_and, Bool.not_eq_true, Bool.not_eq_false'] at hrole
      cases role with
      | client => rfl
      | peer => cases hrole
      | storage node => cases hrole

/-- A record is accepted with an effect exactly when it tells it. -/
theorem judge_eq_applied_iff : r.judge role = .ok (.applied e) ↔ r.Tells role e :=
  ⟨Tells.of_judge_eq, Tells.judge_eq⟩

/-- A record tells at most one effect. -/
theorem Tells.unique {e' : Effect} (h : r.Tells role e) (h' : r.Tells role e') : e = e' := by
  have heq := h.judge_eq.symm.trans h'.judge_eq
  cases heq
  rfl

end Record

end LedgerBench
