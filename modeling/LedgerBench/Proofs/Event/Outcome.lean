import LedgerBench.Proofs.Ledger.Records

/-!
# What decides the outcome of a record

A record is accepted, passed over for one of three reasons, or it is a fault. Which of these happens
depends on its names, on the role of its stream and on the fields that its occurrence needs, and on
nothing else. `Record.Decided` is the table: `Occurrence.names` tells which occurrence a record is
about, `Occurrence.BelievedOf` which roles are believed about it, `Occurrence.needs` which fields it
needs, and `Record.Usable` what can stand in such a field. If several fields cannot be used, the
first of them is the fault. `Record.decided_iff` says that the table is right and covers everything.

The fields that an occurrence needs are read one after the other, so the proof deals with
computations in several parts first (`map_outcome_bind`), and then goes through the occurrences
(`map_outcome_effect`).
-/

namespace LedgerBench

/-- What happens to a record that is no fault. -/
inductive Outcome where
  /-- It is accepted. -/
  | applied
  /-- It is known, but the role of its stream is not believed about it. -/
  | ignored
  /-- Its kind or label is unknown. -/
  | unrecognized
  /-- It tells of an execution, but its stream is no storage node's. -/
  | missingNode
deriving Repr, DecidableEq

/-- The outcome of a verdict, which leaves out the effect. -/
def Verdict.outcome : Verdict → Outcome
  | .applied _ => .applied
  | .ignored => .ignored
  | .unrecognized => .unrecognized
  | .missingNode => .missingNode

/-- What happens to a record of a stream with the given role. -/
def Record.outcome (r : Record) (role : Role) : Except RecordFault Outcome :=
  (r.judge role).map Verdict.outcome

/-! ## What an occurrence needs -/

/-- A field that an occurrence may need. -/
inductive Need where
  /-- The time of an event, `ts`. -/
  | timestamp
  /-- The duration of a measurement, `t_in_us`. -/
  | duration
  /-- The transaction that the payload is about, `tx_id`. -/
  | txId
  /-- The height of the block that the payload is about, `height`. -/
  | height
  /-- The transactions of a block, `tx_ids`. -/
  | txIds
deriving Repr, DecidableEq

/-- The fields that an occurrence needs, in the order in which they are read. -/
def Occurrence.needs : Occurrence → List Need
  | sendingStarted | sendingEnded => [.timestamp]
  | txSent | txReceived => [.timestamp, .txId]
  | blockCommitted => [.timestamp, .height, .txIds]
  | txOutdated | txConflicted => [.txId]
  | proposalEnded => [.timestamp, .height]
  | blockVerified | blockMined => [.duration, .height]
  | txExecuted => [.duration, .txId]

/-- The role is believed about an occurrence: about the client's own occurrences only the client is,
about an execution only a storage node. -/
def Occurrence.BelievedOf (o : Occurrence) (role : Role) : Prop :=
  (o.isClientOnly = true → role = .client) ∧ (o = .txExecuted → ∃ node, role = .storage node)

/-- A value that names a transaction is a string or a number. -/
inductive Json.NamesTx : Json → Prop where
  /-- A string does. -/
  | text (s : String) : NamesTx (.text s)
  /-- A number does. -/
  | number (n : JsonNumber) : NamesTx (.number n)

namespace Record

/-- What stands in a field of the record can be used. -/
inductive Usable (r : Record) : Need → Prop where
  /-- The time is a string that reads as an instant. -/
  | timestamp {text : String} {t : Instant} (field : r.timestamp = some (.text text))
    (reads : Timestamp.read text = .ok t) : Usable r .timestamp
  /-- The duration is a number. -/
  | duration {n : JsonNumber} (field : r.duration = some (.number n)) : Usable r .duration
  /-- The transaction is named. -/
  | txId {v : Json} (field : r.payload.get? "tx_id" = some v) (names : v.NamesTx) : Usable r .txId
  /-- The height is an integer that is not negative. -/
  | height {n : Nat} (field : r.payload.get? "height" = some (.number (.integer n))) :
    Usable r .height
  /-- The transactions are an array of names. -/
  | txIds {items : List Json} (field : r.payload.get? "tx_ids" = some (.array items))
    (names : ∀ v ∈ items, v.NamesTx) : Usable r .txIds

end Record

/-! ## The first fault -/

/-- The fault of a computation, if it ends with one. -/
def fault? {ε α : Type} : Except ε α → Option ε
  | .error e => some e
  | .ok _ => none

section Faults

variable {ε α : Type} {x : Except ε α}

/-- A computation ends with a fault or with a result. -/
theorem fault?_eq_none_iff : fault? x = none ↔ ∃ a, x = .ok a := by
  cases x <;> simp [fault?]

end Faults

namespace Record

variable {r : Record} {role : Role} {o : Occurrence}

/-- Why a field of the record cannot be used, if it cannot. -/
def faultOf? (r : Record) : Need → Option RecordFault
  | .timestamp => fault? r.instant
  | .duration => fault? r.micros
  | .txId => fault? r.txId
  | .height => fault? r.height
  | .txIds => fault? r.txIds

/-- A value gives a name exactly when it is a string or a number. -/
theorem exists_ofJson?_iff {v : Json} : (∃ id, TxId.ofJson? v = some id) ↔ v.NamesTx := by
  constructor
  · rintro ⟨id, hid⟩
    unfold TxId.ofJson? at hid
    split at hid
    · exact .text _
    · exact .number _
    · cases hid
  · rintro (s | n)
    · exact ⟨_, rfl⟩
    · exact ⟨_, rfl⟩

/-- The time of a record can be used exactly when it is a string that reads as an instant. -/
theorem usable_timestamp_iff : r.Usable .timestamp ↔ ∃ t, r.instant = .ok t := by
  constructor
  · intro h
    cases h with
    | @timestamp _ t field reads => exact ⟨t, by simp only [instant, field, reads]⟩
  · rintro ⟨t, ht⟩
    unfold instant at ht
    split at ht
    · cases ht
    · rename_i text hfield
      split at ht
      · exact .timestamp hfield ‹_›
      · cases ht
    · cases ht

/-- The duration of a record can be used exactly when it is a number. -/
theorem usable_duration_iff : r.Usable .duration ↔ ∃ us, r.micros = .ok us := by
  constructor
  · intro h
    cases h with
    | duration field => exact ⟨_, by rw [micros, field]⟩
  · rintro ⟨us, hus⟩
    unfold micros at hus
    split at hus
    · cases hus
    · exact .duration ‹_›
    · cases hus

/-- The transaction of a record can be used exactly when a string or a number names it. -/
theorem usable_txId_iff : r.Usable .txId ↔ ∃ id, r.txId = .ok id := by
  constructor
  · intro h
    cases h with
    | txId field names =>
      obtain ⟨id, hid⟩ := exists_ofJson?_iff.mpr names
      exact ⟨id, by rw [txId, field, Option.bind_some, hid]⟩
  · rintro ⟨id, hid⟩
    unfold txId at hid
    split at hid
    · rename_i id' hsome
      obtain ⟨v, hfield, hv⟩ := Option.bind_eq_some_iff.mp hsome
      exact .txId hfield (exists_ofJson?_iff.mp ⟨id', hv⟩)
    · cases hid

/-- The height of a record can be used exactly when it is an integer that is not negative. -/
theorem usable_height_iff : r.Usable .height ↔ ∃ h, r.height = .ok h := by
  constructor
  · intro h
    cases h with
    | @height n field => exact ⟨n, by rw [height, field]; rfl⟩
  · rintro ⟨h, hh⟩
    unfold height at hh
    split at hh
    · rename_i n hfield
      split at hh
      · rename_i h' hn
        unfold JsonNumber.toNat? at hn
        split at hn
        · exact .height hfield
        · cases hn
      · cases hh
    · cases hh

/-- An item of a list can be used exactly when it names a transaction. -/
theorem exists_itemTxId_iff {v : Json} : (∃ id, itemTxId v = .ok id) ↔ v.NamesTx := by
  rw [← exists_ofJson?_iff]
  unfold itemTxId
  cases TxId.ofJson? v <;> simp

/-- The list of transactions of a record can be used exactly when it is an array of names. -/
theorem usable_txIds_iff : r.Usable .txIds ↔ ∃ ids, r.txIds = .ok ids := by
  constructor
  · intro h
    cases h with
    | @txIds items field names =>
      rw [txIds, field]
      dsimp only
      cases hitems : items.mapM itemTxId with
      | ok ids => exact ⟨ids, rfl⟩
      | error cause =>
        -- the fault is that of an item, but all items can be used
        obtain ⟨front, v, back, _, rfl, -, hv⟩ := mapM_eq_error.mp hitems
        obtain ⟨id, hid⟩ := exists_itemTxId_iff.mpr (names v (by simp))
        cases hid.symm.trans hv
  · rintro ⟨ids, hids⟩
    unfold txIds at hids
    split at hids
    · rename_i items hfield
      refine .txIds hfield fun v hv => ?_
      obtain ⟨id, -, hid⟩ := exists_of_mem_results (mapM_eq_ok.mp hids).flip hv
      exact exists_itemTxId_iff.mp ⟨id, hid⟩
    · cases hids

/-- A field can be used exactly when it is no fault. -/
theorem usable_iff {need : Need} : r.Usable need ↔ r.faultOf? need = none := by
  cases need with
  | timestamp => exact usable_timestamp_iff.trans fault?_eq_none_iff.symm
  | duration => exact usable_duration_iff.trans fault?_eq_none_iff.symm
  | txId => exact usable_txId_iff.trans fault?_eq_none_iff.symm
  | height => exact usable_height_iff.trans fault?_eq_none_iff.symm
  | txIds => exact usable_txIds_iff.trans fault?_eq_none_iff.symm

/-! ## The table -/

/-- What happens to a record of a stream with the given role. -/
inductive Decided (r : Record) (role : Role) : Except RecordFault Outcome → Prop where
  /-- No occurrence has the names of the record. -/
  | unrecognized (names : ∀ o : Occurrence, ¬ r.Named o.names.1 o.names.2) :
    Decided r role (.ok .unrecognized)
  /-- Another role tells of something that only the client is believed about. -/
  | ignored {o : Occurrence} (names : r.Named o.names.1 o.names.2)
    (client : o.isClientOnly = true) (other : role ≠ .client) : Decided r role (.ok .ignored)
  /-- Another role tells of an execution than that of a storage node. -/
  | missingNode (names : r.Named "time" "exec_time") (other : ∀ node, role ≠ .storage node) :
    Decided r role (.ok .missingNode)
  /-- The role is believed, and all fields that are needed can be used. -/
  | applied {o : Occurrence} (names : r.Named o.names.1 o.names.2) (believed : o.BelievedOf role)
    (usable : ∀ need ∈ o.needs, r.Usable need) : Decided r role (.ok .applied)
  /-- The role is believed, and the fault is that of the first field that cannot be used. -/
  | refused {o : Occurrence} {front back : List Need} {need : Need} {cause : RecordFault}
    (names : r.Named o.names.1 o.names.2) (believed : o.BelievedOf role)
    (cut : o.needs = front ++ need :: back) (usable : ∀ n ∈ front, r.Usable n)
    (unusable : r.faultOf? need = some cause) : Decided r role (.error cause)

/-- The outcome of an occurrence that is believed, given the first fault among its fields. -/
def outcomeOf : Option RecordFault → Except RecordFault Outcome
  | some cause => .error cause
  | none => .ok .applied

/-- A field is read before others: its fault comes first. -/
theorem map_outcome_bind {α : Type} {x : Except RecordFault α}
    {f : α → Except RecordFault Verdict} {rest : Option RecordFault}
    (h : ∀ a, (f a).map Verdict.outcome = outcomeOf rest) :
    (x >>= f).map Verdict.outcome = outcomeOf ((fault? x).or rest) := by
  cases x with
  | error cause => rfl
  | ok a => exact h a

/-- The first fault of several fields is that of the first field, or else that of the others. -/
theorem findSome?_cons_faultOf? (need : Need) (needs : List Need) :
    (need :: needs).findSome? r.faultOf? = (r.faultOf? need).or (needs.findSome? r.faultOf?) := by
  rw [List.findSome?_cons]
  cases r.faultOf? need <;> rfl

/-- The fields that an occurrence needs decide about it, if the role is believed. -/
theorem map_outcome_effect (h : o.BelievedOf role) :
    (r.effect role o).map Verdict.outcome = outcomeOf (o.needs.findSome? r.faultOf?) := by
  cases o with
  | txExecuted =>
    obtain ⟨node, rfl⟩ := h.2 rfl
    simp only [Occurrence.needs, findSome?_cons_faultOf?]
    exact map_outcome_bind fun _ => map_outcome_bind fun _ => rfl
  | sendingStarted | sendingEnded | txOutdated | txConflicted =>
    simp only [Occurrence.needs, findSome?_cons_faultOf?]
    exact map_outcome_bind fun _ => rfl
  | txSent | txReceived | proposalEnded | blockVerified | blockMined =>
    simp only [Occurrence.needs, findSome?_cons_faultOf?]
    exact map_outcome_bind fun _ => map_outcome_bind fun _ => rfl
  | blockCommitted =>
    simp only [Occurrence.needs, findSome?_cons_faultOf?]
    exact map_outcome_bind fun _ => map_outcome_bind fun _ => map_outcome_bind fun _ => rfl

/-- A stream is the client's, or its role is another. -/
theorem isClient_eq_false_iff : role.isClient = false ↔ role ≠ .client := by
  cases role <;> simp [Role.isClient]

/-- A record that no occurrence has the names of is not recognized. -/
theorem outcome_of_unknown (names : ∀ o : Occurrence, ¬ r.Named o.names.1 o.names.2) :
    r.outcome role = .ok .unrecognized := by
  have hnone : Occurrence.ofNames? r.kind r.label = none := by
    cases h : Occurrence.ofNames? r.kind r.label with
    | none => rfl
    | some o => exact absurd (Occurrence.ofNames?_eq_some_iff.mp h) (names o)
  rw [outcome, judge, hnone]
  rfl

/-- A record with the names of an occurrence is ignored if only the client is believed and the role
is another, and else it is what the occurrence says. -/
theorem outcome_of_named (names : r.Named o.names.1 o.names.2) :
    r.outcome role = if o.isClientOnly && !role.isClient then .ok .ignored
      else (r.effect role o).map Verdict.outcome := by
  rw [outcome, judge, Occurrence.ofNames?_eq_some_iff.mpr names]
  dsimp only
  split <;> rfl

/-- The fields decide about a record of a role that is believed. -/
theorem outcome_of_believed (names : r.Named o.names.1 o.names.2) (believed : o.BelievedOf role) :
    r.outcome role = outcomeOf (o.needs.findSome? r.faultOf?) := by
  rw [outcome_of_named names, map_outcome_effect believed, if_neg]
  intro hother
  obtain ⟨hclient, hrole⟩ := Bool.and_eq_true_iff.mp hother
  rw [believed.1 hclient] at hrole
  cases hrole

/-- What the table says happens. -/
theorem Decided.outcome_eq {decided : Except RecordFault Outcome} (h : r.Decided role decided) :
    r.outcome role = decided := by
  cases h with
  | unrecognized names => exact outcome_of_unknown names
  | ignored names client other =>
    rw [outcome_of_named names, client, isClient_eq_false_iff.mpr other]
    rfl
  | missingNode names other =>
    rw [outcome_of_named (o := .txExecuted) names]
    cases role with
    | storage node => exact absurd rfl (other node)
    | client => rfl
    | peer => rfl
  | applied names believed usable =>
    have hnone := List.findSome?_eq_none_iff.mpr fun need hneed => usable_iff.mp (usable need hneed)
    rw [outcome_of_believed names believed, hnone]
    rfl
  | refused names believed cut usable unusable =>
    have hsome := List.findSome?_eq_some_iff.mpr
      ⟨_, _, _, cut, unusable, fun need hneed => usable_iff.mp (usable need hneed)⟩
    rw [outcome_of_believed names believed, hsome]
    rfl

/-- The table covers every record and every role. -/
theorem decided_outcome (r : Record) (role : Role) : r.Decided role (r.outcome role) := by
  by_cases hnames : ∃ o : Occurrence, r.Named o.names.1 o.names.2
  swap
  · have hunknown := fun o ho => hnames ⟨o, ho⟩
    rw [outcome_of_unknown hunknown]
    exact .unrecognized hunknown
  obtain ⟨o, names⟩ := hnames
  by_cases hignored : o.isClientOnly = true ∧ role ≠ .client
  · have hdecided := Decided.ignored names hignored.1 hignored.2
    rwa [hdecided.outcome_eq]
  by_cases hmissing : o = .txExecuted ∧ ∀ node, role ≠ .storage node
  · obtain ⟨rfl, hother⟩ := hmissing
    have hdecided := Decided.missingNode names hother
    rwa [hdecided.outcome_eq]
  -- the role is believed, so the fields decide
  have believed : o.BelievedOf role := by
    refine ⟨fun hclient => ?_, fun hexecuted => ?_⟩
    · by_contra hother
      exact hignored ⟨hclient, hother⟩
    · by_contra hother
      exact hmissing ⟨hexecuted, fun node hnode => hother ⟨node, hnode⟩⟩
  rw [outcome_of_believed names believed]
  cases hfault : o.needs.findSome? r.faultOf? with
  | none =>
    exact .applied names believed fun need hneed =>
      usable_iff.mpr (List.findSome?_eq_none_iff.mp hfault need hneed)
  | some cause =>
    obtain ⟨front, need, back, cut, unusable, usable⟩ := List.findSome?_eq_some_iff.mp hfault
    exact .refused names believed cut (fun n hn => usable_iff.mpr (usable n hn)) unusable

/-- What happens to a record is what the table says. -/
theorem decided_iff {decided : Except RecordFault Outcome} :
    r.Decided role decided ↔ r.outcome role = decided := by
  constructor
  · exact Decided.outcome_eq
  · rintro rfl
    exact decided_outcome r role

/-- A record is a fault exactly when it has the names of an occurrence, its role is believed, and a
field that the occurrence needs cannot be used. -/
theorem outcome_eq_error_iff : (∃ cause, r.outcome role = .error cause) ↔
    ∃ o : Occurrence, r.Named o.names.1 o.names.2 ∧ o.BelievedOf role ∧
      ∃ need ∈ o.needs, ¬ r.Usable need := by
  constructor
  · rintro ⟨cause, hcause⟩
    cases decided_iff.mpr hcause with
    | @refused o front back need _ names believed cut usable unusable =>
      refine ⟨o, names, believed, need, by simp [cut], fun husable => ?_⟩
      rw [usable_iff.mp husable] at unusable
      cases unusable
  · rintro ⟨o, names, believed, need, hneed, hunusable⟩
    rw [outcome_of_believed names believed]
    cases hfault : o.needs.findSome? r.faultOf? with
    | none =>
      exact absurd (usable_iff.mpr (List.findSome?_eq_none_iff.mp hfault need hneed)) hunusable
    | some cause => exact ⟨cause, rfl⟩

end Record

end LedgerBench
