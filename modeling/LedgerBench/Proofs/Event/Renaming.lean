import Mathlib.Data.List.Basic
import LedgerBench.Proofs.Ledger.Records

/-!
# Renaming transactions and moving heights

A renaming gives transactions other names and blocks other heights. In a record it replaces the name
under `tx_id`, the names in the list `tx_ids` and the height under `height`; a value that is no name
or no height stays what it is, and so does everything else.

Whether a record is accepted does not depend on which names and heights it has: each of its fields
that can be used can be used after the renaming, and gives the new name or height
(`Renaming.txId_record`, `Renaming.height_record`, `Renaming.txIds_record`). So the verdict on a
renamed record is the renamed verdict (`Renaming.judge_record`), and whole streams are judged in the
same way (`Renaming.ofEntries_map`).
-/

namespace LedgerBench

/-- Other names for transactions and other heights for blocks. -/
structure Renaming where
  /-- The new name of a transaction. -/
  tx : TxId → TxId
  /-- The new height of a block. -/
  height : Height → Height

namespace Renaming

variable (ρ : Renaming)

/-! ## Records -/

/-- A value that names a transaction, with the new name. -/
def txValue (v : Json) : Json :=
  match TxId.ofJson? v with
  | some id => .text (ρ.tx id)
  | none => v

/-- A list of values that name transactions, with the new names. -/
def txValues : Json → Json
  | .array items => .array (items.map ρ.txValue)
  | v => v

/-- A value that is the height of a block, with the new height. -/
def heightValue : Json → Json
  | .number n =>
    match n.toNat? with
    | some h => .number (.integer (ρ.height h))
    | none => .number n
  | v => v

/-- The renamed value of a member with the given key. -/
def memberValue (key : String) (v : Json) : Json :=
  if key = "tx_id" then ρ.txValue v
  else if key = "tx_ids" then ρ.txValues v
  else if key = "height" then ρ.heightValue v
  else v

/-- A payload with the new names and heights. -/
def payload : Json → Json
  | .object members => .object (members.map fun m => (m.1, ρ.memberValue m.1 m.2))
  | v => v

/-- A record with the new names and heights. -/
def record (r : Record) : Record := { r with payload := ρ.payload r.payload }

/-- The value of a key in a renamed payload. -/
theorem get?_payload (key : String) (v : Json) :
    (ρ.payload v).get? key = (v.get? key).map (ρ.memberValue key) := by
  cases v with
  | object members =>
    unfold payload Json.get?
    dsimp only
    rw [← List.map_reverse, List.find?_map, Option.map_map, Option.map_map]
    -- the keys are the same, so the same member is found
    have hsame : (fun m : String × Json => m.1 == key) ∘
        (fun m : String × Json => (m.1, ρ.memberValue m.1 m.2)) = fun m => m.1 == key := rfl
    rw [hsame]
    cases hfind : members.reverse.find? (fun m => m.1 == key) with
    | none => rfl
    | some m =>
      have hkey := List.find?_some hfind
      simp [beq_iff_eq.mp hkey]
  | _ => rfl

/-- A renamed value names the transaction by its new name. -/
theorem ofJson?_txValue (v : Json) : TxId.ofJson? (ρ.txValue v) = (TxId.ofJson? v).map ρ.tx := by
  unfold txValue
  cases h : TxId.ofJson? v with
  | none => exact h
  | some id => rfl

/-- A renamed record is about the transaction with the new name. -/
theorem txId_record (r : Record) : (ρ.record r).txId = r.txId.map ρ.tx := by
  have hvalue : ((ρ.payload r.payload).get? "tx_id").bind TxId.ofJson? =
      ((r.payload.get? "tx_id").bind TxId.ofJson?).map ρ.tx := by
    rw [get?_payload]
    cases r.payload.get? "tx_id" with
    | none => rfl
    | some v => exact ρ.ofJson?_txValue v
  unfold Record.txId record
  dsimp only
  rw [hvalue]
  cases (r.payload.get? "tx_id").bind TxId.ofJson? <;> rfl

/-- A renamed record is about the block at the new height. -/
theorem height_record (r : Record) : (ρ.record r).height = r.height.map ρ.height := by
  have hvalue : (ρ.payload r.payload).get? "height" =
      (r.payload.get? "height").map ρ.heightValue := ρ.get?_payload "height" r.payload
  unfold Record.height record
  dsimp only
  rw [hvalue]
  cases r.payload.get? "height" with
  | none => rfl
  | some v =>
    cases v with
    | number n =>
      cases n with
      | integer n => cases n <;> rfl
      | float x => rfl
    | _ => rfl

/-- The items of a renamed list name the transactions by their new names. -/
theorem mapM_itemTxId (items : List Json) :
    (items.map ρ.txValue).mapM Record.itemTxId =
      (items.mapM Record.itemTxId).map (List.map ρ.tx) := by
  induction items with
  | nil => rfl
  | cons v items ih =>
    have hitem : Record.itemTxId (ρ.txValue v) = (Record.itemTxId v).map ρ.tx := by
      unfold Record.itemTxId
      rw [ofJson?_txValue]
      cases h : TxId.ofJson? v with
      | none => simp [txValue, h, Except.map]
      | some id => rfl
    rw [List.map_cons, List.mapM_cons, List.mapM_cons, ih, hitem]
    cases Record.itemTxId v with
    | error fault => rfl
    | ok id => cases items.mapM Record.itemTxId <;> rfl

/-- A renamed record lists the transactions by their new names. -/
theorem txIds_record (r : Record) : (ρ.record r).txIds = r.txIds.map (List.map ρ.tx) := by
  have hvalue : (ρ.payload r.payload).get? "tx_ids" =
      (r.payload.get? "tx_ids").map ρ.txValues := ρ.get?_payload "tx_ids" r.payload
  unfold Record.txIds record
  dsimp only
  rw [hvalue]
  cases r.payload.get? "tx_ids" with
  | none => rfl
  | some v =>
    cases v with
    | array items => exact ρ.mapM_itemTxId items
    | _ => rfl

/-- A renaming leaves the reported rate as it is. -/
theorem rate?_record (r : Record) : (ρ.record r).rate? = r.rate? := by
  unfold Record.rate? record
  dsimp only
  rw [get?_payload]
  cases r.payload.get? "rate" <;> rfl

/-! ## Verdicts -/

/-- An effect with the new names and heights. -/
def effect : Effect → Effect
  | .openWindow time => .openWindow time
  | .closeWindow time rate => .closeWindow time rate
  | .send id time => .send (ρ.tx id) time
  | .commit height time ids => .commit (ρ.height height) time (ids.map ρ.tx)
  | .outdate id => .outdate (ρ.tx id)
  | .conflict id => .conflict (ρ.tx id)
  | .receive id time => .receive (ρ.tx id) time
  | .endProposal height time => .endProposal (ρ.height height) time
  | .verify height us => .verify (ρ.height height) us
  | .mine height us => .mine (ρ.height height) us
  | .execute id us node => .execute (ρ.tx id) us node

/-- A verdict with the new names and heights. -/
def verdict : Verdict → Verdict
  | .applied e => .applied (ρ.effect e)
  | .ignored => .ignored
  | .unrecognized => .unrecognized
  | .missingNode => .missingNode

/-- An occurrence of a renamed record gives the renamed verdict or the same fault. -/
theorem effect_record (r : Record) (role : Role) (o : Occurrence) :
    (ρ.record r).effect role o = (r.effect role o).map ρ.verdict := by
  have hinstant : (ρ.record r).instant = r.instant := rfl
  have hmicros : (ρ.record r).micros = r.micros := rfl
  unfold Record.effect
  rw [hinstant, hmicros, txId_record, height_record, txIds_record, rate?_record]
  cases o with
  | sendingStarted | sendingEnded => cases r.instant <;> rfl
  | txOutdated | txConflicted => cases r.txId <;> rfl
  | txSent | txReceived => cases r.instant <;> cases r.txId <;> rfl
  | proposalEnded => cases r.instant <;> cases r.height <;> rfl
  | blockVerified | blockMined => cases r.micros <;> cases r.height <;> rfl
  | blockCommitted => cases r.instant <;> cases r.height <;> cases r.txIds <;> rfl
  | txExecuted =>
    cases role with
    | client | peer => rfl
    | storage node => cases r.micros <;> cases r.txId <;> rfl

/-- The verdict on a renamed record is the renamed verdict, or the same fault. -/
theorem judge_record (r : Record) (role : Role) :
    (ρ.record r).judge role = (r.judge role).map ρ.verdict := by
  have hnames : Occurrence.ofNames? (ρ.record r).kind (ρ.record r).label =
      Occurrence.ofNames? r.kind r.label := rfl
  unfold Record.judge
  rw [hnames]
  cases Occurrence.ofNames? r.kind r.label with
  | none => rfl
  | some o =>
    dsimp only
    split
    · rfl
    · exact ρ.effect_record r role o

/-! ## Streams -/

/-- An entry with the new names and heights. -/
def entry (e : Entry) : Entry := ⟨e.line, ρ.record e.record⟩

/-- A stream with the new names and heights. -/
def stream (stream : Stream) : Stream := ⟨stream.source, stream.entries.map ρ.entry⟩

/-- Judged entries with the new names and heights. -/
def judged (j : Judged) : Judged := ⟨j.passed.map fun p => (ρ.entry p.1, ρ.verdict p.2), j.stop⟩

/-- Renamed entries pass or stop a stream as they did, each with the renamed verdict. -/
theorem ofEntries_map (role : Role) (entries : List Entry) :
    Judged.ofEntries role (entries.map ρ.entry) = ρ.judged (Judged.ofEntries role entries) := by
  induction entries with
  | nil => rfl
  | cons e entries ih =>
    have hjudge : (ρ.entry e).record.judge role = (e.record.judge role).map ρ.verdict :=
      ρ.judge_record e.record role
    rw [List.map_cons, Judged.ofEntries_cons, Judged.ofEntries_cons, ih]
    unfold Judged.cons
    rw [hjudge]
    cases e.record.judge role <;> rfl

/-- The effects of renamed entries are the renamed effects. -/
theorem effects_judged (j : Judged) : (ρ.judged j).effects = j.effects.map ρ.effect := by
  unfold Judged.effects judged
  rw [List.filterMap_map, List.map_filterMap]
  refine List.filterMap_congr fun p _ => ?_
  obtain ⟨e, v⟩ := p
  cases v <;> rfl

/-- Renamed entries are counted as they were. -/
theorem tally_judged (j : Judged) : (ρ.judged j).tally = j.tally := by
  unfold Judged.tally judged
  rw [List.foldl_map]
  congr 1
  funext t p
  obtain ⟨e, v⟩ := p
  cases v <;> rfl

/-- The notices about renamed entries are the same. -/
theorem notices_judged (j : Judged) (source : Source) :
    (ρ.judged j).notices source = j.notices source := by
  unfold Judged.notices judged
  rw [List.filterMap_map]
  refine List.filterMap_congr fun p _ => ?_
  obtain ⟨e, v⟩ := p
  cases v <;> rfl

end Renaming

end LedgerBench
