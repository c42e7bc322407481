import Mathlib.Data.List.TakeWhile
import LedgerBench.Proofs.Ledger.Records

/-!
# The records that are applied

Absorbing logs may stop early: a log may be unreadable, and then nothing is applied; or a record
cannot be used, and then the records before it have been applied already. `absorbedRecords` are the
records that are applied in any case, and `applyRecords_absorbedRecords` shows that the session is
what this run makes of it, whatever the outcome. So a result about runs of records holds of every
session that a replay leaves behind.
-/

namespace LedgerBench

/-- Whether a record can be used. -/
def StreamRecord.usable (r : StreamRecord) : Bool := r.verdict.isOk

/-- The records that are applied when logs are absorbed: none if one of the logs cannot be read, and
otherwise the records of all streams that stand before the first that cannot be used. -/
def absorbedRecords (inputs : List Input) : List StreamRecord :=
  match inputs.mapM Input.load with
  | .error _ => []
  | .ok streams => (streams.flatMap Stream.records).takeWhile StreamRecord.usable

/-- If all logs can be read, the records are those before the first that cannot be used. -/
theorem absorbedRecords_eq_takeWhile {inputs : List Input} {streams : List Stream}
    (h : inputs.mapM Input.load = .ok streams) :
    absorbedRecords inputs = (streams.flatMap Stream.records).takeWhile StreamRecord.usable := by
  unfold absorbedRecords
  rw [h]

/-- Records that can be used are all applied before those that follow them. -/
theorem Judges.takeWhile_append {run : List StreamRecord} {vs : List Verdict} (h : Judges run vs)
    (rest : List StreamRecord) :
    (run ++ rest).takeWhile StreamRecord.usable = run ++ rest.takeWhile StreamRecord.usable := by
  induction h with
  | nil => rfl
  | @cons r v run vs hv _ ih =>
    have husable : r.usable = true := by
      rw [StreamRecord.usable, hv]
      rfl
    rw [List.cons_append, List.takeWhile_cons_of_pos husable, ih, List.cons_append]

namespace Judged

variable {role : Role} {entries entries' : List Entry}

/-- The entries of a stream that passed are those before the first that cannot be used. -/
theorem judges_passed :
    Judges ((entries.map fun entry => (⟨role, entry.record⟩ : StreamRecord)).takeWhile
      StreamRecord.usable) ((ofEntries role entries).passed.map (·.2)) := by
  induction entries with
  | nil => exact .nil
  | cons entry entries ih =>
    rw [ofEntries_cons, List.map_cons]
    unfold cons
    cases hv : entry.record.judge role with
    | error cause =>
      have hunusable : ¬ StreamRecord.usable ⟨role, entry.record⟩ := by
        simp [StreamRecord.usable, StreamRecord.verdict, hv, Except.isOk, Except.toBool]
      rw [List.takeWhile_cons_of_neg hunusable]
      exact .nil
    | ok v =>
      have husable : StreamRecord.usable ⟨role, entry.record⟩ := by
        simp [StreamRecord.usable, StreamRecord.verdict, hv, Except.isOk, Except.toBool]
      rw [List.takeWhile_cons_of_pos husable]
      exact .cons hv ih

/-- A stream is read to its end exactly when each of its entries can be used. -/
theorem isNone_stop :
    (ofEntries role entries).stop.isNone =
      (entries.map fun entry => (⟨role, entry.record⟩ : StreamRecord)).all
        StreamRecord.usable := by
  induction entries with
  | nil => rfl
  | cons entry entries ih =>
    rw [ofEntries_cons, List.map_cons, List.all_cons, ← ih]
    unfold cons StreamRecord.usable StreamRecord.verdict
    cases entry.record.judge role with
    | error cause => rfl
    | ok v => exact (Bool.true_and _).symm

/-- Entries behind others that can all be used pass as they would alone. -/
theorem ofEntries_append (h : (ofEntries role entries).stop = none) :
    ofEntries role (entries ++ entries') =
      ⟨(ofEntries role entries).passed ++ (ofEntries role entries').passed,
        (ofEntries role entries').stop⟩ := by
  induction entries with
  | nil => rfl
  | cons entry entries ih =>
    rw [List.cons_append, ofEntries_cons, ofEntries_cons]
    rw [ofEntries_cons] at h
    unfold cons at h ⊢
    cases hv : entry.record.judge role with
    | error cause =>
      -- a fault would have stopped the first part
      rw [hv] at h
      cases h
    | ok v =>
      rw [hv] at h
      rw [ih h]
      rfl

end Judged

namespace Session

/-- Replaying a stream carries out the effects of the records before the first that cannot be
used. -/
theorem judges_replay (s : Session) (stream : Stream) :
    ∃ vs, Judges (stream.records.takeWhile StreamRecord.usable) vs ∧
      (s.replay stream).session = s.applyAll (vs.filterMap Verdict.effect?) := by
  refine ⟨_, Judged.judges_passed, ?_⟩
  rw [← Judged.effects_eq]
  rfl

/-- A stream is replayed to its end exactly when each of its records can be used. -/
theorem isOk_replay (s : Session) (stream : Stream) :
    (s.replay stream).outcome.isOk = stream.records.all StreamRecord.usable := by
  unfold Stream.records
  rw [← Judged.isNone_stop]
  unfold replay Judged.ofStream
  dsimp only
  cases (Judged.ofEntries stream.source.role stream.entries).stop <;> rfl

/-- So does replaying many streams, where a record that cannot be used also ends the replay of the
streams after its own. -/
theorem judges_replayAll (s : Session) (streams : List Stream) :
    ∃ vs, Judges ((streams.flatMap Stream.records).takeWhile StreamRecord.usable) vs ∧
      (s.replayAll streams).session = s.applyAll (vs.filterMap Verdict.effect?) := by
  induction streams generalizing s with
  | nil => exact ⟨[], .nil, rfl⟩
  | cons stream rest ih =>
    obtain ⟨vs, hjudge, hone⟩ := s.judges_replay stream
    have hend := s.isOk_replay stream
    rw [List.flatMap_cons]
    unfold replayAll
    cases hout : (s.replay stream).outcome with
    | error fault =>
      -- one of the records cannot be used, so those of the other streams are not reached
      simp only [hout]
      have hshort : ¬ (stream.records.takeWhile StreamRecord.usable).length =
          stream.records.length := by
        intro hlength
        have hself := (List.takeWhile_prefix StreamRecord.usable).eq_of_length hlength
        rw [List.takeWhile_eq_self_iff, ← List.all_eq_true, ← hend, hout] at hself
        cases hself
      rw [List.takeWhile_append, if_neg hshort]
      exact ⟨vs, hjudge, hone⟩
    | ok tally =>
      simp only [hout]
      have hall : ∀ r ∈ stream.records, r.usable = true := by
        rw [← List.all_eq_true, ← hend, hout]
        rfl
      obtain ⟨vs', hjudge', hmore⟩ := ih (s.replay stream).session
      rw [List.takeWhile_eq_self_iff.mpr hall] at hjudge
      rw [List.takeWhile_append_of_pos hall]
      refine ⟨vs ++ vs', List.rel_append hjudge hjudge', ?_⟩
      rw [List.filterMap_append, applyAll_append, ← hone]
      exact hmore

/-- Whatever becomes of absorbing logs, the session is what the records that are applied make of
it. -/
theorem applyRecords_absorbedRecords (s : Session) (inputs : List Input) :
    ∃ vs, s.applyRecords (absorbedRecords inputs) = .ok (vs, (s.absorb inputs).session) := by
  cases hload : inputs.mapM Input.load with
  | error fault =>
    unfold absorb absorbedRecords
    rw [hload]
    exact ⟨[], rfl⟩
  | ok streams =>
    rw [absorb_eq_replayAll hload, absorbedRecords_eq_takeWhile hload]
    obtain ⟨vs, hjudge, hs⟩ := s.judges_replayAll streams
    exact ⟨vs, applyRecords_eq_ok_iff.mpr ⟨hjudge, hs⟩⟩

end Session

end LedgerBench
