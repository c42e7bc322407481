import Mathlib.Data.List.Forall2
import LedgerBench.Analysis
import LedgerBench.Proofs.Event.Tells

/-!
# Runs of records

A run is any sequence of records, each with the role of its stream. `Session.applyRecords` applies a
run record by record and stops at the first that cannot be used. Three facts tie it to the rest: a
run that does not stop carries out the effects that its records tell (`told_of_applyRecords`);
whether it stops does not depend on the session (`applyRecords_eq_ok_iff`); and replaying streams is
applying the run of all their records (`applyRecords_of_replayAll`), so that an analysis that
succeeds reports on the session of such a run (`analyze_eq_ok_iff`, `applyRecords_of_absorb`).
-/

namespace LedgerBench

/-- A record and the role of the stream that holds it. -/
structure StreamRecord where
  /-- The role of the stream. -/
  role : Role
  /-- The record. -/
  record : Record

namespace StreamRecord

/-- What becomes of the record. -/
def verdict (r : StreamRecord) : Except RecordFault Verdict := r.record.judge r.role

/-- The record tells an effect. -/
def Tells (r : StreamRecord) (e : Effect) : Prop := r.record.Tells r.role e

end StreamRecord

/-- The records of a stream in the order of the lines. -/
def Stream.records (stream : Stream) : List StreamRecord :=
  stream.entries.map fun entry => ⟨stream.source.role, entry.record⟩

/-- The effect of a verdict, if it has one. -/
def Verdict.effect? : Verdict → Option Effect
  | .applied e => some e
  | _ => none

/-- The effects that the records of a run tell, in order. A record that tells nothing is passed
over. -/
inductive Told : List StreamRecord → List Effect → Prop where
  /-- No record tells nothing. -/
  | nil : Told [] []
  /-- The first record tells an effect. -/
  | tells {r : StreamRecord} {e : Effect} {run : List StreamRecord} {effects : List Effect}
    (head : r.Tells e) (rest : Told run effects) : Told (r :: run) (e :: effects)
  /-- The first record tells nothing. -/
  | silent {r : StreamRecord} {run : List StreamRecord} {effects : List Effect}
    (head : ∀ e, ¬ r.Tells e) (rest : Told run effects) : Told (r :: run) effects

/-- The records of a run can all be used, and these are their verdicts. -/
def Judges (run : List StreamRecord) (verdicts : List Verdict) : Prop :=
  List.Forall₂ (fun r v => r.verdict = .ok v) run verdicts

namespace Session

/-- Applies a record of a stream with the given role: its verdict, and the session after it. -/
def applyRecord (s : Session) (r : StreamRecord) : Except RecordFault (Verdict × Session) := do
  let v ← r.record.judge r.role
  return (v, s.settle v)

/-- Applies the records of a run one after the other, up to the first that cannot be used. -/
def applyRecords (s : Session) : List StreamRecord → Except RecordFault (List Verdict × Session)
  | [] => return ([], s)
  | r :: run => do
    let (v, s') ← s.applyRecord r
    let (vs, s'') ← s'.applyRecords run
    return (v :: vs, s'')

end Session

/-! ## Verdicts and effects of a run -/

/-- A record with a verdict tells exactly the effect of the verdict. -/
theorem StreamRecord.tells_iff {r : StreamRecord} {v : Verdict} (h : r.verdict = .ok v)
    {e : Effect} : r.Tells e ↔ v.effect? = some e := by
  unfold StreamRecord.verdict at h
  unfold StreamRecord.Tells
  rw [← Record.judge_eq_applied_iff, h]
  cases v <;> simp [Verdict.effect?]

/-- The effects of the verdicts on a run are those that its records tell. -/
theorem Judges.told {run : List StreamRecord} {vs : List Verdict} (h : Judges run vs) :
    Told run (vs.filterMap Verdict.effect?) := by
  induction h with
  | nil => exact .nil
  | @cons r v run vs hv _ ih =>
    cases he : v.effect? with
    | some e =>
      rw [List.filterMap_cons_some he]
      exact .tells ((StreamRecord.tells_iff hv).mpr he) ih
    | none =>
      rw [List.filterMap_cons_none he]
      refine .silent (fun e hte => ?_) ih
      rw [StreamRecord.tells_iff hv, he] at hte
      cases hte

/-- The records of a run tell one list of effects only. -/
theorem Told.unique {run : List StreamRecord} {es es' : List Effect} (h : Told run es)
    (h' : Told run es') : es = es' := by
  induction h generalizing es' with
  | nil =>
    cases h'
    rfl
  | tells head _ ih =>
    cases h' with
    | tells head' rest' => rw [Record.Tells.unique head head', ih rest']
    | silent head' _ => exact absurd head (head' _)
  | silent head _ ih =>
    cases h' with
    | tells head' _ => exact absurd head' (head _)
    | silent _ rest' => exact ih rest'

/-- Two runs one after the other tell their effects one after the other. -/
theorem Told.exists_append {run run' : List StreamRecord} {effects : List Effect}
    (h : Told (run ++ run') effects) :
    ∃ es es', Told run es ∧ Told run' es' ∧ effects = es ++ es' := by
  induction run generalizing effects with
  | nil => exact ⟨[], effects, .nil, h, rfl⟩
  | cons r run ih =>
    cases h with
    | tells head rest =>
      obtain ⟨es, es', htold, htold', rfl⟩ := ih rest
      exact ⟨_ :: es, es', .tells head htold, htold', rfl⟩
    | silent head rest =>
      obtain ⟨es, es', htold, htold', rfl⟩ := ih rest
      exact ⟨es, es', .silent head htold, htold', rfl⟩

/-- An effect that a run tells is told by one of its records. -/
theorem Told.exists_tells {run : List StreamRecord} {es : List Effect} (h : Told run es)
    {e : Effect} (he : e ∈ es) : ∃ r ∈ run, r.Tells e := by
  induction h with
  | nil => cases he
  | @tells r e' run es head _ ih =>
    rcases List.mem_cons.mp he with rfl | he
    · exact ⟨r, List.mem_cons_self, head⟩
    · obtain ⟨r', hr', ht⟩ := ih he
      exact ⟨r', List.mem_cons_of_mem _ hr', ht⟩
  | silent _ _ ih =>
    obtain ⟨r', hr', ht⟩ := ih he
    exact ⟨r', List.mem_cons_of_mem _ hr', ht⟩

/-- What a record of a run tells is told by the run. -/
theorem Told.mem_of_tells {run : List StreamRecord} {es : List Effect} (h : Told run es)
    {r : StreamRecord} (hr : r ∈ run) {e : Effect} (ht : r.Tells e) : e ∈ es := by
  induction h with
  | nil => cases hr
  | @tells r' e' run es head _ ih =>
    rcases List.mem_cons.mp hr with rfl | hr
    · rw [Record.Tells.unique ht head]
      exact List.mem_cons_self
    · exact List.mem_cons_of_mem _ (ih hr)
  | silent head _ ih =>
    rcases List.mem_cons.mp hr with rfl | hr
    · exact absurd ht (head e)
    · exact ih hr

namespace Session

/-- The effects of some verdicts are carried out by settling the first and then the others. -/
theorem applyAll_effects_cons (s : Session) (v : Verdict) (vs : List Verdict) :
    s.applyAll ((v :: vs).filterMap Verdict.effect?) =
      (s.settle v).applyAll (vs.filterMap Verdict.effect?) := by
  cases v <;> rfl

/-- A run can be applied exactly when each of its records can be used, whatever the session; the
session after it has all effects of the verdicts. -/
theorem applyRecords_eq_ok_iff {s s' : Session} {run : List StreamRecord} {vs : List Verdict} :
    s.applyRecords run = .ok (vs, s') ↔
      Judges run vs ∧ s' = s.applyAll (vs.filterMap Verdict.effect?) := by
  induction run generalizing s s' vs with
  | nil =>
    constructor
    · intro h
      cases h
      exact ⟨.nil, rfl⟩
    · rintro ⟨h, rfl⟩
      cases h
      rfl
  | cons r run ih =>
    constructor
    · intro h
      unfold applyRecords applyRecord at h
      obtain ⟨⟨v, s₁⟩, hr, hrest⟩ := bind_eq_ok.mp h
      obtain ⟨⟨vs', s₂⟩, hrun, hend⟩ := bind_eq_ok.mp hrest
      obtain ⟨v', hv, hs⟩ := bind_eq_ok.mp hr
      cases hs
      cases hend
      -- the verdict does not depend on the session, so the rest is judged alike
      obtain ⟨hjudge, hs'⟩ := ih.mp hrun
      rw [← applyAll_effects_cons] at hs'
      exact ⟨.cons hv hjudge, hs'⟩
    · rintro ⟨h, rfl⟩
      cases h with
      | @cons _ v _ vs hv hjudge =>
        unfold applyRecords applyRecord
        refine bind_eq_ok.mpr ⟨(v, s.settle v), bind_eq_ok.mpr ⟨v, hv, rfl⟩, ?_⟩
        rw [applyAll_effects_cons]
        exact bind_eq_ok.mpr ⟨(vs, _), ih.mpr ⟨hjudge, rfl⟩, rfl⟩

/-- A run that can be applied carries out the effects that its records tell. -/
theorem told_of_applyRecords {s s' : Session} {run : List StreamRecord} {vs : List Verdict}
    (h : s.applyRecords run = .ok (vs, s')) :
    ∃ effects, Told run effects ∧ s' = s.applyAll effects := by
  obtain ⟨hjudge, hs⟩ := applyRecords_eq_ok_iff.mp h
  exact ⟨_, hjudge.told, hs⟩

end Session

/-! ## Reading logs -/

/-- A list is mapped without a fault exactly when each of its items is. -/
theorem mapM_eq_ok {ε α β : Type} {f : α → Except ε β} {items : List α} {results : List β} :
    items.mapM f = .ok results ↔ List.Forall₂ (fun x y => f x = .ok y) items results := by
  induction items generalizing results with
  | nil =>
    rw [List.forall₂_nil_left_iff]
    exact ⟨fun h => by cases h; rfl, fun h => by rw [h]; rfl⟩
  | cons x items ih =>
    rw [List.mapM_cons, bind_eq_ok, List.forall₂_cons_left_iff]
    constructor
    · rintro ⟨y, hy, h⟩
      obtain ⟨ys, hys, h⟩ := bind_eq_ok.mp h
      cases h
      exact ⟨y, ys, hy, ih.mp hys, rfl⟩
    · rintro ⟨y, ys, hy, hys, rfl⟩
      exact ⟨y, hy, bind_eq_ok.mpr ⟨ys, ih.mpr hys, rfl⟩⟩

/-- Mapping a list has a fault exactly when an item has it, and none of the items before has one. -/
theorem mapM_eq_error {ε α β : Type} {f : α → Except ε β} {items : List α} {fault : ε} :
    items.mapM f = .error fault ↔ ∃ front x back results, items = front ++ x :: back ∧
      List.Forall₂ (fun x y => f x = .ok y) front results ∧ f x = .error fault := by
  induction items with
  | nil =>
    constructor
    · intro h
      cases h
    · rintro ⟨front, x, back, _, hitems, -⟩
      exact absurd hitems (List.append_ne_nil_of_right_ne_nil front (List.cons_ne_nil x back)).symm
  | cons x items ih =>
    rw [List.mapM_cons]
    cases hx : f x with
    | error e =>
      constructor
      · intro h
        cases h
        exact ⟨[], x, items, [], rfl, .nil, hx⟩
      · rintro ⟨front, y, back, results, hitems, hfront, hy⟩
        cases hfront with
        | nil =>
          cases hitems
          cases hx.symm.trans hy
          rfl
        | cons hgood _ =>
          cases hitems
          rw [hx] at hgood
          cases hgood
    | ok y =>
      constructor
      · intro h
        cases hrest : items.mapM f with
        | ok results =>
          rw [hrest] at h
          cases h
        | error e =>
          rw [hrest] at h
          cases h
          obtain ⟨front, z, back, results, rfl, hfront, hz⟩ := ih.mp hrest
          exact ⟨x :: front, z, back, y :: results, rfl, .cons hx hfront, hz⟩
      · rintro ⟨front, z, back, results, hitems, hfront, hz⟩
        cases hfront with
        | nil =>
          cases hitems
          rw [hx] at hz
          cases hz
        | cons hgood hfront =>
          cases hitems
          have hrest := ih.mpr ⟨_, z, back, _, rfl, hfront, hz⟩
          simp only [hrest]
          rfl

/-- A result comes from an item. -/
theorem exists_of_mem_results {α β : Type} {r : α → β → Prop} {items : List α} {results : List β}
    (h : List.Forall₂ r items results) {y : β} (hy : y ∈ results) : ∃ x ∈ items, r x y := by
  induction h with
  | nil => cases hy
  | @cons x y' items results hxy _ ih =>
    rcases List.mem_cons.mp hy with rfl | hy
    · exact ⟨x, List.mem_cons_self, hxy⟩
    · obtain ⟨x', hx', hr⟩ := ih hy
      exact ⟨x', List.mem_cons_of_mem _ hx', hr⟩

/-- The results of two lists of items, one after the other, come in two parts. -/
theorem exists_append_of_forall₂ {α β : Type} {r : α → β → Prop} {items items' : List α}
    {results : List β} (h : List.Forall₂ r (items ++ items') results) :
    ∃ ys ys', List.Forall₂ r items ys ∧ List.Forall₂ r items' ys' ∧ results = ys ++ ys' :=
  ⟨_, _, (List.forall₂_take_append results items items' h.flip).flip,
    (List.forall₂_drop_append results items items' h.flip).flip, (List.take_append_drop _ _).symm⟩

/-- A log that is read is a text with readable lines. -/
theorem Input.load_eq_ok {i : Input} {stream : Stream} :
    i.load = .ok stream ↔ ∃ text entries, i.text = .ok text ∧ Log.read text = .ok entries ∧
      stream = ⟨i.source, entries⟩ := by
  unfold load
  cases htext : i.text with
  | error cause => simp
  | ok text =>
    cases hread : Log.read text with
    | error cause => simp [hread]
    | ok entries => simp [hread, eq_comm]

/-- A text is read by its characters. -/
theorem Log.read_ofList (chars : List Char) :
    Log.read (String.ofList chars) = (Log.numberedLines chars).mapM Log.readLine := by
  unfold Log.read
  rw [String.toList_ofList]

/-- The line of a log for an event, with the members of its payload as they are written. -/
def Log.eventLine (label time payload : String) : List Char :=
  "\x7b\"k\":\"event\",\"l\":\"".toList ++ label.toList ++ "\",\"ts\":\"".toList ++ time.toList ++
    "\",\"v\":\x7b".toList ++ payload.toList ++ "\x7d\x7d\n".toList

/-- The line of a log for a measured time, with the duration as it is written. -/
def Log.measuredLine (label us payload : String) : List Char :=
  "\x7b\"k\":\"time\",\"l\":\"".toList ++ label.toList ++ "\",\"t_in_us\":".toList ++
    us.toList ++ ",\"v\":\x7b".toList ++ payload.toList ++ "\x7d\x7d\n".toList

/-- The record of an event. -/
def Record.event (label time : String) (payload : List (String × Json)) : Record :=
  ⟨"event", label, some (.text time), none, .object payload⟩

/-- The record of a measured time. -/
def Record.measured (label : String) (us : Nat) (payload : List (String × Json)) : Record :=
  ⟨"time", label, none, some (.number (.integer us)), .object payload⟩

/-! ## Replaying streams -/

/-- The effects of judged entries are those of their verdicts. -/
theorem Judged.effects_eq (j : Judged) :
    j.effects = (j.passed.map (·.2)).filterMap Verdict.effect? := by
  unfold Judged.effects
  rw [List.filterMap_map]
  rfl

/-- The first entry of a stream is judged before the others. -/
theorem Judged.ofEntries_cons (role : Role) (entry : Entry) (entries : List Entry) :
    ofEntries role (entry :: entries) = cons role entry (ofEntries role entries) := rfl

/-- If no entry of a stream stops it, all of its entries have passed with their verdicts. -/
theorem Judged.judges_of_stop {role : Role} {entries : List Entry}
    (h : (ofEntries role entries).stop = none) :
    Judges (entries.map fun entry => ⟨role, entry.record⟩)
      ((ofEntries role entries).passed.map (·.2)) := by
  induction entries with
  | nil => exact .nil
  | cons entry entries ih =>
    rw [ofEntries_cons] at h ⊢
    unfold cons at h ⊢
    cases hv : entry.record.judge role with
    | error cause =>
      rw [hv] at h
      cases h
    | ok v =>
      rw [hv] at h
      exact .cons hv (ih h)

namespace Session

/-- A stream that is replayed to its end is the run of its records. -/
theorem applyRecords_of_replay {s : Session} {stream : Stream} {tally : Tally}
    (h : (s.replay stream).outcome = .ok tally) :
    ∃ vs, s.applyRecords stream.records = .ok (vs, (s.replay stream).session) := by
  have hstop : (Judged.ofStream stream).stop = none := by
    unfold replay at h
    cases hj : (Judged.ofStream stream).stop with
    | none => rfl
    | some fault =>
      simp only [hj] at h
      cases h
  refine ⟨_, applyRecords_eq_ok_iff.mpr ⟨Judged.judges_of_stop hstop, ?_⟩⟩
  rw [← Judged.effects_eq]
  rfl

/-- Two runs are applied one after the other. -/
theorem applyRecords_append {s s₁ s₂ : Session} {run run' : List StreamRecord}
    {vs vs' : List Verdict} (h : s.applyRecords run = .ok (vs, s₁))
    (h' : s₁.applyRecords run' = .ok (vs', s₂)) :
    s.applyRecords (run ++ run') = .ok (vs ++ vs', s₂) := by
  obtain ⟨hjudge, rfl⟩ := applyRecords_eq_ok_iff.mp h
  obtain ⟨hjudge', rfl⟩ := applyRecords_eq_ok_iff.mp h'
  refine applyRecords_eq_ok_iff.mpr ⟨List.rel_append hjudge hjudge', ?_⟩
  rw [List.filterMap_append, applyAll_append]

/-- Streams that are replayed to their ends are the run of all their records. -/
theorem applyRecords_of_replayAll {s : Session} {streams : List Stream}
    (h : (s.replayAll streams).outcome = .ok ()) :
    ∃ vs, s.applyRecords (streams.flatMap Stream.records) =
      .ok (vs, (s.replayAll streams).session) := by
  induction streams generalizing s with
  | nil => exact ⟨[], rfl⟩
  | cons stream rest ih =>
    unfold replayAll at h ⊢
    cases hone : (s.replay stream).outcome with
    | error fault =>
      simp only [hone] at h
      cases h
    | ok tally =>
      simp only [hone] at h
      obtain ⟨vs, hvs⟩ := applyRecords_of_replay hone
      obtain ⟨vs', hvs'⟩ := ih h
      refine ⟨vs ++ vs', ?_⟩
      simp only [hone, List.flatMap_cons]
      exact applyRecords_append hvs hvs'

/-- Logs that are absorbed without a fault are loaded, and their streams are the run of all their
records. -/
theorem applyRecords_of_absorb {s : Session} {inputs : List Input}
    (h : (s.absorb inputs).outcome = .ok ()) :
    ∃ streams vs, inputs.mapM Input.load = .ok streams ∧
      s.applyRecords (streams.flatMap Stream.records) = .ok (vs, (s.absorb inputs).session) := by
  unfold absorb at h ⊢
  cases hload : inputs.mapM Input.load with
  | error fault =>
    simp only [hload] at h
    cases h
  | ok streams =>
    simp only [hload] at h
    obtain ⟨vs, hvs⟩ := applyRecords_of_replayAll h
    exact ⟨streams, vs, rfl, hvs⟩

end Session

/-! ## Analyses -/

/-- Logs that can be read are absorbed by replaying their streams. -/
theorem absorb_eq_replayAll {s : Session} {inputs : List Input} {streams : List Stream}
    (h : inputs.mapM Input.load = .ok streams) : s.absorb inputs = s.replayAll streams := by
  unfold Session.absorb
  rw [h]

/-- An analysis succeeds if it absorbs its logs and finds a window, and it reports on what lies in
that window. -/
theorem analyze_eq_ok_iff {inputs : List Input} {report : Report} :
    (analyze inputs).outcome = .ok report ↔
      (Session.empty.absorb inputs).outcome = .ok () ∧
        ∃ w, (Session.empty.absorb inputs).session.sendWindow = .ok w ∧
          report = .ofSession ((Session.empty.absorb inputs).session.prune w) w := by
  unfold analyze Session.applyWindow
  cases hout : (Session.empty.absorb inputs).outcome with
  | error fault => simp [hout]
  | ok =>
    cases hw : (Session.empty.absorb inputs).session.sendWindow with
    | error fault => simp [hout, hw]
    | ok w => simp [hout, hw, eq_comm]

end LedgerBench
