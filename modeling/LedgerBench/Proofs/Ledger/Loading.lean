import LedgerBench.Proofs.Ledger.LogText

/-!
# Nothing is applied unless everything loads

Absorbing logs has two phases. First every log is loaded, up to the first that cannot be read or has
a line that is no record; then the records of all logs are applied, up to the first that cannot be
used. `Session.AbsorbEnds` says in terms of the texts how this can end. It has three ways: a log
cannot be loaded, and then the session is left alone, even if an earlier log has a record that could
not have been used; a record is stopped at, and it is named by its path and its physical line; or
all records are applied. `Session.absorbEnds_iff` is the result: absorbing logs ends in the way that
is derived, and in no other.
-/

namespace LedgerBench

/-! ## Streams -/

/-- The source of a stream that is reported as read to its end. -/
def Notice.processed? : Notice → Option Source
  | .processed source _ => some source
  | _ => none

/-- A stream that is reported as read to its end is reported with its source. -/
theorem Notice.processed?_processed (source : Source) (tally : Tally) :
    (Notice.processed source tally).processed? = some source := rfl

/-- The sources that are reported as read to their ends. -/
def Replay.processed {α : Type} (r : Replay α) : List Source :=
  r.notices.filterMap Notice.processed?

/-- An entry that cannot be used stops its stream, and the entries before it have passed. -/
theorem Judged.ofEntries_stop {role : Role} {before after : List Entry} {entry : Entry}
    {cause : RecordFault} (h : (ofEntries role before).stop = none)
    (hfault : entry.record.judge role = .error cause) :
    ofEntries role (before ++ entry :: after) =
      ⟨(ofEntries role before).passed, some (entry.line, cause)⟩ := by
  have hentry : ofEntries role (entry :: after) = ⟨[], some (entry.line, cause)⟩ := by
    rw [ofEntries_cons, cons, hfault]
  rw [ofEntries_append h, hentry, List.append_nil]

namespace Session

variable {s s' : Session} {vs : List Verdict}

/-- A record is refused exactly when it cannot be used. -/
theorem applyRecord_eq_error_iff {r : StreamRecord} {cause : RecordFault} :
    s.applyRecord r = .error cause ↔ r.verdict = .error cause := by
  unfold applyRecord StreamRecord.verdict
  cases r.record.judge r.role <;> simp [bind, Except.bind, pure, Except.pure]

/-- A run in two parts is applied one part after the other. -/
theorem exists_applyRecords_of_append {run run' : List StreamRecord}
    (h : s.applyRecords (run ++ run') = .ok (vs, s')) : ∃ vs₁ s₁ vs₂,
      s.applyRecords run = .ok (vs₁, s₁) ∧ s₁.applyRecords run' = .ok (vs₂, s') := by
  obtain ⟨hjudge, rfl⟩ := applyRecords_eq_ok_iff.mp h
  obtain ⟨vs₁, vs₂, h₁, h₂, rfl⟩ := exists_append_of_forall₂ hjudge
  refine ⟨vs₁, _, vs₂, applyRecords_eq_ok_iff.mpr ⟨h₁, rfl⟩, applyRecords_eq_ok_iff.mpr ⟨h₂, ?_⟩⟩
  rw [List.filterMap_append, applyAll_append]

/-- No entry stops a stream whose records are all applied. -/
theorem stop_eq_none_of_applyRecords {role : Role} {entries : List Entry}
    (h : s.applyRecords (entries.map fun entry => ⟨role, entry.record⟩) = .ok (vs, s')) :
    (Judged.ofEntries role entries).stop = none := by
  rw [← Option.isNone_iff_eq_none, Judged.isNone_stop, ← Judges.exists_iff]
  exact ⟨vs, (applyRecords_eq_ok_iff.mp h).1⟩

/-- The effects of a stream whose records are all applied make the session that they make. -/
theorem applyAll_effects_of_applyRecords {role : Role} {entries : List Entry}
    (h : s.applyRecords (entries.map fun entry => ⟨role, entry.record⟩) = .ok (vs, s')) :
    s.applyAll (Judged.ofEntries role entries).effects = s' := by
  obtain ⟨hjudge, rfl⟩ := applyRecords_eq_ok_iff.mp h
  rw [Judged.effects_eq, (Judged.judges_of_stop (stop_eq_none_of_applyRecords h)).unique hjudge]

/-- While a stream is replayed, no stream is reported as processed. -/
theorem processed_replay (s : Session) (stream : Stream) : (s.replay stream).processed = [] := by
  unfold Replay.processed replay Judged.notices
  rw [List.filterMap_filterMap, List.filterMap_eq_nil_iff]
  rintro ⟨entry, v⟩ -
  cases v <;> rfl

/-- A stream whose records are all applied is replayed to its end. -/
theorem replay_of_applyRecords {stream : Stream}
    (h : s.applyRecords stream.records = .ok (vs, s')) :
    (s.replay stream).session = s' ∧ ∃ tally, (s.replay stream).outcome = .ok tally := by
  have hstop : (Judged.ofStream stream).stop = none := stop_eq_none_of_applyRecords h
  refine ⟨applyAll_effects_of_applyRecords h, (Judged.ofStream stream).tally, ?_⟩
  simp only [replay, hstop]

/-- A stream with a record that is refused is replayed up to that record. -/
theorem replay_of_refused {source : Source} {before : List Entry} {record : Record}
    {cause : RecordFault} (line : Nat) (after : List Entry)
    (h : s.applyRecords (Stream.mk source before).records = .ok (vs, s'))
    (hfault : s'.applyRecord ⟨source.role, record⟩ = .error cause) :
    (s.replay ⟨source, before ++ ⟨line, record⟩ :: after⟩).session = s' ∧
      (s.replay ⟨source, before ++ ⟨line, record⟩ :: after⟩).outcome =
        .error (.badRecord source.path line cause) := by
  have hjudged : Judged.ofStream ⟨source, before ++ ⟨line, record⟩ :: after⟩ =
      ⟨(Judged.ofEntries source.role before).passed, some (line, cause)⟩ :=
    Judged.ofEntries_stop (stop_eq_none_of_applyRecords h) (applyRecord_eq_error_iff.mp hfault)
  unfold replay
  rw [hjudged]
  exact ⟨applyAll_effects_of_applyRecords h, rfl⟩

/-- Streams are replayed after streams whose records have all been applied, which are reported as
processed. -/
theorem replayAll_append {streams : List Stream} (rest : List Stream)
    (h : s.applyRecords (streams.flatMap Stream.records) = .ok (vs, s')) :
    (s.replayAll (streams ++ rest)).session = (s'.replayAll rest).session ∧
      (s.replayAll (streams ++ rest)).outcome = (s'.replayAll rest).outcome ∧
        (s.replayAll (streams ++ rest)).processed =
          streams.map Stream.source ++ (s'.replayAll rest).processed := by
  induction streams generalizing s vs with
  | nil =>
    cases h
    exact ⟨rfl, rfl, rfl⟩
  | cons stream streams ih =>
    rw [List.flatMap_cons] at h
    obtain ⟨vs₁, s₁, vs₂, h₁, h₂⟩ := exists_applyRecords_of_append h
    obtain ⟨rfl, tally, hout⟩ := replay_of_applyRecords h₁
    obtain ⟨hsession, houtcome, hprocessed⟩ := ih h₂
    rw [List.cons_append, replayAll]
    simp only [hout]
    refine ⟨hsession, houtcome, ?_⟩
    have hnone : (s.replay stream).notices.filterMap Notice.processed? = [] :=
      s.processed_replay stream
    unfold Replay.processed at hprocessed ⊢
    rw [List.filterMap_append, hnone, List.nil_append,
      List.filterMap_cons_some (Notice.processed?_processed _ _), hprocessed]
    rfl

end Session

/-! ## How absorbing logs ends -/

/-- How absorbing logs can end: which logs are reported as processed, what the session is then, and
what the outcome is. -/
inductive Session.AbsorbEnds (s : Session) (inputs : List Input) :
    List Source → Session → Except Fault Unit → Prop where
  /-- A log cannot be loaded, and it is the first such log. It gives the fault, the session is left
  alone, and no log is processed, whatever the records of the logs before it. -/
  | unloaded {front back : List Input} {i : Input} {fault : Fault}
    (hinputs : inputs = front ++ i :: back) (hfront : ∀ j ∈ front, ∃ run, j.Holds run)
    (hfails : i.Fails fault) : s.AbsorbEnds inputs [] s (.error fault)
  /-- All logs can be loaded, and a record is refused after all records before it, those of the
  earlier logs and those of the earlier lines, have been applied. The fault names the log and counts
  the lines up to that of the record, blank or not. -/
  | stopped {front back : List Input} {i : Input} {text : String}
    {before after : List (List Char)} {line : List Char} {earlier run : List StreamRecord}
    {record : Record} {vs : List Verdict} {s' : Session} {cause : RecordFault}
    (hloads : ∀ j ∈ inputs, ∃ run, j.Holds run) (hinputs : inputs = front ++ i :: back)
    (hfront : AllHold front earlier) (htext : i.text = .ok text)
    (hlines : Text.lines text.toList = before ++ line :: after)
    (hbefore : LinesHold i.source.role before run) (hblank : Log.isBlankLine line = false)
    (hread : Record.read line = .ok record)
    (happly : s.applyRecords (earlier ++ run) = .ok (vs, s'))
    (hrefused : s'.applyRecord ⟨i.source.role, record⟩ = .error cause) :
    s.AbsorbEnds inputs (front.map Input.source) s'
      (.error (.badRecord i.source.path (before.length + 1) cause))
  /-- All logs can be loaded, and all their records are applied, each with the role of its log. -/
  | finished {run : List StreamRecord} {vs : List Verdict} {s' : Session}
    (hhold : AllHold inputs run) (happly : s.applyRecords run = .ok (vs, s')) :
    s.AbsorbEnds inputs (inputs.map Input.source) s' (.ok ())

/-- The streams of logs have the logs' sources. -/
theorem map_source_of_mapM_load {inputs : List Input} {streams : List Stream}
    (h : inputs.mapM Input.load = .ok streams) :
    streams.map Stream.source = inputs.map Input.source := by
  have hloads := mapM_eq_ok.mp h
  induction hloads with
  | nil => rfl
  | cons hload hloads ih =>
    obtain ⟨_, _, -, -, rfl⟩ := Input.load_eq_ok.mp hload
    rw [List.map_cons, List.map_cons, ih (mapM_eq_ok.mpr hloads)]

/-- The items of a list have a property up to the first that has not. -/
theorem exists_first {α : Type} {p : α → Bool} {items : List α} (h : items.all p = false) :
    ∃ front x back, items = front ++ x :: back ∧ front.all p = true ∧ p x = false := by
  induction items with
  | nil => cases h
  | cons x items ih =>
    cases hx : p x with
    | false => exact ⟨[], x, items, rfl, rfl, hx⟩
    | true =>
      rw [List.all_cons, hx, Bool.true_and] at h
      obtain ⟨front, y, back, rfl, hfront, hy⟩ := ih h
      exact ⟨x :: front, y, back, rfl, by rw [List.all_cons, hx, hfront, Bool.true_and], hy⟩

/-- If some record of streams cannot be used, there is a first one. -/
theorem exists_refused {streams : List Stream}
    (h : (streams.flatMap Stream.records).all StreamRecord.usable = false) :
    ∃ front source entries entry entries' back vs cause,
      streams = front ++ ⟨source, entries ++ entry :: entries'⟩ :: back ∧
        Judges (front.flatMap Stream.records ++ (Stream.mk source entries).records) vs ∧
          entry.record.judge source.role = .error cause := by
  rw [List.all_flatMap] at h
  obtain ⟨front, ⟨source, all⟩, back, rfl, hfront, hstream⟩ := exists_first h
  unfold Stream.records at hstream
  rw [List.all_map] at hstream
  obtain ⟨entries, entry, entries', rfl, hentries, hentry⟩ := exists_first hstream
  obtain ⟨vs, hjudge⟩ : ∃ vs, Judges (front.flatMap Stream.records ++
      (Stream.mk source entries).records) vs := by
    rw [Judges.exists_iff, List.all_append, List.all_flatMap, hfront, Bool.true_and]
    unfold Stream.records
    rw [List.all_map]
    exact hentries
  unfold Function.comp StreamRecord.usable StreamRecord.verdict at hentry
  cases hverdict : entry.record.judge source.role with
  | error cause =>
    exact ⟨front, source, entries, entry, entries', back, vs, cause, rfl, hjudge, hverdict⟩
  | ok v =>
    simp only [hverdict] at hentry
    cases hentry

namespace Session

variable {s s' : Session} {inputs : List Input}

/-- Absorbing logs ends as it is derived. -/
theorem AbsorbEnds.absorb {processed : List Source} {outcome : Except Fault Unit}
    (h : s.AbsorbEnds inputs processed s' outcome) : (s.absorb inputs).processed = processed ∧
      (s.absorb inputs).session = s' ∧ (s.absorb inputs).outcome = outcome := by
  cases h with
  | @unloaded front back i fault hinputs hfront hfails =>
    obtain ⟨streams, hloads⟩ := forall_holds_iff.mp hfront
    have hload : inputs.mapM Input.load = .error fault := mapM_eq_error.mpr
      ⟨front, i, back, streams, hinputs, mapM_eq_ok.mp hloads, Input.load_eq_error_iff.mpr hfails⟩
    unfold Session.absorb
    rw [hload]
    exact ⟨rfl, rfl, rfl⟩
  | @stopped front back i text before after line earlier run record vs s' cause hloads hinputs
      hfront htext hlines hbefore hblank hread happly hrefused =>
    rw [hinputs] at hloads
    obtain ⟨streams, hloadsFront, rfl⟩ := allHold_iff.mp hfront
    obtain ⟨entries, entries', hload, rfl⟩ := Input.load_of_cut
      (hloads i (List.mem_append_right _ List.mem_cons_self)) htext hlines hbefore hblank hread
    obtain ⟨rest, hloadsBack⟩ := forall_holds_iff.mp fun j hj =>
      hloads j (List.mem_append_right _ (List.mem_cons_of_mem _ hj))
    have hall : inputs.mapM Input.load = .ok (streams ++
        ⟨i.source, entries ++ ⟨before.length + 1, record⟩ :: entries'⟩ :: rest) := by
      rw [hinputs]
      exact mapM_eq_ok.mpr
        (List.rel_append (mapM_eq_ok.mp hloadsFront) (.cons hload (mapM_eq_ok.mp hloadsBack)))
    -- the streams before the log are processed, and its own is replayed up to the record
    obtain ⟨_, s₁, _, hfirst, hown⟩ := exists_applyRecords_of_append happly
    obtain ⟨hsession, houtcome, hprocessed⟩ := replayAll_append (_ :: rest) hfirst
    obtain ⟨hsession₁, houtcome₁⟩ := replay_of_refused (before.length + 1) entries' hown hrefused
    rw [absorb_eq_replayAll hall, hsession, houtcome, hprocessed,
      map_source_of_mapM_load hloadsFront]
    unfold replayAll
    simp only [houtcome₁, and_true]
    refine ⟨?_, hsession₁⟩
    have hnone := s₁.processed_replay
      ⟨i.source, entries ++ ⟨before.length + 1, record⟩ :: entries'⟩
    unfold Replay.processed at hnone ⊢
    rw [hnone, List.append_nil]
  | finished hhold happly =>
    obtain ⟨streams, hload, rfl⟩ := allHold_iff.mp hhold
    have hend := replayAll_append [] happly
    rw [List.append_nil] at hend
    rw [absorb_eq_replayAll hload, hend.1, hend.2.1, hend.2.2, map_source_of_mapM_load hload]
    exact ⟨List.append_nil _, rfl, rfl⟩

/-- Absorbing logs ends in one of the ways that are derived. -/
theorem exists_absorbEnds (s : Session) (inputs : List Input) :
    ∃ processed s' outcome, s.AbsorbEnds inputs processed s' outcome := by
  cases hload : inputs.mapM Input.load with
  | error fault =>
    obtain ⟨front, i, back, streams, hinputs, hfront, hfault⟩ := mapM_eq_error.mp hload
    exact ⟨_, _, _, .unloaded hinputs (forall_holds_iff.mpr ⟨streams, mapM_eq_ok.mpr hfront⟩)
      (Input.load_eq_error_iff.mp hfault)⟩
  | ok streams =>
    cases husable : (streams.flatMap Stream.records).all StreamRecord.usable with
    | true =>
      obtain ⟨vs, hjudge⟩ := Judges.exists_iff.mpr husable
      exact ⟨_, _, _, .finished (allHold_iff.mpr ⟨streams, hload, rfl⟩)
        (applyRecords_eq_ok_iff.mpr ⟨hjudge, rfl⟩)⟩
    | false =>
      obtain ⟨front, source, entries, entry, entries', back, vs, cause, rfl, hjudge, hcause⟩ :=
        exists_refused husable
      obtain ⟨inputsFront, inputsRest, hloadsFront, hloadsRest, hinputs⟩ :=
        exists_append_of_forall₂ (mapM_eq_ok.mp hload).flip
      obtain ⟨i, inputsBack, hi, -, rfl⟩ := List.forall₂_cons_left_iff.mp hloadsRest
      obtain ⟨text, before, line, after, htext, hlines, hbefore, hblank, hread⟩ :=
        Input.exists_cut_of_load hi
      obtain rfl : source = i.source := by
        obtain ⟨_, _, -, -, heq⟩ := Input.load_eq_ok.mp hi
        cases heq
        rfl
      exact ⟨_, _, _, .stopped (forall_holds_iff.mpr ⟨_, hload⟩) hinputs
        (allHold_iff.mpr ⟨front, mapM_eq_ok.mpr hloadsFront.flip, rfl⟩) htext hlines hbefore hblank
        hread (applyRecords_eq_ok_iff.mpr ⟨hjudge, rfl⟩) (applyRecord_eq_error_iff.mpr hcause)⟩

/-- Absorbing logs ends in the way that is derived, and in no other. -/
theorem absorbEnds_iff {processed : List Source} {outcome : Except Fault Unit} :
    s.AbsorbEnds inputs processed s' outcome ↔ (s.absorb inputs).processed = processed ∧
      (s.absorb inputs).session = s' ∧ (s.absorb inputs).outcome = outcome := by
  refine ⟨AbsorbEnds.absorb, ?_⟩
  rintro ⟨rfl, rfl, rfl⟩
  obtain ⟨processed, s', outcome, hends⟩ := exists_absorbEnds s inputs
  obtain ⟨hprocessed, hsession, houtcome⟩ := hends.absorb
  rw [hprocessed, hsession, houtcome]
  exact hends

/-- A record without a time in the second line of a log, after a blank one. -/
def untimedLog : Input :=
  ⟨⟨"client.log", .client⟩, .ok (String.ofList
    ("\n\x7b\"k\":\"event\",\"l\":\"start-send-tx\",\"v\":\x7b\x7d\x7d\n").toList)⟩

example : (Session.empty.absorb [untimedLog]).outcome =
    .error (.badRecord "client.log" 2 (.noTimestamp "start-send-tx")) := by
  rfl

example : (Session.empty.absorb [untimedLog, ⟨⟨"peer.log", .peer⟩, .error .notFound⟩]).outcome =
    .error (.unreadable "peer.log" .notFound) := by
  rfl

end Session

end LedgerBench
