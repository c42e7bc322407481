import LedgerBench.Proofs.Event.Outcome
import LedgerBench.Proofs.Ledger.Loading

/-!
# Every record is accounted for

Replaying a stream has three results: a session, a tally and a log. `Session.ReplayEnds` says what
they are in terms of the outcomes of the records (`Record.outcome`), which the role of the stream
and the records decide, whatever the session. If every record has an outcome, the tally counts each
of them once (`Tally.Accounts`), and the log has one entry for each record that is passed over, in
the order of the records (`Noted`). A record without an outcome stops the stream, and then the
session and the log are those of the records before it.

One more verdict adds one to its own count (`Tally.Accounts.add`), so that by induction a list of
verdicts is counted entirely (`Tally.accounts_foldl`). `Session.replayEnds_iff` puts the parts
together: a stream ends in the way that is derived, and in no other.
-/

namespace LedgerBench

/-! ## What is logged -/

/-- An entry of the log: how urgent it is, what it says, and its details by name. -/
structure Logged where
  /-- How urgent it is. -/
  level : Level
  /-- What it says. -/
  message : String
  /-- Its details. -/
  details : List (String × Notice.Detail)
deriving Repr, DecidableEq

/-- The entry of the log for a notice. -/
def Notice.logged (n : Notice) : Logged := ⟨n.level, n.message, n.details⟩

/-- What is logged about the records of a stream with these outcomes, in their order. -/
inductive Noted (source : Source) : List Entry → List Outcome → List Logged → Prop where
  /-- Nothing is logged about no records. -/
  | nil : Noted source [] [] []
  /-- Nothing is logged about a record that is accepted. -/
  | applied {entry : Entry} {entries : List Entry} {outcomes : List Outcome} {log : List Logged}
    (rest : Noted source entries outcomes log) :
    Noted source (entry :: entries) (.applied :: outcomes) log
  /-- A record that is ignored is for those who look for a fault. -/
  | ignored {entry : Entry} {entries : List Entry} {outcomes : List Outcome} {log : List Logged}
    (rest : Noted source entries outcomes log) :
    Noted source (entry :: entries) (.ignored :: outcomes)
      (⟨.debug, "event not accepted from this stream",
        [("file", .text source.path), ("line", .number entry.line),
          ("label", .text entry.record.label), ("role", .text source.role.name)]⟩ :: log)
  /-- A record that is not recognized is a warning. -/
  | unrecognized {entry : Entry} {entries : List Entry} {outcomes : List Outcome}
    {log : List Logged} (rest : Noted source entries outcomes log) :
    Noted source (entry :: entries) (.unrecognized :: outcomes)
      (⟨.warn, "unrecognized event, skipped",
        [("file", .text source.path), ("line", .number entry.line),
          ("kind", .text entry.record.kind), ("label", .text entry.record.label)]⟩ :: log)
  /-- So is an execution that no storage node tells of. -/
  | missingNode {entry : Entry} {entries : List Entry} {outcomes : List Outcome}
    {log : List Logged} (rest : Noted source entries outcomes log) :
    Noted source (entry :: entries) (.missingNode :: outcomes)
      (⟨.warn, "exec_time outside a storage-node stream, skipped",
        [("file", .text source.path), ("line", .number entry.line),
          ("label", .text entry.record.label), ("role", .text source.role.name)]⟩ :: log)

/-- Only one log belongs to records with their outcomes. -/
theorem Noted.unique {source : Source} {entries : List Entry} {outcomes : List Outcome}
    {log log' : List Logged} (h : Noted source entries outcomes log)
    (h' : Noted source entries outcomes log') : log = log' := by
  induction h generalizing log' with
  | nil =>
    cases h'
    rfl
  | applied _ ih =>
    cases h' with
    | applied rest => exact ih rest
  | ignored _ ih =>
    cases h' with
    | ignored rest => rw [ih rest]
  | unrecognized _ ih =>
    cases h' with
    | unrecognized rest => rw [ih rest]
  | missingNode _ ih =>
    cases h' with
    | missingNode rest => rw [ih rest]

/-! ## What is counted -/

namespace Tally

/-- A tally counts the records with each outcome, and all records. -/
structure Accounts (t : Tally) (outcomes : List Outcome) : Prop where
  /-- The records that were accepted. -/
  applied : t.applied = outcomes.count .applied
  /-- The records that the role was not believed about. -/
  ignored : t.ignored = outcomes.count .ignored
  /-- The records that were not recognized. -/
  unrecognized : t.unrecognized = outcomes.count .unrecognized
  /-- The executions that no storage node told of. -/
  missingNode : t.missingNode = outcomes.count .missingNode
  /-- Together these are all records. -/
  total : t.applied + t.ignored + t.unrecognized + t.missingNode = outcomes.length

variable {t t' : Tally} {outcomes : List Outcome}

/-- One more verdict is counted once. -/
theorem Accounts.add (h : t.Accounts outcomes) (v : Verdict) :
    (t.add v).Accounts (outcomes ++ [v.outcome]) := by
  obtain ⟨happlied, hignored, hunrecognized, hmissing, htotal⟩ := h
  cases v <;> constructor <;> simp [Tally.add, Verdict.outcome, List.count_append] <;> omega

/-- Verdicts are counted on top of those before them. -/
theorem accounts_foldl (h : t.Accounts outcomes) (verdicts : List Verdict) :
    (verdicts.foldl Tally.add t).Accounts (outcomes ++ verdicts.map Verdict.outcome) := by
  induction verdicts generalizing t outcomes with
  | nil => rwa [List.map_nil, List.append_nil]
  | cons v verdicts ih =>
    have hrest := ih (h.add v)
    rwa [List.append_assoc] at hrest

/-- Only one tally counts given outcomes. -/
theorem Accounts.unique (h : t.Accounts outcomes) (h' : t'.Accounts outcomes) : t = t' := by
  obtain ⟨applied, ignored, unrecognized, missingNode⟩ := t
  obtain ⟨applied', ignored', unrecognized', missingNode'⟩ := t'
  rw [Tally.mk.injEq]
  exact ⟨h.applied.trans h'.applied.symm, h.ignored.trans h'.ignored.symm,
    h.unrecognized.trans h'.unrecognized.symm, h.missingNode.trans h'.missingNode.symm⟩

end Tally

/-! ## Records with outcomes -/

/-- The records of a stream with the given role have these outcomes, so that none of them is a
fault. -/
def HaveOutcomes (role : Role) (entries : List Entry) (outcomes : List Outcome) : Prop :=
  List.Forall₂ (fun entry outcome => entry.record.outcome role = .ok outcome) entries outcomes

/-- A record has the outcome of its verdict. -/
theorem Record.outcome_eq_ok_iff {r : Record} {role : Role} {outcome : Outcome} :
    r.outcome role = .ok outcome ↔ ∃ v, r.judge role = .ok v ∧ v.outcome = outcome := by
  unfold Record.outcome
  cases r.judge role with
  | error cause => simp [Except.map]
  | ok v => simp [Except.map]

/-- A record that is a fault is refused. -/
theorem Record.outcome_eq_error_iff_judge {r : Record} {role : Role} {cause : RecordFault} :
    r.outcome role = .error cause ↔ r.judge role = .error cause := by
  unfold Record.outcome
  cases r.judge role with
  | error cause => simp [Except.map]
  | ok v => simp [Except.map]

namespace HaveOutcomes

variable {role : Role} {source : Source} {entries : List Entry} {outcomes : List Outcome}

/-- Records with outcomes all pass. -/
theorem stop_eq_none (h : HaveOutcomes role entries outcomes) :
    (Judged.ofEntries role entries).stop = none := by
  induction h with
  | nil => rfl
  | cons hentry _ ih =>
    obtain ⟨v, hv, -⟩ := Record.outcome_eq_ok_iff.mp hentry
    rw [Judged.ofEntries_cons, Judged.cons, hv]
    exact ih

/-- Their verdicts have the outcomes. -/
theorem map_outcome (h : HaveOutcomes role entries outcomes) :
    ((Judged.ofEntries role entries).passed.map (·.2)).map Verdict.outcome = outcomes := by
  induction h with
  | nil => rfl
  | cons hentry _ ih =>
    obtain ⟨v, hv, houtcome⟩ := Record.outcome_eq_ok_iff.mp hentry
    rw [Judged.ofEntries_cons, Judged.cons, hv]
    dsimp only
    rw [List.map_cons, List.map_cons, houtcome, ih]

/-- They are counted. -/
theorem accounts_tally (h : HaveOutcomes role entries outcomes) :
    (Judged.ofEntries role entries).tally.Accounts outcomes := by
  have hempty : Tally.Accounts {} [] := ⟨rfl, rfl, rfl, rfl, rfl⟩
  have hcounted := Tally.accounts_foldl hempty ((Judged.ofEntries role entries).passed.map (·.2))
  rwa [List.nil_append, h.map_outcome, List.foldl_map] at hcounted

/-- They are logged. -/
theorem noted_notices (h : HaveOutcomes source.role entries outcomes) : Noted source entries
    outcomes (((Judged.ofEntries source.role entries).notices source).map Notice.logged) := by
  induction h with
  | nil => exact .nil
  | cons hentry _ ih =>
    obtain ⟨v, hv, rfl⟩ := Record.outcome_eq_ok_iff.mp hentry
    rw [Judged.ofEntries_cons, Judged.cons, hv]
    cases v with
    | applied e => exact .applied ih
    | ignored => exact .ignored ih
    | unrecognized => exact .unrecognized ih
    | missingNode => exact .missingNode ih

/-- They can be applied to every session. -/
theorem exists_applyRecords (h : HaveOutcomes source.role entries outcomes) (s : Session) :
    ∃ vs s', s.applyRecords (Stream.mk source entries).records = .ok (vs, s') :=
  ⟨_, _, Session.applyRecords_eq_ok_iff.mpr ⟨Judged.judges_of_stop h.stop_eq_none, rfl⟩⟩

end HaveOutcomes

/-! ## How a stream ends -/

namespace Session

/-- How replaying a stream can end: what the session is then, what has been logged, and what the
outcome is. -/
inductive ReplayEnds (s : Session) (source : Source) (entries : List Entry) :
    Session → List Logged → Except Fault Tally → Prop where
  /-- All records have outcomes. They are applied one after the other, logged and counted. -/
  | finished {outcomes : List Outcome} {vs : List Verdict} {s' : Session} {log : List Logged}
    {tally : Tally} (houtcomes : HaveOutcomes source.role entries outcomes)
    (happly : s.applyRecords (Stream.mk source entries).records = .ok (vs, s'))
    (hnoted : Noted source entries outcomes log) (hcounted : tally.Accounts outcomes) :
    s.ReplayEnds source entries s' log (.ok tally)
  /-- A record is a fault, and those before it have outcomes. These are applied and logged, and
  nothing else is. The fault names the path of the stream and the line of the record. -/
  | stopped {before after : List Entry} {entry : Entry} {outcomes : List Outcome}
    {vs : List Verdict} {s' : Session} {log : List Logged} {cause : RecordFault} {fault : Fault}
    (hcut : entries = before ++ entry :: after)
    (houtcomes : HaveOutcomes source.role before outcomes)
    (happly : s.applyRecords (Stream.mk source before).records = .ok (vs, s'))
    (hnoted : Noted source before outcomes log)
    (hcause : entry.record.outcome source.role = .error cause)
    (hfault : fault = .badRecord source.path entry.line cause)
    (hheadline : fault.headline = source.path ++ ":" ++ toString entry.line) :
    s.ReplayEnds source entries s' log (.error fault)

variable {s s' : Session} {source : Source} {entries : List Entry} {log : List Logged}
  {outcome : Except Fault Tally}

/-- A stream ends as it is derived. -/
theorem ReplayEnds.replay (h : s.ReplayEnds source entries s' log outcome) :
    (s.replay ⟨source, entries⟩).session = s' ∧
      (s.replay ⟨source, entries⟩).notices.map Notice.logged = log ∧
        (s.replay ⟨source, entries⟩).outcome = outcome := by
  cases h with
  | finished houtcomes happly hnoted hcounted =>
    refine ⟨(replay_of_applyRecords happly).1, houtcomes.noted_notices.unique hnoted, ?_⟩
    have hstop : (Judged.ofStream ⟨source, entries⟩).stop = none := houtcomes.stop_eq_none
    simp only [Session.replay, hstop]
    exact congrArg Except.ok (houtcomes.accounts_tally.unique hcounted)
  | @stopped before after entry _ _ _ _ cause _ hcut houtcomes happly hnoted hcause hfault _ =>
    have hrefused : entry.record.judge source.role = .error cause :=
      Record.outcome_eq_error_iff_judge.mp hcause
    obtain ⟨hsession, houtcome⟩ :=
      replay_of_refused entry.line after happly (applyRecord_eq_error_iff.mpr hrefused)
    have hjudged : Judged.ofStream ⟨source, before ++ entry :: after⟩ =
        ⟨(Judged.ofEntries source.role before).passed, some (entry.line, cause)⟩ :=
      Judged.ofEntries_stop houtcomes.stop_eq_none hrefused
    rw [hcut, hfault]
    refine ⟨hsession, ?_, houtcome⟩
    unfold Session.replay
    rw [hjudged]
    exact houtcomes.noted_notices.unique hnoted

/-- A stream ends in one of the ways that are derived. -/
theorem exists_replayEnds (s : Session) (source : Source) (entries : List Entry) :
    ∃ s' log outcome, s.ReplayEnds source entries s' log outcome := by
  cases hall : entries.mapM fun entry => entry.record.outcome source.role with
  | ok outcomes =>
    have houtcomes : HaveOutcomes source.role entries outcomes := mapM_eq_ok.mp hall
    obtain ⟨vs, s', happly⟩ := houtcomes.exists_applyRecords s
    exact ⟨_, _, _, .finished houtcomes happly houtcomes.noted_notices houtcomes.accounts_tally⟩
  | error cause =>
    obtain ⟨before, entry, after, outcomes, hcut, hbefore, hcause⟩ := mapM_eq_error.mp hall
    have houtcomes : HaveOutcomes source.role before outcomes := hbefore
    obtain ⟨vs, s', happly⟩ := houtcomes.exists_applyRecords s
    exact ⟨_, _, _, .stopped hcut houtcomes happly houtcomes.noted_notices hcause rfl rfl⟩

/-- A stream ends in the way that is derived, and in no other. -/
theorem replayEnds_iff : s.ReplayEnds source entries s' log outcome ↔
    (s.replay ⟨source, entries⟩).session = s' ∧
      (s.replay ⟨source, entries⟩).notices.map Notice.logged = log ∧
        (s.replay ⟨source, entries⟩).outcome = outcome := by
  refine ⟨ReplayEnds.replay, ?_⟩
  rintro ⟨rfl, rfl, rfl⟩
  obtain ⟨s', log, outcome, hends⟩ := exists_replayEnds s source entries
  obtain ⟨hsession, hlog, houtcome⟩ := hends.replay
  rw [hsession, hlog, houtcome]
  exact hends

end Session

end LedgerBench
