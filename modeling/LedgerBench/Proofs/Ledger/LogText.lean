import LedgerBench.Proofs.Json.TrailingSpace
import LedgerBench.Proofs.Ledger.Absorbed
import LedgerBench.Proofs.Ledger.LogRecords
import LedgerBench.Proofs.Text.Lines

/-!
# What the text of a log tells

An analysis sees nothing of its logs but the effects that their lines tell, one log after the other
and one line after the other. `AllTell` says that a list of things, such as the lines of a text or
the logs of a benchmark, tells some effects in this way, and that none of the things has a fault.

`Input.tells_iff` gets rid of entries and line numbers: a log is read and its records can all be
used exactly when its lines tell effects. `Session.absorbs_iff` does the same for many logs: what a
session becomes follows from the effects that they tell. So two analyses have the same report if the
lines of their logs tell the same, however the texts are written (`allTell_lines_of_hasLines`).
-/

namespace LedgerBench

/-- The items of a list each tell effects, and together they tell these one after the other. -/
inductive AllTell {α : Type} (tells : α → List Effect → Prop) : List α → List Effect → Prop where
  /-- No items tell nothing. -/
  | nil : AllTell tells [] []
  /-- The first item tells its effects before the others. -/
  | cons {x : α} {xs : List α} {es es' : List Effect} (head : tells x es)
    (rest : AllTell tells xs es') : AllTell tells (x :: xs) (es ++ es')

section AllTell

variable {α β : Type} {tells : α → List Effect → Prop} {es : List Effect}

/-- No items tell nothing. -/
theorem allTell_nil : AllTell tells [] es ↔ es = [] := by
  constructor
  · intro h
    cases h
    rfl
  · rintro rfl
    exact .nil

/-- The first item tells its effects before the others. -/
theorem allTell_cons {x : α} {xs : List α} : AllTell tells (x :: xs) es ↔
    ∃ es₁ es₂, tells x es₁ ∧ AllTell tells xs es₂ ∧ es = es₁ ++ es₂ := by
  constructor
  · intro h
    cases h with
    | cons head rest => exact ⟨_, _, head, rest, rfl⟩
  · rintro ⟨es₁, es₂, head, rest, rfl⟩
    exact .cons head rest

/-- Two lists of items tell their effects one after the other. -/
theorem allTell_append {xs ys : List α} : AllTell tells (xs ++ ys) es ↔
    ∃ es₁ es₂, AllTell tells xs es₁ ∧ AllTell tells ys es₂ ∧ es = es₁ ++ es₂ := by
  induction xs generalizing es with
  | nil => simp [allTell_nil]
  | cons x xs ih =>
    simp only [List.cons_append, allTell_cons, ih]
    constructor
    · rintro ⟨es₀, _, head, ⟨es₁, es₂, h₁, h₂, rfl⟩, rfl⟩
      exact ⟨es₀ ++ es₁, es₂, ⟨es₀, es₁, head, h₁, rfl⟩, h₂, (List.append_assoc _ _ _).symm⟩
    · rintro ⟨_, es₂, ⟨es₀, es₁, head, h₁, rfl⟩, h₂, rfl⟩
      exact ⟨es₀, es₁ ++ es₂, head, ⟨es₁, es₂, h₁, h₂, rfl⟩, List.append_assoc _ _ _⟩

/-- Items that tell the same one by one tell the same together. -/
theorem allTell_congr {tells' : β → List Effect → Prop} {xs : List α} {ys : List β}
    (h : List.Forall₂ (fun x y => ∀ es, tells x es ↔ tells' y es) xs ys) :
    AllTell tells xs es ↔ AllTell tells' ys es := by
  induction h generalizing es with
  | nil => rw [allTell_nil, allTell_nil]
  | cons hxy _ ih => simp only [allTell_cons, hxy, ih]

end AllTell

/-! ## Lines -/

/-- What a line of a log tells, if it has no fault: nothing if it is blank, and else the effect of
its record, or nothing if the record is passed over. -/
def LineTells (role : Role) (line : List Char) (es : List Effect) : Prop :=
  if Log.isBlankLine line then es = []
  else ∃ r v, Record.read line = .ok r ∧ r.judge role = .ok v ∧ es = v.effect?.toList

/-- A blank line tells nothing. -/
theorem lineTells_of_blank {role : Role} {line : List Char} {es : List Effect}
    (h : Log.isBlankLine line = true) : LineTells role line es ↔ es = [] := by
  rw [LineTells, if_pos h]

/-- Any other line tells the effect of its record. -/
theorem lineTells_of_not_blank {role : Role} {line : List Char} {es : List Effect}
    (h : Log.isBlankLine line = false) : LineTells role line es ↔
      ∃ r v, Record.read line = .ok r ∧ r.judge role = .ok v ∧ es = v.effect?.toList := by
  rw [LineTells, if_neg (Bool.eq_false_iff.mp h)]

/-- A line is blank with a carriage return at its end as it is without. -/
theorem Log.isBlankLine_withoutReturn (line : List Char) :
    isBlankLine (Text.withoutReturn line) = isBlankLine line := by
  unfold Text.withoutReturn
  split
  · rename_i hlast
    obtain ⟨front, rfl⟩ := List.getLast?_eq_some_iff.mp hlast
    rw [List.dropLast_concat]
    unfold isBlankLine
    rw [List.all_append]
    exact (Bool.and_true _).symm
  · rfl

/-- A line holds the same record with a carriage return at its end as without. -/
theorem Record.read_withoutReturn {line : List Char} {r : Record} :
    read (Text.withoutReturn line) = .ok r ↔ read line = .ok r := by
  unfold Text.withoutReturn
  split
  · rename_i hlast
    obtain ⟨front, rfl⟩ := List.getLast?_eq_some_iff.mp hlast
    rw [List.dropLast_concat]
    exact (read_concat_space rfl).symm
  · exact Iff.rfl

/-- A carriage return at its end does not change what a line tells. -/
theorem lineTells_withoutReturn {role : Role} {line : List Char} {es : List Effect} :
    LineTells role (Text.withoutReturn line) es ↔ LineTells role line es := by
  unfold LineTells
  rw [Log.isBlankLine_withoutReturn]
  simp only [Record.read_withoutReturn]

/-- The lines that are cut from a text tell what the lines tell of which it consists. -/
theorem allTell_lines_of_hasLines {role : Role} {text : List Char} {ls : List (List Char)}
    (h : Text.HasLines text ls) {es : List Effect} :
    AllTell (LineTells role) (Text.lines text) es ↔ AllTell (LineTells role) ls es := by
  have hreturns : ∀ (ls : List (List Char)) (es : List Effect),
      AllTell (LineTells role) (ls.map Text.withoutReturn) es ↔ AllTell (LineTells role) ls es := by
    intro ls es
    refine allTell_congr (List.forall₂_map_left_iff.mpr (List.forall₂_same.mpr fun l _ es => ?_))
    exact lineTells_withoutReturn
  have hlast : ∀ (last : List Char) (es : List Effect),
      AllTell (LineTells role) (if last.isEmpty then [] else [last]) es ↔
        AllTell (LineTells role) [last] es := by
    intro last es
    cases last with
    | cons c rest => rfl
    | nil =>
      -- an empty piece is a blank line
      have hblank : Log.isBlankLine [] = true := rfl
      simp [allTell_nil, allTell_cons, lineTells_of_blank hblank]
  rcases Text.lines_of_hasLines h with heq | ⟨front, last, rfl, heq⟩
  · rw [heq, hreturns]
  · rw [heq, allTell_append, allTell_append]
    simp only [hreturns, hlast]

/-- Lines tell effects exactly when they hold records whose verdicts have these effects. -/
theorem allTell_lines_iff {role : Role} {ls : List (List Char)} {es : List Effect} :
    AllTell (LineTells role) ls es ↔ ∃ run vs, LinesHold role ls run ∧ Judges run vs ∧
      es = vs.filterMap Verdict.effect? := by
  induction ls generalizing es with
  | nil =>
    simp only [allTell_nil, linesHold_nil]
    constructor
    · rintro rfl
      exact ⟨[], [], rfl, .nil, rfl⟩
    · rintro ⟨_, _, rfl, hjudges, rfl⟩
      cases hjudges
      rfl
  | cons line ls ih =>
    rw [allTell_cons]
    cases hblank : Log.isBlankLine line with
    | true =>
      -- the line holds nothing, and it tells nothing
      simp only [lineTells_of_blank hblank, linesHold_cons_of_blank hblank, ← ih]
      simp
    | false =>
      -- the line holds the first record, and the verdict on it comes first
      have heffects : ∀ v vs, (v :: vs).filterMap Verdict.effect? =
          v.effect?.toList ++ vs.filterMap Verdict.effect? := by
        intro v vs
        cases he : v.effect? <;> simp [he]
      simp only [lineTells_of_not_blank hblank, linesHold_cons_of_not_blank hblank, ih]
      constructor
      · rintro ⟨_, _, ⟨r, v, hread, hjudge, rfl⟩, ⟨run, vs, hrun, hjudges, rfl⟩, rfl⟩
        exact ⟨⟨role, r⟩ :: run, v :: vs, ⟨r, run, hread, hrun, rfl⟩, .cons hjudge hjudges,
          (heffects v vs).symm⟩
      · rintro ⟨_, _, ⟨r, run, hread, hrun, rfl⟩, hjudges, rfl⟩
        cases hjudges with
        | @cons _ v _ vs hjudge hjudges =>
          exact ⟨_, _, ⟨r, v, hread, hjudge, rfl⟩, ⟨run, vs, hrun, hjudges, rfl⟩, heffects v vs⟩

/-! ## Logs -/

namespace Judges

variable {run : List StreamRecord} {vs vs' : List Verdict}

/-- A run has one list of verdicts. -/
theorem unique (h : Judges run vs) (h' : Judges run vs') : vs = vs' := by
  induction h generalizing vs' with
  | nil =>
    cases h'
    rfl
  | cons hv _ ih =>
    cases h' with
    | cons hv' hrest' =>
      cases hv.symm.trans hv'
      rw [ih hrest']

/-- A run has verdicts exactly when each of its records can be used. -/
theorem exists_iff : (∃ vs, Judges run vs) ↔ run.all StreamRecord.usable = true := by
  induction run with
  | nil => exact iff_of_true ⟨[], .nil⟩ rfl
  | cons r run ih =>
    rw [List.all_cons, Bool.and_eq_true, ← ih]
    constructor
    · rintro ⟨_, _ | ⟨hv, hrest⟩⟩
      refine ⟨?_, _, hrest⟩
      rw [StreamRecord.usable, hv]
      rfl
    · rintro ⟨husable, vs, hrest⟩
      unfold StreamRecord.usable at husable
      cases hv : r.verdict with
      | error cause =>
        rw [hv] at husable
        cases husable
      | ok v => exact ⟨v :: vs, .cons hv hrest⟩

end Judges

/-- What a log tells, if it can be read and all its records can be used. -/
def Input.Tells (i : Input) (es : List Effect) : Prop :=
  ∃ text, i.text = .ok text ∧ AllTell (LineTells i.source.role) (Text.lines text.toList) es

/-- A log tells effects exactly when it is loaded as a stream whose records have verdicts with these
effects. -/
theorem Input.tells_iff {i : Input} {es : List Effect} :
    i.Tells es ↔ ∃ stream vs, i.load = .ok stream ∧ Judges stream.records vs ∧
      es = vs.filterMap Verdict.effect? := by
  have hholds : i.Tells es ↔ ∃ run vs, i.Holds run ∧ Judges run vs ∧
      es = vs.filterMap Verdict.effect? := by
    simp only [Tells, Holds, allTell_lines_iff]
    constructor
    · rintro ⟨text, htext, run, vs, hlines, hjudges, rfl⟩
      exact ⟨run, vs, ⟨text, htext, hlines⟩, hjudges, rfl⟩
    · rintro ⟨run, vs, ⟨text, htext, hlines⟩, hjudges, rfl⟩
      exact ⟨text, htext, run, vs, hlines, hjudges, rfl⟩
  rw [hholds]
  constructor
  · rintro ⟨_, vs, hrun, hjudges, rfl⟩
    obtain ⟨stream, hload, rfl⟩ := holds_iff.mp hrun
    exact ⟨stream, vs, hload, hjudges, rfl⟩
  · rintro ⟨stream, vs, hload, hjudges, rfl⟩
    exact ⟨_, vs, holds_iff.mpr ⟨stream, hload, rfl⟩, hjudges, rfl⟩

/-- Logs tell effects exactly when they are loaded as streams whose records have verdicts with these
effects. -/
theorem allTell_inputs_iff {inputs : List Input} {es : List Effect} :
    AllTell Input.Tells inputs es ↔ ∃ streams vs, inputs.mapM Input.load = .ok streams ∧
      Judges (streams.flatMap Stream.records) vs ∧ es = vs.filterMap Verdict.effect? := by
  simp only [mapM_eq_ok]
  induction inputs generalizing es with
  | nil =>
    rw [allTell_nil]
    constructor
    · rintro rfl
      exact ⟨[], [], .nil, .nil, rfl⟩
    · rintro ⟨_, _, hload, hjudge, rfl⟩
      cases hload
      cases hjudge
      rfl
  | cons i inputs ih =>
    simp only [allTell_cons, ih, Input.tells_iff]
    constructor
    · rintro ⟨_, _, ⟨stream, vs, hload, hjudge, rfl⟩, ⟨streams, vs', hloads, hjudges, rfl⟩, rfl⟩
      exact ⟨stream :: streams, vs ++ vs', .cons hload hloads, List.rel_append hjudge hjudges,
        List.filterMap_append.symm⟩
    · rintro ⟨_, vs, hloads, hjudges, rfl⟩
      cases hloads with
      | @cons _ stream _ streams hload hloads =>
        obtain ⟨vs₁, vs₂, h₁, h₂, rfl⟩ := exists_append_of_forall₂ hjudges
        exact ⟨_, _, ⟨stream, vs₁, hload, h₁, rfl⟩, ⟨streams, vs₂, hloads, h₂, rfl⟩,
          List.filterMap_append⟩

/-! ## Analyses -/

namespace Session

/-- Streams are replayed to their ends exactly when each of their records can be used. -/
theorem isOk_replayAll (s : Session) (streams : List Stream) :
    (s.replayAll streams).outcome.isOk =
      (streams.flatMap Stream.records).all StreamRecord.usable := by
  induction streams generalizing s with
  | nil => rfl
  | cons stream rest ih =>
    rw [List.flatMap_cons, List.all_append, ← s.isOk_replay stream]
    unfold replayAll
    cases hone : (s.replay stream).outcome with
    | error fault => simp only [hone]; rfl
    | ok tally =>
      simp only [hone, ih]
      exact (Bool.true_and _).symm

/-- The session becomes another one by absorbing logs without a fault. -/
def Absorbs (s : Session) (inputs : List Input) (s' : Session) : Prop :=
  (s.absorb inputs).outcome = .ok () ∧ (s.absorb inputs).session = s'

variable {s s' : Session} {inputs inputs' : List Input}

/-- Logs are absorbed without a fault exactly when they tell effects, and these are carried out. -/
theorem absorbs_iff :
    s.Absorbs inputs s' ↔ ∃ es, AllTell Input.Tells inputs es ∧ s' = s.applyAll es := by
  simp only [allTell_inputs_iff]
  constructor
  · rintro ⟨hout, rfl⟩
    obtain ⟨streams, vs, hload, happly⟩ := applyRecords_of_absorb hout
    obtain ⟨hjudge, hs⟩ := applyRecords_eq_ok_iff.mp happly
    exact ⟨_, ⟨streams, vs, hload, hjudge, rfl⟩, hs⟩
  · rintro ⟨_, ⟨streams, vs, hload, hjudge, rfl⟩, rfl⟩
    unfold Absorbs
    rw [absorb_eq_replayAll hload]
    -- every record has a verdict, so no stream is stopped
    have hok : (s.replayAll streams).outcome.isOk = true := by
      rw [isOk_replayAll, ← Judges.exists_iff]
      exact ⟨vs, hjudge⟩
    cases hout : (s.replayAll streams).outcome with
    | error fault =>
      rw [hout] at hok
      cases hok
    | ok _ =>
      refine ⟨rfl, ?_⟩
      obtain ⟨vs', hvs'⟩ := applyRecords_of_replayAll hout
      obtain ⟨hjudge', hs⟩ := applyRecords_eq_ok_iff.mp hvs'
      rw [hs, hjudge'.unique hjudge]

/-- Logs are absorbed one part after the other. -/
theorem absorbs_append :
    s.Absorbs (inputs ++ inputs') s' ↔ ∃ s₁, s.Absorbs inputs s₁ ∧ s₁.Absorbs inputs' s' := by
  simp only [absorbs_iff, allTell_append]
  constructor
  · rintro ⟨_, ⟨es₁, es₂, h₁, h₂, rfl⟩, rfl⟩
    exact ⟨_, ⟨es₁, h₁, rfl⟩, es₂, h₂, applyAll_append s es₁ es₂⟩
  · rintro ⟨_, ⟨es₁, h₁, rfl⟩, es₂, h₂, rfl⟩
    exact ⟨_, ⟨es₁, es₂, h₁, h₂, rfl⟩, (applyAll_append s es₁ es₂).symm⟩

end Session

/-- What an analysis reports follows from the session that absorbs its logs. -/
theorem analyze_eq_ok_iff_absorbs {inputs : List Input} {report : Report} :
    (analyze inputs).outcome = .ok report ↔ ∃ s, Session.empty.Absorbs inputs s ∧
      ∃ w, s.sendWindow = .ok w ∧ report = .ofSession (s.prune w) w := by
  rw [analyze_eq_ok_iff]
  constructor
  · rintro ⟨hout, hreport⟩
    exact ⟨_, ⟨hout, rfl⟩, hreport⟩
  · rintro ⟨_, ⟨hout, rfl⟩, hreport⟩
    exact ⟨hout, hreport⟩

/-- Logs that are absorbed alike have the same report. -/
theorem analyze_congr {inputs inputs' : List Input}
    (h : ∀ s, Session.empty.Absorbs inputs s ↔ Session.empty.Absorbs inputs' s) (report : Report) :
    (analyze inputs).outcome = .ok report ↔ (analyze inputs').outcome = .ok report := by
  simp only [analyze_eq_ok_iff_absorbs, h]

end LedgerBench
