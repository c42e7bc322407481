import LedgerBench.Proofs.Ledger.Records

/-!
# The records that a log holds

A log holds records if it has a text and each line that is not blank is a record; else it fails, for
the first reason that there is. `Input.holds_iff` and `Input.load_eq_error_iff` say that loading a
log finds out which, and `allHold_iff` says it of many logs.

The entries of a stream keep the numbers of their lines, and these count the blank lines that are
skipped. All that is needed of the numbers is `Log.numberedFrom_eq_append_cons_iff`: a cut of the
numbered lines that are not blank is a cut of all lines, and the number of a line counts the lines
before it. So a text is cut at a line where its stream is cut at the entry of the line
(`Input.load_of_cut`, `Input.exists_cut_of_load`).
-/

namespace LedgerBench

/-! ## Lines -/

/-- The lines that are not skipped, with the numbers that they have if the first line has the given
one. -/
def Log.numberedFrom (n : Nat) (ls : List (List Char)) : List (List Char × Nat) :=
  (ls.zipIdx n).filter fun line => !isBlankLine line.1

namespace Log

variable {n : Nat} {line : List Char} {ls : List (List Char)}

/-- The lines of a text have the numbers from one on. -/
theorem numberedLines_eq (text : List Char) :
    numberedLines text = numberedFrom 1 (Text.lines text) := rfl

/-- The numbers of lines behind others go on from these. -/
theorem numberedFrom_append (n : Nat) (ls ls' : List (List Char)) :
    numberedFrom n (ls ++ ls') = numberedFrom n ls ++ numberedFrom (n + ls.length) ls' := by
  unfold numberedFrom
  rw [List.zipIdx_append, List.filter_append]

/-- A blank line is skipped, but counted. -/
theorem numberedFrom_cons_of_blank (h : isBlankLine line = true) :
    numberedFrom n (line :: ls) = numberedFrom (n + 1) ls := by
  unfold numberedFrom
  rw [List.zipIdx_cons, List.filter_cons_of_neg (by simp [h])]

/-- Any other line is kept with its number. -/
theorem numberedFrom_cons_of_not_blank (h : isBlankLine line = false) :
    numberedFrom n (line :: ls) = (line, n) :: numberedFrom (n + 1) ls := by
  unfold numberedFrom
  rw [List.zipIdx_cons, List.filter_cons_of_pos (by simp [h])]

/-- The lines that are kept are cut at one of them where all lines are cut at it, and its number
counts the lines before it. -/
theorem numberedFrom_eq_append_cons_iff {front back : List (List Char × Nat)}
    {x : List Char × Nat} : numberedFrom n ls = front ++ x :: back ↔
      ∃ before line after, ls = before ++ line :: after ∧ isBlankLine line = false ∧
        front = numberedFrom n before ∧ x = (line, n + before.length) ∧
          back = numberedFrom (n + before.length + 1) after := by
  constructor
  · intro h
    induction ls generalizing n front with
    | nil =>
      exact absurd h (List.append_ne_nil_of_right_ne_nil front (List.cons_ne_nil x back)).symm
    | cons line ls ih =>
      have hnumber : ∀ before : List (List Char),
          n + 1 + before.length = n + (line :: before).length := by
        intro before
        rw [List.length_cons, Nat.add_assoc, Nat.add_comm 1]
      cases hblank : isBlankLine line with
      | true =>
        rw [numberedFrom_cons_of_blank hblank] at h
        obtain ⟨before, l, after, rfl, hl, rfl, rfl, rfl⟩ := ih h
        rw [hnumber]
        exact ⟨line :: before, l, after, rfl, hl, (numberedFrom_cons_of_blank hblank).symm,
          rfl, rfl⟩
      | false =>
        rw [numberedFrom_cons_of_not_blank hblank] at h
        cases front with
        | nil =>
          cases h
          exact ⟨[], line, ls, rfl, hblank, rfl, rfl, rfl⟩
        | cons y front =>
          rw [List.cons_append, List.cons.injEq] at h
          obtain ⟨rfl, h⟩ := h
          obtain ⟨before, l, after, rfl, hl, rfl, rfl, rfl⟩ := ih h
          rw [hnumber]
          exact ⟨line :: before, l, after, rfl, hl, (numberedFrom_cons_of_not_blank hblank).symm,
            rfl, rfl⟩
  · rintro ⟨before, line, after, rfl, hline, rfl, rfl, rfl⟩
    unfold numberedFrom
    rw [List.zipIdx_append, List.filter_append, List.zipIdx_cons,
      List.filter_cons_of_pos (by simp [hline])]

/-- A line is read as its record with its number. -/
theorem readLine_eq_ok_iff {line : List Char} {n : Nat} {entry : Entry} :
    readLine (line, n) = .ok entry ↔ ∃ r, Record.read line = .ok r ∧ entry = ⟨n, r⟩ := by
  unfold Log.readLine
  cases Record.read line <;> simp [eq_comm]

/-- A line has a fault with its number exactly when it is no record. -/
theorem readLine_eq_error_iff {line : List Char} {n : Nat} {fault : LineFault} :
    readLine (line, n) = .error fault ↔
      ∃ cause, Record.read line = .error cause ∧ fault = ⟨n, cause⟩ := by
  unfold readLine
  cases Record.read line <;> simp [eq_comm]

end Log

/-- The lines of a log hold these records: each line that is not blank is one, in the order of the
lines. -/
def LinesHold (role : Role) (ls : List (List Char)) (run : List StreamRecord) : Prop :=
  List.Forall₂ (fun line r => r.role = role ∧ Record.read line = .ok r.record)
    (ls.filter fun line => !Log.isBlankLine line) run

section LinesHold

variable {role : Role} {line : List Char} {ls : List (List Char)} {run : List StreamRecord}

/-- No lines hold no records. -/
theorem linesHold_nil : LinesHold role [] run ↔ run = [] := List.forall₂_nil_left_iff

/-- A blank line holds nothing. -/
theorem linesHold_cons_of_blank (h : Log.isBlankLine line = true) :
    LinesHold role (line :: ls) run ↔ LinesHold role ls run := by
  unfold LinesHold
  rw [List.filter_cons_of_neg (by simp [h])]

/-- Any other line holds its record before those of the other lines. -/
theorem linesHold_cons_of_not_blank (h : Log.isBlankLine line = false) :
    LinesHold role (line :: ls) run ↔ ∃ record rest,
      Record.read line = .ok record ∧ LinesHold role ls rest ∧ run = ⟨role, record⟩ :: rest := by
  unfold LinesHold
  rw [List.filter_cons_of_pos (by simp [h]), List.forall₂_cons_left_iff]
  constructor
  · rintro ⟨⟨_, record⟩, rest, ⟨rfl, hread⟩, hrest, rfl⟩
    exact ⟨record, rest, hread, hrest, rfl⟩
  · rintro ⟨record, rest, hread, hrest, rfl⟩
    exact ⟨_, rest, ⟨rfl, hread⟩, hrest, rfl⟩

/-- Lines hold the records of the entries that are read from them, whatever number the first line
has. -/
theorem linesHold_iff (n : Nat) : LinesHold role ls run ↔ ∃ entries,
    List.Forall₂ (fun l entry => Log.readLine l = .ok entry) (Log.numberedFrom n ls) entries ∧
      run = entries.map fun entry => ⟨role, entry.record⟩ := by
  induction ls generalizing n run with
  | nil =>
    rw [linesHold_nil]
    constructor
    · rintro rfl
      exact ⟨[], .nil, rfl⟩
    · rintro ⟨_, h, rfl⟩
      cases h
      rfl
  | cons line ls ih =>
    cases hblank : Log.isBlankLine line with
    | true => rw [Log.numberedFrom_cons_of_blank hblank, linesHold_cons_of_blank hblank, ih (n + 1)]
    | false =>
      rw [Log.numberedFrom_cons_of_not_blank hblank, linesHold_cons_of_not_blank hblank]
      constructor
      · rintro ⟨record, rest, hread, hrest, rfl⟩
        obtain ⟨entries, hentries, rfl⟩ := (ih (n + 1)).mp hrest
        exact ⟨⟨n, record⟩ :: entries,
          .cons (Log.readLine_eq_ok_iff.mpr ⟨record, hread, rfl⟩) hentries, rfl⟩
      · rintro ⟨_, hentries, rfl⟩
        cases hentries with
        | @cons _ entry _ entries hentry hrest =>
          obtain ⟨record, hread, rfl⟩ := Log.readLine_eq_ok_iff.mp hentry
          exact ⟨record, _, hread, (ih (n + 1)).mpr ⟨entries, hrest, rfl⟩, rfl⟩

end LinesHold

/-- The first unreadable line is the fault of a text. -/
theorem Log.read_eq_error_iff {role : Role} {text : String} {fault : LineFault} :
    Log.read text = .error fault ↔ ∃ before line after run cause,
      Text.lines text.toList = before ++ line :: after ∧ LinesHold role before run ∧
        Log.isBlankLine line = false ∧ Record.read line = .error cause ∧
          fault = ⟨before.length + 1, cause⟩ := by
  unfold Log.read
  rw [mapM_eq_error, Log.numberedLines_eq]
  constructor
  · rintro ⟨front, x, back, entries, hcut, hfront, hx⟩
    obtain ⟨before, line, after, heq, hblank, rfl, rfl, rfl⟩ :=
      Log.numberedFrom_eq_append_cons_iff.mp hcut
    obtain ⟨cause, hread, rfl⟩ := Log.readLine_eq_error_iff.mp hx
    exact ⟨before, line, after, _, cause, heq, (linesHold_iff 1).mpr ⟨entries, hfront, rfl⟩, hblank,
      hread, by rw [Nat.add_comm]⟩
  · rintro ⟨before, line, after, run, cause, heq, hbefore, hblank, hread, rfl⟩
    obtain ⟨entries, hfront, -⟩ := (linesHold_iff 1).mp hbefore
    refine ⟨_, _, _, entries, Log.numberedFrom_eq_append_cons_iff.mpr
      ⟨before, line, after, heq, hblank, rfl, rfl, rfl⟩, hfront, ?_⟩
    exact Log.readLine_eq_error_iff.mpr ⟨cause, hread, by rw [Nat.add_comm]⟩

/-! ## Logs -/

namespace Input

/-- A log can be loaded, and it holds these records. -/
def Holds (i : Input) (run : List StreamRecord) : Prop :=
  ∃ text, i.text = .ok text ∧ LinesHold i.source.role (Text.lines text.toList) run

/-- A log cannot be loaded, for the first reason that there is. -/
inductive Fails (i : Input) : Fault → Prop where
  /-- It has no text. -/
  | unreadable {cause : FileFault} (htext : i.text = .error cause) :
    i.Fails (.unreadable i.source.path cause)
  /-- One of its lines is no record, and all lines before it are blank or records. -/
  | badLine {text : String} {before after : List (List Char)} {line : List Char}
    {run : List StreamRecord} {cause : JsonFault} (htext : i.text = .ok text)
    (hlines : Text.lines text.toList = before ++ line :: after)
    (hbefore : LinesHold i.source.role before run) (hblank : Log.isBlankLine line = false)
    (hread : Record.read line = .error cause) :
    i.Fails (.badLine i.source.path ⟨before.length + 1, cause⟩)

variable {i : Input}

/-- A log holds the records of the stream as which it is loaded. -/
theorem holds_iff {run : List StreamRecord} :
    i.Holds run ↔ ∃ stream, i.load = .ok stream ∧ run = stream.records := by
  unfold Holds
  simp only [linesHold_iff 1, load_eq_ok]
  constructor
  · rintro ⟨text, htext, entries, hentries, rfl⟩
    exact ⟨_, ⟨text, entries, htext, mapM_eq_ok.mpr hentries, rfl⟩, rfl⟩
  · rintro ⟨_, ⟨text, entries, htext, hentries, rfl⟩, rfl⟩
    exact ⟨text, htext, entries, mapM_eq_ok.mp hentries, rfl⟩

/-- The fault of a log that is not loaded is why it fails. -/
theorem load_eq_error_iff {fault : Fault} : i.load = .error fault ↔ i.Fails fault := by
  unfold load
  constructor
  · intro h
    cases htext : i.text with
    | error cause =>
      rw [htext] at h
      cases h
      exact .unreadable htext
    | ok text =>
      cases hread : Log.read text with
      | ok entries =>
        simp only [htext, hread] at h
        cases h
      | error cause =>
        simp only [htext, hread] at h
        cases h
        obtain ⟨before, line, after, run, cause, hlines, hbefore, hblank, hline, rfl⟩ :=
          Log.read_eq_error_iff.mp hread
        exact .badLine htext hlines hbefore hblank hline
  · rintro (⟨htext⟩ | ⟨htext, hlines, hbefore, hblank, hline⟩)
    · rw [htext]
    · rw [htext]
      simp only [Log.read_eq_error_iff.mpr ⟨_, _, _, _, _, hlines, hbefore, hblank, hline, rfl⟩]

/-- The stream of a log is cut at the entry of a line where the text is cut at the line. -/
theorem load_of_cut {text : String} {before after : List (List Char)} {line : List Char}
    {run : List StreamRecord} {record : Record} (hload : ∃ run, i.Holds run)
    (htext : i.text = .ok text) (hlines : Text.lines text.toList = before ++ line :: after)
    (hbefore : LinesHold i.source.role before run) (hblank : Log.isBlankLine line = false)
    (hread : Record.read line = .ok record) : ∃ entries entries',
      i.load = .ok ⟨i.source, entries ++ ⟨before.length + 1, record⟩ :: entries'⟩ ∧
        run = (Stream.mk i.source entries).records := by
  obtain ⟨_, hrun⟩ := hload
  obtain ⟨_, hstream, -⟩ := holds_iff.mp hrun
  obtain ⟨text', all, htext', hall, rfl⟩ := load_eq_ok.mp hstream
  cases htext.symm.trans htext'
  obtain ⟨entries, hentries, rfl⟩ := (linesHold_iff 1).mp hbefore
  -- the numbered lines are cut at the line, so what is read from them is cut at its entry
  have hcut : Log.numberedLines text.toList = _ := Log.numberedFrom_eq_append_cons_iff.mpr
    ⟨before, line, after, hlines, hblank, rfl, rfl, rfl⟩
  have hread_all := mapM_eq_ok.mp hall
  rw [hcut] at hread_all
  obtain ⟨front, back, hfront, hback, rfl⟩ := exists_append_of_forall₂ hread_all
  cases hback with
  | @cons _ entry _ entries' hentry _ =>
    obtain ⟨r, hr, rfl⟩ := Log.readLine_eq_ok_iff.mp hentry
    cases hread.symm.trans hr
    have hunique : Relator.RightUnique
        fun (l : List Char × Nat) (e : Entry) => Log.readLine l = .ok e := by
      intro l e e' h h'
      cases h.symm.trans h'
      rfl
    obtain rfl : front = entries := hunique.forall₂ hfront hentries
    refine ⟨front, entries', ?_, rfl⟩
    rw [hstream, Nat.add_comm 1]

/-- The text of a log is cut at the line of an entry where its stream is cut at the entry. -/
theorem exists_cut_of_load {source : Source} {entries entries' : List Entry} {entry : Entry}
    (h : i.load = .ok ⟨source, entries ++ entry :: entries'⟩) : ∃ text before line after,
      i.text = .ok text ∧ Text.lines text.toList = before ++ line :: after ∧
        LinesHold i.source.role before (Stream.mk i.source entries).records ∧
          Log.isBlankLine line = false ∧ Record.read line = .ok entry.record := by
  obtain ⟨text, all, htext, hall, heq⟩ := load_eq_ok.mp h
  cases heq
  obtain ⟨front, x, back, hfront, hentry, hcut⟩ : ∃ front x back,
      List.Forall₂ (fun l e => Log.readLine l = .ok e) front entries ∧
        Log.readLine x = .ok entry ∧ Log.numberedLines text.toList = front ++ x :: back := by
    obtain ⟨front, rest, hfront, hrest, hcut⟩ :=
      exists_append_of_forall₂ (mapM_eq_ok.mp hall).flip
    cases hrest with
    | cons hentry _ => exact ⟨front, _, _, hfront.flip, hentry, hcut⟩
  obtain ⟨before, line, after, hlines, hblank, rfl, rfl, rfl⟩ :=
    Log.numberedFrom_eq_append_cons_iff.mp hcut
  obtain ⟨record, hread, rfl⟩ := Log.readLine_eq_ok_iff.mp hentry
  exact ⟨text, before, line, after, htext, hlines, (linesHold_iff 1).mpr ⟨entries, hfront, rfl⟩,
    hblank, hread⟩

end Input

/-- Logs can all be loaded, and they hold these records one log after the other. -/
def AllHold (inputs : List Input) (run : List StreamRecord) : Prop :=
  ∃ runs, List.Forall₂ Input.Holds inputs runs ∧ run = runs.flatten

/-- Logs hold the records of the streams as which they are loaded. -/
theorem allHold_iff {inputs : List Input} {run : List StreamRecord} :
    AllHold inputs run ↔
      ∃ streams, inputs.mapM Input.load = .ok streams ∧ run = streams.flatMap Stream.records := by
  unfold AllHold
  simp only [mapM_eq_ok]
  constructor
  · rintro ⟨runs, hruns, rfl⟩
    induction hruns with
    | nil => exact ⟨[], .nil, rfl⟩
    | cons hrun _ ih =>
      obtain ⟨stream, hload, rfl⟩ := Input.holds_iff.mp hrun
      obtain ⟨streams, hloads, hrest⟩ := ih
      refine ⟨stream :: streams, .cons hload hloads, ?_⟩
      rw [List.flatten_cons, hrest, List.flatMap_cons]
  · rintro ⟨streams, hloads, rfl⟩
    refine ⟨streams.map Stream.records, ?_, List.flatMap_def⟩
    refine List.forall₂_map_right_iff.mpr (hloads.imp fun i stream hload => ?_)
    exact Input.holds_iff.mpr ⟨stream, hload, rfl⟩

/-- Logs each hold records exactly when they are loaded. -/
theorem forall_holds_iff {inputs : List Input} :
    (∀ i ∈ inputs, ∃ run, i.Holds run) ↔ ∃ streams, inputs.mapM Input.load = .ok streams := by
  constructor
  · intro h
    cases hload : inputs.mapM Input.load with
    | ok streams => exact ⟨streams, rfl⟩
    | error fault =>
      -- the log that fails would hold nothing
      obtain ⟨front, i, back, _, rfl, -, hfault⟩ := mapM_eq_error.mp hload
      obtain ⟨run, hrun⟩ := h i (List.mem_append_right _ List.mem_cons_self)
      obtain ⟨stream, hok, -⟩ := Input.holds_iff.mp hrun
      cases hok.symm.trans hfault
  · rintro ⟨streams, hload⟩ i hi
    obtain ⟨stream, -, hstream⟩ := exists_of_mem_results (mapM_eq_ok.mp hload).flip hi
    exact ⟨_, Input.holds_iff.mpr ⟨stream, hstream, rfl⟩⟩

end LedgerBench
