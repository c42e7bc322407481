import Mathlib.Data.List.Forall2
import LedgerBench.Report.Table
import LedgerBench.Proofs.Text.Columns
import LedgerBench.Proofs.Text.Digits
import LedgerBench.Proofs.Text.Lines

/-!
# The rows of a table

A table has a row for each entry of the report, in the same order: the left cell has the lines of
the name, and the right cell has the text of the metric as its only line (`shows_of_rows?`). The
left cells are the names of the report unless the lines of some name do not tell it
(`map_cellText_eq_keys_iff`): the cell of a name with a line feed at its end, or with a carriage
return before a line feed, has another text.

There is no table at all if a line of some name has no width (`rows?_eq_none_iff`). This happens to
names with colour codes alone (`isSome_rows?`): the texts of metrics consist of characters that take
one column each (`Metric.isNarrowLine_text`).
-/

namespace LedgerBench

/-! ## Lines of simple characters -/

namespace Text

variable {text : List Char}

/-- A line of characters that take one column each, which is not empty. -/
structure IsNarrowLine (text : List Char) : Prop where
  /-- There is a character. -/
  ne_nil : text ≠ []
  /-- The characters take one column each. -/
  narrow : text.all isNarrow = true

/-- More such characters may stand behind the line. -/
theorem IsNarrowLine.append (h : IsNarrowLine text) {more : List Char}
    (hmore : more.all isNarrow = true) : IsNarrowLine (text ++ more) where
  ne_nil := List.append_ne_nil_of_left_ne_nil h.ne_nil more
  narrow := by rw [List.all_append, h.narrow, hmore, Bool.and_self]

/-- It is a line. -/
theorem IsNarrowLine.lines_eq (h : IsNarrowLine text) : lines text = [text] := by
  have hfeed : '\n' ∉ text := not_mem_of_isNarrow h.narrow (by decide)
  rw [lines_of_not_mem hfeed, List.isEmpty_eq_false_iff.mpr h.ne_nil]
  rfl

end Text

open Text (isNarrow IsNarrowLine)

/-! ## The texts of metrics -/

/-- The digits of a number are such a line. -/
theorem isNarrowLine_toDigits (n : ℕ) : IsNarrowLine (Nat.toDigits 10 n) where
  ne_nil := Nat.toDigits_ne_nil
  narrow := by
    refine List.all_eq_true.mpr fun c hc => ?_
    have hdigit : 48 ≤ c.toNat ∧ c.toNat ≤ 57 := Char.isDigit_iff_toNat.mp (isDigit_toDigits hc)
    simp only [isNarrow, Bool.or_eq_true, Bool.and_eq_true, decide_eq_true_eq]
    omega

/-- So is the text of a double with two places. -/
theorem isNarrowLine_fixed (x : Float) : IsNarrowLine (Decimal.fixed 2 x).toList := by
  unfold Decimal.fixed
  split
  · exact ⟨by decide, rfl⟩
  · split <;> exact ⟨by decide, rfl⟩
  · rename_i negative m e _
    have hzeros : ∀ k, (List.replicate k '0').all isNarrow = true := fun k =>
      List.all_eq_true.mpr fun c hc => List.eq_of_mem_replicate hc ▸ rfl
    have hsign : (if negative = true then ['-'] else []).all isNarrow = true := by
      split <;> rfl
    have hdigits := fun n => (isNarrowLine_toDigits n).narrow
    have hpoint : isNarrow '.' = true := rfl
    rw [String.toList_ofList, Decimal.fixedQuotient, Decimal.ofUnits, Decimal.padded]
    constructor
    · exact List.append_ne_nil_of_right_ne_nil _ (List.cons_ne_nil _ _)
    · simp only [List.all_append, List.all_cons, hsign, hdigits, hpoint, hzeros, Bool.and_self]

/-- So is the text of a figure. -/
theorem isNarrowLine_showFigure (x : Float) {unit : String}
    (h : unit.toList.all isNarrow = true) : IsNarrowLine (showFigure x unit).toList := by
  unfold showFigure
  split
  · exact ⟨by decide, rfl⟩
  · rw [String.toList_append]
    exact (isNarrowLine_fixed x).append h

/-- So is the text of a percentage. -/
theorem isNarrowLine_showPercentage (x : Float) : IsNarrowLine (showPercentage x).toList := by
  unfold showPercentage
  split
  · exact ⟨by decide, rfl⟩
  · rw [String.toList_append]
    exact (isNarrowLine_fixed _).append rfl

/-- So is the text of a duration, whatever its unit. -/
theorem isNarrowLine_showDuration (us : Float) : IsNarrowLine (showDuration us).toList := by
  have hsymbol : ∀ unit : TimeUnit, unit.symbol.toList.all isNarrow = true := by
    intro unit
    cases unit <;> rfl
  unfold showDuration
  split
  · exact ⟨by decide, rfl⟩
  · rw [String.toList_append]
    exact (isNarrowLine_fixed _).append (hsymbol _)

/-- The text of a metric is a line, and takes one column for each of its characters. -/
theorem Metric.isNarrowLine_text (m : Metric) : IsNarrowLine m.text.toList := by
  cases m with
  | count n =>
    have hdigits : (Metric.count n).text.toList = Nat.toDigits 10 n := by
      rw [Metric.text, Nat.toString_eq_repr, Nat.toList_repr]
    rw [hdigits]
    exact isNarrowLine_toDigits n
  | number x => exact isNarrowLine_showFigure x rfl
  | ratio x => exact isNarrowLine_showPercentage x
  | duration us => exact isNarrowLine_showDuration us
  | rate x => exact isNarrowLine_showFigure x rfl

/-! ## Cells and rows -/

/-- A list is mapped exactly when each of its items is. -/
theorem mapM_eq_some {α β : Type} {f : α → Option β} {items : List α} {results : List β} :
    items.mapM f = some results ↔ List.Forall₂ (fun x y => f x = some y) items results := by
  induction items generalizing results with
  | nil =>
    rw [List.forall₂_nil_left_iff]
    exact ⟨fun h => by cases h; rfl, fun h => by rw [h]; rfl⟩
  | cons x items ih =>
    rw [List.mapM_cons, List.forall₂_cons_left_iff]
    constructor
    · intro h
      obtain ⟨y, hy, h⟩ := Option.bind_eq_some_iff.mp h
      obtain ⟨ys, hys, h⟩ := Option.bind_eq_some_iff.mp h
      cases h
      exact ⟨y, ys, hy, ih.mp hys, rfl⟩
    · rintro ⟨y, ys, hy, hys, rfl⟩
      exact Option.bind_eq_some_iff.mpr ⟨y, hy, Option.bind_eq_some_iff.mpr ⟨ys, ih.mpr hys, rfl⟩⟩

/-- A list is not mapped exactly when one of its items is not. -/
theorem mapM_eq_none_iff {α β : Type} {f : α → Option β} {items : List α} :
    items.mapM f = none ↔ ∃ x ∈ items, f x = none := by
  induction items with
  | nil => simp
  | cons x items ih =>
    rw [List.mapM_cons]
    cases hx : f x with
    | none => exact ⟨fun _ => ⟨x, List.mem_cons_self, hx⟩, fun _ => rfl⟩
    | some y =>
      have hhere : (∃ z ∈ x :: items, f z = none) ↔ ∃ z ∈ items, f z = none := by simp [hx]
      rw [hhere, ← ih]
      cases items.mapM f with
      | none => exact ⟨fun _ => rfl, fun _ => rfl⟩
      | some ys => exact ⟨fun h => (nomatch h), fun h => (nomatch h)⟩

namespace Report

/-- The lines of a cell have the lines of its text. -/
theorem Line.map_text_of_ofCell? {text : String} {ls : List Line} (h : ofCell? text = some ls) :
    ls.map Line.text = (Text.lines text.toList).map String.ofList := by
  have hlines := mapM_eq_some.mp h
  clear h
  generalize Text.lines text.toList = pieces at hlines
  induction hlines with
  | nil => rfl
  | @cons piece l pieces ls hl _ ih =>
    obtain ⟨columns, _, rfl⟩ := Option.map_eq_some_iff.mp hl
    exact congrArg (String.ofList piece :: ·) ih

/-- A cell has no lines only if one of the lines of its text has no width. -/
theorem Line.ofCell?_eq_none_iff {text : String} : ofCell? text = none ↔
    ∃ line ∈ Text.lines text.toList, Text.columns? (String.ofList line) = none := by
  unfold ofCell? ofText?
  rw [mapM_eq_none_iff]
  simp only [Option.map_eq_none_iff]

/-- The cell of a metric has one line. -/
theorem Line.ofCell?_text (m : Metric) :
    ofCell? m.text = some [⟨m.text, m.text.toList.length⟩] := by
  have hone : ofText? m.text = some ⟨m.text, m.text.toList.length⟩ := by
    have hcolumns := Text.columns?_of_isNarrow m.isNarrowLine_text.narrow
    rw [String.ofList_toList] at hcolumns
    rw [ofText?, hcolumns]
    rfl
  unfold ofCell?
  rw [m.isNarrowLine_text.lines_eq, List.mapM_cons, String.ofList_toList, hone]
  rfl

/-- The text of a cell has a line feed between the lines. -/
def Line.cellText (ls : List Line) : String := "\n".intercalate (ls.map Line.text)

/-- The text of a cell is the one that it was made of exactly when the lines of this tell it. -/
theorem Line.cellText_eq_iff {text : String} {ls : List Line} (h : ofCell? text = some ls) :
    cellText ls = text ↔ Text.IsToldByLines text.toList := by
  have hcell : (cellText ls).toList = Text.joined (Text.lines text.toList) := by
    rw [cellText, map_text_of_ofCell? h, String.toList_intercalate, List.map_map]
    have hsame : String.toList ∘ String.ofList = id := funext fun _ => String.toList_ofList
    rw [hsame, List.map_id]
    rfl
  rw [← String.toList_inj, hcell]
  exact Text.joined_lines_eq_iff text.toList

/-- The row shows the metric of the name. -/
structure Row.Shows (row : Row) (name : String) (m : Metric) : Prop where
  /-- The left cell has the lines of the name. -/
  name_lines : row.name.map Line.text = (Text.lines name.toList).map String.ofList
  /-- Its text is the name exactly when the lines tell the name. -/
  name_eq_iff : Line.cellText row.name = name ↔ Text.IsToldByLines name.toList
  /-- The right cell has the text of the metric. -/
  value_eq : row.value = [⟨m.text, m.text.toList.length⟩]

/-- The cell of the metric does not decide whether there is a row. -/
theorem Row.ofTexts?_text (name : String) (m : Metric) : Row.ofTexts? name m.text =
    (Line.ofCell? name).map fun ls => ⟨ls, [⟨m.text, m.text.toList.length⟩]⟩ := by
  unfold Row.ofTexts?
  rw [Line.ofCell?_text]
  cases Line.ofCell? name <;> rfl

/-- Each entry has its row, and the rows stand in the order of the entries. -/
theorem shows_of_rows? {r : Report} {rows : List Row} (h : r.rows? = some rows) :
    List.Forall₂ (fun e row => row.Shows e.1 e.2) r.entries rows := by
  refine (mapM_eq_some.mp h).imp fun e row hrow => ?_
  rw [Row.ofTexts?_text] at hrow
  obtain ⟨ls, hls, rfl⟩ := Option.map_eq_some_iff.mp hrow
  exact ⟨Line.map_text_of_ofCell? hls, Line.cellText_eq_iff hls, rfl⟩

/-- The left cells are the names of the report, in their order, exactly when the lines of each name
tell it. -/
theorem map_cellText_eq_keys_iff {r : Report} {rows : List Row}
    (h : List.Forall₂ (fun e row => row.Shows e.1 e.2) r.entries rows) :
    rows.map (fun row => Line.cellText row.name) = r.keys ↔
      ∀ name ∈ r.keys, Text.IsToldByLines name.toList := by
  unfold keys
  generalize r.entries = entries at h
  induction h with
  | nil => exact iff_of_true rfl (List.forall_mem_nil _)
  | cons hrow _ ih =>
    rw [List.map_cons, List.map_cons, List.cons.injEq, List.forall_mem_cons, ih, hrow.name_eq_iff]

/-- There are no rows exactly when a line of some name has no width. -/
theorem rows?_eq_none_iff {r : Report} : r.rows? = none ↔
    ∃ name ∈ r.keys, ∃ line ∈ Text.lines name.toList,
      Text.columns? (String.ofList line) = none := by
  unfold rows? keys
  rw [mapM_eq_none_iff]
  simp only [List.mem_map, exists_exists_and_eq_and, Row.ofTexts?_text, Option.map_eq_none_iff,
    Line.ofCell?_eq_none_iff]

/-- There are rows if no name has an escape character. -/
theorem isSome_rows? {r : Report} (h : ∀ name ∈ r.keys, '\x1b' ∉ name.toList) :
    r.rows?.isSome = true := by
  rw [Option.isSome_iff_ne_none, ne_eq, rows?_eq_none_iff]
  rintro ⟨name, hname, line, hline, hnone⟩
  have hescape : '\x1b' ∉ (String.ofList line).toList := by
    rw [String.toList_ofList]
    exact fun hmem => h name hname (Text.mem_of_mem_lines hline hmem)
  have hwidth := Text.isSome_columns? hescape
  rw [hnone] at hwidth
  cases hwidth

end Report

end LedgerBench
