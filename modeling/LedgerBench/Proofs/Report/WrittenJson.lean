import LedgerBench.Proofs.Json.ObjectText
import LedgerBench.Proofs.Report.InsertionOrder
import LedgerBench.Proofs.Report.TableRows

/-!
# A report that is written and read again

A report is written as an object that is read back with one member for each entry, in the same
order: the key is the name, whatever characters it has, and the value tells the metric as far as
JSON can express it (`Metric.ReadBack`). This holds for both layouts, and the indented one becomes
the compact one without its white space. The table has one row for each entry as well, with the name
in its left cell, but for names of two kinds (`ofList_written`). If the colour codes in a line of
some name hide more columns than the line takes, there is no table. If a line feed stands at the end
of a name, or a carriage return before a line feed, its cell has another text (`ofList_names_lost`).

All that is asked of the metrics is that counts fit a word. A larger count would be read back as a
double.
-/

namespace LedgerBench

namespace Metric

/-- A count fits an unsigned word; any other metric is a double. -/
def FitsWord : Metric → Prop
  | count n => n < 2 ^ 64
  | number _ | ratio _ | duration _ | rate _ => True

instance : DecidablePred FitsWord
  | count n => inferInstanceAs (Decidable (n < 2 ^ 64))
  | number _ | ratio _ | duration _ | rate _ => inferInstanceAs (Decidable True)

/-- What is read where a metric was written: a count is read as itself, any other metric as some
double, or as nothing if it is not finite. -/
def ReadBack (m : Metric) (v : Json) : Prop :=
  match m with
  | count n => v = .number (.integer n)
  | number x | ratio x | duration x | rate x =>
    if x.isFinite then ∃ y, v = .number (.float y) else v = .null

/-- The text of a double is plain, and it is read as a double if this is finite. -/
theorem exists_readsAs_floatText (x : Float) :
    ∃ v, (if x.isFinite then ∃ y, v = Json.number (.float y) else v = .null) ∧
      Json.ReadsAs (JsonNumber.floatText x) v ∧ Json.IsPlain (JsonNumber.floatText x) := by
  cases hfinite : x.isFinite with
  | true =>
    have hreads := readsAsFloat_floatText hfinite
    obtain ⟨y, hy⟩ := Json.exists_readsAs_of_readsAsFloat hreads
    obtain ⟨_, _, hscan, -⟩ := hreads
    exact ⟨_, ⟨y, rfl⟩, hy, Json.NumberScan.isPlain_of_ofText? hscan⟩
  | false =>
    rw [floatText_of_not_isFinite hfinite]
    exact ⟨_, rfl, Json.readsAs_null, by simp [Json.IsPlain, Json.Scanner.isSpace]⟩

/-- The text of a metric in JSON is plain, and the metric is read back from it. -/
theorem exists_readsAs {m : Metric} (h : m.FitsWord) :
    ∃ v, m.ReadBack v ∧ Json.ReadsAs m.json.characters v ∧ Json.IsPlain m.json.characters := by
  cases m with
  | count n =>
    have hword : (JsonNumber.integer n).FitsWord := ⟨by omega, by exact_mod_cast h⟩
    exact ⟨_, rfl, Json.readsAs_integerText hword,
      Json.NumberScan.isPlain_of_ofText? (Json.NumberScan.ofText?_integerText n)⟩
  | number x => exact exists_readsAs_floatText x
  | ratio x => exact exists_readsAs_floatText x
  | duration us => exact exists_readsAs_floatText us
  | rate x => exact exists_readsAs_floatText x

end Metric

namespace Report

/-- The text is an object, and its members are the entries of the report in their order. -/
def IsReadFrom (r : Report) (text : String) : Prop :=
  ∃ members, Json.read text.toList = .ok (.object members) ∧
    List.Forall₂ (fun e w => w.1 = e.1 ∧ Metric.ReadBack e.2 w.2) r.entries members

/-- The texts of a report that results from entering metrics one after the other. -/
structure Written (r : Report) (entered : List (String × Metric)) : Prop where
  /-- No name occurs twice. -/
  nodup : r.keys.Nodup
  /-- The names are those under which metrics were entered, in the order of their first entries. -/
  keys : r.keys = (entered.map (·.1)).eraseDups
  /-- The entries are read back from the indented text. -/
  indented : r.IsReadFrom r.indentedJson
  /-- They are read back from the compact text as well. -/
  compact : r.IsReadFrom r.compactJson
  /-- The texts differ in white space only. -/
  condensed : Json.withoutSpace r.indentedJson.toList = r.compactJson.toList
  /-- If there is a table, it has one row for each entry, in the same order. -/
  rows : ∀ rows, r.rows? = some rows →
    List.Forall₂ (fun e row => Row.Shows row e.1 e.2) r.entries rows
  /-- Its left cells are the names, in the same order, exactly when no name has a line feed at its
  end or a carriage return before a line feed. -/
  names : ∀ rows, r.rows? = some rows → (rows.map (fun row => Line.cellText row.name) = r.keys ↔
    ∀ name ∈ r.keys, Text.IsToldByLines name.toList)
  /-- There is no table exactly when the colour codes in a line of some name hide more columns than
  the line takes. -/
  rowless : r.rows? = none ↔ ∃ name ∈ r.keys, ∃ line ∈ Text.lines name.toList,
    (Text.Ahead.measureAll line).1 < Text.hidden line
  /-- So there is one if no name has an escape character. -/
  plain : (∀ name ∈ r.keys, '\x1b' ∉ name.toList) → r.rows?.isSome = true
  /-- It has the names in its left cells if their lines tell them as well. -/
  told : (∀ name ∈ r.keys, '\x1b' ∉ name.toList ∧ Text.IsToldByLines name.toList) →
    ∃ rows, r.rows? = some rows ∧ rows.map (fun row => Line.cellText row.name) = r.keys

/-- The members have values that are read back, in the order of the entries. -/
theorem exists_members {r : Report} (h : ∀ e ∈ r.entries, e.2.FitsWord) :
    ∃ members : List (String × Json),
      List.Forall₂ (fun e w => w.1 = e.1 ∧ Metric.ReadBack e.2 w.2) r.entries members ∧
      List.Forall₂ (fun m w => m.1 = w.1 ∧ Json.ReadsAs m.2 w.2) r.jsonMembers members := by
  obtain ⟨entries⟩ := r
  induction entries with
  | nil => exact ⟨[], .nil, .nil⟩
  | cons e entries ih =>
    obtain ⟨he, hrest⟩ := List.forall_mem_cons.mp h
    obtain ⟨v, hback, hreads, -⟩ := Metric.exists_readsAs he
    obtain ⟨members, hmembers, htexts⟩ := ih hrest
    exact ⟨(e.1, v) :: members, .cons ⟨rfl, hback⟩ hmembers, .cons ⟨rfl, hreads⟩ htexts⟩

/-- The values of the members are plain. -/
theorem isPlain_jsonMembers {r : Report} (h : ∀ e ∈ r.entries, e.2.FitsWord) :
    ∀ m ∈ r.jsonMembers, Json.IsPlain m.2 := by
  intro m hm
  obtain ⟨e, he, rfl⟩ := List.mem_map.mp hm
  obtain ⟨_, -, -, hplain⟩ := Metric.exists_readsAs (h e he)
  exact hplain

/-- A metric is entered under its name before it is listed. -/
theorem mem_of_mem_entries_ofList {entered : List (String × Metric)} {e : String × Metric}
    (h : e ∈ (ofList entered).entries) : e ∈ entered := by
  -- the metric of a name is the last one that was entered under it
  have hget := (mem_entries_iff (nodup_keys_ofList entered)).mp h
  rw [get?_ofList] at hget
  obtain ⟨last, hlast, hmetric⟩ := Option.map_eq_some_iff.mp hget
  obtain ⟨hmem, hname⟩ := List.mem_filter.mp (List.mem_of_getLast? hlast)
  have heq : last = e := Prod.ext (of_decide_eq_true hname) hmetric
  exact heq ▸ hmem

/-- Whatever metrics are entered, under whatever names, the report is read back from its texts. It
has a table with a row for each entry, unless a line of some name has no width, and the names stand
in the rows, unless the lines of some name do not tell it. -/
theorem ofList_written {entered : List (String × Metric)} (h : ∀ e ∈ entered, e.2.FitsWord) :
    (ofList entered).Written entered := by
  have hfits : ∀ e ∈ (ofList entered).entries, e.2.FitsWord := fun e he =>
    h e (mem_of_mem_entries_ofList he)
  obtain ⟨members, hmembers, htexts⟩ := exists_members hfits
  constructor
  case nodup => exact nodup_keys_ofList entered
  case keys => exact keys_ofList entered
  case indented =>
    refine ⟨members, ?_, hmembers⟩
    rw [indentedJson, String.toList_ofList]
    exact Json.read_indentedObject htexts
  case compact =>
    refine ⟨members, ?_, hmembers⟩
    rw [compactJson, String.toList_ofList]
    exact Json.read_compactObject htexts
  case condensed =>
    rw [indentedJson, compactJson, String.toList_ofList, String.toList_ofList]
    exact Json.withoutSpace_indentedObject (isPlain_jsonMembers hfits)
  case rows => exact fun rows hrows => shows_of_rows? hrows
  case names => exact fun rows hrows => map_cellText_eq_keys_iff (shows_of_rows? hrows)
  case rowless =>
    simp only [rows?_eq_none_iff, Text.columns?_eq_none_iff, String.toList_ofList]
  case plain => exact isSome_rows?
  case told =>
    intro htold
    obtain ⟨rows, hrows⟩ := Option.isSome_iff_exists.mp
      (isSome_rows? fun name hname => (htold name hname).1)
    exact ⟨rows, hrows, (map_cellText_eq_keys_iff (shows_of_rows? hrows)).mpr
      fun name hname => (htold name hname).2⟩

/-- A name in which a quotation mark and a line feed are escaped is entered twice; the second figure
is not finite. -/
def escapedEntries : List (String × Metric) :=
  [("a\"\n", .number 0.5), ("\u00e9", .ratio (0.0 / 0.0)), ("a\"\n", .count 18446744073709551615)]

/-- The report of these entries is read back. -/
theorem ofList_written_escaped : (∀ e ∈ escapedEntries, e.2.FitsWord) ∧
    (ofList escapedEntries).keys = ["a\"\n", "\u00e9"] ∧
    (ofList escapedEntries).Written escapedEntries :=
  ⟨by decide, by decide +kernel, ofList_written (by decide)⟩

/-- Two names for which the table fails. In the first one the escape character and the bracket open
a colour code with four Arabic letters. The letters melt into two ligatures, so the line takes four
columns, but the bracket and the letters are five hidden characters: there is no table. The second
one has a line feed at its end: the table has the row of the name without it. -/
theorem ofList_names_lost :
    (ofList [("\x1b[\u0644\u0627\u0644\u0627", .count 1)]).rows? = none ∧
      (ofList [("a\n", .count 1)]).rows? = some [⟨[⟨"a", 1⟩], [⟨"1", 1⟩]⟩] ∧
      (ofList [("a", .count 1)]).rows? = some [⟨[⟨"a", 1⟩], [⟨"1", 1⟩]⟩] := by
  refine ⟨?_, ?_, ?_⟩ <;> decide +kernel

end Report

end LedgerBench
