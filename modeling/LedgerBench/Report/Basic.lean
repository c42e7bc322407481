import LedgerBench.Json.Printer
import LedgerBench.Report.Metric

/-!
# Reports

A report is a list of named metrics. A name occurs once, at the place where it was first entered,
and has the metric entered last. Reports are written as JSON objects in the order of their entries.
-/

namespace LedgerBench

/-- Named metrics in the order of their first entry. -/
structure Report where
  /-- The names with their metrics. -/
  entries : List (String × Metric)
deriving DecidableEq

namespace Report

/-- The report without metrics. -/
def empty : Report := ⟨[]⟩

instance : EmptyCollection Report := ⟨empty⟩

/-- Replaces the value of a key where it stands, or appends the key. -/
def insertEntry (key : String) (value : Metric) : List (String × Metric) → List (String × Metric)
  | [] => [(key, value)]
  | e :: rest => if e.1 = key then (key, value) :: rest else e :: insertEntry key value rest

/-- Enters a metric under a name. -/
def insert (r : Report) (name : String) (m : Metric) : Report := ⟨insertEntry name m r.entries⟩

/-- The metric of a name. -/
def get? (r : Report) (name : String) : Option Metric :=
  (r.entries.find? fun e => e.1 == name).map (·.2)

/-- The names in order. -/
def keys (r : Report) : List String := r.entries.map (·.1)

/-- The number of metrics. -/
def size (r : Report) : Nat := r.entries.length

/-- Whether there is no metric. -/
def isEmpty (r : Report) : Bool := r.entries.isEmpty

/-- The report that results from entering metrics one after the other. -/
def ofList (entries : List (String × Metric)) : Report :=
  entries.foldl (fun r e => r.insert e.1 e.2) empty

/-- Entering one more metric after a list of them. -/
theorem ofList_concat (entries : List (String × Metric)) (name : String) (m : Metric) :
    ofList (entries ++ [(name, m)]) = (ofList entries).insert name m := by
  simp [ofList]

end Report

/-- A metric in JSON: counts are integers, everything else is a double. -/
def Metric.json : Metric → Json
  | .count n => .number (.integer n)
  | m => .number (.float m.toFloat)

namespace Report

/-- The entries with their values in JSON. -/
def jsonMembers (r : Report) : List (String × List Char) :=
  r.entries.map fun e => (e.1, e.2.json.characters)

/-- The report as a JSON object in one line. -/
def compactJson (r : Report) : String := String.ofList (Json.compactObject r.jsonMembers)

/-- The report as a JSON object with one metric in each line. -/
def indentedJson (r : Report) : String := String.ofList (Json.indentedObject r.jsonMembers)

end Report

end LedgerBench
