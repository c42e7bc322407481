import Mathlib.Data.List.Induction
import LedgerBench.Report.Aggregate

/-!
# Looking up metrics

A report has for each name the metric that was entered last (`get?_ofList`). So metrics that are
entered under other names do not matter, and two lists of entries that agree on some names give
reports that agree on these (`get?_ofList_congr`). If no name is entered twice, nothing is replaced,
and a report has its entries as they were entered (`entries_ofList`).
-/

namespace LedgerBench.Report

/-- A name has the metric that was just entered under it; the other names keep theirs. -/
theorem get?_insert (r : Report) (key name : String) (m : Metric) :
    (r.insert key m).get? name = if key = name then some m else r.get? name := by
  obtain ⟨entries⟩ := r
  unfold get? insert
  dsimp only
  induction entries with
  | nil => by_cases h : key = name <;> simp [insertEntry, h]
  | cons e entries ih =>
    unfold insertEntry
    by_cases he : e.1 = key
    · -- the metric is replaced where it stands
      rw [if_pos he]
      by_cases h : key = name
      · simp [h]
      · have hne : e.1 ≠ name := he ▸ h
        simp [h, hne]
    · rw [if_neg he]
      by_cases hname : e.1 = name
      · have hne : key ≠ name := fun h => he (hname.trans h.symm)
        simp [hname, hne]
      · rw [List.find?_cons_of_neg (by simpa using hname),
          List.find?_cons_of_neg (by simpa using hname), ih]

/-- A name has the metric that was entered last under it. -/
theorem get?_ofList (entries : List (String × Metric)) (name : String) :
    (ofList entries).get? name = (entries.filter fun e => e.1 = name).getLast?.map (·.2) := by
  induction entries using List.reverseRecOn with
  | nil => rfl
  | append_singleton entries e ih =>
    rw [ofList_concat, get?_insert, ih, List.filter_append]
    by_cases h : e.1 = name <;> simp [h]

/-- Lists with the same entries for some names give the same metrics to these. -/
theorem get?_ofList_congr {entries entries' : List (String × Metric)} {names : List String}
    (h : (entries.filter fun e => e.1 ∈ names) = entries'.filter fun e => e.1 ∈ names)
    {name : String} (hname : name ∈ names) :
    (ofList entries).get? name = (ofList entries').get? name := by
  have hfilter : ∀ l : List (String × Metric), (l.filter fun e => e.1 = name) =
      (l.filter fun e => e.1 ∈ names).filter fun e => e.1 = name := by
    intro l
    rw [List.filter_filter]
    congr 1
    funext e
    by_cases he : e.1 = name <;> simp [he, hname]
  rw [get?_ofList, get?_ofList, hfilter entries, hfilter entries', h]

/-- A name under which something was entered has a metric. -/
theorem exists_get?_ofList {entries : List (String × Metric)} {name : String}
    (h : name ∈ entries.map (·.1)) : ∃ m, (ofList entries).get? name = some m := by
  obtain ⟨e, he, rfl⟩ := List.mem_map.mp h
  have hne : (entries.filter fun e' => e'.1 = e.1) ≠ [] :=
    List.ne_nil_of_mem (List.mem_filter.mpr ⟨he, by simp⟩)
  rw [get?_ofList, List.getLast?_eq_some_getLast hne]
  exact ⟨_, rfl⟩

/-- A name has no metric exactly if it is not among the names of the report. -/
theorem get?_eq_none_iff {r : Report} {name : String} : r.get? name = none ↔ name ∉ r.keys := by
  simp only [get?, keys, Option.map_eq_none_iff, List.find?_eq_none, beq_iff_eq, List.mem_map,
    not_exists, not_and]

/-- A new name is entered at the end. -/
theorem insertEntry_of_not_mem {key : String} {m : Metric} {entries : List (String × Metric)}
    (h : key ∉ entries.map (·.1)) : insertEntry key m entries = entries ++ [(key, m)] := by
  induction entries with
  | nil => rfl
  | cons e entries ih =>
    rw [List.map_cons, List.mem_cons, not_or] at h
    unfold insertEntry
    rw [if_neg (Ne.symm h.1), ih h.2, List.cons_append]

/-- Metrics with different names are entered one behind the other. -/
theorem entries_ofList {entries : List (String × Metric)} (h : (entries.map (·.1)).Nodup) :
    (ofList entries).entries = entries := by
  induction entries using List.reverseRecOn with
  | nil => rfl
  | append_singleton entries e ih =>
    rw [List.map_append] at h
    obtain ⟨hfront, -, hnew⟩ := List.nodup_append.mp h
    have hfresh : e.1 ∉ entries.map (·.1) :=
      fun hmem => hnew e.1 hmem e.1 (List.mem_singleton_self e.1) rfl
    rw [ofList_concat]
    unfold insert
    rw [ih hfront]
    exact insertEntry_of_not_mem hfresh

/-- If all metrics that are entered under a name are the same, it has this one. -/
theorem get?_ofList_eq_some_iff {entries : List (String × Metric)} {name : String} {m : Metric}
    (h : ∀ m', (name, m') ∈ entries → ∀ m'', (name, m'') ∈ entries → m' = m'') :
    (ofList entries).get? name = some m ↔ (name, m) ∈ entries := by
  have hmem : ∀ {m'}, (ofList entries).get? name = some m' → (name, m') ∈ entries := by
    intro m' hm'
    rw [get?_ofList] at hm'
    obtain ⟨⟨name', m''⟩, hlast, rfl⟩ := Option.map_eq_some_iff.mp hm'
    obtain ⟨he, hname⟩ := List.mem_filter.mp (List.mem_of_getLast? hlast)
    obtain rfl : name' = name := of_decide_eq_true hname
    exact he
  refine ⟨hmem, fun hm => ?_⟩
  obtain ⟨m', hm'⟩ := exists_get?_ofList (List.mem_map_of_mem hm)
  rw [hm', h m' (hmem hm') m hm]

end LedgerBench.Report
