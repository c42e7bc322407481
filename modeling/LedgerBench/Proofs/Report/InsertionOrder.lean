import Mathlib.Data.Finset.Card
import LedgerBench.Proofs.Report.Lookup

/-!
# The order of the entries

A report lists its names in the order in which they were first entered, each of them once, whatever
is entered and however often (`ofList_insertionOrdered`).

The entries of a report are a list that is searched from the front, so all of this rests on one
invariant, that no name occurs twice. A metric that is entered either replaces the one of its name
where that stands, or goes behind all others (`keys_insert`). This keeps the invariant
(`nodup_keys_insert`) and leaves the entries of all other names as they are and where they are
(`getElem?_insert_iff`). Names and metrics of a whole list of entries follow by induction, one more
entry at the end each time.
-/

namespace LedgerBench.Report

/-! ## One more metric -/

/-- An entry replaces the one of its name where that stands, or goes behind all others. -/
theorem map_fst_insertEntry (key : String) (m : Metric) (entries : List (String × Metric)) :
    (insertEntry key m entries).map (·.1) =
      if key ∈ entries.map (·.1) then entries.map (·.1) else entries.map (·.1) ++ [key] := by
  by_cases hmem : key ∈ entries.map (·.1)
  · rw [if_pos hmem]
    induction entries with
    | nil => cases hmem
    | cons e entries ih =>
      unfold insertEntry
      by_cases he : e.1 = key
      · rw [if_pos he, List.map_cons, List.map_cons, he]
      · have hrest : key ∈ entries.map (·.1) :=
          (List.mem_cons.mp hmem).resolve_left fun h => he h.symm
        rw [if_neg he, List.map_cons, List.map_cons, ih hrest]
  · rw [if_neg hmem, insertEntry_of_not_mem hmem, List.map_append]
    rfl

/-- A name that is entered is added behind the others, unless it is one of them. -/
theorem keys_insert (r : Report) (key : String) (m : Metric) :
    (r.insert key m).keys = if key ∈ r.keys then r.keys else r.keys ++ [key] :=
  map_fst_insertEntry key m r.entries

/-- Names stay different when a metric is entered. -/
theorem nodup_keys_insert {r : Report} (h : r.keys.Nodup) (key : String) (m : Metric) :
    (r.insert key m).keys.Nodup := by
  rw [keys_insert]
  split
  · exact h
  · rename_i hnew
    rw [← List.concat_eq_append]
    exact h.concat hnew

/-- What is entered under a name leaves the entries of other names as they are and where they
are. -/
theorem getElem?_insert_iff (r : Report) {key name : String} (h : name ≠ key) (m x : Metric)
    (i : ℕ) : (r.insert key m).entries[i]? = some (name, x) ↔ r.entries[i]? = some (name, x) := by
  obtain ⟨entries⟩ := r
  unfold insert
  dsimp only
  induction entries generalizing i with
  | nil =>
    -- the only entry has the name that is entered
    cases i with
    | zero => simp [insertEntry, h.symm]
    | succ i => simp [insertEntry]
  | cons e entries ih =>
    unfold insertEntry
    by_cases he : e.1 = key
    · rw [if_pos he]
      cases i with
      | zero =>
        have hne : e ≠ (name, x) := by
          rintro rfl
          exact h he
        simp [h.symm, hne]
      | succ i => rw [List.getElem?_cons_succ, List.getElem?_cons_succ]
    · rw [if_neg he]
      cases i with
      | zero => rw [List.getElem?_cons_zero, List.getElem?_cons_zero]
      | succ i => rw [List.getElem?_cons_succ, List.getElem?_cons_succ, ih]

/-! ## Many metrics -/

/-- The names of a report are different. -/
theorem nodup_keys_ofList (entered : List (String × Metric)) : (ofList entered).keys.Nodup := by
  induction entered using List.reverseRecOn with
  | nil => exact List.nodup_nil
  | append_singleton entered e ih =>
    rw [ofList_concat]
    exact nodup_keys_insert ih e.1 e.2

/-- The names of a report are those under which metrics were entered, in the order of their first
entries. -/
theorem keys_ofList (entered : List (String × Metric)) :
    (ofList entered).keys = (entered.map (·.1)).eraseDups := by
  induction entered using List.reverseRecOn with
  | nil => rfl
  | append_singleton entered e ih =>
    rw [ofList_concat, keys_insert, ih, List.map_append, List.eraseDups_append]
    simp only [List.mem_eraseDups]
    -- what is added behind the first entries is the last name, unless it was entered before
    by_cases hmem : e.1 ∈ entered.map (·.1)
    · rw [if_pos hmem]
      simp [List.removeAll, hmem]
    · rw [if_neg hmem]
      simp [List.removeAll, hmem, List.eraseDups_cons]

/-- If the names are different, an entry shows the metric of its name. -/
theorem mem_entries_iff {r : Report} (h : r.keys.Nodup) {name : String} {m : Metric} :
    (name, m) ∈ r.entries ↔ r.get? name = some m := by
  obtain ⟨entries⟩ := r
  have hself : ofList entries = ⟨entries⟩ := congrArg Report.mk (entries_ofList h)
  rw [← hself, entries_ofList h]
  refine (get?_ofList_eq_some_iff fun m' hm' m'' hm'' => ?_).symm
  have heq : (name, m') = (name, m'') := List.inj_on_of_nodup_map h hm' hm'' rfl
  exact congrArg Prod.snd heq

/-- How the entries of a report are ordered that results from entering metrics one after the
other. -/
structure InsertionOrdered (r : Report) (entered : List (String × Metric)) : Prop where
  /-- No name occurs twice. -/
  nodup : r.keys.Nodup
  /-- The names are those under which metrics were entered, in the order of their first entries. -/
  keys : r.keys = (entered.map (·.1)).eraseDups
  /-- A name has the metric that was entered last under it, and none if there is no such. -/
  get? : ∀ name, r.get? name = (entered.filter fun e => e.1 = name).getLast?.map (·.2)
  /-- Listing the entries gives the names in this order, each with its metric. -/
  entries : r.entries.map (·.1) = r.keys ∧
    ∀ name m, (name, m) ∈ r.entries ↔ r.get? name = some m
  /-- The size is the number of different names that were entered. -/
  size : r.size = (entered.map (·.1)).toFinset.card
  /-- It is also the number of names and that of entries. -/
  lengths : r.size = r.keys.length ∧ r.size = r.entries.length
  /-- The report is empty if its size is zero. -/
  isEmpty : r.isEmpty = true ↔ r.size = 0
  /-- One more metric leaves the entries of all other names as they are and where they are. -/
  others : ∀ (key : String) (m : Metric) (i : ℕ) (name : String) (x : Metric), name ≠ key →
    ((r.insert key m).entries[i]? = some (name, x) ↔ r.entries[i]? = some (name, x))

/-- Whatever metrics are entered one after the other, under whatever names, the report lists each
name once, in the order of the first entries, with the metric entered last. -/
theorem ofList_insertionOrdered (entered : List (String × Metric)) :
    (ofList entered).InsertionOrdered entered where
  nodup := nodup_keys_ofList entered
  keys := keys_ofList entered
  get? := get?_ofList entered
  entries := ⟨rfl, fun _ _ => mem_entries_iff (nodup_keys_ofList entered)⟩
  size := by
    have hnames : (ofList entered).keys.toFinset = (entered.map (·.1)).toFinset := by
      ext name
      rw [keys_ofList, List.mem_toFinset, List.mem_toFinset, List.mem_eraseDups]
    rw [← hnames, List.toFinset_card_of_nodup (nodup_keys_ofList entered)]
    exact (List.length_map _).symm
  lengths := ⟨(List.length_map _).symm, rfl⟩
  isEmpty := List.isEmpty_iff_length_eq_zero
  others _ m i _ x h := getElem?_insert_iff (ofList entered) h m x i

/-- A name that is entered again keeps its place and has the new metric. -/
example : (ofList [("b", .count 1), ("a", .count 7), ("b", .count 2)]).entries =
    [("b", .count 2), ("a", .count 7)] := by decide +kernel

end LedgerBench.Report
