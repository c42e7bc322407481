import LedgerBench.Ledger.Registry

/-!
# Registries as total functions

An entity that does not exist is read as an empty one (`Registry.find`). A registry is then its keys
together with a total function (`ext_find`), and an update has one equation on each of the two
(`mem_update`, `find_update`).

A test that no empty entity passes can be asked of every key, whether its entity exists or not
(`getElem?_keep_eq_find`). So entities that came into being but were never filled do not survive it,
and two registries that agree in all that the test reads keep the same keys (`samePart_keep`).
-/

namespace LedgerBench.Registry

variable {κ α : Type} [Ord κ] [Std.TransOrd κ] [Std.LawfulEqOrd κ] [Inhabited α]

/-- The entity of a key; an empty one if it does not exist. -/
def find (r : Registry κ α) (key : κ) : α := r[key]?.getD default

omit [Std.LawfulEqOrd κ] in
/-- An entity that exists is found under its key. -/
theorem getElem?_eq_find (r : Registry κ α) (key : κ) :
    r[key]? = if key ∈ r then some (r.find key) else none := by
  have hmem := Std.ExtTreeMap.mem_iff_isSome_getElem? (t := r) (a := key)
  unfold find
  cases h : r[key]? with
  | none => simp [hmem, h]
  | some entity => simp [hmem, h]

omit [Std.LawfulEqOrd κ] in
/-- An entity that does not exist is read as an empty one. -/
theorem find_of_not_mem {r : Registry κ α} {key : κ} (h : key ∉ r) : r.find key = default := by
  have hnone := getElem?_eq_find r key
  rw [if_neg h] at hnone
  unfold find
  rw [hnone]
  rfl

/-- Two registries with the same keys and the same entities are equal. -/
theorem ext_find {r r' : Registry κ α} (hmem : ∀ key, key ∈ r ↔ key ∈ r')
    (hfind : ∀ key, r.find key = r'.find key) : r = r' := by
  apply Std.ExtTreeMap.ext_getElem?
  intro key
  simp only [getElem?_eq_find, hmem, hfind]

/-- A changed entity is the only one that changes. -/
theorem find_update [DecidableEq κ] (r : Registry κ α) (key k : κ) (f : α → α) :
    (r.update key f).find k = if key = k then f (r.find k) else r.find k := by
  unfold find
  rw [getElem?_update]
  split
  · rename_i h
    subst h
    rfl
  · rfl

/-- A changed entity exists afterwards, and no other comes into being. -/
theorem mem_update [DecidableEq κ] (r : Registry κ α) (key k : κ) (f : α → α) :
    k ∈ r.update key f ↔ k ∈ r ∨ k = key := by
  rw [Std.ExtTreeMap.mem_iff_isSome_getElem?, Std.ExtTreeMap.mem_iff_isSome_getElem?,
    getElem?_update]
  by_cases h : key = k
  · simp [h]
  · simp [h, Ne.symm h]

/-- An entity that is changed twice is changed once by both. -/
theorem update_update [DecidableEq κ] (r : Registry κ α) (key : κ) (f g : α → α) :
    (r.update key g).update key f = r.update key fun entity => f (g entity) := by
  apply Std.ExtTreeMap.ext_getElem?
  intro k
  simp only [getElem?_update]
  by_cases h : key = k
  · simp [h]
  · simp [h]

/-! ## Entities as a list -/

omit [Std.LawfulEqOrd κ] [Inhabited α] in
/-- The entities are listed by ascending key. -/
theorem values_eq_map_toList (r : Registry κ α) : r.values = r.toList.map Prod.snd := by
  rcases r with ⟨r⟩
  induction r using Std.ExtDTreeMap.inductionOn with
  | mk t =>
    change t.inner.values = (Std.DTreeMap.Internal.Impl.Const.toList t.inner).map Prod.snd
    rw [Std.DTreeMap.Internal.Impl.values_eq_map_snd,
      Std.DTreeMap.Internal.Impl.Const.toList_eq_toListModel_map]
    simp

/-- An entry is listed if its key exists and has its entity. -/
theorem mem_toList_iff {r : Registry κ α} {k : κ} {e : α} :
    (k, e) ∈ r.toList ↔ k ∈ r ∧ r.find k = e := by
  rw [Std.ExtTreeMap.mem_toList_iff_getElem?_eq_some, getElem?_eq_find]
  split <;> simp [*]

/-- An entity that is listed stands under a key. -/
theorem exists_find_of_mem_values {r : Registry κ α} {entity : α} (h : entity ∈ r.values) :
    ∃ key, r.find key = entity := by
  rw [values_eq_map_toList] at h
  obtain ⟨⟨key, _⟩, hmem, rfl⟩ := List.mem_map.mp h
  refine ⟨key, ?_⟩
  unfold find
  rw [Std.ExtTreeMap.mem_toList_iff_getElem?_eq_some.mp hmem]
  rfl

omit [Std.LawfulEqOrd κ] [Inhabited α] in
/-- The entities that a test keeps are listed like before. -/
theorem values_keep (r : Registry κ α) (test : α → Bool) :
    (r.keep test).values = r.values.filter test := by
  rw [values_eq_map_toList, values_eq_map_toList, keep, Std.ExtTreeMap.toList_filter,
    List.filter_map]
  rfl

omit [Std.LawfulEqOrd κ] [Inhabited α] in
/-- Changed entities are listed in the same order. -/
theorem values_map (r : Registry κ α) (f : α → α) :
    (r.map fun _ => f).values = r.values.map f := by
  rw [values_eq_map_toList, values_eq_map_toList, Std.ExtTreeMap.toList_map, List.map_map,
    List.map_map]
  rfl

/-- Of changed entities those are kept that another test keeps unchanged, if the two tests agree. -/
theorem keep_map (r : Registry κ α) (f : α → α) {test test' : α → Bool}
    (h : ∀ k, test' (f (r.find k)) = test (r.find k)) :
    keep (r.map fun _ => f) test' = (r.keep test).map fun _ => f := by
  apply Std.ExtTreeMap.ext_getElem?
  intro k
  rw [getElem?_keep, Std.ExtTreeMap.getElem?_map, Std.ExtTreeMap.getElem?_map, getElem?_keep,
    getElem?_eq_find]
  split
  · simp only [Option.map_some, Option.filter_some, h k]
    split <;> rfl
  · rfl

omit [Inhabited α] in
/-- A stricter test keeps of what another one has kept all that it keeps anyway. -/
theorem keep_keep (r : Registry κ α) {test test' : α → Bool}
    (h : ∀ entity, test' entity = true → test entity = true) :
    (r.keep test).keep test' = r.keep test' := by
  apply Std.ExtTreeMap.ext_getElem?
  intro k
  rw [getElem?_keep, getElem?_keep, getElem?_keep, Option.filter_filter]
  congr 1
  funext entity
  cases htest' : test' entity with
  | false => simp
  | true => simp [h entity htest']

/-! ## Tests that no empty entity passes -/

omit [Std.LawfulEqOrd κ] in
/-- Such a test keeps the entities that pass it, where one that does not exist counts as empty. -/
theorem getElem?_keep_eq_find (r : Registry κ α) {test : α → Bool} (h : test default = false)
    (key : κ) : (r.keep test)[key]? = if test (r.find key) then some (r.find key) else none := by
  rw [getElem?_keep, getElem?_eq_find]
  by_cases hkey : key ∈ r
  · rw [if_pos hkey]
    rfl
  · rw [if_neg hkey, find_of_not_mem hkey, h]
    rfl

omit [Std.LawfulEqOrd κ] in
/-- A test that no empty entity passes finds the entities that it keeps, and else empty ones. -/
theorem find_keep (r : Registry κ α) {test : α → Bool} (h : test default = false) (k : κ) :
    (r.keep test).find k = if test (r.find k) then r.find k else default := by
  have hkeep := r.getElem?_keep_eq_find h k
  unfold find at hkeep ⊢
  rw [hkeep]
  split <;> rfl

omit [Std.LawfulEqOrd κ] in
/-- Such a test keeps the keys whose entities pass it. -/
theorem mem_keep (r : Registry κ α) {test : α → Bool} (h : test default = false) (key : κ) :
    key ∈ r.keep test ↔ test (r.find key) = true := by
  rw [Std.ExtTreeMap.mem_iff_isSome_getElem?, getElem?_keep_eq_find r h]
  by_cases hkey : test (r.find key) = true <;> simp [hkey]

/-- Two registries have the same keys, and under each the same part of the entity. -/
def SamePart (part : α → α) (r r' : Registry κ α) : Prop :=
  r.toList.map (fun e => (e.1, part e.2)) = r'.toList.map fun e => (e.1, part e.2)

/-- A test that reads this part only keeps the same of two registries that agree in it. -/
theorem samePart_keep {r r' : Registry κ α} {test : α → Bool} {part : α → α}
    (h : test default = false) (htest : ∀ entity, test (part entity) = test entity)
    (hpart : ∀ key, part (r.find key) = part (r'.find key)) :
    SamePart part (r.keep test) (r'.keep test) := by
  have hmap : (r.keep test).map (fun _ => part) = (r'.keep test).map fun _ => part := by
    apply Std.ExtTreeMap.ext_getElem?
    intro key
    rw [Std.ExtTreeMap.getElem?_map, Std.ExtTreeMap.getElem?_map, getElem?_keep_eq_find r h,
      getElem?_keep_eq_find r' h, ← htest (r.find key), hpart key, htest (r'.find key)]
    by_cases hkey : test (r'.find key) = true
    · rw [if_pos hkey, if_pos hkey, Option.map_some, Option.map_some, hpart key]
    · rw [if_neg hkey, if_neg hkey]
  have hlist := congrArg Std.ExtTreeMap.toList hmap
  rw [Std.ExtTreeMap.toList_map, Std.ExtTreeMap.toList_map] at hlist
  exact hlist

omit [Std.LawfulEqOrd κ] [Inhabited α] in
/-- Registries with the same parts have the same keys. -/
theorem SamePart.keys_eq {part : α → α} {r r' : Registry κ α} (h : SamePart part r r') :
    r.keys = r'.keys := by
  have hkeys := congrArg (List.map Prod.fst) h
  rw [List.map_map, List.map_map] at hkeys
  rw [← Std.ExtTreeMap.map_fst_toList_eq_keys, ← Std.ExtTreeMap.map_fst_toList_eq_keys]
  exact hkeys

omit [Std.LawfulEqOrd κ] [Inhabited α] in
/-- Registries with the same parts list the same parts. -/
theorem SamePart.map_values_eq {part : α → α} {r r' : Registry κ α} (h : SamePart part r r') :
    r.values.map part = r'.values.map part := by
  have hvalues := congrArg (List.map Prod.snd) h
  rw [List.map_map, List.map_map] at hvalues
  rw [values_eq_map_toList, values_eq_map_toList, List.map_map, List.map_map]
  exact hvalues

end LedgerBench.Registry
