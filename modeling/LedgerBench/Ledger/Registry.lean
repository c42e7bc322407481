import Std.Data.ExtTreeMap

/-!
# Keyed entities

A registry maps keys to entities. An entity comes into being, empty, the first time it is changed.
Two registries are equal when they hold the same entities under the same keys, and their entries are
listed by ascending key.
-/

namespace LedgerBench

/-- Entities by their keys. -/
abbrev Registry (κ α : Type) [Ord κ] := Std.ExtTreeMap κ α

namespace Registry

variable {κ α : Type} [Ord κ] [Std.TransOrd κ] [Std.LawfulEqOrd κ] [Inhabited α]

/-- Changes the entity of a key, which is created empty if it does not exist. -/
def update (r : Registry κ α) (key : κ) (f : α → α) : Registry κ α :=
  r.alter key fun entity => some (f (entity.getD default))

/-- An update reaches the entity of its key only. -/
theorem getElem?_update [DecidableEq κ] (r : Registry κ α) (key k : κ) (f : α → α) :
    (r.update key f)[k]? = if key = k then some (f (r[k]?.getD default)) else r[k]? := by
  rw [update, Std.ExtTreeMap.getElem?_alter]
  by_cases h : key = k
  · subst h
    simp
  · simp [h]

/-- The entities that a test keeps. -/
def keep (r : Registry κ α) (test : α → Bool) : Registry κ α := r.filter fun _ entity => test entity

omit [Inhabited α] [Std.LawfulEqOrd κ] in
/-- An entity is kept exactly when it passes the test. -/
theorem getElem?_keep (r : Registry κ α) (test : α → Bool) (k : κ) :
    (r.keep test)[k]? = r[k]?.filter test := by
  rw [keep, Std.ExtTreeMap.getElem?_filter]
  cases r[k]? <;> simp [Option.pfilter, Option.filter]

end Registry

end LedgerBench
