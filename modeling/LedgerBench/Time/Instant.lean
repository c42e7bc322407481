/-!
# Instants and the time between them

An instant is a count of whole seconds and the nanoseconds within that second. A leap second is the
second 59 with a billion nanoseconds or more, so that it sorts between its neighbours. Instants are
ordered by seconds, then by nanoseconds. The time between two instants also counts the leap second
that one of them lies in, but no other.
-/

namespace LedgerBench

/-- A point in time. -/
structure Instant where
  /-- Whole seconds since the beginning of 1970, without leap seconds. -/
  seconds : Int
  /-- Nanoseconds within the second; a billion or more inside a leap second. -/
  nanos : Nat
deriving Repr, DecidableEq

namespace Instant

/-- One instant precedes another. -/
def precedes (a b : Instant) : Prop :=
  a.seconds < b.seconds ∨ (a.seconds = b.seconds ∧ a.nanos < b.nanos)

instance : LT Instant := ⟨precedes⟩
instance : LE Instant := ⟨fun a b => ¬ b.precedes a⟩

instance (a b : Instant) : Decidable (a < b) :=
  inferInstanceAs (Decidable (_ ∨ (_ ∧ _)))

instance (a b : Instant) : Decidable (a ≤ b) :=
  inferInstanceAs (Decidable (¬ (_ ∨ (_ ∧ _))))

/-- The order, spelt out. -/
theorem lt_iff {a b : Instant} :
    a < b ↔ a.seconds < b.seconds ∨ (a.seconds = b.seconds ∧ a.nanos < b.nanos) := Iff.rfl

/-- An instant is at most another when it does not come after it. -/
theorem le_iff_not_lt {a b : Instant} : a ≤ b ↔ ¬ b < a := Iff.rfl

/-- An instant that comes before another one does not come after it. -/
theorem le_of_lt {a b : Instant} (h : a < b) : a ≤ b := by
  rw [le_iff_not_lt]
  rw [lt_iff] at *
  omega

/-- Of two instants that are at most each other both are the same. -/
theorem le_antisymm {a b : Instant} (h : a ≤ b) (h' : b ≤ a) : a = b := by
  rw [le_iff_not_lt, lt_iff] at h h'
  have hs : a.seconds = b.seconds := by omega
  have hn : a.nanos = b.nanos := by omega
  cases a; cases b; simp_all

/-- The order is transitive. -/
theorem le_trans {a b c : Instant} (h : a ≤ b) (h' : b ≤ c) : a ≤ c := by
  rw [le_iff_not_lt, lt_iff] at *
  omega

/-- What comes before an instant comes before all that are not before it. -/
theorem lt_of_lt_of_le {a b c : Instant} (h : a < b) (h' : b ≤ c) : a < c := by
  rw [le_iff_not_lt] at h'
  rw [lt_iff] at *
  omega

/-- What is not after an instant comes before all that are after it. -/
theorem lt_of_le_of_lt {a b c : Instant} (h : a ≤ b) (h' : b < c) : a < c := by
  rw [le_iff_not_lt] at h
  rw [lt_iff] at *
  omega

/-- Any two instants are comparable. -/
theorem le_total (a b : Instant) : a ≤ b ∨ b ≤ a := by
  rw [le_iff_not_lt, le_iff_not_lt, lt_iff, lt_iff]
  omega

/-- Nanoseconds in a second. -/
def nanosPerSecond : Nat := 1000000000

/-- Whether the instant lies in a leap second. -/
def isLeap (t : Instant) : Bool := nanosPerSecond ≤ t.nanos

/-- The second of the day that the instant lies in. -/
def secondOfDay (t : Instant) : Int := t.seconds % 86400

/-- The leap second to count between two instants: one when the earlier in the day lies in a leap
second that is over by the time of day of the other. -/
def leapBetween (a b : Instant) : Int :=
  if a.secondOfDay < b.secondOfDay ∧ a.isLeap then 1
  else if b.secondOfDay < a.secondOfDay ∧ b.isLeap then -1
  else 0

/-- The nanoseconds from `a` to `b`. -/
def nanosBetween (a b : Instant) : Int :=
  (b.seconds - a.seconds + leapBetween a b) * nanosPerSecond + ((b.nanos : Int) - a.nanos)

/-- The whole microseconds from `a` to `b`, cut off toward zero. -/
def microsBetween (a b : Instant) : Int := (nanosBetween a b).tdiv 1000

/-- The time from `a` to `b` in microseconds; negative when `b` comes first. Beyond 64 bits of
microseconds it is known to the millisecond only. -/
def elapsed (a b : Instant) : Float :=
  let micros := microsBetween a b
  if -9223372036854775808 ≤ micros ∧ micros < 9223372036854775808 then Float.ofInt micros
  else Float.ofInt ((nanosBetween a b).tdiv 1000000) * 1000.0

/-- The time back is the time there, negated. -/
theorem nanosBetween_comm (a b : Instant) : nanosBetween b a = -nanosBetween a b := by
  have hleap : leapBetween b a = -leapBetween a b := by
    unfold leapBetween
    split <;> split <;> omega
  rw [nanosBetween, nanosBetween, hleap]
  simp only [nanosPerSecond]
  omega

end Instant

end LedgerBench
