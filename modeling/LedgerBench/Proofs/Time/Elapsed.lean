import Mathlib.Data.Int.Notation
import LedgerBench.Time.Instant

/-!
# Differences of instants

Outside leap seconds an instant is a count of nanoseconds since the beginning of 1970
(`Instant.sinceEpoch`): the order of instants is that of the counts, and the nanoseconds between two
instants are the difference of the counts (`lt_iff_sinceEpoch`, `nanosBetween_eq`). Two things
follow. A clock that is set differently by any number of nanoseconds shows the same order and the
same differences (`shift_lt_shift`, `elapsed_shift`), although differences are cut off to
microseconds: what is cut off is a difference and not a time. And the microseconds between two
instants have the sign of the difference, grow with the later instant and shrink with the earlier
one (`microsBetween_comm`, `microsBetween_mono`, `microsBetween_anti`), since cutting off
toward zero keeps the order.
-/

namespace LedgerBench.Instant

/-- The nanoseconds since the beginning of 1970, without leap seconds. -/
def sinceEpoch (t : Instant) : ℤ := t.seconds * nanosPerSecond + t.nanos

/-- The instant that many nanoseconds later. -/
def shift (t : Instant) (d : ℤ) : Instant :=
  ⟨(t.sinceEpoch + d) / nanosPerSecond, ((t.sinceEpoch + d) % nanosPerSecond).toNat⟩

variable {a b c : Instant}

/-- Outside a leap second the nanoseconds are less than a second. -/
theorem nanos_lt (ha : a.isLeap = false) : a.nanos < 1000000000 := by
  unfold isLeap nanosPerSecond at ha
  exact Nat.lt_of_not_le (of_decide_eq_false ha)

/-- The order of instants is that of their counts. -/
theorem lt_iff_sinceEpoch (ha : a.isLeap = false) (hb : b.isLeap = false) :
    a < b ↔ a.sinceEpoch < b.sinceEpoch := by
  have ha := nanos_lt ha
  have hb := nanos_lt hb
  rw [lt_iff]
  unfold sinceEpoch nanosPerSecond
  omega

/-- So is the order that allows equality. -/
theorem le_iff_sinceEpoch (ha : a.isLeap = false) (hb : b.isLeap = false) :
    a ≤ b ↔ a.sinceEpoch ≤ b.sinceEpoch := by
  rw [le_iff_not_lt, lt_iff_sinceEpoch hb ha, Int.not_lt]

/-- Instants are the same if their counts are. -/
theorem eq_of_sinceEpoch_eq (ha : a.isLeap = false) (hb : b.isLeap = false)
    (h : a.sinceEpoch = b.sinceEpoch) : a = b :=
  le_antisymm ((le_iff_sinceEpoch ha hb).mpr (Int.le_of_eq h))
    ((le_iff_sinceEpoch hb ha).mpr (Int.le_of_eq h.symm))

/-- The nanoseconds between two instants are the difference of their counts. -/
theorem nanosBetween_eq (ha : a.isLeap = false) (hb : b.isLeap = false) :
    nanosBetween a b = b.sinceEpoch - a.sinceEpoch := by
  have hleap : leapBetween a b = 0 := by
    unfold leapBetween
    rw [ha, hb, if_neg (by simp), if_neg (by simp)]
  unfold nanosBetween sinceEpoch nanosPerSecond
  omega

/-! ## Later instants -/

/-- A later instant that is a count of nanoseconds does not lie in a leap second. -/
theorem isLeap_shift (t : Instant) (d : ℤ) : (t.shift d).isLeap = false := by
  unfold isLeap shift nanosPerSecond
  dsimp only
  exact decide_eq_false (by omega)

/-- The count of a later instant. -/
theorem sinceEpoch_shift (t : Instant) (d : ℤ) : (t.shift d).sinceEpoch = t.sinceEpoch + d := by
  generalize hn : t.sinceEpoch + d = n
  unfold shift
  rw [hn]
  unfold sinceEpoch nanosPerSecond
  dsimp only
  omega

/-- Instants keep their order when all are later by as much. -/
theorem shift_lt_shift (ha : a.isLeap = false) (hb : b.isLeap = false) (d : ℤ) :
    a.shift d < b.shift d ↔ a < b := by
  rw [lt_iff_sinceEpoch (isLeap_shift a d) (isLeap_shift b d), lt_iff_sinceEpoch ha hb,
    sinceEpoch_shift, sinceEpoch_shift]
  omega

/-- Different instants stay different when all are later by as much. -/
theorem shift_inj (ha : a.isLeap = false) (hb : b.isLeap = false) (d : ℤ) :
    a.shift d = b.shift d ↔ a = b := by
  constructor
  · intro h
    have hcount := congrArg sinceEpoch h
    rw [sinceEpoch_shift, sinceEpoch_shift] at hcount
    exact eq_of_sinceEpoch_eq ha hb (by omega)
  · exact congrArg fun t => shift t d

/-- The time between two instants is the same when both are later by as much. -/
theorem elapsed_shift (ha : a.isLeap = false) (hb : b.isLeap = false) (d : ℤ) :
    (a.shift d).elapsed (b.shift d) = a.elapsed b := by
  have hnanos : nanosBetween (a.shift d) (b.shift d) = nanosBetween a b := by
    rw [nanosBetween_eq (isLeap_shift a d) (isLeap_shift b d), nanosBetween_eq ha hb,
      sinceEpoch_shift, sinceEpoch_shift]
    omega
  unfold elapsed microsBetween
  rw [hnanos]

/-! ## Microseconds -/

/-- The microseconds back are the microseconds there, negated. -/
theorem microsBetween_comm (a b : Instant) : microsBetween b a = -microsBetween a b := by
  unfold microsBetween
  rw [nanosBetween_comm, Int.neg_tdiv]

/-- The microseconds between two instants are the difference of their counts without the part of a
microsecond. -/
theorem microsBetween_eq (ha : a.isLeap = false) (hb : b.isLeap = false) :
    microsBetween a b = (b.sinceEpoch - a.sinceEpoch).tdiv 1000 := by
  unfold microsBetween
  rw [nanosBetween_eq ha hb]

/-- No fewer microseconds pass until a later instant. -/
theorem microsBetween_mono (ha : a.isLeap = false) (hb : b.isLeap = false)
    (hc : c.isLeap = false) (h : b ≤ c) : microsBetween a b ≤ microsBetween a c := by
  rw [le_iff_sinceEpoch hb hc] at h
  rw [microsBetween_eq ha hb, microsBetween_eq ha hc]
  exact Int.tdiv_le_tdiv (by omega) (by omega)

/-- No more microseconds have passed since a later instant. -/
theorem microsBetween_anti (ha : a.isLeap = false) (hb : b.isLeap = false)
    (hc : c.isLeap = false) (h : a ≤ b) : microsBetween b c ≤ microsBetween a c := by
  rw [le_iff_sinceEpoch ha hb] at h
  rw [microsBetween_eq hb hc, microsBetween_eq ha hc]
  exact Int.tdiv_le_tdiv (by omega) (by omega)

/-- An interval inside another one has no more microseconds, even if it runs backward. -/
theorem microsBetween_le_of_inside {d : Instant} (ha : a.isLeap = false) (hb : b.isLeap = false)
    (hc : c.isLeap = false) (hd : d.isLeap = false) (hab : a ≤ b) (hcd : c ≤ d) :
    microsBetween b c ≤ microsBetween a d :=
  calc microsBetween b c ≤ microsBetween a c := microsBetween_anti ha hb hc hab
    _ ≤ microsBetween a d := microsBetween_mono ha hc hd hcd

/-- It is no negative number of microseconds until a later instant. -/
theorem microsBetween_nonneg (ha : a.isLeap = false) (hb : b.isLeap = false) (h : a ≤ b) :
    0 ≤ microsBetween a b := by
  rw [le_iff_sinceEpoch ha hb] at h
  rw [microsBetween_eq ha hb]
  exact Int.tdiv_nonneg (by omega) (by omega)

end LedgerBench.Instant
