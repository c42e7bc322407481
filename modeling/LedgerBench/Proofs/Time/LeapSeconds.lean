import LedgerBench.Ledger.Entity
import LedgerBench.Proofs.Report.CommitOrder
import LedgerBench.Proofs.Time.Range

/-!
# Order and subtraction around leap seconds

Instants are compared second by second, and a leap second is the second 59 with a billion
nanoseconds or more. Subtraction goes by the time of day, and counts the leap second of one of the
two instants if the time of day of the other is past it. At the end of the day no time of day is
past it: the second after it is the first of the next day, whose time of day is the smallest. So the
leap second is not counted there, and an instant in it is `Overtaken` by one that comes after it in
the order and yet is a microsecond or more before it by subtraction.

This is the only way in which order and subtraction disagree (`read_subtractsInOrder_iff`). For all
other pairs of timestamps that can be read the difference has the sign of the order, and so have
latencies and the span of commits. The proof needs to know where a leap second can be: whatever the
offset of a timestamp is, it consists of minutes, so a leap second is at the end of one
(`read_leapEndsMinute`).
-/

namespace LedgerBench

namespace Instant

/-- An instant of a leap second at the end of the day is overtaken by one in the first second of the
next day, if it is a microsecond or more further in its own second. -/
structure Overtaken (a b : Instant) : Prop where
  /-- The first instant lies in the last second of a day. -/
  atMidnight : a.secondOfDay = 86399
  /-- The second one lies in the second after it. -/
  next : b.seconds = a.seconds + 1
  /-- The first instant is ahead by a second, which only a leap second can be, and a microsecond. -/
  ahead : b.nanos + nanosPerSecond + 1000 ≤ a.nanos

instance (a b : Instant) : Decidable (a.Overtaken b) :=
  decidable_of_iff (a.secondOfDay = 86399 ∧ b.seconds = a.seconds + 1 ∧
      b.nanos + nanosPerSecond + 1000 ≤ a.nanos)
    ⟨fun ⟨h, h', h''⟩ => ⟨h, h', h''⟩, fun ⟨h, h', h''⟩ => ⟨h, h', h''⟩⟩

/-- Subtraction agrees with order, and so do the times that are computed by subtraction. -/
structure SubtractsInOrder (a b : Instant) : Prop where
  /-- The time to an instant that is not before this one is not negative. -/
  nonneg : a ≤ b → 0.0 ≤ a.elapsed b
  /-- The time to an instant before this one is not positive. -/
  nonpos : b < a → a.elapsed b ≤ 0.0
  /-- A transaction committed not before it was sent has no negative latency. -/
  latency : ∀ t : Transaction, t.sendTime = some a → t.commitTime = some b → a ≤ b →
    ∃ micros, t.latency? = some micros ∧ 0.0 ≤ micros
  /-- The time from the first commit to the last one is not negative. -/
  span : ∀ blocks span, CommitSpan.ofBlocks? blocks = some span → span.start = a →
    span.stop = b → 0.0 ≤ span.start.elapsed span.stop

/-- A leap second can only be at the end of a minute. -/
def LeapEndsMinute (t : Instant) : Prop := t.isLeap = true → t.seconds % 60 = 59

/-- A leap second has a billion nanoseconds or more. -/
theorem isLeap_iff {t : Instant} : t.isLeap = true ↔ 1000000000 ≤ t.nanos := decide_eq_true_iff

end Instant

/-! ## Where leap seconds are -/

namespace Timestamp

variable {s rest : List Char} {t : Instant}

/-- The hours and minutes of an offset are whole minutes. -/
theorem dvd_of_offsetSeconds {n : ℕ} (h : offsetSeconds s = .ok (n, rest)) : 60 ∣ n := by
  unfold offsetSeconds at h
  obtain ⟨⟨hours, s₁⟩, -, h⟩ := bind_eq_ok.mp h
  obtain ⟨⟨_, s₂⟩, -, h⟩ := bind_eq_ok.mp h
  obtain ⟨⟨minutes, s₃⟩, -, h⟩ := bind_eq_ok.mp h
  cases h
  omega

/-- An offset consists of whole minutes. -/
theorem dvd_of_offset {offset' : ℤ} (h : offset s = .ok (offset', rest)) : 60 ∣ offset' := by
  unfold offset at h
  split at h
  · cases h
  · split at h
    · cases h
      exact dvd_zero 60
    · split at h
      · obtain ⟨⟨n, s₁⟩, hn, h⟩ := bind_eq_ok.mp h
        have hdvd := dvd_of_offsetSeconds hn
        cases h
        exact_mod_cast hdvd
      · split at h
        · obtain ⟨⟨n, s₁⟩, hn, h⟩ := bind_eq_ok.mp h
          have hdvd := dvd_of_offsetSeconds hn
          cases h
          exact (dvd_neg (α := ℤ)).mpr (by exact_mod_cast hdvd)
        · cases h

/-- A date and a time of day, less whole minutes, make an instant that lies in a leap second only at
the end of a minute. -/
theorem leapEndsMinute_of_instantAt {date : Date} {hour minute second nanos : ℕ}
    (h : instantAt date (clock hour minute second nanos) = .ok t) (hnanos : nanos < 1000000000)
    {offset : ℤ} (hoffset : 60 ∣ offset) :
    Instant.LeapEndsMinute { t with seconds := t.seconds - offset } := by
  unfold instantAt at h
  split at h
  · cases h
    intro hleap
    rw [Instant.isLeap_iff] at hleap
    simp only [clock] at hleap ⊢
    -- only second 60 has a billion nanoseconds
    by_cases hsecond : second = 60
    · rw [if_pos hsecond]
      omega
    · rw [if_neg hsecond] at hleap
      omega
  · cases h

/-- The zoned form has leap seconds at the ends of minutes only. -/
theorem readZoned_leapEndsMinute (h : readZoned s = .ok t) : t.LeapEndsMinute := by
  -- date and time of day do not matter, so long as the fraction is less than a second
  unfold readZoned at h
  obtain ⟨⟨year, s⟩, -, h⟩ := bind_eq_ok.mp h
  obtain ⟨⟨_, s⟩, -, h⟩ := bind_eq_ok.mp h
  obtain ⟨⟨month, s⟩, -, h⟩ := bind_eq_ok.mp h
  obtain ⟨⟨_, s⟩, -, h⟩ := bind_eq_ok.mp h
  obtain ⟨⟨day, s⟩, -, h⟩ := bind_eq_ok.mp h
  obtain ⟨⟨_, s⟩, -, h⟩ := bind_eq_ok.mp h
  obtain ⟨⟨hour, s⟩, -, h⟩ := bind_eq_ok.mp h
  obtain ⟨⟨_, s⟩, -, h⟩ := bind_eq_ok.mp h
  obtain ⟨⟨minute, s⟩, -, h⟩ := bind_eq_ok.mp h
  obtain ⟨⟨_, s⟩, -, h⟩ := bind_eq_ok.mp h
  obtain ⟨⟨second, s⟩, -, h⟩ := bind_eq_ok.mp h
  obtain ⟨⟨nanos, s⟩, hnanos, h⟩ := bind_eq_ok.mp h
  obtain ⟨⟨offset, s⟩, hoffset, h⟩ := bind_eq_ok.mp h
  obtain ⟨_, -, h⟩ := bind_eq_ok.mp h
  obtain ⟨t₀, hinstant, h⟩ := bind_eq_ok.mp h
  cases h
  exact leapEndsMinute_of_instantAt hinstant (lt_of_fraction hnanos) (dvd_of_offset hoffset)

/-- The plain form has leap seconds at the ends of minutes only. -/
theorem readPlain_leapEndsMinute (h : readPlain s = .ok t) : t.LeapEndsMinute := by
  unfold readPlain at h
  obtain ⟨⟨year, s⟩, -, h⟩ := bind_eq_ok.mp h
  obtain ⟨⟨_, s⟩, -, h⟩ := bind_eq_ok.mp h
  obtain ⟨⟨month, s⟩, -, h⟩ := bind_eq_ok.mp h
  obtain ⟨⟨_, s⟩, -, h⟩ := bind_eq_ok.mp h
  obtain ⟨⟨day, s⟩, -, h⟩ := bind_eq_ok.mp h
  obtain ⟨⟨_, s⟩, -, h⟩ := bind_eq_ok.mp h
  obtain ⟨⟨hour, s⟩, -, h⟩ := bind_eq_ok.mp h
  obtain ⟨⟨_, s⟩, -, h⟩ := bind_eq_ok.mp h
  obtain ⟨⟨minute, s⟩, -, h⟩ := bind_eq_ok.mp h
  obtain ⟨⟨_, s⟩, -, h⟩ := bind_eq_ok.mp h
  obtain ⟨⟨second, s⟩, -, h⟩ := bind_eq_ok.mp h
  obtain ⟨⟨nanos, s⟩, hnanos, h⟩ := bind_eq_ok.mp h
  obtain ⟨_, -, h⟩ := bind_eq_ok.mp h
  have hends := leapEndsMinute_of_instantAt h (lt_of_fraction hnanos) (dvd_zero 60)
  rwa [Int.sub_zero] at hends

/-- Every timestamp that can be read lies in a leap second at the end of a minute only. -/
theorem read_leapEndsMinute {s : String} (h : read s = .ok t) : t.LeapEndsMinute := by
  unfold read at h
  split at h
  · rename_i hzoned
    cases h
    exact readZoned_leapEndsMinute hzoned
  · exact readPlain_leapEndsMinute h

end Timestamp

/-! ## The sign of a difference -/

namespace Instant

variable {a b : Instant}

/-- One instant is not before another, yet the time between them is negative by a microsecond or
more, exactly if the first instant is overtaken. -/
theorem overtaken_iff (ha : a.InRange) (hb : b.InRange) (hleap : b.LeapEndsMinute) :
    a.Overtaken b ↔ a ≤ b ∧ nanosBetween a b ≤ -1000 := by
  have hnanos := ha.nanos
  have hnanos' := hb.nanos
  rw [LeapEndsMinute, isLeap_iff] at hleap
  rw [le_iff_not_lt, lt_iff]
  constructor
  · rintro ⟨hmidnight, hnext, hahead⟩
    unfold secondOfDay nanosPerSecond at *
    -- the leap second is not counted: neither time of day is past it
    have hnone : leapBetween a b = 0 := by
      simp only [leapBetween, isLeap_iff, secondOfDay]
      rw [if_neg (by omega), if_neg (by omega)]
    unfold nanosBetween nanosPerSecond
    rw [hnone, hnext]
    omega
  · rintro ⟨hle, hback⟩
    unfold nanosBetween nanosPerSecond at hback
    simp only [leapBetween, isLeap_iff, secondOfDay] at hback
    -- at least one second apart; with one leap second counted, or two seconds apart, time passes
    split at hback
    · omega
    · split at hback
      · omega
      · exact ⟨by unfold secondOfDay; omega, by omega, by unfold nanosPerSecond; omega⟩

/-- The time to an instant that is not before another one is not negative, unless the latter is
overtaken. -/
theorem forall_zero_le_elapsed_iff (ha : a.InRange) (hb : b.InRange) (hleap : b.LeapEndsMinute) :
    (a ≤ b → 0.0 ≤ a.elapsed b) ↔ ¬ a.Overtaken b := by
  rw [overtaken_iff ha hb hleap, zero_le_elapsed_iff ha hb, not_and, not_le]

/-- The time back to an instant before another one is not positive, unless the former is
overtaken. -/
theorem forall_elapsed_le_zero_iff (ha : a.InRange) (hb : b.InRange) (hleap : a.LeapEndsMinute) :
    (b < a → a.elapsed b ≤ 0.0) ↔ ¬ b.Overtaken a := by
  rw [overtaken_iff hb ha hleap, elapsed_le_zero_iff ha hb, nanosBetween_comm a b]
  constructor
  · rintro h ⟨hle, hback⟩
    by_cases hlt : b < a
    · have hshort := h hlt
      omega
    · -- of equal instants none is before the other
      obtain rfl : b = a := le_antisymm hle hlt
      have hzero := nanosBetween_comm b b
      omega
  · intro h hlt
    by_contra hlong
    exact h ⟨le_of_lt hlt, by omega⟩

end Instant

/-- Order and subtraction of timestamps that can be read agree, unless one of them lies in a leap
second at the end of the day and the other one overtakes it in the first second of the next day. -/
theorem read_subtractsInOrder_iff {s s' : String} {a b : Instant} (ha : Timestamp.read s = .ok a)
    (hb : Timestamp.read s' = .ok b) :
    a.SubtractsInOrder b ↔ ¬ (a.Overtaken b ∨ b.Overtaken a) := by
  have hforward := Instant.forall_zero_le_elapsed_iff (Timestamp.read_inRange ha)
    (Timestamp.read_inRange hb) (Timestamp.read_leapEndsMinute hb)
  have hback := Instant.forall_elapsed_le_zero_iff (Timestamp.read_inRange ha)
    (Timestamp.read_inRange hb) (Timestamp.read_leapEndsMinute ha)
  rw [not_or, ← hforward, ← hback]
  constructor
  · exact fun h => ⟨h.nonneg, h.nonpos⟩
  · rintro ⟨hnonneg, hnonpos⟩
    refine ⟨hnonneg, hnonpos, fun t hsend hcommit hle => ?_,
      fun blocks span hspan hstart hstop => ?_⟩
    · refine ⟨a.elapsed b, ?_, hnonneg hle⟩
      rw [Transaction.latency?, hsend, hcommit]
      rfl
    · obtain ⟨first, -, last, -, horder, hfirst, hlast⟩ := CommitSpan.exists_ends hspan
      have hle := CommittedBlock.le_of_notAfter horder
      rw [← hfirst, ← hlast, hstart, hstop] at hle
      rw [hstart, hstop]
      exact hnonneg hle

/-- A leap second within the day is not overtaken: order and subtraction agree around it. -/
theorem read_subtractsInOrder_iff_noon :
    ∃ a b, Timestamp.read "2016-12-31T12:00:60.5Z" = .ok a ∧
      Timestamp.read "2016-12-31T12:01:00Z" = .ok b ∧ a ≤ b ∧ a.SubtractsInOrder b := by
  have ha : Timestamp.read "2016-12-31T12:00:60.5Z" = .ok ⟨1483185659, 1500000000⟩ := by decide
  have hb : Timestamp.read "2016-12-31T12:01:00Z" = .ok ⟨1483185660, 0⟩ := by decide
  exact ⟨_, _, ha, hb, by decide, (read_subtractsInOrder_iff ha hb).mpr (by decide)⟩

/-- The leap second at the end of the year 2016 is overtaken: its middle is before the new year in
the order, and yet half a second after it by subtraction. -/
theorem elapsed_neg_of_newYear :
    ∃ a b, Timestamp.read "2016-12-31T23:59:60.5Z" = .ok a ∧
      Timestamp.read "2017-01-01T00:00:00Z" = .ok b ∧ a ≤ b ∧ ¬ 0.0 ≤ a.elapsed b := by
  have ha : Timestamp.read "2016-12-31T23:59:60.5Z" = .ok ⟨1483228799, 1500000000⟩ := by decide
  have hb : Timestamp.read "2017-01-01T00:00:00Z" = .ok ⟨1483228800, 0⟩ := by decide
  refine ⟨_, _, ha, hb, by decide, ?_⟩
  rw [Instant.zero_le_elapsed_iff (Timestamp.read_inRange ha) (Timestamp.read_inRange hb)]
  decide

end LedgerBench
