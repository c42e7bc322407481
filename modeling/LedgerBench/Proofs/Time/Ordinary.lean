import LedgerBench.Proofs.Time.Elapsed
import LedgerBench.Proofs.Time.Range

/-!
# Ordinary timestamps

An ordinary timestamp has a year of four digits and no second 60. In the zoned form every year has
four digits, so there the leap seconds are the only exception (`readZoned_isOrdinary`); in the plain
form a year may have a sign and more digits (`readPlain_isOrdinary`).

Ordinary instants are not farther apart than a signed 64-bit word of microseconds holds, so the time
between two of them is the double of a whole number of microseconds (`Instant.elapsed_eq`), and what
is known of these numbers is known of the times that a report gives (`Instant.intervals`).
-/

namespace LedgerBench

/-- The instant can be written, in some time zone, with a year of four digits and a second below
60. -/
inductive Instant.IsOrdinary : Instant → Prop where
  /-- The instant of a date and a time of day, less the offset of the time zone. -/
  | written {date : Date} {hour minute second nanos : ℕ} {offset : ℤ} {t : Instant}
    (year : 0 ≤ date.year ∧ date.year ≤ 9999) (hour_le : hour ≤ 23) (minute_le : minute ≤ 59)
    (second_le : second ≤ 59) (nanos_lt : nanos < 1000000000) (offset_lt : |offset| < 86400)
    (instant : Timestamp.instantAt date (Timestamp.clock hour minute second nanos) = .ok t) :
    IsOrdinary { t with seconds := t.seconds - offset }

/-! ## Reading -/

namespace Timestamp

/-- A date and a time of day make an instant with the nanoseconds of that time. -/
theorem nanos_of_instantAt {date : Date} {time : ℤ × ℕ} {t : Instant}
    (h : instantAt date time = .ok t) : t.nanos = time.2 := by
  unfold instantAt at h
  split at h
  · cases h
    rfl
  · cases h

/-- Second 60 adds a second of nanoseconds. -/
theorem clock_snd (hour minute second nanos : ℕ) : (clock hour minute second nanos).2 =
    (if second = 60 then 1000000000 else 0) + nanos := rfl

/-- Outside a leap second the second is below 60. -/
theorem second_le_of_isLeap {date : Date} {hour minute second nanos : ℕ} {t : Instant}
    (h : instantAt date (clock hour minute second nanos) = .ok t) (hsecond : second ≤ 60)
    (hleap : t.isLeap = false) : second ≤ 59 := by
  by_contra hlarge
  have hsixty : second = 60 := by omega
  have hnanos := nanos_of_instantAt h
  have hlt := Instant.nanos_lt hleap
  rw [clock_snd, if_pos hsixty] at hnanos
  omega

/-- A number of at most four digits is below ten thousand. -/
theorem number_lt {least : ℕ} {s rest : List Char} {n : ℕ}
    (h : number least (some 4) s = .ok (n, rest)) : n ≤ 9999 := by
  unfold number at h
  dsimp only at h
  split at h
  · cases h
  · split at h
    · cases h
    · cases h
      have hdigits : ∀ c ∈ (s.take 4).takeWhile Char.isDigit, c.isDigit = true :=
        fun c hc => List.mem_takeWhile_imp hc
      have hlength : ((s.take 4).takeWhile Char.isDigit).length ≤ 4 :=
        (List.takeWhile_prefix _).length_le.trans (List.length_take_le 4 s)
      have hvalue := foldl_digits_lt hdigits 0
      have hpower := Nat.pow_le_pow_right (by norm_num : 0 < 10) hlength
      rw [Nat.zero_add, Nat.one_mul] at hvalue
      exact Nat.le_of_lt_succ (hvalue.trans_le hpower)

/-- What the zoned form writes is ordinary, unless it is a leap second. -/
theorem readZoned_isOrdinary {s : List Char} {t : Instant} (h : readZoned s = .ok t)
    (hleap : t.isLeap = false) : t.IsOrdinary := by
  unfold readZoned at h
  obtain ⟨⟨year, s⟩, hyear, h⟩ := bind_eq_ok.mp h
  obtain ⟨⟨_, s⟩, -, h⟩ := bind_eq_ok.mp h
  obtain ⟨⟨month, s⟩, -, h⟩ := bind_eq_ok.mp h
  obtain ⟨⟨_, s⟩, -, h⟩ := bind_eq_ok.mp h
  obtain ⟨⟨day, s⟩, -, h⟩ := bind_eq_ok.mp h
  obtain ⟨⟨_, s⟩, -, h⟩ := bind_eq_ok.mp h
  obtain ⟨⟨hour, s⟩, hhour, h⟩ := bind_eq_ok.mp h
  obtain ⟨⟨_, s⟩, -, h⟩ := bind_eq_ok.mp h
  obtain ⟨⟨minute, s⟩, hminute, h⟩ := bind_eq_ok.mp h
  obtain ⟨⟨_, s⟩, -, h⟩ := bind_eq_ok.mp h
  obtain ⟨⟨second, s⟩, hsecond, h⟩ := bind_eq_ok.mp h
  obtain ⟨⟨nanos, s⟩, hnanos, h⟩ := bind_eq_ok.mp h
  obtain ⟨⟨offset, s⟩, hoffset, h⟩ := bind_eq_ok.mp h
  obtain ⟨_, -, h⟩ := bind_eq_ok.mp h
  obtain ⟨t₀, hinstant, h⟩ := bind_eq_ok.mp h
  cases h
  have hyear := number_lt hyear
  have hsecond := second_le_of_isLeap hinstant (le_of_bounded hsecond) hleap
  exact .written (by dsimp only; omega) (le_of_bounded hhour) (le_of_bounded hminute) hsecond
    (lt_of_fraction hnanos) (abs_lt_of_offset hoffset) hinstant

/-- What the plain form writes with a year of four digits is ordinary, unless it is a leap
second. -/
theorem readPlain_isOrdinary {s : List Char} {t : Instant} (h : readPlain s = .ok t)
    (hyear : ∀ y rest, year s = .ok (y, rest) → 0 ≤ y ∧ y ≤ 9999) (hleap : t.isLeap = false) :
    t.IsOrdinary := by
  unfold readPlain at h
  obtain ⟨⟨year, s⟩, hread, h⟩ := bind_eq_ok.mp h
  obtain ⟨⟨_, s⟩, -, h⟩ := bind_eq_ok.mp h
  obtain ⟨⟨month, s⟩, -, h⟩ := bind_eq_ok.mp h
  obtain ⟨⟨_, s⟩, -, h⟩ := bind_eq_ok.mp h
  obtain ⟨⟨day, s⟩, -, h⟩ := bind_eq_ok.mp h
  obtain ⟨⟨_, s⟩, -, h⟩ := bind_eq_ok.mp h
  obtain ⟨⟨hour, s⟩, hhour, h⟩ := bind_eq_ok.mp h
  obtain ⟨⟨_, s⟩, -, h⟩ := bind_eq_ok.mp h
  obtain ⟨⟨minute, s⟩, hminute, h⟩ := bind_eq_ok.mp h
  obtain ⟨⟨_, s⟩, -, h⟩ := bind_eq_ok.mp h
  obtain ⟨⟨second, s⟩, hsecond, h⟩ := bind_eq_ok.mp h
  obtain ⟨⟨nanos, s⟩, hnanos, h⟩ := bind_eq_ok.mp h
  obtain ⟨_, -, h⟩ := bind_eq_ok.mp h
  have hsecond := second_le_of_isLeap h (le_of_bounded hsecond) hleap
  have hordinary : Instant.IsOrdinary { t with seconds := t.seconds - 0 } :=
    .written (hyear year _ hread) (le_of_bounded hhour) (le_of_bounded hminute) hsecond
      (lt_of_fraction hnanos) (by norm_num) h
  rwa [sub_zero] at hordinary

end Timestamp

namespace Instant

variable {a b c t : Instant}

/-- An ordinary instant does not lie in a leap second. -/
theorem IsOrdinary.isLeap (h : t.IsOrdinary) : t.isLeap = false := by
  obtain ⟨-, -, -, hsecond, hnanos, -, hinstant⟩ := h
  have heq := Timestamp.nanos_of_instantAt hinstant
  rw [Timestamp.clock_snd, if_neg (by omega), Nat.zero_add] at heq
  unfold Instant.isLeap nanosPerSecond
  exact decide_eq_false (by dsimp only; omega)

/-- An ordinary instant is within ten thousand years of the beginning of 1970. -/
theorem IsOrdinary.abs_seconds_le (h : t.IsOrdinary) : |t.seconds| ≤ 2 ^ 38 := by
  obtain @⟨⟨year, month, day⟩, hour, minute, second, nanos, offset, t, hyear, hhour, hminute,
    hsecond, hnanos, hoffset, hinstant⟩ := h
  obtain ⟨hlow, hhigh, -⟩ := Timestamp.clock_bounds hhour hminute (by omega : second ≤ 60) hnanos
  unfold Timestamp.instantAt at hinstant
  split at hinstant
  · rename_i hdate
    cases hinstant
    simp only [Date.isValid, Bool.and_eq_true, decide_eq_true_eq] at hdate
    obtain ⟨⟨⟨⟨⟨-, hmonth⟩, -⟩, hday⟩, -⟩, -⟩ := hdate
    have hdays := Timestamp.daysInMonth_le year month
    have hbefore := Timestamp.daysBeforeMonth_le year month
    dsimp only at hyear
    rw [abs_lt] at hoffset
    refine abs_le.mpr ?_
    simp only [Date.dayNumber, daysBeforeYear]
    omega
  · cases hinstant

/-- The microseconds between ordinary instants fit a signed 64-bit word. -/
theorem IsOrdinary.abs_microsBetween_le (ha : a.IsOrdinary) (hb : b.IsOrdinary) :
    |microsBetween a b| ≤ 2 ^ 60 := by
  have hnanos := nanos_lt ha.isLeap
  have hnanos' := nanos_lt hb.isLeap
  have hseconds := abs_le.mp ha.abs_seconds_le
  have hseconds' := abs_le.mp hb.abs_seconds_le
  have hcut : (microsBetween a b).natAbs = (b.sinceEpoch - a.sinceEpoch).natAbs / 1000 := by
    rw [microsBetween_eq ha.isLeap hb.isLeap]
    exact Int.natAbs_tdiv _ _
  rw [Int.abs_eq_natAbs]
  unfold sinceEpoch nanosPerSecond at hcut
  omega

/-- The time between ordinary instants is the double of the microseconds. -/
theorem elapsed_eq (ha : a.IsOrdinary) (hb : b.IsOrdinary) :
    a.elapsed b = Float.ofInt (microsBetween a b) := by
  have hword := abs_le.mp (ha.abs_microsBetween_le hb)
  unfold elapsed
  exact if_pos ⟨by omega, by omega⟩

/-- How the times between three instants compare. -/
structure Intervals (a b c : Instant) : Prop where
  /-- A time is the double of a whole number of microseconds. -/
  elapsed : a.elapsed b = Float.ofInt (microsBetween a b)
  /-- This number is the difference in nanoseconds over a thousand, cut off toward zero. -/
  truncated : microsBetween a b = (b.sinceEpoch - a.sinceEpoch).tdiv 1000
  /-- The time back is the time there, negated. -/
  antisymm : microsBetween b a = -microsBetween a b
  /-- It takes no less time until a later instant. -/
  mono : b ≤ c → microsBetween a b ≤ microsBetween a c
  /-- It takes no more time since a later instant. -/
  anti : a ≤ b → microsBetween b c ≤ microsBetween a c

/-- The times between ordinary instants compare like the instants. -/
theorem intervals (ha : a.IsOrdinary) (hb : b.IsOrdinary) (hc : c.IsOrdinary) :
    Intervals a b c where
  elapsed := elapsed_eq ha hb
  truncated := microsBetween_eq ha.isLeap hb.isLeap
  antisymm := microsBetween_comm a b
  mono := microsBetween_mono ha.isLeap hb.isLeap hc.isLeap
  anti := microsBetween_anti ha.isLeap hb.isLeap hc.isLeap

end Instant

end LedgerBench
