import LedgerBench.Proofs.Double.Sign
import LedgerBench.Proofs.Event.Tells
import LedgerBench.Proofs.Text.Digits

/-!
# The range of timestamps

A timestamp can only be read if its year lies between -262143 and 262142, so the instants of a
benchmark lie in a bounded range (`read_inRange`), and the microseconds between two of them are a
finite double (`elapsed_isBounded`). The statistics rely on the latter: differences and products of
such doubles do not overflow, so that no not-a-number comes up. Rates rely on its sign: the double
is one or more once a microsecond has passed, and otherwise not positive (`elapsed_le_zero_iff`); in
the same way it is not negative unless the second instant is a microsecond before the first
(`zero_le_elapsed_iff`).

The range is found reader by reader: a bounded number is not above its bound, digits after a decimal
point make less than a second, an offset is less than a day. Both forms end in `instantAt`, which
turns a date and a time of day into an instant.
-/

namespace LedgerBench

/-- The instant lies within about 278,000 years of the beginning of 1970, and within two seconds of
the beginning of its second. -/
structure Instant.InRange (t : Instant) : Prop where
  /-- The seconds are within the range of years. -/
  seconds : |t.seconds| ≤ 2 ^ 43
  /-- The nanoseconds are those of a second, which may be a leap second. -/
  nanos : t.nanos < 2000000000

namespace Timestamp

/-! ## Parts of a timestamp -/

section Readers

variable {s rest : List Char} {n : ℕ}

/-- A bounded number is not above its bound. -/
theorem le_of_bounded {low high : ℕ} {digits : Reader ℕ}
    (h : bounded low high digits s = .ok (n, rest)) : n ≤ high := by
  unfold bounded at h
  split at h
  · split at h
    · rename_i hbounds
      cases h
      rw [Bool.and_eq_true, decide_eq_true_eq, decide_eq_true_eq] at hbounds
      exact hbounds.2
    · cases h
  · cases h

/-- The digits after a decimal point make less than a second. -/
theorem nanosOf_lt {digits : List Char} (h : ∀ c ∈ digits, c.isDigit = true) :
    nanosOf digits < 1000000000 := by
  have hkept : ∀ c ∈ digits.take 9, c.isDigit = true := fun c hc => h c (List.mem_of_mem_take hc)
  have hlength : (digits.take 9).length ≤ 9 := List.length_take_le 9 digits
  have hvalue := foldl_digits_lt hkept 0
  rw [Nat.zero_add, Nat.one_mul] at hvalue
  unfold nanosOf valueOf
  dsimp only
  rw [Nat.pow_eq]
  calc _ < 10 ^ (digits.take 9).length * 10 ^ (9 - (digits.take 9).length) :=
        Nat.mul_lt_mul_of_pos_right hvalue (by positivity)
    _ = 1000000000 := by
      rw [← pow_add, Nat.add_sub_cancel' hlength]
      rfl

/-- A fraction of a second is less than a second. -/
theorem lt_of_fraction (h : fraction s = .ok (n, rest)) : n < 1000000000 := by
  unfold fraction at h
  split at h
  · rename_i after
    split at h
    · cases h
    · cases h
      exact nanosOf_lt fun c hc => List.mem_takeWhile_imp hc
  · cases h
    norm_num

/-- Hours and minutes of an offset make less than a day. -/
theorem lt_of_offsetSeconds (h : offsetSeconds s = .ok (n, rest)) : n < 86400 := by
  unfold offsetSeconds at h
  obtain ⟨⟨hours, s₁⟩, hhours, h⟩ := bind_eq_ok.mp h
  obtain ⟨⟨_, s₂⟩, -, h⟩ := bind_eq_ok.mp h
  obtain ⟨⟨minutes, s₃⟩, hminutes, h⟩ := bind_eq_ok.mp h
  have hhours := le_of_bounded hhours
  have hminutes := le_of_bounded hminutes
  cases h
  omega

/-- An offset is less than a day. -/
theorem abs_lt_of_offset {offset' : ℤ} (h : offset s = .ok (offset', rest)) :
    |offset'| < 86400 := by
  unfold offset at h
  split at h
  · cases h
  · split at h
    · cases h
      norm_num
    · split at h
      · obtain ⟨⟨n, s₁⟩, hn, h⟩ := bind_eq_ok.mp h
        have hlt := lt_of_offsetSeconds hn
        cases h
        rw [Nat.abs_cast]
        exact_mod_cast hlt
      · split at h
        · obtain ⟨⟨n, s₁⟩, hn, h⟩ := bind_eq_ok.mp h
          have hlt := lt_of_offsetSeconds hn
          cases h
          rw [abs_neg, Nat.abs_cast]
          exact_mod_cast hlt
        · cases h

end Readers

/-! ## The instant -/

/-- A month has at most 31 days. -/
theorem daysInMonth_le (year : ℤ) (month : ℕ) : daysInMonth year month ≤ 31 := by
  unfold daysInMonth
  split
  · split <;> norm_num
  all_goals norm_num

/-- The months before a month have at most 31 days each. -/
theorem daysBeforeMonth_le (year : ℤ) (month : ℕ) : daysBeforeMonth year month ≤ 31 * month := by
  induction month using daysBeforeMonth.induct with
  | case1 => exact Nat.zero_le _
  | case2 => exact Nat.zero_le _
  | case3 month hpos ih =>
    have hmonth := daysInMonth_le year month
    rw [daysBeforeMonth.eq_3 year month hpos]
    omega

/-- A time of day lies within the day, and within the second or the leap second after it. -/
theorem clock_bounds {hour minute second nanos : ℕ} (hhour : hour ≤ 23) (hminute : minute ≤ 59)
    (hsecond : second ≤ 60) (hnanos : nanos < 1000000000) :
    0 ≤ (clock hour minute second nanos).1 ∧ (clock hour minute second nanos).1 < 86400 ∧
      (clock hour minute second nanos).2 < 2000000000 := by
  unfold clock
  simp only [Instant.nanosPerSecond]
  split <;> omega

/-- The instant of a date and a time of day lies within the range, with a day to spare on both
sides. -/
theorem bounds_of_instantAt {date : Date} {hour minute second nanos : ℕ} {t : Instant}
    (h : instantAt date (clock hour minute second nanos) = .ok t) (hhour : hour ≤ 23)
    (hminute : minute ≤ 59) (hsecond : second ≤ 60) (hnanos : nanos < 1000000000) :
    |t.seconds| ≤ 2 ^ 43 - 86400 ∧ t.nanos < 2000000000 := by
  obtain ⟨hlow, hhigh, hleap⟩ := clock_bounds hhour hminute hsecond hnanos
  obtain ⟨year, month, day⟩ := date
  unfold instantAt at h
  split at h
  · rename_i hdate
    cases h
    simp only [Date.isValid, Bool.and_eq_true, decide_eq_true_eq] at hdate
    obtain ⟨⟨⟨⟨⟨-, hmonth⟩, -⟩, hday⟩, hfirst⟩, hlast⟩ := hdate
    have hdays := daysInMonth_le year month
    have hbefore := daysBeforeMonth_le year month
    refine ⟨abs_le.mpr ?_, hleap⟩
    -- fewer than 96 million days lie between the beginning of 1970 and the last year
    simp only [Date.dayNumber, daysBeforeYear]
    omega
  · cases h

/-- What the zoned form writes lies in the range. -/
theorem readZoned_inRange {s : List Char} {t : Instant} (h : readZoned s = .ok t) : t.InRange := by
  -- year, month and day are bounded by the calendar, and the separators do not matter
  unfold readZoned at h
  obtain ⟨⟨year, s⟩, -, h⟩ := bind_eq_ok.mp h
  obtain ⟨⟨_, s⟩, -, h⟩ := bind_eq_ok.mp h
  obtain ⟨⟨month, s⟩, -, h⟩ := bind_eq_ok.mp h
  obtain ⟨⟨_, s⟩, -, h⟩ := bind_eq_ok.mp h
  obtain ⟨⟨day, s⟩, -, h⟩ := bind_eq_ok.mp h
  obtain ⟨⟨_, s⟩, -, h⟩ := bind_eq_ok.mp h
  obtain ⟨⟨hour, s⟩, hhour, h⟩ := bind_eq_ok.mp h
  obtain ⟨⟨_, s⟩, -, h⟩ := bind_eq_ok.mp h
  obtain ⟨⟨minute, s⟩, hminute, h⟩ := bind_eq_ok.mp h
  obtain ⟨⟨_, s⟩, -, h⟩ := bind_eq_ok.mp h
  obtain ⟨⟨second, s⟩, hsecond, h⟩ := bind_eq_ok.mp h
  obtain ⟨⟨nanos, s⟩, hnanos, h⟩ := bind_eq_ok.mp h
  obtain ⟨⟨offset, s⟩, hoffset, h⟩ := bind_eq_ok.mp h
  obtain ⟨_, -, h⟩ := bind_eq_ok.mp h
  obtain ⟨t₀, hinstant, h⟩ := bind_eq_ok.mp h
  cases h
  obtain ⟨hseconds, hleap⟩ := bounds_of_instantAt hinstant (le_of_bounded hhour)
    (le_of_bounded hminute) (le_of_bounded hsecond) (lt_of_fraction hnanos)
  have hoffset := abs_lt_of_offset hoffset
  refine ⟨?_, hleap⟩
  calc |t₀.seconds - offset| ≤ |t₀.seconds| + |offset| := abs_sub _ _
    _ ≤ 2 ^ 43 := by omega

/-- What the plain form writes lies in the range. -/
theorem readPlain_inRange {s : List Char} {t : Instant} (h : readPlain s = .ok t) : t.InRange := by
  unfold readPlain at h
  obtain ⟨⟨year, s⟩, -, h⟩ := bind_eq_ok.mp h
  obtain ⟨⟨_, s⟩, -, h⟩ := bind_eq_ok.mp h
  obtain ⟨⟨month, s⟩, -, h⟩ := bind_eq_ok.mp h
  obtain ⟨⟨_, s⟩, -, h⟩ := bind_eq_ok.mp h
  obtain ⟨⟨day, s⟩, -, h⟩ := bind_eq_ok.mp h
  obtain ⟨⟨_, s⟩, -, h⟩ := bind_eq_ok.mp h
  obtain ⟨⟨hour, s⟩, hhour, h⟩ := bind_eq_ok.mp h
  obtain ⟨⟨_, s⟩, -, h⟩ := bind_eq_ok.mp h
  obtain ⟨⟨minute, s⟩, hminute, h⟩ := bind_eq_ok.mp h
  obtain ⟨⟨_, s⟩, -, h⟩ := bind_eq_ok.mp h
  obtain ⟨⟨second, s⟩, hsecond, h⟩ := bind_eq_ok.mp h
  obtain ⟨⟨nanos, s⟩, hnanos, h⟩ := bind_eq_ok.mp h
  obtain ⟨_, -, h⟩ := bind_eq_ok.mp h
  obtain ⟨hseconds, hleap⟩ := bounds_of_instantAt h (le_of_bounded hhour) (le_of_bounded hminute)
    (le_of_bounded hsecond) (lt_of_fraction hnanos)
  exact ⟨by omega, hleap⟩

/-- Every timestamp that can be read lies in the range. -/
theorem read_inRange {s : String} {t : Instant} (h : read s = .ok t) : t.InRange := by
  unfold read at h
  split at h
  · rename_i hzoned
    cases h
    exact readZoned_inRange hzoned
  · exact readPlain_inRange h

end Timestamp

/-- The time of an event that can be read lies in the range. -/
theorem Record.instant_inRange {r : Record} {t : Instant} (h : r.instant = .ok t) : t.InRange := by
  unfold instant at h
  split at h
  · cases h
  · split at h
    · rename_i hread
      cases h
      exact Timestamp.read_inRange hread
    · cases h
  · cases h

/-- The time that an effect records. -/
def Effect.time? : Effect → Option Instant
  | .openWindow time | .closeWindow time _ | .send _ time | .commit _ time _ | .receive _ time
  | .endProposal _ time => some time
  | .outdate _ | .conflict _ | .verify _ _ | .mine _ _ | .execute _ _ _ => none

/-- The times that records tell lie in the range of timestamps. -/
theorem Record.Tells.inRange {role : Role} {r : Record} {e : Effect} (h : r.Tells role e)
    {time : Instant} (htime : e.time? = some time) : time.InRange := by
  cases h with
  | openWindow _ _ ts | closeWindow _ _ ts | send _ _ ts | commit _ _ ts | receive _ ts
  | endProposal _ ts =>
    cases htime
    exact Record.instant_inRange ts
  | outdate | conflict | verify | mine | execute => cases htime

/-! ## The time between two instants -/

namespace Instant

variable {a b : Instant}

/-- The nanoseconds between two instants of the range are bounded. -/
theorem abs_nanosBetween_le (ha : a.InRange) (hb : b.InRange) : |nanosBetween a b| ≤ 2 ^ 74 := by
  obtain ⟨ha, ha'⟩ := ha
  obtain ⟨hb, hb'⟩ := hb
  have hleap : -1 ≤ leapBetween a b ∧ leapBetween a b ≤ 1 := by
    unfold leapBetween
    split
    · norm_num
    · split <;> norm_num
  rw [abs_le] at ha hb ⊢
  unfold nanosBetween nanosPerSecond
  omega

/-- Cut off toward zero, a quotient is one or more if the dividend is not less than the divisor. -/
theorem one_le_tdiv_iff {n d : ℤ} (hd : 0 < d) : 1 ≤ n.tdiv d ↔ d ≤ n := by
  constructor
  · intro h
    by_contra hlt
    have hle : n.tdiv d ≤ (d - 1).tdiv d := Int.tdiv_le_tdiv hd (by omega)
    have hzero : (d - 1).tdiv d = 0 := Int.tdiv_eq_zero_of_lt (by omega) (by omega)
    omega
  · intro h
    calc 1 = d.tdiv d := (Int.tdiv_self hd.ne').symm
      _ ≤ n.tdiv d := Int.tdiv_le_tdiv hd h

/-- Cut off toward zero, a quotient is minus one or less if the dividend is not more than minus the
divisor. -/
theorem tdiv_le_neg_one_iff {n d : ℤ} (hd : 0 < d) : n.tdiv d ≤ -1 ↔ n ≤ -d := by
  have hneg : (-n).tdiv d = -n.tdiv d := Int.neg_tdiv n d
  have hone := one_le_tdiv_iff (n := -n) hd
  omega

/-- The time between two instants of the range is rounded from a bounded number, in whichever unit
it is known. The number is one or more if a microsecond has passed, and otherwise zero or less; it
is minus one or less if the second instant is a microsecond earlier, and otherwise zero or more. -/
theorem exists_roundsTo_elapsed (ha : a.InRange) (hb : b.InRange) :
    ∃ q, RoundsTo q (a.elapsed b) ∧ |q| ≤ 2 ^ 65 ∧
      (if 1000 ≤ nanosBetween a b then 1 ≤ q else q ≤ 0) ∧
      (if nanosBetween a b ≤ -1000 then q ≤ -1 else 0 ≤ q) := by
  have hnanos := abs_nanosBetween_le ha hb
  unfold elapsed
  dsimp only
  split
  · rename_i hword
    have hmicros : |microsBetween a b| ≤ 2 ^ 63 := abs_le.mpr ⟨hword.1, hword.2.le⟩
    refine ⟨(microsBetween a b : ℤ), roundsTo_ofInt (hmicros.trans ?_), ?_, ?_, ?_⟩
    · exact pow_le_pow_right₀ one_le_two (by norm_num)
    · exact_mod_cast hmicros.trans (pow_le_pow_right₀ one_le_two (by norm_num))
    · have hone : 1 ≤ microsBetween a b ↔ 1000 ≤ nanosBetween a b := one_le_tdiv_iff (by norm_num)
      split
      · exact_mod_cast hone.mpr ‹_›
      · have hnone : microsBetween a b ≤ 0 := by omega
        exact_mod_cast hnone
    · have hone : microsBetween a b ≤ -1 ↔ nanosBetween a b ≤ -1000 :=
        tdiv_le_neg_one_iff (by norm_num)
      split
      · exact_mod_cast hone.mpr ‹_›
      · have hnone : 0 ≤ microsBetween a b := by omega
        exact_mod_cast hnone
  · -- so much time has passed, forward or backward, that it is a millisecond at least
    rename_i hword
    have hlong : 1000000 ≤ (nanosBetween a b).natAbs := by
      have hcut : (microsBetween a b).natAbs = (nanosBetween a b).natAbs / 1000 :=
        Int.natAbs_tdiv _ _
      omega
    have hone : 1 ≤ (nanosBetween a b).tdiv 1000000 ↔ 1000000 ≤ nanosBetween a b :=
      one_le_tdiv_iff (by norm_num)
    have hneg : (nanosBetween a b).tdiv 1000000 ≤ -1 ↔ nanosBetween a b ≤ -1000000 :=
      tdiv_le_neg_one_iff (by norm_num)
    -- a thousand times the milliseconds are within the bound as well
    have hmillis : |(nanosBetween a b).tdiv 1000000| ≤ 2 ^ 55 := by
      have hcut : ((nanosBetween a b).tdiv 1000000).natAbs = (nanosBetween a b).natAbs / 1000000 :=
        Int.natAbs_tdiv _ _
      rw [Int.abs_eq_natAbs] at hnanos ⊢
      omega
    generalize (nanosBetween a b).tdiv 1000000 = millis at *
    have hrounds : RoundsTo millis (Float.ofInt millis) :=
      roundsTo_ofInt (hmillis.trans (pow_le_pow_right₀ one_le_two (by norm_num)))
    have hmillis : |(millis : ℚ)| ≤ 2 ^ 55 := by exact_mod_cast hmillis
    have hvalue := hrounds.abs_toRat_le (Representable.two_zpow (e := 55) (by norm_num)) hmillis
    have hproduct : |toRat (Float.ofInt millis) * toRat 1000.0| ≤ 2 ^ 65 := by
      rw [toRat_thousand, abs_mul]
      calc |toRat (Float.ofInt millis)| * |(1000 : ℚ)| ≤ 2 ^ (55 : ℤ) * 1000 := by
            rw [abs_of_pos (by norm_num : (0 : ℚ) < 1000)]
            exact mul_le_mul_of_nonneg_right hvalue (by norm_num)
        _ ≤ 2 ^ 65 := by norm_num
    have hlarge : (2 : ℚ) ^ 65 ≤ 2 ^ 1023 := pow_le_pow_right₀ one_le_two (by norm_num)
    refine ⟨_, RoundsTo.mul hrounds.isFinite rfl (hproduct.trans hlarge), hproduct, ?_, ?_⟩ <;>
      rw [toRat_thousand]
    · split
      · have hmillis : (1 : ℚ) ≤ millis := by exact_mod_cast hone.mpr (by omega)
        have hle := hrounds.nearest.ge_of_ge .one hmillis
        linarith
      · have hmillis : (millis : ℚ) ≤ 0 := by exact_mod_cast (by omega : millis ≤ 0)
        have hle := hrounds.nearest.le_of_le .zero hmillis
        linarith
    · split
      · have hmillis : (millis : ℚ) ≤ -1 := by exact_mod_cast hneg.mpr (by omega)
        have hle := hrounds.nearest.le_of_le Representable.one.neg hmillis
        linarith
      · have hmillis : 0 ≤ (millis : ℚ) := by exact_mod_cast (by omega : 0 ≤ millis)
        have hle := hrounds.nearest.ge_of_ge .zero hmillis
        linarith

/-- The time between two instants of the range is a bounded double, in whichever unit it is
known. -/
theorem elapsed_isBounded (ha : a.InRange) (hb : b.InRange) : IsBounded (a.elapsed b) := by
  obtain ⟨q, hrounds, hq, -, -⟩ := exists_roundsTo_elapsed ha hb
  exact hrounds.isBounded hq

/-- Once a microsecond has passed, the time between two instants is one or more. -/
theorem one_le_toRat_elapsed (ha : a.InRange) (hb : b.InRange) (h : 1000 ≤ nanosBetween a b) :
    1 ≤ toRat (a.elapsed b) := by
  obtain ⟨q, hrounds, -, hsign, -⟩ := exists_roundsTo_elapsed ha hb
  rw [if_pos h] at hsign
  exact hrounds.nearest.ge_of_ge .one hsign

/-- No time has passed between two instants, so far as it is known, if less than a microsecond has,
or if the second instant is before the first. -/
theorem elapsed_le_zero_iff (ha : a.InRange) (hb : b.InRange) :
    a.elapsed b ≤ 0.0 ↔ nanosBetween a b < 1000 := by
  rw [le_iff_toRat_le (elapsed_isBounded ha hb).isFinite rfl, toRat_zero]
  constructor
  · intro h
    by_contra hmicro
    have hone := one_le_toRat_elapsed ha hb (not_lt.mp hmicro)
    linarith
  · intro h
    obtain ⟨q, hrounds, -, hsign, -⟩ := exists_roundsTo_elapsed ha hb
    rw [if_neg (not_le.mpr h)] at hsign
    exact hrounds.nearest.le_of_le .zero hsign

/-- The time between two instants is not negative, so far as it is known, if the second instant is
not before the first by a microsecond or more. -/
theorem zero_le_elapsed_iff (ha : a.InRange) (hb : b.InRange) :
    0.0 ≤ a.elapsed b ↔ -1000 < nanosBetween a b := by
  obtain ⟨q, hrounds, -, -, hsign⟩ := exists_roundsTo_elapsed ha hb
  rw [le_iff_toRat_le rfl (elapsed_isBounded ha hb).isFinite, toRat_zero]
  constructor
  · intro h
    by_contra hmicro
    rw [if_pos (not_lt.mp hmicro)] at hsign
    have hle := hrounds.nearest.le_of_le Representable.one.neg hsign
    linarith
  · intro h
    rw [if_neg (not_le.mpr h)] at hsign
    exact hrounds.nearest.ge_of_ge .zero hsign

end Instant

end LedgerBench
