import LedgerBench.Proofs.Decimal.Fixed
import LedgerBench.Proofs.Double.Sign
import LedgerBench.Proofs.Stats.Interpolation
import LedgerBench.Report.Metric

/-!
# The units of durations

The unit of a duration is chosen before the duration is rounded to two places. Only in one respect
can this be seen in the text: a duration that falls short of a thousand of its unit by half a
hundredth or less is shown as a thousand of this unit, and not as one of the next (`RoundsUp`). In
all other texts the number fits its unit: it is at least one, except in microseconds, and below a
thousand, except in seconds (`durations_shown`).

This is so for exact numbers, and also for doubles, where the quotient by a thousand is rounded
before it is rounded to hundredths. The two roundings cannot be told apart from one: the least
double from which on the text has a thousand milliseconds is 999995, as it is for exact numbers
(`le_quotient_iff`). The quotient 999.995 is rounded up to a double, and the double before 999995 is
so far below that its quotient is rounded to a smaller double.
-/

namespace LedgerBench

/-! ## Amounts of time -/

/-- A number of units of time. -/
structure Amount where
  /-- The number. -/
  number : ℚ
  /-- The unit. -/
  unit : TimeUnit

/-- A text writes an amount: the number with two places, and the symbol of the unit. -/
def Amount.WrittenAs (a : Amount) (text : String) : Prop :=
  ∃ number, Decimal.Writes 2 number a.number ∧ text.toList = number ++ a.unit.symbol.toList

/-- The number of an amount fits its unit: a smaller unit would not do, and a larger one neither. -/
def Amount.FitsUnit (a : Amount) : Prop :=
  match a.unit with
  | .micros => |a.number| < 1000
  | .millis => 1 ≤ |a.number| ∧ |a.number| < 1000
  | .seconds => 1 ≤ |a.number|

/-- A duration of `us` microseconds falls short of a thousand microseconds, or of a thousand
milliseconds, by half a hundredth of the unit at most. -/
def RoundsUp (us : ℚ) : Prop :=
  (999.995 ≤ |us| ∧ |us| < 1000) ∨ (999995 ≤ |us| ∧ |us| < 1000000)

/-- How a duration of `us` microseconds is shown, which amounts to `x` in its unit. -/
structure ShowsDuration (us x : ℚ) (text : String) (a : Amount) : Prop where
  /-- The text writes this amount, and no other. -/
  writes : ∀ b : Amount, b.WrittenAs text ↔ b = a
  /-- The unit goes by the duration before it is rounded. -/
  unit_eq : a.unit = TimeUnit.fitting |us|
  /-- The number is rounded to hundredths; a tie goes to the even last place. -/
  nearest : ∃ hundredths : ℤ, a.number = hundredths / 10 ^ 2 ∧ Decimal.IsNearest 2 x hundredths
  /-- The number fits the unit unless the duration rounds up to a thousand. -/
  fitsUnit_iff : a.FitsUnit ↔ ¬ RoundsUp us
  /-- If it does, the number is a thousand. -/
  thousand : RoundsUp us → |a.number| = 1000

/-- The text of an exact number with so many places. -/
def Decimal.fixedExact (places : ℕ) (x : ℚ) : String :=
  String.ofList (fixedQuotient places (decide (x < 0)) x.num.natAbs x.den)

/-- The text of an exact duration in microseconds: it is expressed in its unit without rounding. -/
def showExactDuration (us : ℚ) : String :=
  let unit := TimeUnit.fitting |us|
  Decimal.fixedExact 2 (unit.express us) ++ unit.symbol

namespace Amount

/-- A text writes one amount only. -/
theorem WrittenAs.unique {a b : Amount} {text : String} (ha : a.WrittenAs text)
    (hb : b.WrittenAs text) : a = b := by
  obtain ⟨number, hnumber, htext⟩ := ha
  obtain ⟨number', hnumber', htext'⟩ := hb
  have hpoint : '.' ∉ a.unit.symbol.toList := by
    cases a.unit <;> decide
  obtain ⟨hsame, hsymbol⟩ := hnumber.append_inj hnumber' hpoint (htext.symm.trans htext')
  have hunit : a.unit = b.unit := by
    revert hsymbol
    cases a.unit <;> cases b.unit <;> decide
  cases a
  cases b
  exact congrArg₂ Amount.mk hsame hunit

end Amount

/-! ## Units -/

namespace TimeUnit

/-- The unit goes by how the magnitude compares with a thousand and with a million. -/
theorem fitting_of_atMost {α : Type} [Scalar α] {magnitude : α} {q : ℚ}
    (hthousand : Scalar.atMost 1000.0 magnitude = true ↔ 1000 ≤ q)
    (hmillion : Scalar.atMost 1000000.0 magnitude = true ↔ 1000000 ≤ q) : fitting magnitude =
      if q < 1000 then .micros else if q < 1000000 then .millis else .seconds := by
  unfold fitting
  simp only [Bool.not_eq_true', ← Bool.not_eq_true, hthousand, hmillion, not_le]

/-- The unit that fits an exact duration. -/
theorem fitting_eq (q : ℚ) : fitting q =
    if q < 1000 then .micros else if q < 1000000 then .millis else .seconds := by
  have hthousand : (1000.0 : ℚ) = 1000 := by norm_num
  have hmillion : (1000000.0 : ℚ) = 1000000 := by norm_num
  refine fitting_of_atMost (decide_eq_true_iff.trans ?_) (decide_eq_true_iff.trans ?_)
  · exact Iff.of_eq (congrArg (· ≤ q) hthousand)
  · exact Iff.of_eq (congrArg (· ≤ q) hmillion)

/-- The three cases of the unit, and what each of them says of the magnitude. -/
theorem fitting_cases (q : ℚ) : (q < 1000 ∧ fitting q = .micros) ∨
    (1000 ≤ q ∧ q < 1000000 ∧ fitting q = .millis) ∨ (1000000 ≤ q ∧ fitting q = .seconds) := by
  rw [fitting_eq]
  rcases lt_or_ge q 1000 with hmicros | hmicros
  · exact .inl ⟨hmicros, if_pos hmicros⟩
  rw [if_neg (not_lt.mpr hmicros)]
  rcases lt_or_ge q 1000000 with hmillis | hmillis
  · exact .inr (.inl ⟨hmicros, hmillis, if_pos hmillis⟩)
  · exact .inr (.inr ⟨hmillis, if_neg (not_lt.mpr hmillis)⟩)

/-- The unit that fits a double is the one that fits its value. -/
theorem fitting_abs {us : Float} (h : us.isFinite = true) :
    fitting us.abs = fitting |toRat us| := by
  obtain ⟨hfinite, hvalue⟩ := toRat_abs h
  rw [fitting_eq, ← hvalue]
  refine fitting_of_atMost (decide_eq_true_iff.trans ?_) (decide_eq_true_iff.trans ?_)
  · rw [orderKey_le_iff rfl hfinite, toRat_thousand]
  · rw [orderKey_le_iff rfl hfinite, toRat_million]

end TimeUnit

/-! ## Durations in their units -/

/-- A duration of `us` microseconds amounts to `x` in its unit, or near to it. -/
structure AmountsTo (us x : ℚ) : Prop where
  /-- In all units but seconds it is a thousand at most. -/
  le_thousand : |us| < 1000000 → |x| ≤ 1000
  /-- In all units but microseconds it is one at least. -/
  one_le : 1000 ≤ |us| → 1 ≤ |x|
  /-- In all units but seconds it tells whether the duration rounds up. -/
  roundsUp_iff : |us| < 1000000 → (999.995 ≤ |x| ↔ RoundsUp us)

variable {us x q y : ℚ}

/-- Below a thousand microseconds a duration rounds up by itself. -/
theorem roundsUp_iff_of_lt (h : |us| < 1000) : RoundsUp us ↔ 999.995 ≤ |us| := by
  constructor
  · rintro (⟨hle, -⟩ | ⟨hle, -⟩)
    · exact hle
    · linarith
  · exact fun hle => .inl ⟨hle, h⟩

/-- From a thousand microseconds on a duration rounds up by its milliseconds. -/
theorem roundsUp_iff_of_le (h : 1000 ≤ |us|) (h' : |us| < 1000000) :
    RoundsUp us ↔ 999995 ≤ |us| := by
  constructor
  · rintro (⟨-, hlt⟩ | ⟨hle, -⟩)
    · exact absurd h (not_le.mpr hlt)
    · exact hle
  · exact fun hle => .inr ⟨hle, h'⟩

/-- Durations of a second and more do not round up. -/
theorem not_roundsUp (h : 1000000 ≤ |us|) : ¬ RoundsUp us := by
  rintro (⟨-, hlt⟩ | ⟨-, hlt⟩) <;> linarith

namespace AmountsTo

/-- Durations in microseconds are not divided. -/
theorem micros (h : |us| < 1000) : AmountsTo us us where
  le_thousand _ := h.le
  one_le hle := absurd h (not_lt.mpr hle)
  roundsUp_iff _ := (roundsUp_iff_of_lt h).symm

/-- Durations in milliseconds amount to a number from one to a thousand. -/
theorem millis (h : 1000 ≤ |us|) (h' : |us| < 1000000) (hlow : 1 ≤ |x|) (hhigh : |x| ≤ 1000)
    (hiff : 999.995 ≤ |x| ↔ 999995 ≤ |us|) : AmountsTo us x where
  le_thousand _ := hhigh
  one_le _ := hlow
  roundsUp_iff _ := hiff.trans (roundsUp_iff_of_le h h').symm

/-- Durations in seconds amount to one or more. -/
theorem seconds (h : 1000000 ≤ |us|) (hlow : 1 ≤ |x|) : AmountsTo us x where
  le_thousand hlt := absurd h (not_le.mpr hlt)
  one_le _ := hlow
  roundsUp_iff hlt := absurd h (not_le.mpr hlt)

/-- An exact duration amounts to what it is expressed as. -/
theorem express (us : ℚ) : AmountsTo us ((TimeUnit.fitting |us|).express us) := by
  rcases TimeUnit.fitting_cases |us| with ⟨hlt, hunit⟩ | ⟨hle, hlt, hunit⟩ | ⟨hle, hunit⟩ <;>
    rw [hunit]
  · exact micros hlt
  · have hvalue : |TimeUnit.millis.express us| = |us| / 1000 := by
      have hthousand : (1000.0 : ℚ) = 1000 := by norm_num
      show |us / (1000.0 : ℚ)| = |us| / 1000
      rw [hthousand, abs_div, abs_of_pos (by norm_num : (0 : ℚ) < 1000)]
    refine millis hle hlt ?_ ?_ ?_ <;> rw [hvalue]
    · linarith
    · linarith
    · constructor <;> intro h <;> linarith
  · have hvalue : |TimeUnit.seconds.express us| = |us| / 1000000 := by
      have hmillion : (1000000.0 : ℚ) = 1000000 := by norm_num
      show |us / (1000000.0 : ℚ)| = |us| / 1000000
      rw [hmillion, abs_div, abs_of_pos (by norm_num : (0 : ℚ) < 1000000)]
    refine seconds hle ?_
    rw [hvalue]
    linarith

end AmountsTo

/-! ## Quotients of doubles -/

/-- A finite double is divided without overflow by one from two on. -/
theorem roundsTo_quotient {x y : Float} (hx : x.isFinite = true) (hy : y.isFinite = true)
    (htwo : 2 ≤ toRat y) : RoundsTo (toRat x / toRat y) (x / y) := by
  have hpos : 0 < toRat y := lt_of_lt_of_le two_pos htwo
  refine .div hx hy hpos.ne' ?_
  rw [abs_div, abs_of_pos hpos, div_le_iff₀ hpos]
  calc |toRat x| ≤ 2 ^ 1024 := (abs_toRat_lt hx).le
    _ = 2 ^ 1023 * 2 := pow_succ 2 1023
    _ ≤ 2 ^ 1023 * toRat y := mul_le_mul_of_nonneg_left htwo (pow_nonneg two_pos.le 1023)

/-- The number of milliseconds in a finite double is rounded. -/
theorem roundsTo_millis {us : Float} (h : us.isFinite = true) :
    RoundsTo (toRat us / 1000) (TimeUnit.millis.express us) := by
  rw [← toRat_thousand]
  exact roundsTo_quotient h rfl (by rw [toRat_thousand]; norm_num)

/-- The number of seconds in a finite double is rounded. -/
theorem roundsTo_seconds {us : Float} (h : us.isFinite = true) :
    RoundsTo (toRat us / 1000000) (TimeUnit.seconds.express us) := by
  rw [← toRat_million]
  exact roundsTo_quotient h rfl (by rw [toRat_million]; norm_num)

/-- A finite double is finite in all units. -/
theorem isFinite_express {us : Float} (h : us.isFinite = true) (unit : TimeUnit) :
    (unit.express us).isFinite = true := by
  cases unit with
  | micros => exact h
  | millis => exact (roundsTo_millis h).isFinite
  | seconds => exact (roundsTo_seconds h).isFinite

/-- The quotient by a thousand reaches 999.995, after it is rounded to a double, exactly if the
double that is divided reaches 999995. -/
theorem le_quotient_iff (hq : Representable q) (h : NearestTo (q / 1000) y) :
    999.995 ≤ y ↔ 999995 ≤ q := by
  -- the doubles next to 999.995 are `n` and `n + 1` units of the last place
  obtain ⟨n, hn⟩ : ∃ n : ℤ, n = 8796049041742888 := ⟨_, rfl⟩
  have hfull : 2 ^ 52 ≤ n := by omega
  have hbelow : (n * 2 ^ (-43 : ℤ) : ℚ) < 999.995 := by
    rw [hn]
    norm_num
  have habove : (999.995 : ℚ) ≤ (n + 1) * 2 ^ (-43 : ℤ) := by
    rw [hn]
    norm_num
  have hmiddle : (n * 2 ^ (-43 : ℤ) + (n + 1) * 2 ^ (-43 : ℤ) : ℚ) < 2 * 999.995 := by
    rw [hn]
    norm_num
  constructor
  · intro hy
    by_contra hlt
    -- the double before 999995 has a quotient that is not above the lower one of the two
    have hprevious : q ≤ (999995 * 2 ^ 33 - 1 : ℤ) * 2 ^ (-33 : ℤ) := by
      refine hq.le_of_lt (by norm_num) (lt_of_lt_of_le (not_le.mp hlt) ?_)
      norm_num
    have hquotient : q / 1000 ≤ n * 2 ^ (-43 : ℤ) := by
      calc q / 1000 ≤ (999995 * 2 ^ 33 - 1 : ℤ) * 2 ^ (-33 : ℤ) / 1000 := by gcongr
        _ ≤ n * 2 ^ (-43 : ℤ) := by
          rw [hn]
          norm_num
    have hrepresentable : Representable (n * 2 ^ (-43 : ℤ)) :=
      ⟨n, -43, by rw [hn]; norm_num, by norm_num, rfl⟩
    exact absurd (h.le_of_le hrepresentable hquotient) (not_le.mpr (hbelow.trans_le hy))
  · intro hle
    by_contra hlt
    -- 999.995 itself is above the middle of the two, so all quotients are rounded up
    have hrepresentable : Representable ((n + 1) * 2 ^ (-43 : ℤ)) :=
      ⟨n + 1, -43, by rw [hn]; norm_num, by norm_num, by push_cast; rfl⟩
    have hup : n * 2 ^ (-43 : ℤ) < y :=
      h.lt_of_middle_lt hrepresentable (hbelow.trans_le habove) (by linarith)
    have hdown := h.representable.le_of_lt hfull ((not_le.mp hlt).trans_le habove)
    exact absurd hup (not_lt.mpr hdown)

/-- A double amounts to what it is expressed as, which is rounded. -/
theorem AmountsTo.toRat_express {us : Float} (h : us.isFinite = true) :
    AmountsTo (toRat us) (toRat ((TimeUnit.fitting us.abs).express us)) := by
  rw [TimeUnit.fitting_abs h]
  rcases TimeUnit.fitting_cases |toRat us| with ⟨hlt, hunit⟩ | ⟨hle, hlt, hunit⟩ | ⟨hle, hunit⟩ <;>
    rw [hunit]
  · exact micros hlt
  · have hnear : NearestTo (|toRat us| / 1000) |toRat (TimeUnit.millis.express us)| := by
      have hquotient := (roundsTo_millis h).nearest.abs
      rwa [abs_div, abs_of_pos (by norm_num : (0 : ℚ) < 1000)] at hquotient
    have hexact : Representable |toRat us| :=
      (NearestTo.refl (representable_toRat h)).abs.representable
    have hhigh : Representable 1000 := by
      exact_mod_cast Representable.intCast (n := 1000) (by norm_num)
    refine millis hle hlt (hnear.ge_of_ge .one ?_) (hnear.le_of_le hhigh ?_)
      (le_quotient_iff hexact hnear)
    · linarith
    · linarith
  · have hnear : NearestTo (|toRat us| / 1000000) |toRat (TimeUnit.seconds.express us)| := by
      have hquotient := (roundsTo_seconds h).nearest.abs
      rwa [abs_div, abs_of_pos (by norm_num : (0 : ℚ) < 1000000)] at hquotient
    refine seconds hle (hnear.ge_of_ge .one ?_)
    linarith

/-! ## Texts of durations -/

/-- A duration is shown by the text of its number and its unit. -/
theorem AmountsTo.shows (h : AmountsTo us x) {text : String} {number : List Char} {hundredths : ℤ}
    (hwrites : Decimal.Writes 2 number (hundredths / 10 ^ 2))
    (hnearest : Decimal.IsNearest 2 x hundredths)
    (htext : text.toList = number ++ (TimeUnit.fitting |us|).symbol.toList) :
    ShowsDuration us x text ⟨hundredths / 10 ^ 2, TimeUnit.fitting |us|⟩ := by
  have hwritten : Amount.WrittenAs ⟨hundredths / 10 ^ 2, TimeUnit.fitting |us|⟩ text :=
    ⟨number, hwrites, htext⟩
  have hreaches : |us| < 1000000 → (1000 ≤ |(hundredths / 10 ^ 2 : ℚ)| ↔ RoundsUp us) := by
    intro hlt
    have hiff := hnearest.le_abs_rounded_iff (n := 1000) two_pos
    have hhalf : ((1000 : ℕ) - 1 / (2 * 10 ^ 2) : ℚ) = 999.995 := by norm_num
    rw [hhalf, h.roundsUp_iff hlt] at hiff
    exact_mod_cast hiff
  have hone : 1000 ≤ |us| → 1 ≤ |(hundredths / 10 ^ 2 : ℚ)| := by
    intro hle
    have hiff := hnearest.le_abs_rounded_iff (n := 1) two_pos
    have hlow := h.one_le hle
    rw [Nat.cast_one] at hiff
    exact hiff.mpr (by norm_num; linarith)
  constructor
  case writes => exact fun b => ⟨fun hb => hb.unique hwritten, fun hb => hb ▸ hwritten⟩
  case unit_eq => rfl
  case nearest => exact ⟨hundredths, rfl, hnearest⟩
  case fitsUnit_iff =>
    unfold Amount.FitsUnit
    rcases TimeUnit.fitting_cases |us| with ⟨hlt, hunit⟩ | ⟨hle, hlt, hunit⟩ | ⟨hle, hunit⟩ <;>
      rw [hunit]
    · rw [← hreaches (by linarith), not_le]
    · rw [← hreaches hlt, not_le]
      exact and_iff_right (hone hle)
    · exact iff_of_true (hone (by linarith)) (not_roundsUp hle)
  case thousand =>
    intro hup
    have hlt : |us| < 1000000 := by
      rcases hup with ⟨-, hlt⟩ | ⟨-, hlt⟩ <;> linarith
    have hle := hnearest.abs_rounded_le (n := 1000) (by exact_mod_cast h.le_thousand hlt)
    exact le_antisymm (by exact_mod_cast hle) ((hreaches hlt).mpr hup)

/-- The text of an exact number writes a number that is nearest to it. -/
theorem Decimal.writes_fixedExact {places : ℕ} (hplaces : 0 < places) (x : ℚ) :
    ∃ units : ℤ, Writes places (fixedExact places x).toList (units / 10 ^ places) ∧
      IsNearest places x units := by
  have hvalue : (if decide (x < 0) = true then -1 else 1) * (x.num.natAbs / x.den : ℚ) = x := by
    have hmagnitude : (x.num.natAbs / x.den : ℚ) = |x| := by
      rw [Nat.cast_natAbs, Int.cast_abs, ← Nat.abs_cast x.den, ← abs_div, Rat.num_div_den]
    rw [hmagnitude]
    rcases lt_or_ge x 0 with hneg | hnonneg
    · rw [decide_eq_true hneg, if_pos rfl, abs_of_neg hneg, neg_one_mul, neg_neg]
    · rw [decide_eq_false (not_lt.mpr hnonneg), if_neg Bool.false_ne_true,
        abs_of_nonneg hnonneg, one_mul]
  obtain ⟨units, hwrites, hnearest⟩ :=
    writes_fixedQuotient hplaces (decide (x < 0)) x.num.natAbs x.den_pos
  rw [hvalue] at hnearest
  unfold fixedExact
  rw [String.toList_ofList]
  exact ⟨units, hwrites, hnearest⟩

/-- Exact durations and doubles are shown in the unit that their number fits, unless they round up
to a thousand of it. -/
theorem durations_shown :
    (∀ us : ℚ, ∃ a,
      ShowsDuration us ((TimeUnit.fitting |us|).express us) (showExactDuration us) a) ∧
    ∀ us : Float, us.isFinite = true → ∃ a,
      ShowsDuration (toRat us) (toRat ((TimeUnit.fitting us.abs).express us))
        (showDuration us) a := by
  constructor
  · intro us
    obtain ⟨hundredths, hwrites, hnearest⟩ :=
      Decimal.writes_fixedExact two_pos ((TimeUnit.fitting |us|).express us)
    exact ⟨_, (AmountsTo.express us).shows hwrites hnearest String.toList_append⟩
  · intro us h
    obtain ⟨hundredths, hwrites, hnearest⟩ :=
      Decimal.writes_fixed two_pos (isFinite_express h (TimeUnit.fitting us.abs))
    refine ⟨_, (AmountsTo.toRat_express h).shows hwrites hnearest ?_⟩
    unfold showDuration
    rw [isNaN_of_isFinite h, ← TimeUnit.fitting_abs h]
    exact String.toList_append

/-- The duration of 999.999 milliseconds rounds up, and is shown as a thousand of them. -/
theorem durations_shown_thousandMillis : (999999.0 : Float).isFinite = true ∧ ∃ a,
    ShowsDuration (toRat 999999.0)
      (toRat ((TimeUnit.fitting (999999.0 : Float).abs).express 999999.0))
      (showDuration 999999.0) a ∧ a = ⟨1000, .millis⟩ := by
  have htext : (showDuration 999999.0).toList = Decimal.ofUnits 2 false 100000 ++ ['m', 's'] := by
    decide +kernel
  obtain ⟨a, ha⟩ := durations_shown.2 999999.0 rfl
  have hwrites := Decimal.writes_ofUnits two_pos false 100000
  refine ⟨rfl, a, ha, ((ha.writes ⟨1000, .millis⟩).mp ⟨_, ?_, htext⟩).symm⟩
  norm_num at hwrites
  exact hwrites

/-- The duration of 999.999 microseconds is shown as a thousand of them, which is not below a
thousand. -/
theorem thousandMicros_not_fitsUnit :
    showExactDuration 999.999 = "1000.00μs" ∧ showDuration 999.999 = "1000.00μs" ∧
      Amount.WrittenAs ⟨1000, .micros⟩ "1000.00μs" ∧ ¬ Amount.FitsUnit ⟨1000, .micros⟩ := by
  have htext : "1000.00μs".toList = Decimal.ofUnits 2 false 100000 ++ ['μ', 's'] := by
    decide +kernel
  have hwrites := Decimal.writes_ofUnits two_pos false 100000
  refine ⟨by decide +kernel, by decide +kernel, ⟨_, ?_, htext⟩, ?_⟩
  · norm_num at hwrites
    exact hwrites
  · unfold Amount.FitsUnit
    norm_num

end LedgerBench
