import LedgerBench.Proofs.Double.Arithmetic

/-!
# How far doubles can be off

What the statistics need to know about doubles, once every operation rounds: rounding keeps bounds
that fit the precision (`RoundsTo.abs_toRat_le`) and is off by at most one part in `2 ^ 52`
(`RoundsTo.abs_sub_le`), neighbouring doubles are as far apart as their exponent tells
(`Representable.le_of_lt`), the whole part of a double is not above its value (`wholePart_le`), and
not-a-number does not come up where one operand is finite. The last needs no bound: a sum that
overflows is an infinity, and an infinity with a finite double is one again.
-/

namespace LedgerBench

open Float.Model (UnpackedFloat Format totalExponent)
open Float.Model.UnpackedFloat (Sign Accuracy ExtendedMantissa)

/-! ## Bounds -/

/-- Rounding keeps a bound that fits the precision. -/
theorem RoundsTo.abs_toRat_le {q b : ℚ} {x : Float} (h : RoundsTo q x) (hb : Representable b)
    (hq : |q| ≤ b) : |toRat x| ≤ b := by
  obtain ⟨hlow, hhigh⟩ := abs_le.mp hq
  exact abs_le.mpr ⟨h.nearest.ge_of_ge hb.neg hlow, h.nearest.le_of_le hb hhigh⟩

/-- Rounding keeps the sign, so the magnitude is rounded likewise. -/
theorem NearestTo.abs {q y : ℚ} (h : NearestTo q y) : NearestTo |q| |y| := by
  rcases le_total 0 q with hq | hq
  · rwa [abs_of_nonneg hq, abs_of_nonneg (h.ge_of_ge .zero hq)]
  · rw [abs_of_nonpos hq, abs_of_nonpos (h.le_of_le .zero hq)]
    exact h.neg

/-- What lies above the middle of two numbers, of which the larger one fits the precision, is not
rounded to the smaller one or below it. -/
theorem NearestTo.lt_of_middle_lt {q y z z' : ℚ} (h : NearestTo q y) (hz' : Representable z')
    (hlt : z < z') (hmiddle : z + z' < 2 * q) : z < y := by
  rcases le_or_gt z' q with hle | hgt
  · exact hlt.trans_le (h.ge_of_ge hz' hle)
  · have hnear := h.abs_sub_le z' hz'
    rw [abs_of_pos (sub_pos.mpr hgt)] at hnear
    have hbelow := neg_le_of_abs_le hnear
    linarith

/-- No number that fits the precision lies between two neighbouring multiples of a power of two by
integers of 53 bits. -/
theorem Representable.le_of_lt {y : ℚ} (h : Representable y) {n e : ℤ} (hn : 2 ^ 52 ≤ n)
    (hlt : y < (n + 1) * 2 ^ e) : y ≤ n * 2 ^ e := by
  obtain ⟨k, j, hk, hj, rfl⟩ := h
  have hpow : (0 : ℚ) < 2 ^ e := by positivity
  rcases le_or_gt e j with hej | hej
  · -- the number is such a multiple itself
    obtain ⟨i, rfl⟩ := Int.le.dest hej
    have hsplit : (k : ℚ) * 2 ^ (e + i) = (k * 2 ^ i : ℤ) * 2 ^ e := by
      rw [zpow_add₀ two_ne_zero, zpow_natCast]
      push_cast
      ring
    rw [hsplit] at hlt ⊢
    have hmultiple : ((k * 2 ^ i : ℤ) : ℚ) < (n + 1 : ℤ) := by
      rw [Int.cast_add, Int.cast_one]
      exact lt_of_mul_lt_mul_right hlt hpow.le
    have hle : k * 2 ^ i ≤ n := Int.lt_add_one_iff.mp (by exact_mod_cast hmultiple)
    exact mul_le_mul_of_nonneg_right (by exact_mod_cast hle) hpow.le
  · -- with a smaller power of two all numbers lie below
    have hk' : (k : ℚ) ≤ 2 ^ 53 := by exact_mod_cast (le_abs_self k).trans hk
    have hn' : (2 : ℚ) ^ 52 ≤ n := by exact_mod_cast hn
    have hhalf : (2 : ℚ) ^ j ≤ 2 ^ (e - 1) := zpow_le_zpow_right₀ one_le_two (by omega)
    calc (k : ℚ) * 2 ^ j ≤ 2 ^ 53 * 2 ^ (e - 1) :=
          mul_le_mul hk' hhalf (by positivity) (by positivity)
      _ = 2 ^ 52 * 2 ^ e := by
          rw [zpow_sub_one₀ two_ne_zero]
          ring
      _ ≤ n * 2 ^ e := mul_le_mul_of_nonneg_right hn' hpow.le

/-- Near every number from one on there is one that fits the precision. -/
theorem exists_representable_near {q : ℚ} (hq : 1 ≤ q) :
    ∃ y, Representable y ∧ |y - q| ≤ q / 2 ^ 52 := by
  have hpos : 0 < q := lt_of_lt_of_le one_pos hq
  have hlow : (2 : ℚ) ^ Int.log 2 q ≤ q := by exact_mod_cast Int.zpow_log_le_self one_lt_two hpos
  have hhigh : q < (2 : ℚ) ^ (Int.log 2 q + 1) := by
    exact_mod_cast Int.lt_zpow_succ_log_self one_lt_two q
  have hlog : 0 ≤ Int.log 2 q := by
    rw [← Int.zpow_le_iff_le_log one_lt_two hpos]
    simpa using hq
  generalize Int.log 2 q = l at *
  -- the number is cut off after 53 bits
  have hunit : (0 : ℚ) < 2 ^ (l - 52) := by positivity
  have hsplit : (2 : ℚ) ^ l = 2 ^ 52 * 2 ^ (l - 52) := by
    rw [← zpow_natCast, ← zpow_add₀ two_ne_zero]
    congr 1
    push_cast
    ring
  have hfloor := Int.floor_le (q / 2 ^ (l - 52))
  have hfloor' := Int.lt_floor_add_one (q / 2 ^ (l - 52))
  rw [le_div_iff₀ hunit] at hfloor
  rw [div_lt_iff₀ hunit] at hfloor'
  refine ⟨⌊q / 2 ^ (l - 52)⌋ * 2 ^ (l - 52), ⟨_, _, ?_, by omega, rfl⟩, ?_⟩
  · have hnonneg : 0 ≤ ⌊q / 2 ^ (l - 52)⌋ := Int.floor_nonneg.mpr (by positivity)
    have hlt : q / 2 ^ (l - 52) < 2 ^ 53 := by
      rw [div_lt_iff₀ hunit]
      calc q < 2 ^ (l + 1) := hhigh
        _ = 2 ^ 53 * 2 ^ (l - 52) := by
          rw [zpow_add₀ two_ne_zero, hsplit, zpow_one]
          ring
    rw [abs_of_nonneg hnonneg]
    have hbits : ⌊q / 2 ^ (l - 52)⌋ < 2 ^ 53 := Int.floor_lt.mpr (by exact_mod_cast hlt)
    exact hbits.le
  · rw [abs_sub_comm, abs_of_nonneg (by linarith)]
    have hunit' : (2 : ℚ) ^ (l - 52) ≤ q / 2 ^ 52 := by
      rw [le_div_iff₀ (by positivity), mul_comm, ← hsplit]
      exact hlow
    linarith

/-- Rounding a number from one on is off by at most one part in `2 ^ 52`. -/
theorem RoundsTo.abs_sub_le {q : ℚ} {x : Float} (h : RoundsTo q x) (hq : 1 ≤ q) :
    |toRat x - q| ≤ q / 2 ^ 52 := by
  obtain ⟨y, hy, hnear⟩ := exists_representable_near hq
  exact le_trans (h.nearest.abs_sub_le y hy) hnear

/-- The double is finite and so small that differences and products of few such doubles do not
overflow. -/
structure IsBounded (x : Float) : Prop where
  /-- It is finite. -/
  isFinite : x.isFinite = true
  /-- It is far below the largest double. -/
  abs_le : |toRat x| ≤ 2 ^ 65

/-- What is rounded from a number within the bound is within it. -/
theorem RoundsTo.isBounded {q : ℚ} {x : Float} (h : RoundsTo q x) (hq : |q| ≤ 2 ^ 65) :
    IsBounded x :=
  ⟨h.isFinite, h.abs_toRat_le (Representable.two_zpow (e := 65) (by norm_num)) hq⟩

/-- The difference of two such doubles is finite. -/
theorem IsBounded.isFinite_sub {x y : Float} (hx : IsBounded x) (hy : IsBounded y) :
    (x - y).isFinite = true := by
  have hlarge : (2 : ℚ) ^ 66 ≤ 2 ^ 1023 := pow_le_pow_right₀ one_le_two (by norm_num)
  refine (RoundsTo.sub hx.isFinite hy.isFinite ?_).isFinite
  calc |toRat x - toRat y| ≤ |toRat x| + |toRat y| := abs_sub _ _
    _ ≤ 2 ^ 65 + 2 ^ 65 := add_le_add hx.abs_le hy.abs_le
    _ = 2 ^ 66 := by norm_num
    _ ≤ 2 ^ 1023 := hlarge

/-- Whole numbers keep their order when they are rounded. -/
theorem ofInt_le_ofInt {m n : ℤ} (hm : |m| ≤ 2 ^ 1023) (hn : |n| ≤ 2 ^ 1023) (h : m ≤ n) :
    Float.ofInt m ≤ Float.ofInt n := by
  have hrounds := roundsTo_ofInt hm
  have hrounds' := roundsTo_ofInt hn
  rw [le_iff_toRat_le hrounds.isFinite hrounds'.isFinite]
  rcases h.eq_or_lt with rfl | hlt
  · exact le_rfl
  · exact hrounds.nearest.le_of_lt hrounds'.nearest (by exact_mod_cast hlt)

/-! ## Whole parts -/

/-- The whole part of a positive magnitude is not above it. -/
theorem roundToInt_le (m : ℕ) (e : ℤ) :
    ((UnpackedFloat.roundToInt .positive m e : ℤ) : ℚ) ≤ m * 2 ^ e := by
  unfold UnpackedFloat.roundToInt UnpackedFloat.decreaseExponent UnpackedFloat.shiftToExponent
  dsimp only
  rw [sub_zero]
  have hshift := shiftLeft_mul_zpow m e.toNat e
  have hstands := (StandsFor.exact (m <<< e.toNat)).shiftRight (0 - (e - e.toNat)).toNat
  have hle := hstands.le
  have hexponent : e - e.toNat = -((0 - (e - e.toNat)).toNat : ℤ) := by omega
  rw [div_eq_mul_inv, ← zpow_natCast, ← zpow_neg, ← hexponent, hshift] at hle
  exact_mod_cast hle

/-- A count that is cut to a machine word does not become larger. -/
theorem toNat_ofNatClamp_le (n : ℕ) : (UInt64.ofNatClamp n).toNat ≤ n := by
  unfold UInt64.ofNatClamp
  split
  · exact le_rfl
  · rename_i hlarge
    have hmax : UInt64.size - 1 ≤ n := by omega
    exact hmax

/-- The whole part of a double that is not negative is not above its value. -/
theorem wholePart_le {x : Float} (hx : x.isFinite = true) (h : 0 ≤ toRat x) :
    (Scalar.wholePart x : ℚ) ≤ toRat x := by
  have hfinite : (parts x).isFinite = true := hx
  have hclamp : Scalar.wholePart x ≤ ((parts x).toInt 0 (UInt64.size - 1)).toNat :=
    toNat_ofNatClamp_le _
  have hclamp' : (Scalar.wholePart x : ℚ) ≤ (((parts x).toInt 0 (UInt64.size - 1)).toNat : ℕ) := by
    exact_mod_cast hclamp
  refine le_trans hclamp' ?_
  unfold toRat at h ⊢
  cases hparts : parts x with
  | notANumber => rw [hparts] at hfinite; cases hfinite
  | infinity s => rw [hparts] at hfinite; cases hfinite
  | zero s => exact le_rfl
  | finite s m e hm =>
    have hmagnitude : (0 : ℚ) < m * 2 ^ e := by positivity
    cases s with
    | negative =>
      rw [hparts] at h
      have hneg : value (.finite .negative m e hm) < 0 := neg_lt_zero.mpr hmagnitude
      exact absurd h (not_le_of_gt hneg)
    | positive =>
      have hround : ((UnpackedFloat.roundToInt .positive m e).toNat : ℤ) =
          UnpackedFloat.roundToInt .positive m e := Int.toNat_of_nonneg (Int.natCast_nonneg _)
      have hround' : ((UnpackedFloat.roundToInt .positive m e).toNat : ℚ) =
          (UnpackedFloat.roundToInt .positive m e : ℤ) := by exact_mod_cast hround
      exact hround'.trans_le (roundToInt_le m e)

/-! ## Not-a-number -/

/-- A double is not-a-number if its parts are. -/
theorem isNaN_eq_false_iff {x : Float} : x.isNaN = false ↔ parts x ≠ .notANumber := by
  have hnan : x.isNaN = true ↔ parts x = .notANumber := UnpackedFloat.isNaN_iff
  rw [← Bool.not_eq_true, hnan]

/-- A finite double is not not-a-number. -/
theorem isNaN_of_isFinite {x : Float} (h : x.isFinite = true) : x.isNaN = false := by
  have hfinite : (parts x).isFinite = true := h
  rw [isNaN_eq_false_iff]
  intro hparts
  rw [hparts] at hfinite
  cases hfinite

/-- Parts with the precision of doubles are not not-a-number. -/
theorem Precise.ne_notANumber {u : UnpackedFloat} (h : Precise u) : u ≠ .notANumber := by
  rintro rfl
  exact h

section NotANumber

variable {x y : Float}

/-- Parts that are not finite, and not not-a-number, are an infinity. -/
theorem isFinite_or_eq_infinity (hx : x.isNaN = false) :
    x.isFinite = true ∨ ∃ s, parts x = .infinity s := by
  rw [isNaN_eq_false_iff] at hx
  cases hparts : parts x with
  | notANumber => exact absurd hparts hx
  | infinity s => exact .inr ⟨s, rfl⟩
  | zero s =>
    left
    change (parts x).isFinite = true
    rw [hparts]
    rfl
  | finite s m e hm =>
    left
    change (parts x).isFinite = true
    rw [hparts]
    rfl

/-- Adding a finite double does not give not-a-number. -/
theorem isNaN_add (hx : x.isNaN = false) (hy : y.isFinite = true) : (x + y).isNaN = false := by
  rw [isNaN_eq_false_iff]
  apply parts_ofParts_ne_notANumber
  change UnpackedFloat.add .binary64 (parts x) (parts y) ≠ .notANumber
  have hprecise := (precise_parts hy).1
  rcases isFinite_or_eq_infinity hx with hfinite | ⟨s, hs⟩
  · exact (add_spec (precise_parts hfinite).1 hprecise).1.ne_notANumber
  · rw [hs]
    cases hparts : parts y with
    | notANumber => rw [hparts] at hprecise; exact absurd hprecise id
    | infinity t => rw [hparts] at hprecise; exact absurd hprecise id
    | zero t => exact UnpackedFloat.noConfusion
    | finite t m e hm => exact UnpackedFloat.noConfusion

/-- Adding to a finite double does not give not-a-number. -/
theorem isNaN_add' (hx : x.isFinite = true) (hy : y.isNaN = false) : (x + y).isNaN = false := by
  rw [isNaN_eq_false_iff]
  apply parts_ofParts_ne_notANumber
  change UnpackedFloat.add .binary64 (parts x) (parts y) ≠ .notANumber
  have hprecise := (precise_parts hx).1
  rcases isFinite_or_eq_infinity hy with hfinite | ⟨s, hs⟩
  · exact (add_spec hprecise (precise_parts hfinite).1).1.ne_notANumber
  · rw [hs]
    cases hparts : parts x with
    | notANumber => rw [hparts] at hprecise; exact absurd hprecise id
    | infinity t => rw [hparts] at hprecise; exact absurd hprecise id
    | zero t => exact UnpackedFloat.noConfusion
    | finite t m e hm => exact UnpackedFloat.noConfusion

/-- Multiplying finite doubles does not give not-a-number, even if the product overflows. -/
theorem isNaN_mul (hx : x.isFinite = true) (hy : y.isFinite = true) : (x * y).isNaN = false := by
  rw [isNaN_eq_false_iff]
  apply parts_ofParts_ne_notANumber
  exact (mul_spec (precise_parts hx).1 (precise_parts hy).1).1.ne_notANumber

/-- Dividing by a finite double that is not zero does not give not-a-number. -/
theorem isNaN_div (hx : x.isNaN = false) (hy : y.isFinite = true) (hne : toRat y ≠ 0) :
    (x / y).isNaN = false := by
  rw [isNaN_eq_false_iff]
  apply parts_ofParts_ne_notANumber
  change UnpackedFloat.div .binary64 (parts x) (parts y) ≠ .notANumber
  have hprecise := (precise_parts hy).1
  rcases isFinite_or_eq_infinity hx with hfinite | ⟨s, hs⟩
  · exact (div_spec (precise_parts hfinite).1 hprecise hne).1.ne_notANumber
  · unfold toRat at hne
    rw [hs]
    cases hparts : parts y with
    | notANumber => rw [hparts] at hprecise; exact absurd hprecise id
    | infinity t => rw [hparts] at hprecise; exact absurd hprecise id
    | zero t => rw [hparts] at hne; exact absurd rfl hne
    | finite t m e hm => exact UnpackedFloat.noConfusion

end NotANumber

end LedgerBench
