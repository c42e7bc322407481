import LedgerBench.Proofs.Double.Value

/-!
# Arithmetic of doubles

Every operation on doubles rounds the exact result once. For parts with the precision of doubles
`add_spec`, `sub_spec`, `mul_spec` and `div_spec` say that the result has this precision as well and
is nearest to the sum, difference, product or quotient of the values. For finite doubles this
becomes `RoundsTo.sub` and its like, under a bound that excludes overflow.

The proofs bring the exact result into the form that `roundWithAccuracy` takes, an integer times a
power of two that is not above the exponent to which it is rounded. Sums are integers in units of
the smaller power. A product of mantissas has enough bits already. A quotient is taken with so many
bits that the remainder decides the rounding (`le_targetExponent_div`).
-/

namespace LedgerBench

open Float.Model (UnpackedFloat Format totalExponent)
open Float.Model.UnpackedFloat (Sign Accuracy ExtendedMantissa)

/-! ## Integers times powers of two -/

/-- Shifting to the left appends binary digits. -/
theorem log2_shiftLeft {m : ℕ} (hm : 0 < m) (k : ℕ) : (m <<< k).log2 = m.log2 + k := by
  have hlow : 2 ^ m.log2 ≤ m := Nat.log2_self_le (Nat.ne_of_gt hm)
  have hhigh : m < 2 ^ (m.log2 + 1) := Nat.lt_log2_self
  rw [Nat.shiftLeft_eq, Nat.log2_eq_iff (Nat.ne_of_gt (Nat.mul_pos hm (Nat.two_pow_pos k)))]
  constructor
  · rw [pow_add]
    exact Nat.mul_le_mul_right _ hlow
  · rw [add_right_comm, pow_add]
    exact Nat.mul_lt_mul_of_pos_right hhigh (Nat.two_pow_pos k)

/-- Moving bits from the exponent to the mantissa keeps the value. -/
theorem shiftLeft_mul_zpow (m k : ℕ) (e : ℤ) :
    ((m <<< k : ℕ) : ℚ) * 2 ^ (e - k) = m * 2 ^ e := by
  rw [Nat.shiftLeft_eq, zpow_sub₀ two_ne_zero, zpow_natCast]
  push_cast
  field_simp

/-- The sign of an integer is that of its value. -/
theorem signed_mul_zpow (s : Sign) (m : ℕ) (e : ℤ) :
    signed s (m * 2 ^ e) = (s.apply m : ℤ) * 2 ^ e := by
  cases s with
  | negative =>
    change -((m : ℚ) * 2 ^ e) = ((-(m : ℤ) : ℤ) : ℚ) * 2 ^ e
    push_cast
    ring
  | positive => rfl

/-- A mantissa with at most the bits that its exponent allows is rounded from the value that it
stands for. -/
theorem round_spec (s : Sign) {m : ℕ} (hm : 0 < m) (e : ℤ) :
    Precise (UnpackedFloat.round .binary64 s m e) ∧
      NearestTo (signed s (m * 2 ^ e)) (value (UnpackedFloat.round .binary64 s m e)) := by
  unfold UnpackedFloat.round UnpackedFloat.decreaseExponent
  dsimp only
  generalize hk : (e - Format.binary64.targetExponent (totalExponent m e)).toNat = k
  have htarget : e - k ≤ Format.binary64.targetExponent (totalExponent (m <<< k) (e - k)) := by
    rw [targetExponent_eq] at hk ⊢
    rw [log2_shiftLeft hm]
    omega
  have hspec := roundWithAccuracy_spec (s := s) (StandsFor.exact (m <<< k)) htarget
  rwa [shiftLeft_mul_zpow] at hspec

/-- An integer times a power of two is rounded from its value. -/
theorem normalize_spec (n e : ℤ) (s : Sign) :
    Precise (UnpackedFloat.normalize .binary64 n e s) ∧
      NearestTo (n * 2 ^ e) (value (UnpackedFloat.normalize .binary64 n e s)) := by
  unfold UnpackedFloat.normalize
  rcases lt_trichotomy n 0 with hlt | rfl | hgt
  · rw [compare_lt_iff_lt.mpr hlt]
    obtain ⟨m, rfl⟩ : ∃ m : ℕ, n = -m := ⟨n.natAbs, by omega⟩
    have hspec := round_spec .negative (m := m) (by omega) e
    rw [signed_mul_zpow] at hspec
    rw [neg_neg, Int.toNat_natCast]
    exact hspec
  · rw [compare_eq_iff_eq.mpr rfl]
    refine ⟨trivial, ?_⟩
    rw [Int.cast_zero, zero_mul]
    exact .refl ⟨0, 0, by norm_num, by norm_num, by simp⟩
  · rw [compare_gt_iff_gt.mpr hgt]
    obtain ⟨m, rfl⟩ : ∃ m : ℕ, n = m := ⟨n.natAbs, by omega⟩
    have hspec := round_spec .positive (m := m) (by omega) e
    rw [Int.toNat_natCast]
    exact hspec

/-- A value in units of a smaller power of two. -/
theorem value_finite_eq {s : Sign} {m : ℕ} {e t : ℤ} {hm : 0 < m} (ht : t ≤ e) :
    value (.finite s m e hm) =
      (s.apply ((UnpackedFloat.decreaseExponent m e t).1 : ℕ) : ℤ) * 2 ^ t := by
  have hshift := shiftLeft_mul_zpow m (e - t).toNat e
  have hexponent : e - ((e - t).toNat : ℕ) = t := by omega
  rw [hexponent] at hshift
  rw [← signed_mul_zpow]
  exact congrArg (signed s) hshift.symm

/-! ## Sums and differences -/

section Parts

variable {u v : UnpackedFloat}

/-- A value that fits the precision is rounded to itself. -/
theorem nearestTo_value (h : Precise u) : NearestTo (value u) (value u) :=
  .refl (representable_value h)

/-- A sum is rounded from the sum of the values. -/
theorem add_spec (hu : Precise u) (hv : Precise v) :
    Precise (UnpackedFloat.add .binary64 u v) ∧
      NearestTo (value u + value v) (value (UnpackedFloat.add .binary64 u v)) := by
  cases u with
  | notANumber => cases hu
  | infinity s => cases hu
  | zero s =>
    have hvalue : value (.zero s) + value v = value v := zero_add _
    rw [hvalue]
    cases v with
    | notANumber => cases hv
    | infinity t => cases hv
    | zero t =>
      have hzero : ∃ r, UnpackedFloat.add .binary64 (.zero s) (.zero t) = .zero r := by
        cases s <;> cases t <;> exact ⟨_, rfl⟩
      obtain ⟨r, hr⟩ := hzero
      rw [hr]
      exact ⟨trivial, nearestTo_value hv⟩
    | finite t m e hm => exact ⟨hv, nearestTo_value hv⟩
  | finite s m e hm =>
    cases v with
    | notANumber => cases hv
    | infinity t => cases hv
    | zero t =>
      have hvalue : value (.finite s m e hm) + value (.zero t) = value (.finite s m e hm) :=
        add_zero _
      rw [hvalue]
      exact ⟨hu, nearestTo_value hu⟩
    | finite t m' e' hm' =>
      -- both in units of the smaller power of two
      rw [value_finite_eq (min_le_left e e'), value_finite_eq (min_le_right e e'), ← add_mul,
        ← Int.cast_add]
      exact normalize_spec _ _ _

/-- The negative of a value is that of the other sign. -/
theorem value_neg_finite (s : Sign) {m : ℕ} (e : ℤ) (hm : 0 < m) :
    value (.finite (-s) m e hm) = -value (.finite s m e hm) := by
  cases s with
  | negative => exact (neg_neg _).symm
  | positive => rfl

/-- A difference is rounded from the difference of the values. -/
theorem sub_spec (hu : Precise u) (hv : Precise v) :
    Precise (UnpackedFloat.sub .binary64 u v) ∧
      NearestTo (value u - value v) (value (UnpackedFloat.sub .binary64 u v)) := by
  cases u with
  | notANumber => cases hu
  | infinity s => cases hu
  | zero s =>
    cases v with
    | notANumber => cases hv
    | infinity t => cases hv
    | zero t =>
      have hzero : ∃ r, UnpackedFloat.sub .binary64 (.zero s) (.zero t) = .zero r := by
        cases s <;> cases t <;> exact ⟨_, rfl⟩
      obtain ⟨r, hr⟩ := hzero
      have hvalue : value (.zero s) - value (.zero t) = value (.zero r) := sub_zero 0
      rw [hr, hvalue]
      exact ⟨trivial, nearestTo_value trivial⟩
    | finite t m e hm =>
      have hvalue : value (.zero s) - value (.finite t m e hm) = value (.finite (-t) m e hm) :=
        (zero_sub _).trans (value_neg_finite t e hm).symm
      have hprecise : Precise (.finite (-t) m e hm) := hv
      rw [hvalue]
      exact ⟨hprecise, nearestTo_value hprecise⟩
  | finite s m e hm =>
    cases v with
    | notANumber => cases hv
    | infinity t => cases hv
    | zero t =>
      have hvalue : value (.finite s m e hm) - value (.zero t) = value (.finite s m e hm) :=
        sub_zero _
      rw [hvalue]
      exact ⟨hu, nearestTo_value hu⟩
    | finite t m' e' hm' =>
      rw [value_finite_eq (min_le_left e e'), value_finite_eq (min_le_right e e'), ← sub_mul,
        ← Int.cast_sub]
      exact normalize_spec _ _ _

/-! ## Products and quotients -/

/-- The sign of a product is the product of the signs. -/
theorem signed_mul_signed (s t : Sign) (q q' : ℚ) :
    signed s q * signed t q' = signed (s * t) (q * q') := by
  cases s <;> cases t
  · exact neg_mul_neg q q'
  · exact neg_mul q q'
  · exact mul_neg q q'
  · rfl

/-- The product of finite parts, as an integer times a power of two. -/
theorem value_mul_finite (s t : Sign) {m n : ℕ} (e e' : ℤ) (hm : 0 < m) (hn : 0 < n) :
    value (.finite s m e hm) * value (.finite t n e' hn) =
      signed (s * t) ((m * n : ℕ) * 2 ^ (e + e')) := by
  refine (signed_mul_signed s t (m * 2 ^ e) (n * 2 ^ e')).trans (congrArg _ ?_)
  rw [zpow_add₀ two_ne_zero]
  push_cast
  ring

/-- A product of mantissas has 53 bits unless both numbers have the least exponent. -/
theorem le_targetExponent_mul {m n : ℕ} {e e' : ℤ} (hm : 0 < m) (hn : 0 < n) (he : -1074 ≤ e)
    (hfull : 2 ^ 52 ≤ m ∨ e = -1074) (hfull' : 2 ^ 52 ≤ n ∨ e' = -1074) (he' : -1074 ≤ e') :
    e + e' ≤ Format.binary64.targetExponent (totalExponent (m * n) (e + e')) := by
  rw [targetExponent_eq]
  by_cases hsmall : e + e' ≤ -1074
  · omega
  · have hprod : 2 ^ 52 ≤ m * n := by
      rcases hfull with hfull | rfl
      · exact le_trans hfull (Nat.le_mul_of_pos_right m hn)
      · rcases hfull' with hfull' | rfl
        · exact le_trans hfull' (Nat.le_mul_of_pos_left n hm)
        · omega
    have hlog : 52 ≤ (m * n).log2 := (Nat.le_log2 (Nat.ne_of_gt (Nat.mul_pos hm hn))).mpr hprod
    omega

/-- A product is rounded from the product of the values. -/
theorem mul_spec (hu : Precise u) (hv : Precise v) :
    Precise (UnpackedFloat.mul .binary64 u v) ∧
      NearestTo (value u * value v) (value (UnpackedFloat.mul .binary64 u v)) := by
  cases u with
  | notANumber => cases hu
  | infinity s => cases hu
  | zero s =>
    have hvalue : value (.zero s) * value v = value (.zero s) := zero_mul _
    rw [hvalue]
    cases v with
    | notANumber => cases hv
    | infinity t => cases hv
    | zero t => exact ⟨trivial, nearestTo_value hu⟩
    | finite t m e hm => exact ⟨trivial, nearestTo_value hu⟩
  | finite s m e hm =>
    cases v with
    | notANumber => cases hv
    | infinity t => cases hv
    | zero t =>
      have hvalue : value (.finite s m e hm) * value (.zero t) = value (.zero t) := mul_zero _
      rw [hvalue]
      exact ⟨trivial, nearestTo_value hv⟩
    | finite t m' e' hm' =>
      obtain ⟨-, hleast, hfull⟩ := hu
      obtain ⟨-, hleast', hfull'⟩ := hv
      have htarget := le_targetExponent_mul hm hm' hleast hfull hfull' hleast'
      rw [value_mul_finite]
      exact roundWithAccuracy_spec (StandsFor.exact (m * m')) htarget

/-- The bits of a quotient of mantissas: their numbers of bits differ by at most one more. -/
theorem le_log2_div {m n k : ℕ} (hm : 0 < m) (hn : 0 < n) (h : n.log2 + k + 1 ≤ m.log2) :
    k ≤ (m / n).log2 := by
  have hlow : 2 ^ m.log2 ≤ m := Nat.log2_self_le (Nat.ne_of_gt hm)
  have hhigh : n < 2 ^ (n.log2 + 1) := Nat.lt_log2_self
  have hquotient : 2 ^ k ≤ m / n := by
    rw [Nat.le_div_iff_mul_le hn]
    calc 2 ^ k * n ≤ 2 ^ k * 2 ^ (n.log2 + 1) := Nat.mul_le_mul_left _ hhigh.le
      _ = 2 ^ (n.log2 + k + 1) := by rw [← pow_add]; congr 1; omega
      _ ≤ 2 ^ m.log2 := Nat.pow_le_pow_right two_pos h
      _ ≤ m := hlow
  have hne : m / n ≠ 0 := Nat.ne_of_gt (lt_of_lt_of_le (Nat.two_pow_pos k) hquotient)
  exact (Nat.le_log2 hne).mpr hquotient

/-- The sign of a quotient is the quotient of the signs. -/
theorem signed_div_signed (s t : Sign) (q q' : ℚ) :
    signed s q / signed t q' = signed (s / t) (q / q') := by
  cases s <;> cases t
  · exact neg_div_neg_eq q q'
  · exact neg_div q' q
  · exact div_neg q
  · rfl

/-- The quotient of finite parts, with the mantissa of the dividend shifted to the left. -/
theorem value_div_finite (s t : Sign) {m n : ℕ} (e e' : ℤ) (hm : 0 < m) (hn : 0 < n) (k : ℕ) :
    value (.finite s m e hm) / value (.finite t n e' hn) =
      signed (s / t) (((m <<< k : ℕ) / n : ℚ) * 2 ^ (e - e' - k)) := by
  refine (signed_div_signed s t (m * 2 ^ e) (n * 2 ^ e')).trans (congrArg _ ?_)
  have hn' : (n : ℚ) ≠ 0 := by exact_mod_cast Nat.ne_of_gt hn
  have hpow : (2 : ℚ) ^ e' ≠ 0 := by positivity
  rw [div_mul_eq_mul_div, shiftLeft_mul_zpow, zpow_sub₀ two_ne_zero]
  field_simp

/-- The exponent for which a quotient of mantissas is taken: either it is the least one, or the
quotient has 53 bits at least. -/
def quotientExponent (m n : ℕ) (e e' : ℤ) : ℤ :=
  min (e - e') (max ((m.log2 : ℤ) + e - (n.log2 + e') - 53) (-1074))

/-- The exponent that a division chooses before it rounds. -/
theorem quotientExponent_eq (m n : ℕ) (e e' : ℤ) :
    min (e - e') (Format.binary64.targetExponent (totalExponent m e - totalExponent n e')) =
      quotientExponent m n e e' := by
  have hbits : (Format.binary64.mantissaBits : ℤ) = 53 := rfl
  have hleast : Format.binary64.minExponent = -1074 := rfl
  unfold quotientExponent Format.targetExponent totalExponent
  rw [hbits, hleast]
  omega

/-- A quotient that is taken for this exponent has bits enough to be rounded. -/
theorem le_targetExponent_div {m n k : ℕ} {e e' : ℤ} (hm : 0 < m) (hn : 0 < n)
    (hk : (e - e' - quotientExponent m n e e').toNat = k) :
    quotientExponent m n e e' ≤ Format.binary64.targetExponent
      (totalExponent (m <<< k / n) (quotientExponent m n e e')) := by
  have hshifted : 0 < m <<< k := by
    rw [Nat.shiftLeft_eq]
    positivity
  rw [targetExponent_eq]
  unfold quotientExponent at hk ⊢
  by_cases hsmall : min (e - e') (max ((m.log2 : ℤ) + e - (n.log2 + e') - 53) (-1074)) ≤ -1074
  · omega
  · have hlog : 52 ≤ (m <<< k / n).log2 := by
      refine le_log2_div hshifted hn ?_
      rw [log2_shiftLeft hm]
      omega
    omega

/-- A quotient is rounded from the quotient of the values. -/
theorem div_spec (hu : Precise u) (hv : Precise v) (hne : value v ≠ 0) :
    Precise (UnpackedFloat.div .binary64 u v) ∧
      NearestTo (value u / value v) (value (UnpackedFloat.div .binary64 u v)) := by
  cases v with
  | notANumber => cases hv
  | infinity t => cases hv
  | zero t => exact absurd rfl hne
  | finite t n e' hn =>
    cases u with
    | notANumber => cases hu
    | infinity s => cases hu
    | zero s =>
      have hvalue : value (.zero s) / value (.finite t n e' hn) = value (.zero s) := zero_div _
      rw [hvalue]
      exact ⟨trivial, nearestTo_value hu⟩
    | finite s m e hm =>
      unfold UnpackedFloat.div UnpackedFloat.divCore
      dsimp only
      rw [quotientExponent_eq]
      generalize hk : (e - e' - quotientExponent m n e e').toNat = k
      have hbits := le_targetExponent_div hm hn hk
      have hexponent : e - e' - k = quotientExponent m n e e' := by
        have hle : quotientExponent m n e e' ≤ e - e' := min_le_left _ _
        omega
      rw [value_div_finite s t e e' hm hn k, hexponent]
      exact roundWithAccuracy_spec (StandsFor.fraction (m <<< k) n hn) hbits

end Parts

/-! ## Doubles -/

namespace RoundsTo

variable {x y : Float}

/-- The difference of finite doubles is rounded from the difference of their values. -/
theorem sub (hx : x.isFinite = true) (hy : y.isFinite = true)
    (hbound : |toRat x - toRat y| ≤ 2 ^ 1023) : RoundsTo (toRat x - toRat y) (x - y) := by
  obtain ⟨hprecise, hnear⟩ := sub_spec (precise_parts hx).1 (precise_parts hy).1
  exact roundsTo_ofParts hprecise hnear hbound

/-- The product of finite doubles is rounded from the product of their values. -/
theorem mul (hx : x.isFinite = true) (hy : y.isFinite = true)
    (hbound : |toRat x * toRat y| ≤ 2 ^ 1023) : RoundsTo (toRat x * toRat y) (x * y) := by
  obtain ⟨hprecise, hnear⟩ := mul_spec (precise_parts hx).1 (precise_parts hy).1
  exact roundsTo_ofParts hprecise hnear hbound

/-- The quotient of finite doubles is rounded from the quotient of their values. -/
theorem div (hx : x.isFinite = true) (hy : y.isFinite = true) (hne : toRat y ≠ 0)
    (hbound : |toRat x / toRat y| ≤ 2 ^ 1023) : RoundsTo (toRat x / toRat y) (x / y) := by
  obtain ⟨hprecise, hnear⟩ := div_spec (precise_parts hx).1 (precise_parts hy).1 hne
  exact roundsTo_ofParts hprecise hnear hbound

end RoundsTo

/-! ## Integers -/

/-- The value of a double is that of its parts. -/
theorem toRat_of_parts_eq {x : Float} {m : ℕ} {e : ℤ} {hm : 0 < m}
    (h : parts x = .finite .positive m e hm) : toRat x = m * 2 ^ e := by
  unfold toRat
  rw [h]
  rfl

/-- The value of one. -/
theorem toRat_one : toRat 1.0 = 1 := by
  have hparts : parts 1.0 = .finite .positive (2 ^ 52) (-52) (by norm_num) := rfl
  rw [toRat_of_parts_eq hparts]
  norm_num

/-- The value of a thousand. -/
theorem toRat_thousand : toRat 1000.0 = 1000 := by
  have hparts : parts 1000.0 = .finite .positive (1000 * 2 ^ 43) (-43) (by norm_num) := rfl
  rw [toRat_of_parts_eq hparts]
  norm_num

/-- A count of at most 53 bits is converted as a machine word. -/
theorem ofNat_eq_toFloat {n : ℕ} (h : n < 2 ^ 53) : Float.ofNat n = n.toUInt64.toFloat * 1.0 := by
  change Float.ofScientific n false 0 = _
  unfold Float.ofScientific
  rw [dif_pos ⟨h, by norm_num⟩]
  rfl

/-- A number times a power of ten that is not converted at once is multiplied out with many more
bits and then rounded. -/
theorem exists_ofScientific_eq_ofParts {n k : ℕ} (hpos : 0 < n) (hslow : ¬(n < 2 ^ 53 ∧ k ≤ 22))
    (hk : k ≤ 2048) : ∃ u, Float.ofScientific n false k = ofParts u ∧ Precise u ∧
      NearestTo (n * 10 ^ k) (value u) := by
  refine ⟨UnpackedFloat.roundWithAccuracy .binary64 .positive (n <<< 53 * 10 ^ k) (-53 + 0) .exact,
    ?_, ?_⟩
  · have hsize : (2 : ℤ) ^ Format.binary64.exponentBits = 2048 := rfl
    have hsign : (if false = true then Int.negOfNat k else Int.ofNat k) = (k : ℤ) := rfl
    unfold Float.ofScientific
    rw [dif_neg hslow]
    dsimp only
    rw [hsign]
    change ofParts (UnpackedFloat.ofScientific .binary64 n k) = _
    unfold UnpackedFloat.ofScientific
    rw [dif_neg (by omega), hsize, if_neg (by omega), if_neg (by omega), if_pos (by omega)]
    rfl
  · have hshifted : n <<< 53 ≤ n <<< 53 * 10 ^ k := Nat.le_mul_of_pos_right _ (by positivity)
    have hlog : 53 ≤ (n <<< 53 * 10 ^ k).log2 := by
      have hlow : 2 ^ 53 ≤ n <<< 53 := by
        rw [Nat.shiftLeft_eq]
        exact Nat.le_mul_of_pos_left _ hpos
      exact (Nat.le_log2 (by omega)).mpr (hlow.trans hshifted)
    have htarget : (-53 + 0 : ℤ) ≤
        Format.binary64.targetExponent (totalExponent (n <<< 53 * 10 ^ k) (-53 + 0)) := by
      rw [targetExponent_eq]
      omega
    have hvalue : signed .positive (((n <<< 53 * 10 ^ k : ℕ) : ℚ) * 2 ^ (-53 + 0 : ℤ)) =
        n * 10 ^ k := by
      have hshift := shiftLeft_mul_zpow n 53 0
      rw [zpow_zero, mul_one, zero_sub] at hshift
      rw [add_zero, Nat.cast_mul, Nat.cast_pow, Nat.cast_ofNat, signed, mul_right_comm]
      exact congrArg (· * (10 : ℚ) ^ k) hshift
    rw [← hvalue]
    exact roundWithAccuracy_spec (StandsFor.exact (n <<< 53 * 10 ^ k)) htarget

/-- A larger count is converted with many more bits and then rounded. -/
theorem exists_ofNat_eq_ofParts {n : ℕ} (h : 2 ^ 53 ≤ n) :
    ∃ u, Float.ofNat n = ofParts u ∧ Precise u ∧ NearestTo n (value u) := by
  obtain ⟨u, hparts, hprecise, hnear⟩ :=
    exists_ofScientific_eq_ofParts (n := n) (k := 0) (by omega) (by omega) (by omega)
  rw [pow_zero, mul_one] at hnear
  exact ⟨u, hparts, hprecise, hnear⟩

/-- A count is rounded to a double. -/
theorem roundsTo_ofNat {n : ℕ} (h : n ≤ 2 ^ 1023) : RoundsTo n (Float.ofNat n) := by
  have hbound : |(n : ℚ)| ≤ 2 ^ 1023 := by
    rw [Nat.abs_cast]
    exact_mod_cast h
  by_cases hsmall : n < 2 ^ 53
  · have hword : n.toUInt64.toNat = n := by
      rw [Nat.toUInt64_eq, UInt64.toNat_ofNat']
      exact Nat.mod_eq_of_lt (by omega)
    obtain ⟨hprecise, hnear⟩ := normalize_spec (n.toUInt64.toNat : ℤ) 0 .positive
    have hexact : ((n.toUInt64.toNat : ℤ) : ℚ) * 2 ^ (0 : ℤ) = n := by
      rw [hword, zpow_zero, mul_one, Int.cast_natCast]
    rw [hexact] at hnear
    have hrounds : RoundsTo n n.toUInt64.toFloat := roundsTo_ofParts hprecise hnear hbound
    -- the word is exact, and so is its product with one
    have hvalue : toRat n.toUInt64.toFloat = n := by
      have hfits : Representable ((n : ℤ) : ℚ) := .intCast (by rw [Nat.abs_cast]; omega)
      exact hrounds.nearest.eq_of_representable (by exact_mod_cast hfits)
    have hprod := RoundsTo.mul hrounds.isFinite (y := 1.0) rfl
      (by rw [hvalue, toRat_one, mul_one]; exact hbound)
    rw [hvalue, toRat_one, mul_one] at hprod
    rw [ofNat_eq_toFloat hsmall]
    exact hprod
  · obtain ⟨u, hparts, hprecise, hnear⟩ := exists_ofNat_eq_ofParts (not_lt.mp hsmall)
    rw [hparts]
    exact roundsTo_ofParts hprecise hnear hbound

/-- Negation is exact. -/
theorem RoundsTo.neg {q : ℚ} {x : Float} (h : RoundsTo q x) : RoundsTo (-q) (-x) := by
  have hprecise := precise_parts h.isFinite
  have hneg : Precise (parts x).neg ∧ ExponentFits (parts x).neg ∧
      value (parts x).neg = -value (parts x) := by
    cases hparts : parts x with
    | notANumber => rw [hparts] at hprecise; exact absurd hprecise.1 id
    | infinity s => rw [hparts] at hprecise; exact absurd hprecise.1 id
    | zero s => exact ⟨trivial, trivial, neg_zero.symm⟩
    | finite s m e hm =>
      rw [hparts] at hprecise
      exact ⟨hprecise.1, hprecise.2, value_neg_finite s e hm⟩
  have hparts : parts (-x) = (parts x).neg := parts_ofParts hneg.1 hneg.2.1
  have hvalue : toRat (-x) = -toRat x := by
    unfold toRat
    rw [hparts, hneg.2.2]
  constructor
  · change (parts (-x)).isFinite = true
    rw [hparts]
    have hfinite : (parts x).isFinite = true := h.isFinite
    cases hparts' : parts x with
    | notANumber => rw [hparts'] at hfinite; cases hfinite
    | infinity s => rw [hparts'] at hfinite; cases hfinite
    | zero s => rfl
    | finite s m e hm => rfl
  · rw [hvalue]
    exact h.nearest.neg

/-- An integer is rounded to a double. -/
theorem roundsTo_ofInt {n : ℤ} (h : |n| ≤ 2 ^ 1023) : RoundsTo n (Float.ofInt n) := by
  cases n with
  | ofNat n =>
    rw [Int.ofNat_eq_natCast, Nat.abs_cast] at h
    exact roundsTo_ofNat (by exact_mod_cast h)
  | negSucc n =>
    have hrounds : RoundsTo (n + 1 : ℕ) (Float.ofNat (n + 1)) := by
      refine roundsTo_ofNat ?_
      rw [Int.negSucc_eq, abs_neg, ← Nat.cast_succ, Nat.abs_cast] at h
      exact_mod_cast h
    rw [Int.negSucc_eq]
    push_cast
    exact_mod_cast hrounds.neg

end LedgerBench
