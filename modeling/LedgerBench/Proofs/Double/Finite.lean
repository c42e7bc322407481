import LedgerBench.Proofs.Double.Value

/-!
# Finite doubles by their bits

Printing and sorting read the parts of a double off its bits. A double is finite unless its exponent
field is full (`isFinite_iff`), and then its parts are a mantissa of at most 53 bits and an exponent
that is not too large (`exists_ofFloat_eq_finite`), and they give its value (`toRat_of_ofFloat`).

Without the sign, the bits are a number in which the mantissa follows the exponent: its units are
the steps from one double to the next. So finite doubles are sorted by their values
(`orderKey_le_iff`).
-/

namespace LedgerBench

open Float.Model (UnpackedFloat Format)
open Float.Model.UnpackedFloat (Sign)

/-! ## Fields -/

/-- The exponent field of a double. -/
theorem unpackExponent_toNat (x : Float) :
    (@UnpackedFloat.unpackExponent .binary64 x.toModel.toBits.toBitVec).toNat =
      x.toBits.toNat / 2 ^ 52 % 2 ^ 11 := by
  unfold UnpackedFloat.unpackExponent
  rw [BitVec.toNat_cast, BitVec.extractLsb_toNat, Nat.shiftRight_eq_div_pow]
  rfl

/-- Exponent fields are compared as numbers. -/
theorem unpackExponent_eq_iff (x : Float) (b : BitVec Format.binary64.exponentBits) :
    @UnpackedFloat.unpackExponent .binary64 x.toModel.toBits.toBitVec = b ↔
      x.toBits.toNat / 2 ^ 52 % 2 ^ 11 = b.toNat := by
  rw [← unpackExponent_toNat, BitVec.toNat_inj]

/-- The fraction field of a double. -/
theorem unpackMantissa_toNat (x : Float) :
    (@UnpackedFloat.unpackMantissa .binary64 x.toModel.toBits.toBitVec).toNat =
      x.toBits.toNat % 2 ^ 52 := by
  unfold UnpackedFloat.unpackMantissa
  rw [BitVec.toNat_cast, BitVec.extractLsb_toNat, Nat.shiftRight_zero]
  rfl

/-- The sign of a double is its highest bit. -/
theorem signed_unpackSign (x : Float) (q : ℚ) :
    signed (.ofBitVec (@UnpackedFloat.unpackSign .binary64 x.toModel.toBits.toBitVec)) q =
      (if x.toBits.toNat / 2 ^ 63 = 1 then -1 else 1) * q := by
  have hlt : x.toBits.toNat < 2 ^ 64 := x.toBits.toNat_lt
  have hfield : (@UnpackedFloat.unpackSign .binary64 x.toModel.toBits.toBitVec).toNat =
      x.toBits.toNat / 2 ^ 63 := by
    have hbit : x.toBits.toNat / 2 ^ 63 < 2 ^ 1 := by omega
    unfold UnpackedFloat.unpackSign
    rw [BitVec.toNat_cast, BitVec.extractLsb_toNat, Nat.shiftRight_eq_div_pow]
    exact Nat.mod_eq_of_lt hbit
  have hpositive : @UnpackedFloat.unpackSign .binary64 x.toModel.toBits.toBitVec = 0#1 ↔
      x.toBits.toNat / 2 ^ 63 = 0 := by
    rw [← hfield, ← BitVec.toNat_inj]
    rfl
  unfold Sign.ofBitVec
  by_cases hzero : x.toBits.toNat / 2 ^ 63 = 0
  · rw [if_pos (hpositive.mpr hzero), if_neg (by omega), one_mul]
    rfl
  · rw [if_neg (hpositive.not.mpr hzero), if_pos (by omega), neg_one_mul]
    rfl

/-- A double is finite unless its exponent field is full. -/
theorem isFinite_iff {x : Float} :
    x.isFinite = true ↔ x.toBits.toNat / 2 ^ 52 % 2 ^ 11 ≠ 2047 := by
  have hfull : @UnpackedFloat.unpackExponent .binary64 x.toModel.toBits.toBitVec = -1#_ ↔
      x.toBits.toNat / 2 ^ 52 % 2 ^ 11 = 2047 := unpackExponent_eq_iff x _
  change (parts x).isFinite = true ↔ _
  rw [ne_eq, ← hfull]
  unfold parts Float.Model.unpack UnpackedFloat.unpack
  dsimp only
  split
  · -- infinities and not-a-number share the full field
    rename_i h
    simp only [h, not_true, iff_false]
    split <;> simp [UnpackedFloat.isFinite]
  · rename_i h
    simp only [h, not_false_iff, iff_true]
    split
    · split <;> rfl
    · rfl

/-! ## Parts -/

/-- The bounds of the parts of a finite double. -/
theorem bounds_of_ofFloat {x : Float} {negative : Bool} {m : ℕ} {e : ℤ}
    (h : Binary64.ofFloat x = .finite negative m e) :
    m < 2 ^ 53 ∧ -1074 ≤ e ∧ e ≤ 971 ∧ (2 ^ 52 ≤ m ∨ e = -1074) := by
  have hbiased : x.toBits.toNat / 2 ^ 52 % 2 ^ 11 < 2 ^ 11 := Nat.mod_lt _ (Nat.two_pow_pos 11)
  have hfraction : x.toBits.toNat % 2 ^ 52 < 2 ^ 52 := Nat.mod_lt _ (Nat.two_pow_pos 52)
  unfold Binary64.ofFloat at h
  simp only [Nat.pow_eq] at h
  split at h
  · split at h <;> cases h
  · split at h <;> cases h <;> omega

/-- The parts of a finite double. -/
theorem exists_ofFloat_eq_finite {x : Float} (h : x.isFinite = true) : ∃ negative m e,
    Binary64.ofFloat x = .finite negative m e ∧ m < 2 ^ 53 ∧ e ≤ 971 := by
  obtain ⟨negative, m, e, hparts⟩ : ∃ negative m e,
      Binary64.ofFloat x = .finite negative m e := by
    have hlast : x.toBits.toNat / Nat.pow 2 52 % Nat.pow 2 11 ≠ 2047 := isFinite_iff.mp h
    unfold Binary64.ofFloat
    dsimp only
    rw [if_neg hlast]
    -- a subnormal has the fraction as its mantissa, a normal number one more bit in front
    split <;> exact ⟨_, _, _, rfl⟩
  obtain ⟨hm, -, he, -⟩ := bounds_of_ofFloat hparts
  exact ⟨negative, m, e, hparts, hm, he⟩

/-- A double that is not finite is an infinity or not-a-number. -/
theorem ofFloat_of_not_isFinite {x : Float} (h : x.isFinite = false) :
    Binary64.ofFloat x = .nan ∨ ∃ negative, Binary64.ofFloat x = .infinite negative := by
  have hlast : x.toBits.toNat / Nat.pow 2 52 % Nat.pow 2 11 = 2047 := by
    by_contra hne
    rw [isFinite_iff.mpr hne] at h
    cases h
  unfold Binary64.ofFloat
  dsimp only
  rw [if_pos hlast]
  split
  · exact .inr ⟨_, rfl⟩
  · exact .inl rfl

/-! ## Values -/

/-- The value of a finite double, by the parts that are read off its bits. -/
theorem toRat_of_ofFloat {x : Float} {negative : Bool} {m : ℕ} {e : ℤ}
    (h : Binary64.ofFloat x = .finite negative m e) :
    toRat x = (if negative then -1 else 1) * (m * 2 ^ e) := by
  have hexponent := unpackExponent_toNat x
  have hmantissa := unpackMantissa_toNat x
  have hbias : (Format.binary64.exponentBias : ℤ) = 1023 := rfl
  have hplaces : (Format.binary64.mantissaBitsWithoutImplicit : ℤ) = 52 := rfl
  have hfull : @UnpackedFloat.unpackExponent .binary64 x.toModel.toBits.toBitVec = -1#_ ↔
      x.toBits.toNat / 2 ^ 52 % 2 ^ 11 = 2047 := unpackExponent_eq_iff x _
  have hleast : @UnpackedFloat.unpackExponent .binary64 x.toModel.toBits.toBitVec = 0#_ ↔
      x.toBits.toNat / 2 ^ 52 % 2 ^ 11 = 0 := unpackExponent_eq_iff x _
  have hbits : (1#1 ++ @UnpackedFloat.unpackMantissa .binary64 x.toModel.toBits.toBitVec).toNat =
      2 ^ 52 + x.toBits.toNat % 2 ^ 52 := by
    rw [BitVec.toNat_append, ← Nat.shiftLeft_add_eq_or_of_lt (BitVec.isLt _), hmantissa]
    rfl
  unfold Binary64.ofFloat at h
  simp only [Nat.pow_eq] at h
  unfold toRat parts Float.Model.unpack UnpackedFloat.unpack
  dsimp only
  rw [hbias, hplaces]
  split at h
  · split at h <;> cases h
  · rename_i hlast
    rw [if_neg (hfull.not.mpr hlast)]
    split at h
    · rename_i hfirst
      rw [if_pos (hleast.mpr hfirst)]
      cases h
      simp only [beq_iff_eq, ← hmantissa]
      split
      · -- a zero has no mantissa
        rename_i hzero
        rw [hzero]
        simp [value]
      · show signed _ _ = _
        rw [signed_unpackSign, hexponent, hfirst]
        norm_num
    · rename_i hfirst
      rw [if_neg (hleast.not.mpr hfirst)]
      cases h
      simp only [beq_iff_eq]
      show signed _ _ = _
      rw [signed_unpackSign, hbits, hexponent]
      norm_num

/-- A sign does not change the magnitude. -/
theorem abs_sign_mul (negative : Bool) (q : ℚ) : |(if negative then -1 else 1) * q| = |q| := by
  cases negative with
  | false => exact congrArg _ (one_mul q)
  | true => exact (congrArg _ (neg_one_mul q)).trans (abs_neg q)

/-- The value of a finite double is below the first power of two that is too large for one. -/
theorem abs_toRat_lt {x : Float} (h : x.isFinite = true) : |toRat x| < 2 ^ 1024 := by
  obtain ⟨negative, m, e, hparts, hm, he⟩ := exists_ofFloat_eq_finite h
  have hm' : (m : ℚ) < 2 ^ 53 := by exact_mod_cast hm
  have hnonneg : (0 : ℚ) ≤ m * 2 ^ e := by positivity
  have hexponent : ((1024 : ℕ) : ℤ) = (53 : ℕ) + 971 := by norm_num
  calc |toRat x| = m * 2 ^ e := by
        rw [toRat_of_ofFloat hparts, abs_sign_mul, abs_of_nonneg hnonneg]
    _ < 2 ^ 53 * 2 ^ e := by gcongr
    _ ≤ 2 ^ 53 * 2 ^ (971 : ℤ) :=
      mul_le_mul_of_nonneg_left (zpow_le_zpow_right₀ one_le_two he) (by positivity)
    _ = 2 ^ 1024 := by
      rw [← zpow_natCast, ← zpow_natCast, hexponent, zpow_add₀ two_ne_zero]

/-- The absolute value of a finite double is that of its value. -/
theorem toRat_abs {x : Float} (h : x.isFinite = true) :
    x.abs.isFinite = true ∧ toRat x.abs = |toRat x| := by
  obtain ⟨hprecise, hfits⟩ := precise_parts h
  have habs : x.abs = ofParts (parts x).abs := rfl
  unfold toRat
  change (parts x.abs).isFinite = true ∧ value (parts x.abs) = |value (parts x)|
  rw [habs]
  cases hparts : parts x with
  | notANumber | infinity s =>
    rw [hparts] at hprecise
    cases hprecise
  | zero s =>
    rw [UnpackedFloat.abs, parts_ofParts_zero]
    exact ⟨rfl, abs_zero.symm⟩
  | finite s m e hm =>
    rw [hparts] at hprecise hfits
    have hpositive : parts (ofParts (.finite .positive m e hm)) = .finite .positive m e hm :=
      parts_ofParts hprecise hfits
    rw [UnpackedFloat.abs, hpositive, abs_value_finite]
    exact ⟨rfl, rfl⟩

/-! ## Order -/

/-- The place of a finite double in the order of samples, by its parts. -/
theorem orderKey_of_ofFloat {x : Float} {negative : Bool} {m : ℕ} {e : ℤ}
    (h : Binary64.ofFloat x = .finite negative m e) :
    orderKey x = (if negative then -1 else 1) * ((e + 1074) * 2 ^ 52 + m) := by
  have hlt : x.toBits.toNat < 2 ^ 64 := x.toBits.toNat_lt
  unfold Binary64.ofFloat at h
  unfold orderKey
  simp only [Nat.pow_eq] at h ⊢
  split at h
  · split at h <;> cases h
  · split at h <;> cases h <;> simp only [beq_iff_eq] <;> split <;> omega

/-- The first of two magnitudes is smaller if it comes first in the order of samples. -/
theorem magnitude_lt_of_place_lt {m m' : ℕ} {e e' : ℤ} (hm : m < 2 ^ 53) (he : -1074 ≤ e)
    (hfull : 2 ^ 52 ≤ m ∨ e = -1074) (hm' : m' < 2 ^ 53) (he' : -1074 ≤ e')
    (hfull' : 2 ^ 52 ≤ m' ∨ e' = -1074)
    (hlt : (e + 1074) * 2 ^ 52 + m < (e' + 1074) * 2 ^ 52 + m') :
    (m : ℚ) * 2 ^ e < m' * 2 ^ e' := by
  rcases lt_trichotomy e e' with hexponent | rfl | hexponent
  · exact magnitude_lt_of_exponent_lt hm he hfull' hexponent
  · have hmantissa : m < m' := by omega
    exact mul_lt_mul_of_pos_right (by exact_mod_cast hmantissa) (by positivity)
  · -- a larger exponent goes with all bits of a mantissa, and comes later
    omega

/-- The same numbers have the same value. -/
theorem toRat_eq_of_sameNumber {x y : Float} (h : SameNumber x y) : toRat x = toRat y := by
  unfold toRat
  obtain heq | ⟨s, t, hzero, hzero'⟩ := sameNumber_iff.mp h
  · rw [heq]
  · rw [hzero, hzero']
    rfl

/-- Of two finite doubles the one with the lower place has the lower value. -/
theorem toRat_lt_of_orderKey_lt {x y : Float} (hx : x.isFinite = true) (hy : y.isFinite = true)
    (hlt : orderKey x < orderKey y) : toRat x < toRat y := by
  obtain ⟨negative, m, e, hparts, -, -⟩ := exists_ofFloat_eq_finite hx
  obtain ⟨negative', m', e', hparts', -, -⟩ := exists_ofFloat_eq_finite hy
  obtain ⟨hm, he, -, hfull⟩ := bounds_of_ofFloat hparts
  obtain ⟨hm', he', -, hfull'⟩ := bounds_of_ofFloat hparts'
  rw [orderKey_of_ofFloat hparts, orderKey_of_ofFloat hparts'] at hlt
  rw [toRat_of_ofFloat hparts, toRat_of_ofFloat hparts']
  have hnonneg : (0 : ℚ) ≤ m * 2 ^ e := by positivity
  have hnonneg' : (0 : ℚ) ≤ m' * 2 ^ e' := by positivity
  cases negative <;> cases negative' <;>
    simp only [reduceIte, Bool.false_eq_true, neg_one_mul, one_mul] at hlt ⊢
  · exact magnitude_lt_of_place_lt hm he hfull hm' he' hfull' hlt
  · omega
  · -- the two zeros share a place, so one of the numbers is not zero
    rcases Nat.eq_zero_or_pos m with rfl | hpos
    · have hpos' : 0 < m' := by omega
      have hvalue' : 0 < (m' : ℚ) * 2 ^ e' := by positivity
      linarith
    · have hvalue : 0 < (m : ℚ) * 2 ^ e := by positivity
      linarith
  · exact neg_lt_neg (magnitude_lt_of_place_lt hm' he' hfull' hm he hfull (neg_lt_neg_iff.mp hlt))

/-- Finite doubles are sorted by their values. -/
theorem orderKey_le_iff {x y : Float} (hx : x.isFinite = true) (hy : y.isFinite = true) :
    orderKey x ≤ orderKey y ↔ toRat x ≤ toRat y := by
  constructor
  · intro hle
    rcases hle.lt_or_eq with hlt | heq
    · exact (toRat_lt_of_orderKey_lt hx hy hlt).le
    · exact (toRat_eq_of_sameNumber (sameNumber_of_orderKey_eq heq)).le
  · intro hle
    by_contra hgt
    exact absurd hle (not_le.mpr (toRat_lt_of_orderKey_lt hy hx (not_le.mp hgt)))

end LedgerBench
