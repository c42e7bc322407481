import LedgerBench.Json.Number
import LedgerBench.Proofs.Decimal.Shortest
import LedgerBench.Proofs.Double.Bounds

/-!
# Scaling by powers of ten

A number is read by gathering its digits in a word and scaling the word by a power of ten. The word
and the power are both rounded, and so is their product, so that a decimal close to the largest
double could overflow although it is no larger. It does not as long as the word is one of at most
seventeen digits that the largest double is written with, or a smaller one (`isSome_scale`): the
margin is tested for the largest word before each of the last twenty powers of ten
(`productBound_lt`), and smaller words have smaller products. A negative power of ten is divided by,
and there is always a result.
-/

namespace LedgerBench

open Float.Model (UnpackedFloat)
open JsonNumber (powerOfTen scale)

/-! ## Products -/

/-- A product of finite doubles is finite if the product of their values is below the bound. -/
theorem RoundsTo.mul_of_lt {x y : Float} (hx : x.isFinite = true) (hy : y.isFinite = true)
    (hbound : |toRat x * toRat y| < overflowBound) : RoundsTo (toRat x * toRat y) (x * y) := by
  obtain ⟨hprecise, hnear⟩ := mul_spec (precise_parts hx).1 (precise_parts hy).1
  exact roundsTo_ofParts_of_lt hprecise hnear hbound

/-- The bound is a natural number. -/
theorem natCast_lt_overflowBound {n : ℕ} (h : n < 18014398509481983 * 2 ^ 970) :
    (n : ℚ) < overflowBound := by
  have hbound : overflowBound = (18014398509481983 * 2 ^ 970 : ℕ) := by
    rw [overflowBound, Nat.cast_mul, Nat.cast_pow, Nat.cast_ofNat, Nat.cast_ofNat,
      show (970 : ℤ) = (970 : ℕ) from rfl, zpow_natCast]
    congr 1
    norm_num
  rw [hbound]
  exact Nat.cast_lt.mpr h

/-- A finite double is no infinity. -/
theorem isInf_of_isFinite {x : Float} (h : x.isFinite = true) : x.isInf = false := by
  have hfinite : (parts x).isFinite = true := h
  have hinf : x.isInf = (parts x).isInf := rfl
  rw [hinf]
  cases hparts : parts x with
  | notANumber | infinity s => rw [hparts] at hfinite; cases hfinite
  | zero s | finite s m e hm => rfl

/-- A natural number that is not below the product of the magnitudes of two parts. -/
def productBound : UnpackedFloat → UnpackedFloat → ℕ
  | .finite _ m e _, .finite _ n e' _ => m * n * 2 ^ (e + e').toNat
  | _, _ => 0

/-- The bound holds. -/
theorem abs_value_mul_le (u v : UnpackedFloat) : |value u * value v| ≤ productBound u v := by
  have hzero : |(0 : ℚ)| ≤ (0 : ℕ) := by simp
  cases u with
  | finite s m e hm =>
    cases v with
    | finite t n e' hn =>
      have hpow : (2 : ℚ) ^ (e + e') ≤ 2 ^ (e + e').toNat := by
        rw [← zpow_natCast]
        exact zpow_le_zpow_right₀ one_le_two (by omega)
      calc |value (.finite s m e hm) * value (.finite t n e' hn)|
          = m * n * 2 ^ (e + e') := by
            rw [abs_mul, abs_value_finite, abs_value_finite, zpow_add₀ two_ne_zero]
            ring
        _ ≤ m * n * 2 ^ (e + e').toNat := by gcongr
        _ = productBound (.finite s m e hm) (.finite t n e' hn) := by
            unfold productBound
            push_cast
            ring
    | zero t | notANumber | infinity t =>
      simp only [value, mul_zero]
      exact hzero
  | zero s | notANumber | infinity s =>
    simp only [value, zero_mul]
    exact hzero

/-! ## Powers of ten -/

/-- Parts whose value is a natural number. -/
def IsExactly (n : ℕ) : UnpackedFloat → Prop
  | .finite .positive m e _ => m * 2 ^ e.toNat = n * 2 ^ (-e).toNat
  | _ => False

instance (n : ℕ) : DecidablePred (IsExactly n)
  | .finite .positive _ _ _ => inferInstanceAs (Decidable (_ = _))
  | .finite .negative _ _ _ | .zero _ | .infinity _ | .notANumber => isFalse id

/-- The value of such parts. -/
theorem IsExactly.roundsTo {n : ℕ} {x : Float} (h : IsExactly n (parts x)) : RoundsTo n x := by
  have hfinite : (parts x).isFinite = true ∧ toRat x = n := by
    unfold toRat
    cases hparts : parts x with
    | notANumber | infinity s | zero s => rw [hparts] at h; cases h
    | finite s m e hm =>
      rw [hparts] at h
      cases s with
      | negative => cases h
      | positive =>
        refine ⟨rfl, ?_⟩
        have hpow : (2 : ℚ) ^ (-e).toNat ≠ 0 := by positivity
        have hexact : (m : ℚ) * 2 ^ e.toNat = n * 2 ^ (-e).toNat := by exact_mod_cast h
        show (m : ℚ) * 2 ^ e = n
        rw [Decimal.zpow_eq_div two_ne_zero, ← mul_div_assoc, hexact, mul_div_cancel_right₀ _ hpow]
  refine ⟨hfinite.1, hfinite.2 ▸ .refl (representable_toRat hfinite.1)⟩

/-- A power of ten that is no larger than the largest double is rounded. -/
theorem roundsTo_powerOfTen {k : ℕ} (hk : k ≤ 308) : RoundsTo (10 ^ k) (powerOfTen k) := by
  by_cases hsmall : k ≤ 22
  · -- these powers are exact, and computed in another way than the larger ones
    have hexact : ∀ k : Fin 23, IsExactly (10 ^ k.val) (parts (powerOfTen k)) := by decide +kernel
    exact_mod_cast (hexact ⟨k, by omega⟩).roundsTo
  · obtain ⟨u, hparts, hprecise, hnear⟩ :=
      exists_ofScientific_eq_ofParts (n := 1) (k := k) (by omega) (by omega) (by omega)
    rw [Nat.cast_one, one_mul] at hnear
    have hlast : 10 ^ 308 < 18014398509481983 * 2 ^ 970 := by decide +kernel
    have hpow : ∀ n, k ≤ n → 10 ^ k ≤ 10 ^ n := fun n hn => Nat.pow_le_pow_right (by norm_num) hn
    have hbound : |(10 : ℚ) ^ k| < overflowBound := by
      have hlt := natCast_lt_overflowBound (lt_of_le_of_lt (hpow 308 hk) hlast)
      rw [Nat.cast_pow, Nat.cast_ofNat] at hlt
      rwa [abs_of_pos (by positivity)]
    rw [powerOfTen, hparts]
    exact roundsTo_ofParts_of_lt hprecise hnear hbound

/-! ## Words -/

/-- Counts keep their order when they are rounded. -/
theorem toRat_ofNat_le {m n : ℕ} (h : m ≤ n) (hn : n ≤ 2 ^ 1023) :
    toRat (Float.ofNat m) ≤ toRat (Float.ofNat n) := by
  rcases h.eq_or_lt with rfl | hlt
  · exact le_refl _
  · exact (roundsTo_ofNat (h.trans hn)).nearest.le_of_lt (roundsTo_ofNat hn).nearest
      (by exact_mod_cast hlt)

/-- The largest word that stands before a power of ten: it is at most the first number of eighteen
digits, and together they are not larger than the largest double is written as. -/
def largestWord (k : ℕ) : ℕ := min (10 ^ 17) (17976931348623157 * 10 ^ 292 / 10 ^ k)

/-- Before the largest powers of ten, the rounded word and the rounded power do not overflow. -/
theorem productBound_lt : ∀ k : Fin 20,
    productBound (parts (Float.ofNat (largestWord (289 + k)))) (parts (powerOfTen (289 + k))) <
      18014398509481983 * 2 ^ 970 := by
  decide +kernel

/-- No word up to the largest one overflows. -/
theorem isFinite_mul_powerOfTen {w k : ℕ} (hw : w ≤ 10 ^ 17) (hk : k ≤ 308)
    (hle : w * 10 ^ k ≤ 17976931348623157 * 10 ^ 292) :
    (Float.ofNat w * powerOfTen k).isFinite = true := by
  have hsize : ∀ n, n ≤ 10 ^ 17 → n ≤ 2 ^ 1023 := fun n hn =>
    hn.trans (by decide +kernel : 10 ^ 17 ≤ 2 ^ 1023)
  have hword := roundsTo_ofNat (hsize w hw)
  have hpower := roundsTo_powerOfTen hk
  by_cases hsmall : k ≤ 288
  · -- any word times such a power is far below the bound
    have hword' : |toRat (Float.ofNat w)| ≤ 2 ^ (57 : ℤ) := by
      refine hword.abs_toRat_le (.two_zpow (by norm_num)) ?_
      rw [Nat.abs_cast]
      exact_mod_cast hw.trans (by norm_num : 10 ^ 17 ≤ 2 ^ 57)
    have hpower' : |toRat (powerOfTen k)| ≤ 2 ^ (957 : ℤ) := by
      have hpow : ∀ n, k ≤ n → 10 ^ k ≤ 10 ^ n := fun n hn => Nat.pow_le_pow_right (by norm_num) hn
      have hle : 10 ^ k ≤ 2 ^ 957 := (hpow 288 hsmall).trans (by decide +kernel)
      refine hpower.abs_toRat_le (.two_zpow (by norm_num)) ?_
      rw [abs_of_pos (by positivity), show (957 : ℤ) = (957 : ℕ) from rfl, zpow_natCast]
      exact_mod_cast hle
    refine (RoundsTo.mul hword.isFinite hpower.isFinite ?_).isFinite
    calc |toRat (Float.ofNat w) * toRat (powerOfTen k)|
        = |toRat (Float.ofNat w)| * |toRat (powerOfTen k)| := abs_mul _ _
      _ ≤ 2 ^ (57 : ℤ) * 2 ^ (957 : ℤ) := by gcongr
      _ = 2 ^ (1014 : ℤ) := (zpow_add₀ two_ne_zero 57 957).symm
      _ ≤ 2 ^ (1023 : ℤ) := zpow_le_zpow_right₀ one_le_two (by norm_num)
      _ = 2 ^ 1023 := zpow_natCast 2 1023
  · -- the product for the largest word is below the bound
    have hpow : 0 < 10 ^ k := by positivity
    have hlargest : w ≤ largestWord k := le_min hw ((Nat.le_div_iff_mul_le hpow).mpr hle)
    have hbound := productBound_lt ⟨k - 289, by omega⟩
    dsimp only at hbound
    rw [Nat.add_sub_cancel' (by omega : 289 ≤ k)] at hbound
    refine (RoundsTo.mul_of_lt hword.isFinite hpower.isFinite ?_).isFinite
    have hnonneg : 0 ≤ toRat (Float.ofNat w) := hword.nearest.ge_of_ge .zero (Nat.cast_nonneg w)
    have hnonneg' : 0 ≤ toRat (powerOfTen k) := hpower.nearest.ge_of_ge .zero (by positivity)
    calc |toRat (Float.ofNat w) * toRat (powerOfTen k)|
        = toRat (Float.ofNat w) * toRat (powerOfTen k) :=
          abs_of_nonneg (mul_nonneg hnonneg hnonneg')
      _ ≤ toRat (Float.ofNat (largestWord k)) * toRat (powerOfTen k) := by
        gcongr
        exact toRat_ofNat_le hlargest (hsize _ (min_le_left _ _))
      _ ≤ productBound (parts (Float.ofNat (largestWord k))) (parts (powerOfTen k)) :=
        (le_abs_self _).trans (abs_value_mul_le _ _)
      _ < overflowBound := natCast_lt_overflowBound hbound

/-! ## Scaling -/

/-- A negative power of ten is divided by, and there is always a result. -/
theorem isSome_scale_of_neg (x : Float) {e : ℤ} (he : e < 0) : (scale x e).isSome := by
  induction x, e using JsonNumber.scale.induct with
  | case1 | case2 | case3 | case4 => omega
  | case5 x e hneg hlast =>
    rw [scale, if_neg hneg, if_pos hlast]
    rfl
  | case6 x e hneg hlarge hzero =>
    rw [scale, if_neg hneg, if_neg hlarge, if_pos hzero]
    rfl
  | case7 x e hneg hlarge hzero ih =>
    rw [scale, if_neg hneg, if_neg hlarge, if_neg hzero]
    exact ih (by omega)

/-- A word that is scaled to at most what the largest double is written as does not overflow. -/
theorem isSome_scale {w : ℕ} {e : ℤ} (hw : w ≤ 10 ^ 17)
    (hle : (w : ℚ) * 10 ^ e ≤ Decimal.largest.value) : (scale (Float.ofNat w) e).isSome := by
  by_cases hneg : e < 0
  · exact isSome_scale_of_neg _ hneg
  obtain ⟨k, rfl⟩ := Int.eq_ofNat_of_zero_le (not_lt.mp hneg)
  have hle' : w * 10 ^ k ≤ 17976931348623157 * 10 ^ 292 := by
    have hvalue : Decimal.largest.value = (17976931348623157 * 10 ^ 292 : ℕ) := by
      rw [Nat.cast_mul, Nat.cast_pow, Nat.cast_ofNat, Nat.cast_ofNat]
      rfl
    rw [hvalue, zpow_natCast] at hle
    exact_mod_cast hle
  rw [scale, if_pos (not_lt.mp hneg)]
  by_cases hlast : k ≤ 308
  · have hfinite := isInf_of_isFinite (isFinite_mul_powerOfTen hw hlast hle')
    rw [if_pos (by exact_mod_cast hlast)]
    dsimp only
    rw [Int.toNat_natCast, hfinite]
    rfl
  · -- beyond the largest powers of ten there is room for zero only
    have hzero : w = 0 := by
      by_contra hpos
      have hpow : ∀ n, n ≤ k → 10 ^ n ≤ 10 ^ k := fun n hn => Nat.pow_le_pow_right (by norm_num) hn
      have hword : 10 ^ k ≤ w * 10 ^ k := Nat.le_mul_of_pos_left _ (Nat.pos_of_ne_zero hpos)
      have hlarge : 17976931348623157 * 10 ^ 292 < 10 ^ 309 := by decide +kernel
      exact absurd (hword.trans hle') (not_le_of_gt (lt_of_lt_of_le hlarge (hpow 309 (by omega))))
    have hsame : (Float.ofNat 0 == 0.0) = true := by decide +kernel
    rw [if_neg (by omega), hzero, if_pos hsame]
    rfl

end LedgerBench
