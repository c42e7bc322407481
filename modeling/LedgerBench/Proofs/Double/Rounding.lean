import Mathlib

/-!
# Rounding to doubles

A mantissa of an intermediate result keeps two more bits, which tell whether something was cut off
and how it compares with one half. `StandsFor` says which exact numbers such a mantissa stands for;
shifting to the right halves them (`StandsFor.shiftRight`), and rounding gives an integer that is
nearest to them (`StandsFor.abs_sub_le`).

An exact result is rounded to the precision of doubles by `roundWithAccuracy`, and
`nearestTo_roundWithAccuracy` shows what that means: the rounded value is a multiple of a power of
two that the precision allows, and no such multiple is nearer to the exact result. Overflow does not
matter here, since exponents are not bounded above before a double is packed.

Results are rational numbers. The magnitude is rounded first, and the sign is put back afterwards.
-/

namespace LedgerBench

open Float.Model (UnpackedFloat Format totalExponent)
open Float.Model.UnpackedFloat (Sign Accuracy ExtendedMantissa)

/-! ## Mantissas with two more bits -/

/-- A mantissa with a round bit and a sticky bit stands for an exact number. -/
structure StandsFor (em : ExtendedMantissa) (x : ℚ) : Prop where
  /-- The mantissa is not above the number. -/
  le : (em.mantissa : ℚ) ≤ x
  /-- The next mantissa is above the number. -/
  lt : x < em.mantissa + 1
  /-- The round bit tells whether at least one half was cut off. -/
  round : em.roundBit = true ↔ (em.mantissa : ℚ) + 1 / 2 ≤ x
  /-- The sticky bit tells whether anything was cut off but the round bit. -/
  sticky : em.stickyBit = false ↔ x = em.mantissa ∨ x = em.mantissa + 1 / 2

namespace StandsFor

variable {em : ExtendedMantissa} {x : ℚ}

/-- A mantissa from which nothing was cut off stands for itself. -/
theorem exact (m : ℕ) : StandsFor (.ofMantissaAndAccuracy m .exact) m where
  le := le_refl _
  lt := lt_add_one _
  round := by
    simp only [ExtendedMantissa.ofMantissaAndAccuracy, Bool.false_eq_true, false_iff, not_le]
    linarith
  sticky := by simp [ExtendedMantissa.ofMantissaAndAccuracy]

/-- A mantissa from which a fraction was cut off stands for its sum with it. -/
theorem inexact (m : ℕ) {r : ℚ} (hpos : 0 < r) (hone : r < 1) :
    StandsFor (.ofMantissaAndAccuracy m (.inexact (compare r (1 / 2)))) (m + r) := by
  rcases lt_trichotomy r (1 / 2) with hlt | heq | hgt
  · rw [compare_lt_iff_lt.mpr hlt]
    refine ⟨?_, ?_, ?_, ?_⟩ <;> simp only [ExtendedMantissa.ofMantissaAndAccuracy]
    · linarith
    · linarith
    · simp only [Bool.false_eq_true, false_iff, not_le]
      linarith
    · simp only [Bool.true_eq_false, false_iff, not_or]
      constructor <;> intro h <;> linarith
  · rw [compare_eq_iff_eq.mpr heq]
    refine ⟨?_, ?_, ?_, ?_⟩ <;> simp only [ExtendedMantissa.ofMantissaAndAccuracy]
    · linarith
    · linarith
    · simp only [true_iff]
      linarith
    · simp only [heq, or_true]
  · rw [compare_gt_iff_gt.mpr hgt]
    refine ⟨?_, ?_, ?_, ?_⟩ <;> simp only [ExtendedMantissa.ofMantissaAndAccuracy]
    · linarith
    · linarith
    · simp only [true_iff]
      linarith
    · simp only [Bool.true_eq_false, false_iff, not_or]
      constructor <;> intro h <;> linarith

/-- The remainder of a division tells what was cut off from the quotient. -/
theorem fraction (m n : ℕ) (hn : 0 < n) : StandsFor
    (.ofMantissaAndAccuracy (m / n) (UnpackedFloat.accuracyOfFraction (m % n) n)) (m / n : ℚ) := by
  have hn' : (0 : ℚ) < n := by exact_mod_cast hn
  have hmod : m % n < n := Nat.mod_lt m hn
  have hdiv : (n : ℚ) * (m / n : ℕ) + (m % n : ℕ) = m := by exact_mod_cast Nat.div_add_mod m n
  unfold UnpackedFloat.accuracyOfFraction
  split
  · rename_i hzero
    have hx : (m / n : ℚ) = (m / n : ℕ) := by
      rw [hzero] at hdiv
      rw [← hdiv]
      field_simp
      simp
    rw [hx]
    exact exact _
  · rename_i hne
    -- the number is the quotient and a fraction of one
    have hx : (m / n : ℚ) = (m / n : ℕ) + (m % n : ℕ) / n := by
      rw [← hdiv]
      field_simp
    have hpos : (0 : ℚ) < (m % n : ℕ) / n := by
      have hpos' : 0 < m % n := Nat.pos_of_ne_zero hne
      positivity
    have hone : ((m % n : ℕ) / n : ℚ) < 1 := by
      rw [div_lt_one hn']
      exact_mod_cast hmod
    have hcompare : compare (2 * (m % n)) n = compare ((m % n : ℕ) / n : ℚ) (1 / 2) := by
      have hlt : ((m % n : ℕ) / n : ℚ) < 1 / 2 ↔ 2 * (m % n) < n := by
        rw [div_lt_div_iff₀ hn' two_pos, one_mul, mul_comm]
        exact_mod_cast Iff.rfl
      have heq : ((m % n : ℕ) / n : ℚ) = 1 / 2 ↔ 2 * (m % n) = n := by
        rw [div_eq_div_iff (ne_of_gt hn') two_ne_zero, one_mul, mul_comm]
        exact_mod_cast Iff.rfl
      rcases lt_trichotomy (2 * (m % n)) n with h | h | h
      · rw [compare_lt_iff_lt.mpr h, compare_lt_iff_lt.mpr (hlt.mpr h)]
      · rw [compare_eq_iff_eq.mpr h, compare_eq_iff_eq.mpr (heq.mpr h)]
      · have hge : ¬ ((m % n : ℕ) / n : ℚ) < 1 / 2 := mt hlt.mp (not_lt_of_gt h)
        have hne : ¬ ((m % n : ℕ) / n : ℚ) = 1 / 2 := mt heq.mp (ne_of_gt h)
        have hgt : (1 / 2 : ℚ) < (m % n : ℕ) / n := lt_of_le_of_ne (not_lt.mp hge) (Ne.symm hne)
        rw [compare_gt_iff_gt.mpr h, compare_gt_iff_gt.mpr hgt]
    rw [hx, hcompare]
    exact inexact _ hpos hone

/-- Shifting a mantissa to the right by one place halves what it stands for. -/
theorem shiftRightOne (h : StandsFor em x) : StandsFor em.shiftRightOne (x / 2) := by
  obtain ⟨m, roundBit, stickyBit⟩ := em
  obtain ⟨hle, hlt, hround, hsticky⟩ := h
  dsimp only at hle hlt hround hsticky
  -- the last bit of the mantissa becomes the round bit
  have hparity : ((m / 2 : ℕ) : ℚ) * 2 + (m % 2 : ℕ) = m := by
    exact_mod_cast Nat.div_add_mod' m 2
  have hbit : m % 2 = 0 ∨ m % 2 = 1 := Nat.mod_two_eq_zero_or_one m
  refine ⟨?_, ?_, ?_, ?_⟩ <;> simp only [ExtendedMantissa.shiftRightOne]
  · rcases hbit with hbit | hbit <;> rw [hbit] at hparity <;> push_cast at hparity <;> linarith
  · rcases hbit with hbit | hbit <;> rw [hbit] at hparity <;> push_cast at hparity <;> linarith
  · rcases hbit with hbit | hbit <;> rw [hbit] at hparity ⊢ <;> push_cast at hparity
    · simp only [bne_self_eq_false, Bool.false_eq_true, false_iff, not_le]
      linarith
    · simp only [Nat.one_ne_zero, bne_iff_ne, ne_eq, not_false_eq_true, true_iff]
      linarith
  · -- nothing was cut off exactly if the number was the mantissa itself
    have hnone : (roundBit || stickyBit) = false ↔ x = m := by
      rw [Bool.or_eq_false_iff, hsticky, ← Bool.not_eq_true, hround, not_le]
      constructor
      · rintro ⟨hlow, heq | heq⟩
        · exact heq
        · linarith
      · intro heq
        exact ⟨by linarith, .inl heq⟩
    rw [hnone]
    rcases hbit with hbit | hbit <;> rw [hbit] at hparity <;> push_cast at hparity
    · constructor
      · intro heq
        left
        linarith
      · rintro (heq | heq)
        · linarith
        · linarith
    · constructor
      · intro heq
        right
        linarith
      · rintro (heq | heq)
        · linarith
        · linarith

/-- Shifting a mantissa to the right divides what it stands for by a power of two. -/
theorem shiftRight (h : StandsFor em x) (k : ℕ) : StandsFor (em >>> k) (x / 2 ^ k) := by
  change StandsFor (k.repeat ExtendedMantissa.shiftRightOne em) _
  induction k with
  | zero => simpa [Nat.repeat] using h
  | succ k ih =>
    rw [pow_succ, ← div_div]
    exact ih.shiftRightOne

/-- A rounded mantissa is the mantissa or the next one. -/
theorem roundedMantissa_bounds (em : ExtendedMantissa) :
    em.mantissa ≤ em.roundedMantissa ∧ em.roundedMantissa ≤ em.mantissa + 1 := by
  obtain ⟨m, roundBit, stickyBit⟩ := em
  have hbit : m % 2 ≤ 1 := Nat.le_of_lt_succ (Nat.mod_lt m two_pos)
  cases roundBit <;> cases stickyBit <;>
    simp only [ExtendedMantissa.roundedMantissa, ExtendedMantissa.accuracy,
      Accuracy.roundToNearestEven] <;> omega

/-- A mantissa is rounded down up to one half and up from one half. -/
theorem roundedMantissa_cases (h : StandsFor em x) :
    (em.roundedMantissa = em.mantissa ∧ x ≤ em.mantissa + 1 / 2) ∨
      (em.roundedMantissa = em.mantissa + 1 ∧ (em.mantissa : ℚ) + 1 / 2 ≤ x) := by
  obtain ⟨m, roundBit, stickyBit⟩ := em
  obtain ⟨-, -, hround, hsticky⟩ := h
  dsimp only at hround hsticky
  have hbit : m % 2 = 0 ∨ m % 2 = 1 := Nat.mod_two_eq_zero_or_one m
  cases roundBit with
  | false =>
    have hlow : ¬ (m : ℚ) + 1 / 2 ≤ x := fun hx => Bool.false_ne_true (hround.mpr hx)
    refine .inl ⟨?_, le_of_not_ge hlow⟩
    cases stickyBit <;> rfl
  | true =>
    have hhigh : (m : ℚ) + 1 / 2 ≤ x := hround.mp rfl
    cases stickyBit with
    | true => exact .inr ⟨rfl, hhigh⟩
    | false =>
      -- halfway between two integers, the even one is taken
      have hhalf : x ≤ m + 1 / 2 := by
        rcases hsticky.mp rfl with hx | hx <;> linarith
      have hrounded : ExtendedMantissa.roundedMantissa ⟨m, true, false⟩ = m + m % 2 := rfl
      rcases hbit with hbit | hbit
      · exact .inl ⟨by rw [hrounded, hbit, Nat.add_zero], hhalf⟩
      · exact .inr ⟨by rw [hrounded, hbit], hhigh⟩

/-- No integer is nearer to the number than the rounded mantissa. -/
theorem abs_sub_le (h : StandsFor em x) (k : ℤ) :
    |(em.roundedMantissa : ℚ) - x| ≤ |(k : ℚ) - x| := by
  have hle := h.le
  have hlt := h.lt
  -- an integer is at most the mantissa or at least the next one
  have hk : x - em.mantissa ≤ |(k : ℚ) - x| ∨ em.mantissa + 1 - x ≤ |(k : ℚ) - x| := by
    rcases le_or_gt k em.mantissa with hk | hk
    · have hk' : (k : ℚ) ≤ em.mantissa := by exact_mod_cast hk
      left
      rw [abs_sub_comm]
      exact le_trans (by linarith) (le_abs_self _)
    · have hk' : (em.mantissa : ℚ) + 1 ≤ k := by exact_mod_cast hk
      right
      exact le_trans (by linarith) (le_abs_self _)
  rcases h.roundedMantissa_cases with ⟨hrounded, hx⟩ | ⟨hrounded, hx⟩
  · have hdown : |(em.mantissa : ℚ) - x| = x - em.mantissa := by
      rw [abs_sub_comm, abs_of_nonneg (by linarith)]
    rw [hrounded, hdown]
    rcases hk with hk | hk <;> linarith
  · have hup : |(em.mantissa : ℚ) + 1 - x| = em.mantissa + 1 - x := abs_of_nonneg (by linarith)
    rw [hrounded, Nat.cast_add, Nat.cast_one, hup]
    rcases hk with hk | hk <;> linarith

end StandsFor

/-! ## Numbers that fit the precision -/

/-- A number fits the precision of doubles: it is a multiple of a power of two, by an integer of at
most 53 bits, and the power is not below the least one. -/
def Representable (y : ℚ) : Prop :=
  ∃ (k : ℤ) (e : ℤ), |k| ≤ 2 ^ 53 ∧ -1074 ≤ e ∧ y = k * 2 ^ e

/-- A number fits the precision of doubles and is nearest to an exact one among those that do. -/
structure NearestTo (q y : ℚ) : Prop where
  /-- The number fits the precision. -/
  representable : Representable y
  /-- No other number that does is nearer. -/
  abs_sub_le : ∀ z, Representable z → |y - q| ≤ |z - q|

/-- The negative of a number that fits the precision does so as well. -/
theorem Representable.neg {y : ℚ} (h : Representable y) : Representable (-y) := by
  obtain ⟨k, e, hk, he, rfl⟩ := h
  exact ⟨-k, e, by rwa [abs_neg], he, by push_cast; ring⟩

/-- Integers of at most 53 bits fit the precision. -/
theorem Representable.intCast {n : ℤ} (h : |n| ≤ 2 ^ 53) : Representable n :=
  ⟨n, 0, h, by norm_num, by simp⟩

/-- Zero fits the precision. -/
theorem Representable.zero : Representable 0 := by
  exact_mod_cast intCast (n := 0) (by norm_num)

/-- One fits the precision. -/
theorem Representable.one : Representable 1 := by
  exact_mod_cast intCast (n := 1) (by norm_num)

/-- Powers of two fit the precision. -/
theorem Representable.two_zpow {e : ℤ} (h : -1074 ≤ e) : Representable (2 ^ e) :=
  ⟨1, e, by norm_num, h, by simp⟩

namespace NearestTo

variable {q q' y y' : ℚ}

/-- The negative of a number is nearest to the negative of the exact one. -/
theorem neg (h : NearestTo q y) : NearestTo (-q) (-y) where
  representable := h.representable.neg
  abs_sub_le z hz := by
    have hnear := h.abs_sub_le (-z) hz.neg
    rw [neg_sub_neg, abs_sub_comm]
    rwa [← neg_add', abs_neg, ← sub_neg_eq_add z] at hnear

/-- A number that fits the precision is nearest to itself only. -/
theorem eq_of_representable (h : NearestTo q y) (hq : Representable q) : y = q := by
  have hnear := h.abs_sub_le q hq
  rw [sub_self, abs_zero] at hnear
  exact sub_eq_zero.mp (abs_eq_zero.mp (le_antisymm hnear (abs_nonneg _)))

/-- A number that fits the precision is nearest to itself. -/
theorem refl (h : Representable q) : NearestTo q q where
  representable := h
  abs_sub_le z _ := by
    rw [sub_self, abs_zero]
    exact abs_nonneg _

/-- Rounding does not go beyond a number above that fits the precision. -/
theorem le_of_le {z : ℚ} (h : NearestTo q y) (hz : Representable z) (hle : q ≤ z) : y ≤ z := by
  by_contra hlt
  have hnear := h.abs_sub_le z hz
  rw [abs_of_nonneg (by linarith), abs_of_nonneg (by linarith)] at hnear
  linarith

/-- Rounding does not go beyond a number below that fits the precision. -/
theorem ge_of_ge {z : ℚ} (h : NearestTo q y) (hz : Representable z) (hle : z ≤ q) : z ≤ y := by
  have hneg := h.neg.le_of_le hz.neg (neg_le_neg hle)
  linarith

/-- Rounding keeps the order of different numbers. -/
theorem le_of_lt (h : NearestTo q y) (h' : NearestTo q' y') (hlt : q < q') : y ≤ y' := by
  by_contra hgt
  push Not at hgt
  have hnear := sq_le_sq.mpr (h.abs_sub_le y' h'.representable)
  have hnear' := sq_le_sq.mpr (h'.abs_sub_le y h.representable)
  -- the first number would not be below the middle of the two, nor the second above it
  have hmiddle : y + y' ≤ 2 * q := by
    have hprod : (y - y') * (y + y' - 2 * q) ≤ 0 := by nlinarith only [hnear]
    have hfactor := nonpos_of_mul_nonpos_right hprod (sub_pos.mpr hgt)
    linarith
  have hmiddle' : 2 * q' ≤ y + y' := by
    have hprod : 0 ≤ (y - y') * (y + y' - 2 * q') := by nlinarith only [hnear']
    have hfactor := nonneg_of_mul_nonneg_right hprod (sub_pos.mpr hgt)
    linarith
  linarith

end NearestTo

/-! ## Rounding -/

/-- A magnitude with a sign. -/
def signed : Sign → ℚ → ℚ
  | .negative, x => -x
  | .positive, x => x

/-- The value of the parts of a double; it is zero if there is none. -/
def value : UnpackedFloat → ℚ
  | .finite s m e _ => signed s (m * 2 ^ e)
  | _ => 0

/-- Parts have the precision of doubles: 53 bits, fewer only at the least exponent. -/
def Precise : UnpackedFloat → Prop
  | .zero _ => True
  | .finite _ m e _ => m < 2 ^ 53 ∧ -1074 ≤ e ∧ (2 ^ 52 ≤ m ∨ e = -1074)
  | _ => False

/-- The sign of a number does not matter for how near its rounded value is. -/
theorem NearestTo.signed {q y : ℚ} (h : NearestTo q y) (s : Sign) :
    NearestTo (signed s q) (signed s y) := by
  cases s with
  | negative => exact h.neg
  | positive => exact h

/-- The exponent to which a mantissa is shifted leaves it 53 bits, unless it is the least one. -/
theorem targetExponent_eq (m : ℕ) (e : ℤ) :
    Format.binary64.targetExponent (totalExponent m e) = max (m.log2 + e - 52) (-1074) := by
  have hbits : (Format.binary64.mantissaBits : ℤ) = 53 := rfl
  have hleast : Format.binary64.minExponent = -1074 := rfl
  unfold Format.targetExponent totalExponent
  rw [hbits, hleast]
  omega

/-- Shifting to the target exponent shifts by its distance, if it is not below. -/
theorem shiftToTargetExponent_eq {m k : ℕ} {e : ℤ} (a : Accuracy)
    (hk : (Format.binary64.targetExponent (totalExponent m e) - e).toNat = k) :
    UnpackedFloat.shiftToTargetExponent Format.binary64 m e a =
      (ExtendedMantissa.ofMantissaAndAccuracy m a >>> k, e + k) := by
  rw [← hk]
  rfl

/-- A mantissa that has been shifted to the target exponent has 53 bits, fewer only at the least
exponent. -/
theorem shifted_mantissa_bounds {m k : ℕ} {e : ℤ} {em : ExtendedMantissa} {x : ℚ}
    (hk : (k : ℤ) = Format.binary64.targetExponent (totalExponent m e) - e)
    (hem : StandsFor em (x / 2 ^ k)) (hle : (m : ℚ) ≤ x) (hlt : x < m + 1) :
    em.mantissa < 2 ^ 53 ∧ (2 ^ 52 ≤ em.mantissa ∨ e + k = -1074) := by
  rw [targetExponent_eq] at hk
  have hpow : (0 : ℚ) < 2 ^ k := by positivity
  constructor
  · -- all bits of the mantissa but the last `k` remain
    have hbits : m + 1 ≤ 2 ^ (53 + k) := by
      have hlog : m < 2 ^ (m.log2 + 1) := Nat.lt_log2_self
      have hle : 2 ^ (m.log2 + 1) ≤ 2 ^ (53 + k) := Nat.pow_le_pow_right two_pos (by omega)
      omega
    have hx : x / 2 ^ k < 2 ^ 53 := by
      rw [div_lt_iff₀ hpow, ← pow_add]
      have hbits' : (m : ℚ) + 1 ≤ 2 ^ (53 + k) := by exact_mod_cast hbits
      linarith
    have hmantissa : (em.mantissa : ℚ) < 2 ^ 53 := lt_of_le_of_lt hem.le hx
    exact_mod_cast hmantissa
  · by_cases hleast : e + k = -1074
    · exact .inr hleast
    · left
      have hlog : m.log2 = 52 + k := by omega
      have hne : m ≠ 0 := by
        rintro rfl
        rw [Nat.log2_zero] at hlog
        omega
      have hbits : 2 ^ (52 + k) ≤ m := by
        rw [← hlog]
        exact Nat.log2_self_le hne
      have hx : (2 : ℚ) ^ 52 ≤ x / 2 ^ k := by
        rw [le_div_iff₀ hpow, ← pow_add]
        have hbits' : (2 : ℚ) ^ (52 + k) ≤ m := by exact_mod_cast hbits
        linarith
      have hmantissa : (2 : ℚ) ^ 52 < em.mantissa + 1 := lt_of_le_of_lt hx hem.lt
      have hmantissa' : 2 ^ 52 < em.mantissa + 1 := by exact_mod_cast hmantissa
      omega

/-- A mantissa that was rounded up to 54 bits is shifted once more, which loses nothing. -/
theorem shiftToTargetExponent_rounded {n : ℕ} {e : ℤ} (hn : n ≤ 2 ^ 53) (he : -1074 ≤ e)
    (hfull : 2 ^ 52 ≤ n ∨ e = -1074) {em : ExtendedMantissa} {e' : ℤ}
    (h : UnpackedFloat.shiftToTargetExponent Format.binary64 n e .exact = (em, e')) :
    (em.mantissa : ℚ) * 2 ^ e' = n * 2 ^ e ∧ em.mantissa < 2 ^ 53 ∧ -1074 ≤ e' ∧
      (2 ^ 52 ≤ em.mantissa ∨ e' = -1074) := by
  rcases Nat.lt_or_eq_of_le hn with hlt | rfl
  · have hlog : n.log2 ≤ 52 := by
      by_cases hzero : n = 0
      · rw [hzero, Nat.log2_zero]
        exact Nat.zero_le _
      · exact Nat.le_of_lt_succ ((Nat.log2_lt hzero).mpr hlt)
    have hk : (Format.binary64.targetExponent (totalExponent n e) - e).toNat = 0 := by
      rw [targetExponent_eq]
      omega
    rw [shiftToTargetExponent_eq _ hk] at h
    obtain ⟨rfl, rfl⟩ := Prod.mk.inj h
    have hmantissa : (ExtendedMantissa.ofMantissaAndAccuracy n .exact >>> 0).mantissa = n := rfl
    rw [hmantissa, Int.natCast_zero, add_zero]
    exact ⟨rfl, hlt, he, hfull⟩
  · have hk : (Format.binary64.targetExponent (totalExponent (2 ^ 53) e) - e).toNat = 1 := by
      rw [targetExponent_eq, Nat.log2_two_pow]
      omega
    rw [shiftToTargetExponent_eq _ hk] at h
    obtain ⟨rfl, rfl⟩ := Prod.mk.inj h
    have hmantissa : (ExtendedMantissa.ofMantissaAndAccuracy (2 ^ 53) .exact >>> 1).mantissa =
        2 ^ 52 := rfl
    rw [hmantissa]
    refine ⟨?_, by norm_num, by omega, .inl le_rfl⟩
    rw [Int.natCast_one, zpow_add₀ two_ne_zero, zpow_one]
    push_cast
    ring

/-- A rounded mantissa of 53 bits is nearest among the numbers that fit the precision: those with a
lower exponent lie below all mantissas of 53 bits. -/
theorem nearestTo_roundedMantissa {em : ExtendedMantissa} {x : ℚ} {e : ℤ} (h : StandsFor em x)
    (hlt : em.mantissa < 2 ^ 53) (he : -1074 ≤ e) (hfull : 2 ^ 52 ≤ em.mantissa ∨ e = -1074) :
    NearestTo (x * 2 ^ e) (em.roundedMantissa * 2 ^ e) := by
  have hbounds := StandsFor.roundedMantissa_bounds em
  have hpow : (0 : ℚ) < 2 ^ e := by positivity
  constructor
  · refine ⟨em.roundedMantissa, e, ?_, he, by norm_cast⟩
    rw [Nat.abs_cast]
    exact_mod_cast le_trans hbounds.2 hlt
  · rintro z ⟨k, j, hk, hj, rfl⟩
    rw [← sub_mul, abs_mul, abs_of_pos hpow]
    -- the other number in units of the power of two
    have hunits : ∃ y : ℚ,
        (k : ℚ) * 2 ^ j = y * 2 ^ e ∧ |(em.roundedMantissa : ℚ) - x| ≤ |y - x| := by
      rcases le_or_gt e j with hej | hej
      · obtain ⟨i, rfl⟩ := Int.le.dest hej
        refine ⟨(k * 2 ^ i : ℤ), ?_, h.abs_sub_le _⟩
        rw [zpow_add₀ two_ne_zero, zpow_natCast]
        push_cast
        ring
      · refine ⟨k * 2 ^ (j - e), ?_, ?_⟩
        · rw [mul_assoc, ← zpow_add₀ two_ne_zero, sub_add_cancel]
        · have hfull' : 2 ^ 52 ≤ em.mantissa := hfull.resolve_right (by omega)
          have hx : (2 : ℚ) ^ 52 ≤ x := le_trans (by exact_mod_cast hfull') h.le
          have hz : (k : ℚ) * 2 ^ (j - e) ≤ 2 ^ 52 := by
            have hk' : (k : ℚ) ≤ 2 ^ 53 := by exact_mod_cast le_trans (le_abs_self k) hk
            have hhalf : (2 : ℚ) ^ (j - e) ≤ 2 ^ (-1 : ℤ) :=
              zpow_le_zpow_right₀ one_le_two (by omega)
            calc (k : ℚ) * 2 ^ (j - e) ≤ 2 ^ 53 * 2 ^ (j - e) := by gcongr
              _ ≤ 2 ^ 53 * 2 ^ (-1 : ℤ) := by gcongr
              _ = 2 ^ 52 := by norm_num
          calc |(em.roundedMantissa : ℚ) - x| ≤ |((2 ^ 52 : ℤ) : ℚ) - x| := h.abs_sub_le _
            _ = x - 2 ^ 52 := by
              rw [abs_sub_comm, Int.cast_pow, Int.cast_ofNat, abs_of_nonneg (sub_nonneg.mpr hx)]
            _ ≤ x - k * 2 ^ (j - e) := by linarith
            _ ≤ |(k : ℚ) * 2 ^ (j - e) - x| := by
              rw [abs_sub_comm]
              exact le_abs_self _
    obtain ⟨y, hy, hnear⟩ := hunits
    rw [hy, ← sub_mul, abs_mul, abs_of_pos hpow]
    gcongr

/-- Rounding with the accuracy that a mantissa has gives parts with the precision of doubles, whose
value is nearest to the exact number. -/
theorem roundWithAccuracy_spec {s : Sign} {m : ℕ} {e : ℤ} {a : Accuracy} {x : ℚ}
    (hx : StandsFor (.ofMantissaAndAccuracy m a) x)
    (he : e ≤ Format.binary64.targetExponent (totalExponent m e)) :
    Precise (UnpackedFloat.roundWithAccuracy Format.binary64 s m e a) ∧
      NearestTo (signed s (x * 2 ^ e))
        (value (UnpackedFloat.roundWithAccuracy Format.binary64 s m e a)) := by
  obtain ⟨k, hk⟩ := Int.le.dest he
  have hk' : (k : ℤ) = Format.binary64.targetExponent (totalExponent m e) - e := by omega
  have hmantissa : (ExtendedMantissa.ofMantissaAndAccuracy m a).mantissa = m := by
    cases a with
    | exact => rfl
    | inexact o => cases o <;> rfl
  -- the first shift leaves 53 bits, which are rounded
  have hshift := hx.shiftRight k
  have hle := hx.le
  have hlt := hx.lt
  rw [hmantissa] at hle hlt
  obtain ⟨hbits, hfull⟩ := shifted_mantissa_bounds hk' hshift hle hlt
  have hleast : -1074 ≤ e + k := by
    rw [targetExponent_eq] at hk'
    omega
  have hnear := nearestTo_roundedMantissa hshift hbits hleast hfull
  have hexact : x / 2 ^ k * 2 ^ (e + k) = x * 2 ^ e := by
    rw [zpow_add₀ two_ne_zero, zpow_natCast]
    field_simp
  rw [hexact] at hnear
  have hrounded := StandsFor.roundedMantissa_bounds
    (ExtendedMantissa.ofMantissaAndAccuracy m a >>> k)
  -- the second shift only makes room for a carry
  unfold UnpackedFloat.roundWithAccuracy
  rw [shiftToTargetExponent_eq a (k := k) (by omega)]
  dsimp only
  cases hlast : UnpackedFloat.shiftToTargetExponent Format.binary64
    (ExtendedMantissa.ofMantissaAndAccuracy m a >>> k).roundedMantissa (e + k) .exact with
  | mk em e' =>
    obtain ⟨hvalue, hsmall, hleast', hfull'⟩ := shiftToTargetExponent_rounded (by omega) hleast
      (hfull.imp_left fun h => le_trans h hrounded.1) hlast
    dsimp only
    rw [← hvalue] at hnear
    split
    · rename_i hzero
      rw [hzero, Nat.cast_zero, zero_mul] at hnear
      refine ⟨trivial, ?_⟩
      have hzero' : signed s 0 = 0 := by
        cases s with
        | negative => exact neg_zero
        | positive => rfl
      have hsigned := hnear.signed s
      rw [hzero'] at hsigned
      exact hsigned
    · exact ⟨⟨hsmall, hleast', hfull'⟩, hnear.signed s⟩

end LedgerBench
