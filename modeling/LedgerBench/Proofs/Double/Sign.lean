import LedgerBench.Proofs.Double.Bounds

/-!
# Doubles that are not negative

A double is not negative if it is the positive infinity, or finite with a value that is not negative
(`nonneg_iff`). Rounding does not change sides, and what is too large for a finite double overflows
to the infinity of its side (`nonneg_ofParts`). So counts are not negative, however large they are
(`nonneg_ofNat`), and neither are their quotients by positive doubles (`nonneg_div`). Nothing here
needs a bound.
-/

namespace LedgerBench

open Float.Model (UnpackedFloat Format)
open Float.Model.UnpackedFloat (Sign)

/-- The value of zero. -/
theorem toRat_zero : toRat 0.0 = 0 := rfl

/-- The value of a million. -/
theorem toRat_million : toRat 1000000.0 = 1000000 := by
  have hparts : parts 1000000.0 = .finite .positive (1000000 * 2 ^ 33) (-33) (by norm_num) := rfl
  rw [toRat_of_parts_eq hparts]
  norm_num

/-- An infinity keeps its sign. -/
theorem parts_ofParts_infinity (s : Sign) : parts (ofParts (.infinity s)) = .infinity s := by
  cases s <;> rfl

/-- Parts with too large an exponent make an infinity. -/
theorem parts_ofParts_overflow {s : Sign} {m : ℕ} {e : ℤ} {hm : 0 < m} (he : 971 < e) :
    parts (ofParts (.finite s m e hm)) = .infinity s := by
  have hbias : (Format.binary64.exponentBias : ℤ) = 1023 := rfl
  have hplaces : (Format.binary64.mantissaBitsWithoutImplicit : ℤ) = 52 := rfl
  have hsize : 2 ^ Format.binary64.exponentBits = 2048 := rfl
  have hpack : UnpackedFloat.pack .binary64 (.finite s m e hm) =
      UnpackedFloat.pack .binary64 (.infinity s) := by
    unfold UnpackedFloat.pack
    dsimp only
    rw [hbias, hplaces, hsize, if_pos (by omega)]
  have hmodel : Float.Model.pack (.finite s m e hm) = Float.Model.pack (.infinity s) := by
    unfold Float.Model.pack
    simp only [hpack]
  rw [ofParts, hmodel]
  exact parts_ofParts_infinity s

section Nonneg

variable {x y : Float}

/-- A double is not negative if it is the positive infinity, or finite with a value that is not
negative. -/
theorem nonneg_iff :
    0.0 ≤ x ↔ parts x = .infinity .positive ∨ (x.isFinite = true ∧ 0 ≤ toRat x) := by
  by_cases hx : x.isFinite = true
  · have hfinite : (parts x).isFinite = true := hx
    rw [le_iff_toRat_le rfl hx, toRat_zero]
    constructor
    · exact fun h => .inr ⟨hx, h⟩
    · rintro (hparts | ⟨-, h⟩)
      · rw [hparts] at hfinite
        cases hfinite
      · exact h
  · have hle : 0.0 ≤ x ↔ (UnpackedFloat.compare (.zero .positive) (parts x)).any (·.isLE) = true :=
      decide_eq_true_iff
    have hfinite : (parts x).isFinite ≠ true := hx
    rw [hle]
    cases hparts : parts x with
    | notANumber => simp [UnpackedFloat.compare, hx]
    | infinity s => cases s <;> simp [UnpackedFloat.compare, hx]
    | zero s =>
      rw [hparts] at hfinite
      exact absurd rfl hfinite
    | finite s m e hm =>
      rw [hparts] at hfinite
      exact absurd rfl hfinite

/-- A double that is not negative is a number. -/
theorem isNaN_of_nonneg (h : 0.0 ≤ x) : x.isNaN = false := by
  rcases nonneg_iff.mp h with hinfinite | ⟨hfinite, -⟩
  · rw [isNaN_eq_false_iff, hinfinite]
    exact UnpackedFloat.noConfusion
  · exact isNaN_of_isFinite hfinite

/-- What is rounded to parts that are not negative is a double that is not negative. -/
theorem nonneg_ofParts {u : UnpackedFloat} (h : Precise u) (hvalue : 0 ≤ value u) :
    0.0 ≤ ofParts u := by
  rw [nonneg_iff]
  by_cases he : ExponentFits u
  · right
    have hparts := parts_ofParts h he
    constructor
    · change (parts (ofParts u)).isFinite = true
      rw [hparts]
      cases u with
      | notANumber | infinity s => cases h
      | zero s | finite s m e hm => rfl
    · unfold toRat
      rwa [hparts]
  · left
    cases u with
    | notANumber | infinity s => cases h
    | zero s => exact absurd trivial he
    | finite s m e hm =>
      cases s with
      | positive => exact parts_ofParts_overflow (not_le.mp he)
      | negative =>
        -- negative parts have a negative value
        have hpos : (0 : ℚ) < m * 2 ^ e := by positivity
        have hneg : value (.finite .negative m e hm) = -(m * 2 ^ e) := rfl
        rw [hneg] at hvalue
        linarith

/-- A count is not negative, however large it is. -/
theorem nonneg_ofNat (n : ℕ) : 0.0 ≤ Float.ofNat n := by
  by_cases hsize : n ≤ 2 ^ 1023
  · have hrounds := roundsTo_ofNat hsize
    have hvalue : 0 ≤ toRat (Float.ofNat n) := hrounds.nearest.ge_of_ge .zero (Nat.cast_nonneg n)
    exact nonneg_iff.mpr (.inr ⟨hrounds.isFinite, hvalue⟩)
  · have hpow : (2 : ℕ) ^ 53 ≤ 2 ^ 1023 := pow_le_pow_right₀ one_le_two (by norm_num)
    have hlarge : 2 ^ 53 ≤ n := hpow.trans (not_le.mp hsize).le
    obtain ⟨u, hparts, hprecise, hnear⟩ := exists_ofNat_eq_ofParts hlarge
    rw [hparts]
    exact nonneg_ofParts hprecise (hnear.ge_of_ge .zero (Nat.cast_nonneg n))

/-- The quotient of a double that is not negative by a positive one is not negative. -/
theorem nonneg_div (hx : 0.0 ≤ x) (hy : y.isFinite = true) (hpos : 0 < toRat y) : 0.0 ≤ x / y := by
  have hquotient : x / y = ofParts (UnpackedFloat.div .binary64 (parts x) (parts y)) := rfl
  rw [hquotient]
  rcases nonneg_iff.mp hx with hinfinite | ⟨hfinite, hvalue⟩
  · -- an infinity by a positive double is the same infinity
    have hprecise := (precise_parts hy).1
    unfold toRat at hpos
    rw [hinfinite]
    cases hparts : parts y with
    | notANumber | infinity t =>
      rw [hparts] at hprecise
      cases hprecise
    | zero t =>
      rw [hparts] at hpos
      exact absurd hpos (lt_irrefl 0)
    | finite t m e hm =>
      cases t with
      | positive => exact nonneg_iff.mpr (.inl (parts_ofParts_infinity .positive))
      | negative =>
        have hmagnitude : (0 : ℚ) < m * 2 ^ e := by positivity
        have hneg : value (.finite .negative m e hm) = -(m * 2 ^ e) := rfl
        rw [hparts, hneg] at hpos
        linarith
  · obtain ⟨hprecise, hnear⟩ :=
      div_spec (precise_parts hfinite).1 (precise_parts hy).1 (ne_of_gt hpos)
    have hexact : 0 ≤ value (parts x) / value (parts y) := div_nonneg hvalue hpos.le
    exact nonneg_ofParts hprecise (hnear.ge_of_ge .zero hexact)

end Nonneg

end LedgerBench
