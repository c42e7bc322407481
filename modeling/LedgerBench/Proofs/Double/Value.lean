import LedgerBench.Proofs.Double.Rounding
import LedgerBench.Proofs.Double.SameNumber

/-!
# The values of doubles

A finite double has a value (`toRat`), which fits the precision (`representable_toRat`), and finite
doubles are ordered by their values (`le_iff_toRat_le`). In the other direction, parts with the
precision of doubles make a double with these parts as long as the exponent is not too large
(`parts_ofParts`). So what has been rounded from an exact result below the largest powers of two is
a finite double nearest to that result (`roundsTo_ofParts`).
-/

namespace LedgerBench

open Float.Model (UnpackedFloat Format)
open Float.Model.UnpackedFloat (Sign)

/-- The value of a finite double. -/
def toRat (x : Float) : ℚ := value (parts x)

/-- The exponent of parts is not too large for a double. -/
def ExponentFits : UnpackedFloat → Prop
  | .finite _ _ e _ => e ≤ 971
  | _ => True

/-! ## Parts of doubles -/

/-- The mantissa and the exponent of a finite double that is not zero. -/
theorem bounds_of_parts_eq {x : Float} {s : Sign} {m : ℕ} {e : ℤ} {hm : 0 < m}
    (h : parts x = .finite s m e hm) :
    m < 2 ^ 53 ∧ -1074 ≤ e ∧ e ≤ 971 ∧ (2 ^ 52 ≤ m ∨ e = -1074) := by
  unfold parts Float.Model.unpack at h
  generalize x.toModel.toBits.toBitVec = b at h
  have hbias : (Format.binary64.exponentBias : ℤ) = 1023 := rfl
  have hplaces : (Format.binary64.mantissaBitsWithoutImplicit : ℤ) = 52 := rfl
  have hexponent : (@UnpackedFloat.unpackExponent .binary64 b).toNat < 2 ^ 11 :=
    BitVec.isLt _
  have hmantissa : (@UnpackedFloat.unpackMantissa .binary64 b).toNat < 2 ^ 52 :=
    BitVec.isLt _
  unfold UnpackedFloat.unpack at h
  dsimp only at h
  rw [hbias, hplaces] at h
  split at h
  · split at h <;> cases h
  · rename_i hlast
    have hlast' : (@UnpackedFloat.unpackExponent .binary64 b).toNat ≠ 2047 :=
      fun heq => hlast (BitVec.eq_of_toNat_eq heq)
    split at h
    · -- a subnormal number has the least exponent
      rename_i hfirst
      have hfirst' : (@UnpackedFloat.unpackExponent .binary64 b).toNat = 0 :=
        congrArg BitVec.toNat hfirst
      split at h
      · cases h
      · injection h with _ hm he
        omega
    · -- a normal number has one more bit than its mantissa field
      rename_i hfirst
      have hfirst' : (@UnpackedFloat.unpackExponent .binary64 b).toNat ≠ 0 :=
        fun heq => hfirst (BitVec.eq_of_toNat_eq heq)
      have hbit : (1#1 ++ @UnpackedFloat.unpackMantissa .binary64 b).toNat =
          2 ^ 52 + (@UnpackedFloat.unpackMantissa .binary64 b).toNat := by
        rw [BitVec.toNat_append, ← Nat.shiftLeft_add_eq_or_of_lt hmantissa]
        rfl
      injection h with _ hm he
      omega

/-- The parts of a finite double have its precision, and their exponent fits. -/
theorem precise_parts {x : Float} (h : x.isFinite = true) :
    Precise (parts x) ∧ ExponentFits (parts x) := by
  have hfinite : (parts x).isFinite = true := h
  cases hparts : parts x with
  | notANumber => rw [hparts] at hfinite; cases hfinite
  | infinity s => rw [hparts] at hfinite; cases hfinite
  | zero s => exact ⟨trivial, trivial⟩
  | finite s m e hm =>
    obtain ⟨hbits, hleast, hlast, hfull⟩ := bounds_of_parts_eq hparts
    exact ⟨⟨hbits, hleast, hfull⟩, hlast⟩

/-- Finite parts are equal if their signs, mantissas and exponents are. -/
theorem finite_congr {s s' : Sign} {m m' : ℕ} {e e' : ℤ} {hm : 0 < m} {hm' : 0 < m'} (hs : s = s')
    (hmantissa : m = m') (he : e = e') :
    UnpackedFloat.finite s m e hm = UnpackedFloat.finite s' m' e' hm' := by
  subst hs hmantissa he
  rfl

section Fields

variable {spec : Format} (s : Sign) {exponent : BitVec spec.exponentBits}
  {mantissa : BitVec spec.mantissaBitsWithoutImplicit}

/-- The fields of a normal number unpack to a mantissa with one more bit. -/
theorem unpack_normal (hlast : exponent ≠ -1#_) (hfirst : exponent ≠ 0#_) :
    ∃ h, UnpackedFloat.unpack spec (UnpackedFloat.packComponents spec s exponent mantissa) =
      .finite s (2 ^ spec.mantissaBitsWithoutImplicit + mantissa.toNat)
        (exponent.toNat - (spec.exponentBias + spec.mantissaBitsWithoutImplicit)) h := by
  have hbit : (1#1 ++ mantissa).toNat = 2 ^ spec.mantissaBitsWithoutImplicit + mantissa.toNat := by
    rw [BitVec.toNat_append, ← Nat.shiftLeft_add_eq_or_of_lt mantissa.isLt, Nat.shiftLeft_eq,
      BitVec.toNat_ofNat, Nat.mod_eq_of_lt (by norm_num), one_mul]
  refine ⟨by positivity, ?_⟩
  unfold UnpackedFloat.unpack
  simp only [UnpackedFloat.unpackExponent_packComponents,
    UnpackedFloat.unpackMantissa_packComponents, UnpackedFloat.unpackSign_packComponents,
    UnpackedFloat.Sign.ofBitVec_toBitVec, if_neg hlast, if_neg hfirst]
  exact finite_congr rfl hbit rfl

/-- The fields of a subnormal number unpack to its mantissa and the least exponent. -/
theorem unpack_subnormal (hlast : (0#_ : BitVec spec.exponentBits) ≠ -1#_)
    (hm : 0 < mantissa.toNat) :
    UnpackedFloat.unpack spec (UnpackedFloat.packComponents spec s 0#_ mantissa) =
      .finite s mantissa.toNat (1 - (spec.exponentBias + spec.mantissaBitsWithoutImplicit)) hm := by
  have hne : mantissa ≠ 0#_ := by
    rintro rfl
    rw [BitVec.toNat_ofNat, Nat.zero_mod] at hm
    exact Nat.lt_irrefl 0 hm
  unfold UnpackedFloat.unpack
  simp only [UnpackedFloat.unpackExponent_packComponents,
    UnpackedFloat.unpackMantissa_packComponents, UnpackedFloat.unpackSign_packComponents,
    UnpackedFloat.Sign.ofBitVec_toBitVec, if_neg hlast, if_true, dif_neg hne]
  refine finite_congr rfl rfl ?_
  rw [BitVec.toNat_ofNat, Nat.zero_mod]
  omega

end Fields

/-- A full mantissa and an exponent that fits are unpacked from the fields that they are packed
into. -/
theorem unpack_normal_fields (s : Sign) {m : ℕ} {e : ℤ} (hm : 0 < m) (hlow : 2 ^ 52 ≤ m)
    (hhigh : m < 2 ^ 53) (hleast : -1074 ≤ e) (hlast : e ≤ 971) :
    UnpackedFloat.unpack .binary64 (UnpackedFloat.packComponents .binary64 s
      (BitVec.ofNat 11 (e + 1023 + 52).toNat) (BitVec.ofNat 52 m)) = .finite s m e hm := by
  have hbias : (Format.binary64.exponentBias : ℤ) = 1023 := rfl
  have hplaces : (Format.binary64.mantissaBitsWithoutImplicit : ℤ) = 52 := rfl
  have hfield : (BitVec.ofNat 52 m).toNat = m - 2 ^ 52 := by
    rw [BitVec.toNat_ofNat]
    omega
  have hexponent : (BitVec.ofNat 11 (e + 1023 + 52).toNat).toNat = (e + 1023 + 52).toNat := by
    rw [BitVec.toNat_ofNat]
    omega
  -- the exponent field is neither full nor empty
  have hlastField : BitVec.ofNat 11 (e + 1023 + 52).toNat ≠ -1#11 := by
    intro heq
    have hones : (-1#11).toNat = 2047 := rfl
    rw [heq] at hexponent
    omega
  have hfirstField : BitVec.ofNat 11 (e + 1023 + 52).toNat ≠ 0#11 := by
    intro heq
    have hzeros : (0#11).toNat = 0 := rfl
    rw [heq] at hexponent
    omega
  obtain ⟨hpos, hunpack⟩ :=
    @unpack_normal .binary64 s _ (BitVec.ofNat 52 m) hlastField hfirstField
  refine hunpack.trans (finite_congr rfl ?_ ?_)
  · rw [hfield]
    change 2 ^ 52 + (m - 2 ^ 52) = m
    omega
  · rw [hexponent, hbias, hplaces]
    omega

/-- A short mantissa is unpacked from the fields that it is packed into. -/
theorem unpack_subnormal_fields (s : Sign) {m : ℕ} (hm : 0 < m) (hsmall : m < 2 ^ 52) :
    UnpackedFloat.unpack .binary64 (UnpackedFloat.packComponents .binary64 s 0#11
      (BitVec.ofNat 52 m)) = .finite s m (-1074) hm := by
  have hfield : (BitVec.ofNat 52 m).toNat = m := by
    rw [BitVec.toNat_ofNat]
    omega
  have hpos : 0 < (BitVec.ofNat 52 m).toNat := by rwa [hfield]
  have hunpack := @unpack_subnormal .binary64 s (BitVec.ofNat 52 m) (by decide) hpos
  exact hunpack.trans (finite_congr rfl hfield rfl)

/-- Parts with the precision of doubles, and an exponent that fits, are those of the double that is
put together from them. -/
theorem parts_ofParts {u : UnpackedFloat} (h : Precise u) (he : ExponentFits u) :
    parts (ofParts u) = u := by
  cases u with
  | notANumber => cases h
  | infinity s => cases h
  | zero s => exact parts_ofParts_zero s
  | finite s m e hm =>
    obtain ⟨hbits, hleast, hfull⟩ := h
    have hlast : e ≤ 971 := he
    have hbias : (Format.binary64.exponentBias : ℤ) = 1023 := rfl
    have hplaces : (Format.binary64.mantissaBitsWithoutImplicit : ℤ) = 52 := rfl
    have hwidth : Format.binary64.mantissaBits = 53 := rfl
    have hsize : 2 ^ Format.binary64.exponentBits = 2048 := rfl
    change UnpackedFloat.unpack Format.binary64 (UnpackedFloat.pack Format.binary64 _) = _
    unfold UnpackedFloat.pack
    dsimp only
    rw [hbias, hplaces, hwidth, hsize, if_neg (by omega)]
    have hlog : m.log2 < 53 := (Nat.log2_lt (Nat.ne_of_gt hm)).mpr hbits
    split
    · rename_i hnormal
      have hlow : 2 ^ 52 ≤ m := by
        have hlog' : m.log2 = 52 := by omega
        rw [← hlog']
        exact Nat.log2_self_le (Nat.ne_of_gt hm)
      exact unpack_normal_fields s hm hlow hbits hleast hlast
    · rename_i hsubnormal
      have hsmall : m < 2 ^ 52 := (Nat.log2_lt (Nat.ne_of_gt hm)).mp (by omega)
      obtain rfl : e = -1074 := hfull.resolve_left (by omega)
      exact unpack_subnormal_fields s hm hsmall

/-- What is put together from parts is not-a-number only if the parts are. -/
theorem parts_ofParts_ne_notANumber {u : UnpackedFloat} (h : u ≠ .notANumber) :
    parts (ofParts u) ≠ .notANumber := by
  intro hnan
  have hvalid : Format.binary64.Valid (UnpackedFloat.pack .binary64 u) :=
    UnpackedFloat.valid_pack
  have hpack : UnpackedFloat.pack .binary64 u = UnpackedFloat.packedNaN .binary64 :=
    (UnpackedFloat.unpack_eq_notANumber_iff_of_valid hvalid).mp hnan
  have hexponent := congrArg UnpackedFloat.unpackExponent hpack
  have hmantissa := congrArg UnpackedFloat.unpackMantissa hpack
  unfold UnpackedFloat.packedNaN at hexponent hmantissa
  rw [UnpackedFloat.unpackExponent_packComponents] at hexponent
  rw [UnpackedFloat.unpackMantissa_packComponents] at hmantissa
  unfold UnpackedFloat.pack at hexponent hmantissa
  cases u with
  | notANumber => exact h rfl
  | infinity s =>
    unfold UnpackedFloat.packedInfinity at hmantissa
    rw [UnpackedFloat.unpackMantissa_packComponents] at hmantissa
    exact absurd hmantissa (by decide)
  | zero s =>
    unfold UnpackedFloat.packedZero at hexponent
    rw [UnpackedFloat.unpackExponent_packComponents] at hexponent
    exact absurd hexponent (by decide)
  | finite s m e hm =>
    dsimp only at hexponent hmantissa
    split at hexponent
    · rename_i hlarge
      rw [if_pos hlarge, UnpackedFloat.packedInfinity,
        UnpackedFloat.unpackMantissa_packComponents] at hmantissa
      exact absurd hmantissa (by decide)
    · rename_i hsmall
      have hsize : 2 ^ Format.binary64.exponentBits = 2048 := rfl
      rw [hsize] at hsmall
      split at hexponent
      · -- the exponent field is not full, or the number would be an infinity
        rw [UnpackedFloat.unpackExponent_packComponents] at hexponent
        have hfield := congrArg BitVec.toNat hexponent
        rw [BitVec.toNat_ofNat] at hfield
        have hones : (-1#_ : BitVec Format.binary64.exponentBits).toNat = 2047 := rfl
        rw [hones, hsize] at hfield
        omega
      · rw [UnpackedFloat.unpackExponent_packComponents] at hexponent
        exact absurd hexponent (by decide)

/-! ## Values -/

/-- The value of parts with the precision of doubles fits the precision. -/
theorem representable_value {u : UnpackedFloat} (h : Precise u) : Representable (value u) := by
  cases u with
  | notANumber => exact .zero
  | infinity s => exact .zero
  | zero s => exact .zero
  | finite s m e hm =>
    obtain ⟨hbits, hleast, -⟩ := h
    have hmagnitude : Representable ((m : ℚ) * 2 ^ e) :=
      ⟨m, e, by rw [Nat.abs_cast]; exact_mod_cast hbits.le, hleast, by norm_cast⟩
    cases s with
    | negative => exact hmagnitude.neg
    | positive => exact hmagnitude

/-- The value of a finite double fits the precision. -/
theorem representable_toRat {x : Float} (h : x.isFinite = true) : Representable (toRat x) :=
  representable_value (precise_parts h).1

/-- A finite double is nearest to an exact number. -/
structure RoundsTo (q : ℚ) (x : Float) : Prop where
  /-- The double is finite. -/
  isFinite : x.isFinite = true
  /-- No number that fits the precision is nearer to the exact one. -/
  nearest : NearestTo q (toRat x)

/-- The magnitude of finite parts. -/
theorem abs_value_finite (s : Sign) {m : ℕ} (e : ℤ) (hm : 0 < m) :
    |value (.finite s m e hm)| = m * 2 ^ e := by
  have hpos : (0 : ℚ) ≤ m * 2 ^ e := by positivity
  cases s with
  | negative => exact (abs_neg _).trans (abs_of_nonneg hpos)
  | positive => exact abs_of_nonneg hpos

/-- Halfway between the largest finite double and the next power of two. -/
def overflowBound : ℚ := (2 ^ 54 - 1) * 2 ^ (970 : ℤ)

/-- The largest powers of two are below the bound. -/
theorem two_pow_lt_overflowBound : (2 : ℚ) ^ 1023 < overflowBound := by
  have hpow : (2 : ℚ) ^ 1023 = 2 ^ 53 * 2 ^ (970 : ℤ) := by
    rw [← zpow_natCast, ← zpow_natCast, ← zpow_add₀ two_ne_zero]
    norm_num
  rw [hpow, overflowBound]
  gcongr
  norm_num

/-- What is nearest to a number below the bound has an exponent that fits: a larger number would be
farther away than the largest double. -/
theorem exponentFits_of_nearestTo {u : UnpackedFloat} {q : ℚ} (h : Precise u)
    (hnear : NearestTo q (value u)) (hq : |q| < overflowBound) : ExponentFits u := by
  cases u with
  | notANumber => trivial
  | infinity s => trivial
  | zero s => trivial
  | finite s m e hm =>
    obtain ⟨-, -, hfull⟩ := h
    by_contra hgt
    have hgt' : 971 < e := not_le.mp hgt
    -- in units of half a last place of the largest double
    obtain ⟨t, ht⟩ : ∃ t : ℚ, t = 2 ^ (970 : ℤ) := ⟨_, rfl⟩
    have hpos : 0 < t := ht ▸ by positivity
    have hvalue : 2 ^ 54 * t ≤ |value (.finite s m e hm)| := by
      have hfull' : (2 : ℚ) ^ 52 ≤ m := by exact_mod_cast hfull.resolve_right (by omega)
      rw [abs_value_finite]
      calc 2 ^ 54 * t = (2 : ℚ) ^ 52 * 2 ^ (972 : ℤ) := by
            have hsplit : (2 : ℚ) ^ (972 : ℤ) = 2 ^ (970 : ℤ) * 2 ^ (2 : ℤ) :=
              zpow_add₀ two_ne_zero 970 2
            rw [hsplit, ← ht]
            ring
        _ ≤ (m : ℚ) * 2 ^ e := by
            have hpow : (2 : ℚ) ^ (972 : ℤ) ≤ 2 ^ e := zpow_le_zpow_right₀ one_le_two (by omega)
            gcongr
    have hlargest : Representable ((2 ^ 54 - 2) * t) := by
      have hsplit : (2 : ℚ) ^ (971 : ℤ) = 2 ^ (970 : ℤ) * 2 ^ (1 : ℤ) := zpow_add₀ two_ne_zero 970 1
      refine ⟨2 ^ 53 - 1, 971, by norm_num, by norm_num, ?_⟩
      rw [hsplit, ← ht]
      push_cast
      ring
    rw [overflowBound, ← ht] at hq
    obtain ⟨hlow, hhigh⟩ := abs_lt.mp hq
    rcases le_abs.mp hvalue with hvalue | hvalue
    · have hnearer := (le_abs_self _).trans (hnear.abs_sub_le _ hlargest)
      rcases le_abs.mp hnearer with hnearer | hnearer <;>
        linarith only [hvalue, hnearer, hlow, hhigh, hpos]
    · have hnearer := (neg_le_abs _).trans (hnear.abs_sub_le _ hlargest.neg)
      rcases le_abs.mp hnearer with hnearer | hnearer <;>
        linarith only [hvalue, hnearer, hlow, hhigh, hpos]

/-- Parts that were rounded from a number below the bound make a finite double. -/
theorem roundsTo_ofParts_of_lt {u : UnpackedFloat} {q : ℚ} (h : Precise u)
    (hnear : NearestTo q (value u)) (hq : |q| < overflowBound) : RoundsTo q (ofParts u) := by
  have hparts : parts (ofParts u) = u := parts_ofParts h (exponentFits_of_nearestTo h hnear hq)
  constructor
  · change (parts (ofParts u)).isFinite = true
    rw [hparts]
    cases u with
    | notANumber => cases h
    | infinity s => cases h
    | zero s => rfl
    | finite s m e hm => rfl
  · unfold toRat
    rwa [hparts]

/-- Parts that were rounded from a number below the largest powers of two make a finite double. -/
theorem roundsTo_ofParts {u : UnpackedFloat} {q : ℚ} (h : Precise u) (hnear : NearestTo q (value u))
    (hq : |q| ≤ 2 ^ 1023) : RoundsTo q (ofParts u) :=
  roundsTo_ofParts_of_lt h hnear (lt_of_le_of_lt hq two_pow_lt_overflowBound)

/-! ## Order -/

/-- Magnitudes with the precision of doubles are ordered by their exponents first. -/
theorem magnitude_lt_of_exponent_lt {m m' : ℕ} {e e' : ℤ} (hm : m < 2 ^ 53) (he : -1074 ≤ e)
    (hfull : 2 ^ 52 ≤ m' ∨ e' = -1074) (hlt : e < e') : (m : ℚ) * 2 ^ e < m' * 2 ^ e' := by
  have hm' : (m : ℚ) < 2 ^ 53 := by exact_mod_cast hm
  have hfull' : (2 : ℚ) ^ 52 ≤ m' := by exact_mod_cast hfull.resolve_right (by omega)
  have hpow : (2 : ℚ) ^ (e + 1) ≤ 2 ^ e' := zpow_le_zpow_right₀ one_le_two (by omega)
  calc (m : ℚ) * 2 ^ e < 2 ^ 53 * 2 ^ e := by gcongr
    _ = 2 ^ 52 * 2 ^ (e + 1) := by rw [zpow_add₀ two_ne_zero, zpow_one]; ring
    _ ≤ m' * 2 ^ e' := by gcongr

/-- Comparing exponents and then mantissas compares magnitudes. -/
theorem compare_magnitude {m m' : ℕ} {e e' : ℤ} (hm : m < 2 ^ 53) (hm' : m' < 2 ^ 53)
    (he : -1074 ≤ e) (he' : -1074 ≤ e') (hfull : 2 ^ 52 ≤ m ∨ e = -1074)
    (hfull' : 2 ^ 52 ≤ m' ∨ e' = -1074) :
    (compare e e').then (compare m m') = compare ((m : ℚ) * 2 ^ e) (m' * 2 ^ e') := by
  rcases lt_trichotomy e e' with hlt | rfl | hgt
  · have hmagnitude := magnitude_lt_of_exponent_lt hm he hfull' hlt
    rw [compare_lt_iff_lt.mpr hlt, compare_lt_iff_lt.mpr hmagnitude]
    rfl
  · have hpow : (0 : ℚ) < 2 ^ e := by positivity
    rw [compare_eq_iff_eq.mpr rfl]
    rcases lt_trichotomy m m' with hlt | rfl | hgt
    · have hmagnitude : (m : ℚ) * 2 ^ e < m' * 2 ^ e := by
        have hlt' : (m : ℚ) < m' := by exact_mod_cast hlt
        gcongr
      rw [compare_lt_iff_lt.mpr hlt, compare_lt_iff_lt.mpr hmagnitude]
      rfl
    · rw [compare_eq_iff_eq.mpr rfl, compare_eq_iff_eq.mpr rfl]
      rfl
    · have hmagnitude : (m' : ℚ) * 2 ^ e < m * 2 ^ e := by
        have hlt' : (m' : ℚ) < m := by exact_mod_cast hgt
        gcongr
      rw [compare_gt_iff_gt.mpr hgt, compare_gt_iff_gt.mpr hmagnitude]
      rfl
  · have hmagnitude := magnitude_lt_of_exponent_lt hm' he' hfull hgt
    rw [compare_gt_iff_gt.mpr hgt, compare_gt_iff_gt.mpr hmagnitude]
    rfl

/-- Negative numbers are compared the other way round. -/
theorem swap_compare (q q' : ℚ) : (compare q q').swap = compare (-q) (-q') := by
  rcases lt_trichotomy q q' with hlt | rfl | hgt
  · rw [compare_lt_iff_lt.mpr hlt, compare_gt_iff_gt.mpr (neg_lt_neg hlt)]
    rfl
  · rw [compare_eq_iff_eq.mpr rfl, compare_eq_iff_eq.mpr rfl]
    rfl
  · rw [compare_gt_iff_gt.mpr hgt, compare_lt_iff_lt.mpr (neg_lt_neg hgt)]
    rfl

/-- Parts with the precision of doubles are compared by their values. -/
theorem compare_eq_compare_value {u v : UnpackedFloat} (hu : Precise u) (hv : Precise v) :
    u.compare v = some (compare (value u) (value v)) := by
  have hpos : ∀ (m : ℕ) (e : ℤ), 0 < m → (0 : ℚ) < m * 2 ^ e := by
    intro m e hm
    positivity
  cases u with
  | notANumber => cases hu
  | infinity s => cases hu
  | zero s =>
    cases v with
    | notANumber => cases hv
    | infinity t => cases hv
    | zero t => exact congrArg some (compare_eq_iff_eq.mpr rfl).symm
    | finite t m' e' hm' =>
      have hpos' := hpos m' e' hm'
      cases t with
      | negative => exact congrArg some (compare_gt_iff_gt.mpr (neg_lt_zero.mpr hpos')).symm
      | positive => exact congrArg some (compare_lt_iff_lt.mpr hpos').symm
  | finite s m e hm =>
    have hpos' := hpos m e hm
    cases v with
    | notANumber => cases hv
    | infinity t => cases hv
    | zero t =>
      cases s with
      | negative => exact congrArg some (compare_lt_iff_lt.mpr (neg_lt_zero.mpr hpos')).symm
      | positive => exact congrArg some (compare_gt_iff_gt.mpr hpos').symm
    | finite t m' e' hm' =>
      obtain ⟨hbits, hleast, hfull⟩ := hu
      obtain ⟨hbits', hleast', hfull'⟩ := hv
      have hpos'' := hpos m' e' hm'
      have hmagnitude := compare_magnitude hbits hbits' hleast hleast' hfull hfull'
      cases s <;> cases t
      · exact congrArg some ((congrArg Ordering.swap hmagnitude).trans (swap_compare _ _))
      · have hlt : value (.finite .negative m e hm) < value (.finite .positive m' e' hm') :=
          (neg_lt_zero.mpr hpos').trans hpos''
        exact congrArg some (compare_lt_iff_lt.mpr hlt).symm
      · have hgt : value (.finite .negative m' e' hm') < value (.finite .positive m e hm) :=
          (neg_lt_zero.mpr hpos'').trans hpos'
        exact congrArg some (compare_gt_iff_gt.mpr hgt).symm
      · exact congrArg some hmagnitude

/-- Finite doubles are ordered by their values. -/
theorem le_iff_toRat_le {x y : Float} (hx : x.isFinite = true) (hy : y.isFinite = true) :
    x ≤ y ↔ toRat x ≤ toRat y := by
  have hle : x ≤ y ↔ ((parts x).compare (parts y)).any (·.isLE) = true := decide_eq_true_iff
  have hgt : compare (value (parts x)) (value (parts y)) = .gt ↔ toRat y < toRat x :=
    compare_gt_iff_gt
  rw [hle, compare_eq_compare_value (precise_parts hx).1 (precise_parts hy).1, Option.any_some,
    Ordering.isLE_iff_ne_gt, hgt, not_lt]

end LedgerBench
