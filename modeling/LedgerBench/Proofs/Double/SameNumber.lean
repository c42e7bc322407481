import Mathlib
import LedgerBench.Stats.Scalar

/-!
# Doubles up to the sign of zero

Two doubles can differ and still be the same number: a zero has a sign. `SameNumber` says that two
doubles compare equal or are both not-a-number. Addition, subtraction, multiplication and division
by a fixed double respect this relation. Samples are sorted by `orderKey`, which does not tell the
two zeros apart either: doubles in the same place of the order are the same number
(`sameNumber_of_orderKey_eq`).

Every operation unpacks its operands, works on their parts and packs the result. So it is enough to
look at the parts, of which two are the same number if they are equal or both zeros (`SameParts`).
-/

namespace LedgerBench

open Float.Model (UnpackedFloat Format)
open Float.Model.UnpackedFloat (Sign)

/-- Two doubles are the same number, where the sign of a zero does not count. -/
def SameNumber (x y : Float) : Prop := (x == y) = true ∨ (x.isNaN = true ∧ y.isNaN = true)

/-- The parts of a double. -/
def parts (x : Float) : UnpackedFloat := x.toModel.unpack

/-- The double with the given parts, as long as these are rounded to a double. -/
def ofParts (u : UnpackedFloat) : Float := ⟨Float.Model.pack u⟩

/-- The parts of two doubles that are the same number. -/
def SameParts (u v : UnpackedFloat) : Prop := u = v ∨ ∃ s t : Sign, u = .zero s ∧ v = .zero t

/-- A zero keeps its sign. -/
theorem parts_ofParts_zero (s : Sign) : parts (ofParts (.zero s)) = .zero s :=
  Float.Model.UnpackedFloat.unpack_packedZero

/-- Doubles are the same number exactly when their parts are. -/
theorem sameNumber_iff {x y : Float} : SameNumber x y ↔ SameParts (parts x) (parts y) := by
  have hbeq : (x == y) = true ↔ (parts x).beq (parts y) = true := Iff.rfl
  have hx : x.isNaN = true ↔ parts x = .notANumber := UnpackedFloat.isNaN_iff
  have hy : y.isNaN = true ↔ parts y = .notANumber := UnpackedFloat.isNaN_iff
  unfold SameNumber SameParts
  rw [hbeq, hx, hy, UnpackedFloat.beq_iff_ne_notANumber_and_eq]
  constructor
  · rintro (⟨-, -, heq | ⟨hzero, hzero'⟩ | ⟨hzero, hzero'⟩⟩ | ⟨hnan, hnan'⟩)
    · exact .inl heq
    · exact .inr ⟨_, _, hzero, hzero'⟩
    · exact .inr ⟨_, _, hzero, hzero'⟩
    · exact .inl (hnan.trans hnan'.symm)
  · rintro (heq | ⟨s, t, hzero, hzero'⟩)
    · by_cases hnan : parts x = .notANumber
      · exact .inr ⟨hnan, heq ▸ hnan⟩
      · exact .inl ⟨hnan, heq ▸ hnan, .inl heq⟩
    · rw [hzero, hzero']
      cases s <;> cases t <;> simp

/-! ## Parts -/

namespace SameParts

variable {u u' v v' : UnpackedFloat}

/-- Parts that are the same number make doubles that are. -/
theorem ofParts (h : SameParts u v) : SameNumber (ofParts u) (ofParts v) := by
  rw [sameNumber_iff]
  obtain rfl | ⟨s, t, rfl, rfl⟩ := h
  · exact .inl rfl
  · exact .inr ⟨s, t, parts_ofParts_zero s, parts_ofParts_zero t⟩

/-- A sum of two zeros is a zero. -/
theorem add_zero (s t s' t' : Sign) : SameParts
    (UnpackedFloat.add Format.binary64 (.zero s) (.zero t))
    (UnpackedFloat.add Format.binary64 (.zero s') (.zero t')) := by
  have hzero : ∀ s t, ∃ r, UnpackedFloat.add Format.binary64 (.zero s) (.zero t) = .zero r := by
    intro s t
    cases s <;> cases t <;> exact ⟨_, rfl⟩
  obtain ⟨r, hr⟩ := hzero s t
  obtain ⟨r', hr'⟩ := hzero s' t'
  exact .inr ⟨r, r', hr, hr'⟩

/-- A sum respects the relation. -/
theorem add (hu : SameParts u u') (hv : SameParts v v') : SameParts
    (UnpackedFloat.add Format.binary64 u v) (UnpackedFloat.add Format.binary64 u' v') := by
  obtain rfl | ⟨s, s', rfl, rfl⟩ := hu <;> obtain rfl | ⟨t, t', rfl, rfl⟩ := hv
  · exact .inl rfl
  · cases u with
    | zero s => exact add_zero s t s t'
    | _ => exact .inl rfl
  · cases v with
    | zero t => exact add_zero s t s' t
    | _ => exact .inl rfl
  · exact add_zero s t s' t'

/-- A difference of two zeros is a zero. -/
theorem sub_zero (s t s' t' : Sign) : SameParts
    (UnpackedFloat.sub Format.binary64 (.zero s) (.zero t))
    (UnpackedFloat.sub Format.binary64 (.zero s') (.zero t')) := by
  have hzero : ∀ s t, ∃ r, UnpackedFloat.sub Format.binary64 (.zero s) (.zero t) = .zero r := by
    intro s t
    cases s <;> cases t <;> exact ⟨_, rfl⟩
  obtain ⟨r, hr⟩ := hzero s t
  obtain ⟨r', hr'⟩ := hzero s' t'
  exact .inr ⟨r, r', hr, hr'⟩

/-- A difference respects the relation. -/
theorem sub (hu : SameParts u u') (hv : SameParts v v') : SameParts
    (UnpackedFloat.sub Format.binary64 u v) (UnpackedFloat.sub Format.binary64 u' v') := by
  obtain rfl | ⟨s, s', rfl, rfl⟩ := hu <;> obtain rfl | ⟨t, t', rfl, rfl⟩ := hv
  · exact .inl rfl
  · cases u with
    | zero s => exact sub_zero s t s t'
    | _ => exact .inl rfl
  · cases v with
    | zero t => exact sub_zero s t s' t
    | _ => exact .inl rfl
  · exact sub_zero s t s' t'

/-- A product with a zero is a zero, or not-a-number whatever the sign of the zero is. -/
theorem mul_right (u : UnpackedFloat) (hv : SameParts v v') : SameParts
    (UnpackedFloat.mul Format.binary64 u v) (UnpackedFloat.mul Format.binary64 u v') := by
  obtain rfl | ⟨t, t', rfl, rfl⟩ := hv
  · exact .inl rfl
  · cases u with
    | notANumber => exact .inl rfl
    | infinity s => exact .inl rfl
    | zero s => exact .inr ⟨_, _, rfl, rfl⟩
    | finite s m e h => exact .inr ⟨_, _, rfl, rfl⟩

/-- A quotient respects the relation in its dividend. -/
theorem div_left (hu : SameParts u u') (v : UnpackedFloat) : SameParts
    (UnpackedFloat.div Format.binary64 u v) (UnpackedFloat.div Format.binary64 u' v) := by
  obtain rfl | ⟨s, s', rfl, rfl⟩ := hu
  · exact .inl rfl
  · cases v with
    | notANumber => exact .inl rfl
    | infinity t => exact .inr ⟨_, _, rfl, rfl⟩
    | zero t => exact .inl rfl
    | finite t m e h => exact .inr ⟨_, _, rfl, rfl⟩

end SameParts

/-! ## Doubles -/

namespace SameNumber

variable {x x' y y' : Float}

/-- A double is the same number as itself. -/
theorem refl (x : Float) : SameNumber x x := sameNumber_iff.mpr (.inl rfl)

/-- Sums of the same numbers are the same number. -/
theorem add (hx : SameNumber x x') (hy : SameNumber y y') : SameNumber (x + y) (x' + y') :=
  ((sameNumber_iff.mp hx).add (sameNumber_iff.mp hy)).ofParts

/-- Differences of the same numbers are the same number. -/
theorem sub (hx : SameNumber x x') (hy : SameNumber y y') : SameNumber (x - y) (x' - y') :=
  ((sameNumber_iff.mp hx).sub (sameNumber_iff.mp hy)).ofParts

/-- The same numbers multiplied by one double are the same number. -/
theorem mul_right (x : Float) (hy : SameNumber y y') : SameNumber (x * y) (x * y') :=
  (SameParts.mul_right (parts x) (sameNumber_iff.mp hy)).ofParts

/-- The same numbers divided by one double are the same number. -/
theorem div_left (hx : SameNumber x x') (y : Float) : SameNumber (x / y) (x' / y) :=
  (SameParts.div_left (sameNumber_iff.mp hx) (parts y)).ofParts

end SameNumber

/-! ## The order of samples -/

/-- A double whose bits are all zero, but perhaps that of the sign, is a zero. -/
theorem exists_parts_eq_zero {x : Float} (h : x.toBits.toNat % 2 ^ 63 = 0) :
    ∃ s, parts x = .zero s := by
  have hlt : x.toBits.toNat < 2 ^ 64 := x.toBits.toNat_lt
  have hor : x.toBits = (0.0 : Float).toBits ∨ x.toBits = (-0.0 : Float).toBits := by
    rw [← UInt64.toNat_inj, ← UInt64.toNat_inj]
    have hplus : (0.0 : Float).toBits.toNat = 0 := rfl
    have hminus : (-0.0 : Float).toBits.toNat = 2 ^ 63 := rfl
    rw [hplus, hminus]
    omega
  rw [Float.toBits_inj, Float.toBits_inj] at hor
  rcases hor with rfl | rfl
  · exact ⟨.positive, rfl⟩
  · exact ⟨.negative, rfl⟩

/-- Doubles in the same place of the order are the same number. -/
theorem sameNumber_of_orderKey_eq {x y : Float} (h : orderKey x = orderKey y) :
    SameNumber x y := by
  have hx : x.toBits.toNat < 2 ^ 64 := x.toBits.toNat_lt
  have hy : y.toBits.toNat < 2 ^ 64 := y.toBits.toNat_lt
  have hcases : x.toBits.toNat = y.toBits.toNat ∨
      (x.toBits.toNat % 2 ^ 63 = 0 ∧ y.toBits.toNat % 2 ^ 63 = 0) := by
    simp only [orderKey, Nat.pow_eq] at h
    -- the sign is the highest bit, and the key of the rest is its own
    split at h <;> split at h <;> omega
  rw [sameNumber_iff]
  rcases hcases with heq | ⟨hzero, hzero'⟩
  · rw [UInt64.toNat_inj, Float.toBits_inj] at heq
    exact .inl (congrArg parts heq)
  · obtain ⟨s, hs⟩ := exists_parts_eq_zero hzero
    obtain ⟨t, ht⟩ := exists_parts_eq_zero hzero'
    exact .inr ⟨s, t, hs, ht⟩

end LedgerBench
