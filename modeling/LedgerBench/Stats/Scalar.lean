import LedgerBench.Decimal.Binary64

/-!
# Numbers that samples are made of

The statistics are written once for every kind of number that has these operations. Doubles are the
kind that the reports use; exact numbers obey the same formulas without rounding.
-/

namespace LedgerBench

/-- Numbers that samples can be made of. -/
class Scalar (α : Type) extends Add α, Sub α, Mul α, Div α, OfScientific α where
  /-- A count as a number. -/
  ofNat : Nat → α
  /-- The whole part of a number; zero for a negative one. -/
  wholePart : α → Nat
  /-- The order in which samples are sorted. -/
  atMost : α → α → Bool

/-- Doubles: whole parts stop at the largest 64-bit word, and the whole part of not-a-number is
zero. -/
instance : Scalar Float where
  ofNat := Float.ofNat
  wholePart x := x.toUInt64.toNat
  atMost x y := orderKey x ≤ orderKey y

/-- The double that stands for a value which does not exist. -/
def noValue : Float := 0.0 / 0.0

end LedgerBench
