/-!
# The parts of a double

A finite double is `±m · 2^q` with natural `m`. Everything that prints or orders doubles starts
from these parts, so that it is exact integer arithmetic and never rounds twice.
-/

namespace LedgerBench

/-- What a double stands for. -/
inductive Binary64 where
  /-- Not a number. -/
  | nan
  /-- An infinity. -/
  | infinite (negative : Bool)
  /-- The number `±mantissa · 2^exponent`; a zero keeps its sign. -/
  | finite (negative : Bool) (mantissa : Nat) (exponent : Int)
deriving Repr, DecidableEq

namespace Binary64

/-- The parts of a double, read off its bits: one sign bit, eleven exponent bits, 52 bits of
fraction. A normal number has an implicit leading one; a subnormal one has not and shares the
least exponent. -/
def ofFloat (x : Float) : Binary64 :=
  let bits : Nat := x.toBits.toNat
  let negative := bits / Nat.pow 2 63 == 1
  let biased : Nat := bits / Nat.pow 2 52 % Nat.pow 2 11
  let fraction : Nat := bits % Nat.pow 2 52
  if biased = 2047 then
    if fraction = 0 then .infinite negative else .nan
  else if biased = 0 then
    .finite negative fraction (-1074)
  else
    .finite negative (Nat.pow 2 52 + fraction) ((biased : Int) - 1075)

/-- The numerator of `mantissa · 2^exponent` over `denominator exponent`. -/
def numerator (mantissa : Nat) (exponent : Int) : Nat := mantissa * Nat.pow 2 exponent.toNat

/-- The denominator of `mantissa · 2^exponent`: a power of two, one from `exponent = 0` on. -/
def denominator (exponent : Int) : Nat := Nat.pow 2 (-exponent).toNat

/-- A denominator is never zero. -/
theorem denominator_pos (exponent : Int) : 0 < denominator exponent :=
  Nat.two_pow_pos _

end Binary64

/-- The place of a double in ascending order: its magnitude bits, negated below zero. The two zeros
share a place, and not-a-number lies above the positive infinity. -/
def orderKey (x : Float) : Int :=
  let magnitude : Int := (x.toBits.toNat % Nat.pow 2 63 : Nat)
  if x.toBits.toNat / Nat.pow 2 63 = 1 then -magnitude else magnitude

end LedgerBench
