import LedgerBench.Decimal.Rounding
import LedgerBench.Decimal.Binary64

/-!
# Decimal text with a fixed number of places

The exact value is rounded once, to the nearest number with that many places, a tie going to the
even last digit. The sign is that of the value before rounding, so a small negative number reads
`-0.00`.
-/

namespace LedgerBench.Decimal

/-- Decimal digits with at least `width` of them, filled up with zeros on the left. -/
def padded (width n : Nat) : List Char :=
  let digits := Nat.toDigits 10 n
  List.replicate (width - digits.length) '0' ++ digits

/-- The text of `units / 10^places`, for `places > 0`. -/
def ofUnits (places : Nat) (negative : Bool) (units : Nat) : List Char :=
  (if negative then ['-'] else []) ++ Nat.toDigits 10 (units / Nat.pow 10 places) ++
    '.' :: padded places (units % Nat.pow 10 places)

/-- The text of `±num / den` with `places` places. -/
def fixedQuotient (places : Nat) (negative : Bool) (num den : Nat) : List Char :=
  ofUnits places negative (roundDiv (num * Nat.pow 10 places) den)

/-- The text of a double with `places` places; the infinities read `inf` and `-inf`. -/
def fixed (places : Nat) (x : Float) : String :=
  match Binary64.ofFloat x with
  | .nan => "nan"
  | .infinite negative => if negative then "-inf" else "inf"
  | .finite negative mantissa exponent =>
    String.ofList (fixedQuotient places negative (Binary64.numerator mantissa exponent)
      (Binary64.denominator exponent))

end LedgerBench.Decimal
