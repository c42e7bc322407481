import LedgerBench.Decimal.Binary64

/-!
# The fewest decimal digits that read back as the same double

The reals that round to a double form an interval around it. Of the decimals `d · 10^k` in that
interval the shortest ones are wanted, and of these the one nearest to the double. If a grid
`10^k` meets the interval at all, it does so at one of the two grid points next to the double, so
it is enough to try these two, from one digit up to seventeen.
-/

namespace LedgerBench.Decimal

/-- The number `coefficient · 10^exponent`. -/
structure Scientific where
  /-- The digits, as a natural number. -/
  coefficient : Nat
  /-- The power of ten. -/
  exponent : Int
deriving Repr, DecidableEq

/-- The reals that round to a given double, with the double itself, as numerators over one
denominator `den`. -/
structure Interval where
  /-- The common denominator. -/
  den : Nat
  /-- The lower end. -/
  low : Nat
  /-- The double itself. -/
  mid : Nat
  /-- The upper end. -/
  high : Nat
  /-- Whether the ends belong to the interval, which they do when the mantissa is even. -/
  closed : Bool

/-- The interval of the positive double `mantissa · 2^exponent`. Neighbours are one unit of the
last place away, except below a power of two, where the spacing halves. -/
def Interval.around (mantissa : Nat) (exponent : Int) : Interval :=
  let scale := Nat.pow 2 exponent.toNat
  let belowHalf := mantissa = Nat.pow 2 52 ∧ exponent ≠ -1074
  { den := 4 * Nat.pow 2 (-exponent).toNat
    low := (4 * mantissa - if belowHalf then 1 else 2) * scale
    mid := 4 * mantissa * scale
    high := (4 * mantissa + 2) * scale
    closed := mantissa % 2 = 0 }

/-- Whether `num / den'` lies in the interval. -/
def Interval.contains (i : Interval) (num den' : Nat) : Bool :=
  if i.closed then i.low * den' ≤ num * i.den && num * i.den ≤ i.high * den'
  else i.low * den' < num * i.den && num * i.den < i.high * den'

/-- The power of ten `e` with `10^e ≤ num / den < 10^(e+1)`, for positive `num` and `den`. -/
def orderOfMagnitude (num den : Nat) : Int :=
  if den ≤ num then (Nat.toDigits 10 (num / den)).length - 1
  else -(Nat.toDigits 10 ((den - 1) / num)).length

/-- The grid point of `10^k` that stands for the double of interval `i`: of the two points next to
it, the one inside the interval, and of two such points the nearer, a tie going to the even one. -/
def nearestOnGrid (i : Interval) (k : Int) : Option Scientific :=
  -- the double is `num / den` grid steps away from zero
  let num := i.mid * Nat.pow 10 (-k).toNat
  let den := i.den * Nat.pow 10 k.toNat
  let below := num / den
  let above := below + 1
  let inside (c : Nat) := i.contains (c * Nat.pow 10 k.toNat) (Nat.pow 10 (-k).toNat)
  let twice := 2 * (num % den)
  let belowFirst := twice < den || (twice = den && below % 2 = 0)
  if inside below && (belowFirst || !inside above) then some ⟨below, k⟩
  else if inside above then some ⟨above, k⟩
  else none

/-- Strips the zeros at the end of a positive coefficient. -/
def Scientific.stripped (s : Scientific) : Scientific :=
  if h : s.coefficient ≠ 0 ∧ s.coefficient % 10 = 0 then
    stripped ⟨s.coefficient / 10, s.exponent + 1⟩
  else s
termination_by s.coefficient
decreasing_by exact Nat.div_lt_self (Nat.pos_of_ne_zero h.1) (by decide)

/-- The shortest decimal that reads back as the positive double `mantissa · 2^exponent`. Seventeen
digits always suffice, so the exact expansion that ends the search is never reached. -/
def shortest (mantissa : Nat) (exponent : Int) : Scientific :=
  let i := Interval.around mantissa exponent
  let top := orderOfMagnitude i.mid i.den
  let found := (List.range 17).findSome? fun (n : Nat) => nearestOnGrid i (top - n)
  (found.getD ⟨i.mid * Nat.pow 10 (-exponent).toNat / i.den, -(-exponent).toNat⟩).stripped

end LedgerBench.Decimal
