import LedgerBench.Json.Value
import LedgerBench.Decimal.Shortest

/-!
# JSON numbers as text

Writing gives a double the fewest digits that read back. Reading gathers the digits in a 64-bit word
and scales it by a power of ten, which may miss the nearest double in the last place. Integers that
fit 64 bits are exact both ways.
-/

namespace LedgerBench.JsonNumber

/-! ## Writing -/

/-- The text of digits times a power of ten. The exponent of the first digit decides: from -5 up to
15 it is positional with at least one decimal place, else it has an exponent with its sign. -/
def scientificText (s : Decimal.Scientific) : List Char :=
  let digits := Nat.toDigits 10 s.coefficient
  let lead := s.exponent + digits.length - 1
  if 0 ≤ lead ∧ lead ≤ 15 then
    let whole := lead.toNat + 1
    let places := digits.drop whole
    digits.take whole ++ List.replicate (whole - digits.length) '0' ++
      '.' :: (if places.isEmpty then ['0'] else places)
  else if -5 ≤ lead ∧ lead < 0 then
    '0' :: '.' :: (List.replicate ((-lead).toNat - 1) '0' ++ digits)
  else
    digits.take 1 ++ (if digits.length = 1 then [] else '.' :: digits.drop 1) ++
      'e' :: (if lead < 0 then '-' else '+') :: Nat.toDigits 10 lead.natAbs

/-- The text of a double; `null` stands for what JSON cannot express. -/
def floatText (x : Float) : List Char :=
  match Binary64.ofFloat x with
  | .nan | .infinite _ => ['n', 'u', 'l', 'l']
  | .finite negative mantissa exponent =>
    (if negative then ['-'] else []) ++
      if mantissa = 0 then ['0', '.', '0'] else scientificText (Decimal.shortest mantissa exponent)

/-- The text of an integer. -/
def integerText : Int → List Char
  | .ofNat n => Nat.toDigits 10 n
  | .negSucc n => '-' :: Nat.toDigits 10 (n + 1)

/-- The text of a number. -/
def characters : JsonNumber → List Char
  | integer n => integerText n
  | float x => floatText x

/-! ## Reading -/

/-- The parts of a number as written; the exponent is zero if there is none. -/
structure Written where
  /-- Whether a minus sign stands in front. -/
  negative : Bool
  /-- The digits before the decimal point. -/
  whole : List Nat
  /-- The digits after the decimal point, if there is one. -/
  places : Option (List Nat)
  /-- The exponent, if there is one. -/
  exponent : Option Int

/-- Appends digits to a word as long as it fits 64 bits; also tells how many were taken. -/
def gather (word : Nat) : List Nat → Nat × Nat
  | [] => (word, 0)
  | d :: rest =>
    if 10 * word + d < Nat.pow 2 64 then
      let (word, taken) := gather (10 * word + d) rest
      (word, taken + 1)
    else (word, 0)

/-- The double nearest to a power of ten. -/
def powerOfTen (n : Nat) : Float := Float.ofScientific 1 false n

/-- A double times a power of ten, by one multiplication, or by one division if the exponent is
negative. Exponents below -308 are approached in steps of 308. There is no result beyond the finite
doubles. -/
def scale (x : Float) (exponent : Int) : Option Float :=
  if 0 ≤ exponent then
    if exponent ≤ 308 then
      let y := x * powerOfTen exponent.toNat
      if y.isInf then none else some y
    else if x == 0.0 then some x
    else none
  else if -308 ≤ exponent then some (x / powerOfTen exponent.natAbs)
  else if x == 0.0 then some x
  else scale (x / powerOfTen 308) (exponent + 308)
termination_by exponent.natAbs
decreasing_by omega

/-- The value of a written number; there is none beyond the finite doubles. -/
def ofWritten (w : Written) : Option JsonNumber :=
  let (word, taken) := gather 0 w.whole
  let dropped := w.whole.length - taken
  -- an integer that fits a word; a negative zero is none, since it keeps its sign
  if dropped = 0 && w.places.isNone && w.exponent.isNone && !w.negative then
    some (integer word)
  else if dropped = 0 && w.places.isNone && w.exponent.isNone && 0 < word && word ≤ Nat.pow 2 63 then
    some (integer (-word))
  else
    -- the word goes on with the decimal places, as long as they fit
    let (word, placed) := gather word (w.places.getD [])
    let exponent := (dropped : Int) - placed + w.exponent.getD 0
    (scale (Float.ofNat word) exponent).map fun x => float (if w.negative then -x else x)

end LedgerBench.JsonNumber
