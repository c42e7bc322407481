import LedgerBench.Json.Number

/-!
# Reading a JSON number one character at a time

A number ends where a character follows that cannot belong to it. Until then it may be incomplete:
after the sign, the decimal point, or the mark of the exponent a digit has to follow.
-/

namespace LedgerBench.Json

/-- A number of which a part has been read; digits stand last one first. -/
inductive NumberScan where
  /-- A minus sign. -/
  | sign
  /-- Digits before the decimal point. -/
  | whole (negative : Bool) (digits : List Nat)
  /-- The decimal point has just been read. -/
  | point (negative : Bool) (front : List Nat)
  /-- Digits after the decimal point. -/
  | places (negative : Bool) (front digits : List Nat)
  /-- The mark of the exponent has just been read. -/
  | mark (negative : Bool) (front : List Nat) (back : Option (List Nat))
  /-- The sign of the exponent has just been read. -/
  | markSign (negative : Bool) (front : List Nat) (back : Option (List Nat)) (below : Bool)
  /-- Digits of the exponent, as their value. -/
  | exponent (negative : Bool) (front : List Nat) (back : Option (List Nat)) (below : Bool)
    (value : Nat)

namespace NumberScan

/-- What one more character does to the scan of a number. -/
inductive Step where
  /-- The number goes on. -/
  | more (scan : NumberScan)
  /-- The number was complete before this character. -/
  | ended
  /-- The number is incomplete and cannot go on like this. -/
  | broken

/-- The value of a decimal digit. -/
def digit? (c : Char) : Option Nat := if c.isDigit then some (c.toNat - '0'.toNat) else none

/-- The mark of an exponent. -/
def isMark (c : Char) : Bool := c = 'e' || c = 'E'

/-- The scan of a number that starts with this character. -/
def start? (c : Char) : Option NumberScan :=
  if c = '-' then some .sign else (digit? c).map fun d => .whole false [d]

/-- Reads one character. A whole part of more than one digit does not start with zero. -/
def step : NumberScan → Char → Step
  | .sign, c =>
    match digit? c with
    | some d => .more (.whole true [d])
    | none => .broken
  | .whole negative digits, c =>
    match digit? c with
    | some d => if digits = [0] then .broken else .more (.whole negative (d :: digits))
    | none =>
      if c = '.' then .more (.point negative digits)
      else if isMark c then .more (.mark negative digits none)
      else .ended
  | .point negative front, c =>
    match digit? c with
    | some d => .more (.places negative front [d])
    | none => .broken
  | .places negative front digits, c =>
    match digit? c with
    | some d => .more (.places negative front (d :: digits))
    | none => if isMark c then .more (.mark negative front (some digits)) else .ended
  | .mark negative front back, c =>
    match digit? c with
    | some d => .more (.exponent negative front back false d)
    | none =>
      if c = '+' then .more (.markSign negative front back false)
      else if c = '-' then .more (.markSign negative front back true)
      else .broken
  | .markSign negative front back below, c =>
    match digit? c with
    | some d => .more (.exponent negative front back below d)
    | none => .broken
  | .exponent negative front back below value, c =>
    match digit? c with
    | some d => .more (.exponent negative front back below (10 * value + d))
    | none => .ended

/-- The number read so far, if it is complete. -/
def written? : NumberScan → Option JsonNumber.Written
  | .whole negative digits => some ⟨negative, digits.reverse, none, none⟩
  | .places negative front digits => some ⟨negative, front.reverse, some digits.reverse, none⟩
  | .exponent negative front back below value =>
    some ⟨negative, front.reverse, back.map List.reverse,
      some (if below then -(value : Int) else value)⟩
  | _ => none

end NumberScan

end LedgerBench.Json
