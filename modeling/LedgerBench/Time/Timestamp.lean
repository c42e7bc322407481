import LedgerBench.Text.Blank
import LedgerBench.Time.Calendar
import LedgerBench.Time.Instant

/-!
# Timestamps as text

Two written forms are accepted. The *zoned* form has fixed widths and ends in an offset from
universal time:

    2021-01-01T00:00:01.25Z     2021-01-01 08:00:01+08:00

The *plain* form has no offset and means universal time. It is more lenient: numbers may be short
and follow white space, and a year may carry a sign and any number of digits.

    2021-1-1T0:0:1.25           +12021-01-01T00:00:01

`Timestamp.read` tries the zoned form first. When neither fits, the reason given is that of the
plain form.
-/

namespace LedgerBench

/-- Why a text is not a timestamp. -/
inductive TimestampFault where
  /-- A character that cannot stand where it does. -/
  | invalid
  /-- A number too large or too small, or a date that the calendar does not have. -/
  | outOfRange
  /-- The text ends early. -/
  | tooShort
  /-- Text is left after the timestamp. -/
  | tooLong
deriving Repr, DecidableEq

namespace Timestamp

/-- A reader takes characters from the front of a text. -/
abbrev Reader (α : Type) := List Char → Except TimestampFault (α × List Char)

/-- The number that a list of decimal digits writes. -/
def valueOf (digits : List Char) : Nat :=
  digits.foldl (fun n c => 10 * n + (c.toNat - '0'.toNat)) 0

/-- A number of at least `least` digits; no more than `most` of them are taken. It has to fit a
signed 64-bit word. -/
def number (least : Nat) (most : Option Nat) : Reader Nat := fun s =>
  let digits := (match most with | some n => s.take n | none => s).takeWhile Char.isDigit
  if digits.length < least then
    .error (if s.length < least then .tooShort else .invalid)
  else if valueOf digits ≥ Nat.pow 2 63 then .error .outOfRange
  else .ok (valueOf digits, s.drop digits.length)

/-- A number within bounds. -/
def bounded (low high : Nat) (digits : Reader Nat) : Reader Nat := fun s =>
  match digits s with
  | .ok (n, rest) => if low ≤ n && n ≤ high then .ok (n, rest) else .error .outOfRange
  | .error e => .error e

/-- A given character. -/
def literal (c : Char) : Reader Unit
  | [] => .error .tooShort
  | d :: rest => if d = c then .ok ((), rest) else .error .invalid

/-- The nanoseconds that the digits after a decimal point write; from the tenth on they are
ignored. -/
def nanosOf (digits : List Char) : Nat :=
  let kept := digits.take 9
  valueOf kept * Nat.pow 10 (9 - kept.length)

/-- An optional decimal point and digits after it, as nanoseconds. -/
def fraction : Reader Nat
  | '.' :: rest =>
    match rest.takeWhile Char.isDigit with
    | [] => .error (if rest.isEmpty then .tooShort else .invalid)
    | digits => .ok (nanosOf digits, rest.drop digits.length)
  | s => .ok (0, s)

/-- The seconds of a day and the nanoseconds for a time of day; second 60 is a leap second. -/
def clock (hour minute second nanos : Nat) : Int × Nat :=
  let leap := second = 60
  (3600 * hour + 60 * minute + (if leap then 59 else second),
    (if leap then Instant.nanosPerSecond else 0) + nanos)

/-- The instant of a date and a time of day in universal time, if there is such a date. Years have
to lie between -262143 and 262142. -/
def instantAt (date : Date) (time : Int × Nat) : Except TimestampFault Instant :=
  if date.isValid && -262143 ≤ date.year && date.year ≤ 262142 then
    .ok ⟨86400 * date.dayNumber + time.1, time.2⟩
  else .error .outOfRange

/-- The end of the text. -/
def ended : List Char → Except TimestampFault Unit
  | [] => .ok ()
  | _ :: _ => .error .tooLong

/-! ## The zoned form -/

/-- Exactly two digits. -/
def twoDigits : Reader Nat := number 2 (some 2)

/-- The character between date and time of the zoned form. -/
def dateTimeGap : Reader Unit
  | [] => .error .tooShort
  | c :: rest => if c = 'T' || c = 't' || c = ' ' then .ok ((), rest) else .error .invalid

/-- Hours and minutes of an offset, in seconds. -/
def offsetSeconds : Reader Nat := fun s => do
  let (hours, s) ← bounded 0 23 twoDigits s
  let ((), s) ← literal ':' s
  let (minutes, s) ← bounded 0 59 twoDigits s
  return (3600 * hours + 60 * minutes, s)

/-- The offset from universal time, in seconds: `Z`, or a sign and the offset. The sign may also be
the mathematical minus sign. -/
def offset : Reader Int
  | [] => .error .tooShort
  | c :: rest =>
    if c = 'Z' || c = 'z' then .ok (0, rest)
    else if c = '+' then do
      let (n, rest) ← offsetSeconds rest
      return ((n : Int), rest)
    else if c = '-' || c = '\u2212' then do
      let (n, rest) ← offsetSeconds rest
      return (-(n : Int), rest)
    else .error .invalid

/-- Reads the zoned form. -/
def readZoned (s : List Char) : Except TimestampFault Instant := do
  let (year, s) ← number 4 (some 4) s
  let ((), s) ← literal '-' s
  let (month, s) ← bounded 1 12 twoDigits s
  let ((), s) ← literal '-' s
  let (day, s) ← bounded 1 31 twoDigits s
  let ((), s) ← dateTimeGap s
  let (hour, s) ← bounded 0 23 twoDigits s
  let ((), s) ← literal ':' s
  let (minute, s) ← bounded 0 59 twoDigits s
  let ((), s) ← literal ':' s
  let (second, s) ← bounded 0 60 twoDigits s
  let (nanos, s) ← fraction s
  let (offset, s) ← offset s
  let () ← ended s
  let t ← instantAt ⟨year, month, day⟩ (clock hour minute second nanos)
  return { t with seconds := t.seconds - offset }

/-! ## The plain form -/

/-- White space and then a number of one or two digits. -/
def shortNumber : Reader Nat := fun s => number 1 (some 2) (s.dropWhile Text.isBlank)

/-- White space and then a year: one to four digits, or a sign and any number of them. It has to
fit a signed 32-bit word. -/
def year : Reader Int := fun s => do
  let (year, rest) ← match s.dropWhile Text.isBlank with
    | '-' :: s => do
      let (n, rest) ← number 1 none s
      pure (-(n : Int), rest)
    | '+' :: s => do
      let (n, rest) ← number 1 none s
      pure ((n : Int), rest)
    | s => do
      let (n, rest) ← number 1 (some 4) s
      pure ((n : Int), rest)
  if -2147483648 ≤ year ∧ year < 2147483648 then return (year, rest) else throw .outOfRange

/-- Reads the plain form. -/
def readPlain (s : List Char) : Except TimestampFault Instant := do
  let (year, s) ← year s
  let ((), s) ← literal '-' s
  let (month, s) ← bounded 1 12 shortNumber s
  let ((), s) ← literal '-' s
  let (day, s) ← bounded 1 31 shortNumber s
  let ((), s) ← literal 'T' s
  let (hour, s) ← bounded 0 23 shortNumber s
  let ((), s) ← literal ':' s
  let (minute, s) ← bounded 0 59 shortNumber s
  let ((), s) ← literal ':' s
  let (second, s) ← bounded 0 60 shortNumber s
  let (nanos, s) ← fraction s
  let () ← ended s
  instantAt ⟨year, month, day⟩ (clock hour minute second nanos)

/-- Reads a timestamp in either form. -/
def read (s : String) : Except TimestampFault Instant :=
  match readZoned s.toList with
  | .ok t => .ok t
  | .error _ => readPlain s.toList

end Timestamp

end LedgerBench
