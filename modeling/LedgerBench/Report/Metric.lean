import LedgerBench.Decimal.Fixed
import LedgerBench.Stats.Scalar

/-!
# Metrics and how they are shown

A metric is one figure of a report, tagged with its kind. Figures are shown with two decimal places;
a duration is given in microseconds and shown in the unit that fits its magnitude.
-/

namespace LedgerBench

/-- The units in which durations are shown. -/
inductive TimeUnit where
  /-- Microseconds. -/
  | micros
  /-- Milliseconds. -/
  | millis
  /-- Seconds. -/
  | seconds
deriving Repr, DecidableEq

namespace TimeUnit

/-- The symbol of a unit. -/
def symbol : TimeUnit → String
  | micros => "μs"
  | millis => "ms"
  | seconds => "s"

variable {α : Type} [Scalar α]

/-- The unit for a duration of so many microseconds: the smallest in which it stays below a
thousand, or seconds. -/
def fitting (magnitude : α) : TimeUnit :=
  if !Scalar.atMost 1000.0 magnitude then micros
  else if !Scalar.atMost 1000000.0 magnitude then millis
  else seconds

/-- A duration in microseconds, expressed in a unit. -/
def express : TimeUnit → α → α
  | micros, us => us
  | millis, us => us / 1000.0
  | seconds, us => us / 1000000.0

end TimeUnit

/-- The text of a figure: two places, or `nan` where there is none, and what follows a number. -/
def showFigure (x : Float) (unit : String) : String :=
  if x.isNaN then "nan" else Decimal.fixed 2 x ++ unit

/-- The text of a fraction of one, as a percentage. -/
def showPercentage (x : Float) : String :=
  if x.isNaN then "nan" else Decimal.fixed 2 (x * 100.0) ++ "%"

/-- The text of a duration in microseconds. -/
def showDuration (us : Float) : String :=
  if us.isNaN then "nan"
  else
    let unit := TimeUnit.fitting us.abs
    Decimal.fixed 2 (unit.express us) ++ unit.symbol

/-- One figure of a report. -/
inductive Metric where
  /-- A number of things. -/
  | count (n : Nat)
  /-- A plain number. -/
  | number (x : Float)
  /-- A fraction of one. -/
  | ratio (x : Float)
  /-- A duration in microseconds. -/
  | duration (us : Float)
  /-- Transactions per second. -/
  | rate (x : Float)
deriving DecidableEq

namespace Metric

/-- The figure as a double. -/
def toFloat : Metric → Float
  | count n => Float.ofNat n
  | number x | ratio x | duration x | rate x => x

/-- The figure as a report shows it. -/
def text : Metric → String
  | count n => toString n
  | number x => showFigure x ""
  | ratio x => showPercentage x
  | duration us => showDuration us
  | rate x => showFigure x " tx/s"

end Metric

end LedgerBench
