import LedgerBench.Stats.Percentile

/-!
# Summary of a series

The figures that a report gives for each series: the mean and three percentiles.
-/

namespace LedgerBench

/-- The percentiles that a report gives for each series. -/
def reportedPercentiles {α : Type} [OfScientific α] : List α := [0.5, 0.9, 0.95]

/-- The figures of one series. An empty series has none but its length. -/
structure Summary (α : Type) where
  /-- The mean. -/
  mean : Option α
  /-- The median. -/
  p50 : Option α
  /-- The value that nine tenths of the samples stay below. -/
  p90 : Option α
  /-- The value that nineteen twentieths of the samples stay below. -/
  p95 : Option α
  /-- The number of samples. -/
  count : Nat

namespace Summary

variable {α : Type} [Scalar α]

/-- The figures of an ascending series. -/
def ofSorted (ascending : List α) : Summary α where
  mean := mean? ascending
  p50 := percentileSorted? ascending 0.5
  p90 := percentileSorted? ascending 0.9
  p95 := percentileSorted? ascending 0.95
  count := ascending.length

/-- The figures of a series in any order. -/
def ofSamples (samples : List α) : Summary α := ofSorted (sortSamples samples)

omit [Scalar α] in
/-- The figures in the order of a report, each with its suffix. -/
def entries (s : Summary α) : List (String × Option α) :=
  [("mean", s.mean), ("p50", s.p50), ("p90", s.p90), ("p95", s.p95)]

end Summary

end LedgerBench
