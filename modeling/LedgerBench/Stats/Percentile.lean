import LedgerBench.Stats.Scalar

/-!
# Mean and percentiles of a series

The percentile `p` of `n` samples is the value at rank `p · (n - 1)` in ascending order, counted
from zero; between two ranks it is interpolated linearly.
-/

namespace LedgerBench

variable {α : Type} [Scalar α]

/-- The sum of the samples over their number; the sum is taken from left to right. -/
def mean? : List α → Option α
  | [] => none
  | x :: rest => some (rest.foldl (· + ·) x / Scalar.ofNat (rest.length + 1))

/-- The text of the fault that an empty series has no mean. -/
def emptyMeanMessage : String := "mean of an empty sequence"

/-- The samples in ascending order; equal ones keep their order. -/
def sortSamples (samples : List α) : List α := samples.mergeSort Scalar.atMost

/-- The value at a rank of an ascending series, interpolated between two ranks. There is none past
the last sample. -/
def atRank? (ascending : List α) (rank : α) : Option α :=
  let whole := Scalar.wholePart rank
  match ascending.drop whole with
  | [] => none
  | [x] => some x
  | x :: next :: _ => some (x + (rank - Scalar.ofNat whole) * (next - x))

/-- The percentile `p` of an ascending series, with `p` a fraction of one. -/
def percentileSorted? (ascending : List α) (p : α) : Option α :=
  match ascending with
  | [] => none
  | [x] => some x
  | _ => atRank? ascending (p * Scalar.ofNat (ascending.length - 1))

/-- The percentile `p` of a series in any order. -/
def percentile? (samples : List α) (p : α) : Option α := percentileSorted? (sortSamples samples) p

/-- Why a percentile cannot be told. -/
inductive RankFault where
  /-- The rank lies past the last sample, as it may for a `p` above one. -/
  | pastLast
deriving Repr, DecidableEq

/-- The percentile `p` of a series of doubles, which is already ascending if `sorted` says so. An
empty series has the percentile not-a-number. -/
def percentile (samples : List Float) (p : Float) (sorted : Bool) : Except RankFault Float :=
  match if sorted then percentileSorted? samples p else percentile? samples p with
  | some value => .ok value
  | none => if samples.isEmpty then .ok noValue else .error .pastLast

end LedgerBench
