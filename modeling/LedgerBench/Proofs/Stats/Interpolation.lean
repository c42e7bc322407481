import LedgerBench.Stats.Percentile
import Mathlib.Algebra.Order.Field.Basic
import Mathlib.Data.List.Sort
import Mathlib.Data.Rat.Floor
import Mathlib.Tactic.Linarith
import Mathlib.Tactic.Ring

/-!
# Percentiles of exact samples

With exact numbers as samples nothing is rounded, and a percentile is the interpolation R-7: the `n`
samples in ascending order stand at the fractions `i / (n - 1)`, and between two neighbours the
percentile is affine (`percentile?_interpolates`).

Everything is said of ranks first. The value at a rank between two neighbouring whole ranks lies on
the line through their samples, with both ends (`atRank?_between`): at the upper end the scanned
list begins at the next sample, or holds the last one only, and the line gives that sample too. So a
rank may be put into either of the intervals that it ends, and the reflection of the samples, which
turns each interval round, needs no case of its own for the whole ranks (`atRank?_reflect`).
-/

namespace LedgerBench

/-- Exact numbers; the whole part of a negative one is zero. -/
instance : Scalar ℚ where
  ofNat n := n
  wholePart x := ⌊x⌋₊
  atMost x y := x ≤ y

variable {samples ascending : List ℚ} {rank p a b : ℚ} {i : ℕ}

/-! ## Samples in ascending order -/

/-- Sorted samples ascend. -/
theorem sortedLE_sortSamples (samples : List ℚ) : (sortSamples samples).SortedLE := by
  have htotal : ∀ x y : ℚ, (Scalar.atMost x y || Scalar.atMost y x) = true := by
    intro x y
    simp only [Scalar.atMost, Bool.or_eq_true, decide_eq_true_eq]
    exact le_total x y
  have htrans : ∀ x y z : ℚ, Scalar.atMost x y = true → Scalar.atMost y z = true →
      Scalar.atMost x z = true := by
    intro x y z hxy hyz
    simp only [Scalar.atMost, decide_eq_true_eq] at hxy hyz ⊢
    exact hxy.trans hyz
  rw [List.sortedLE_iff_pairwise]
  refine (List.pairwise_mergeSort htrans htotal samples).imp fun hxy => ?_
  simpa only [Scalar.atMost, decide_eq_true_eq] using hxy

/-- Sorting neither loses nor adds a sample. -/
theorem perm_sortSamples (samples : List ℚ) : (sortSamples samples).Perm samples :=
  List.mergeSort_perm samples _

/-- There is one ascending order of the samples, and sorting finds it. -/
theorem sortSamples_eq (hperm : ascending.Perm samples) (hsorted : ascending.SortedLE) :
    sortSamples samples = ascending :=
  ((perm_sortSamples samples).trans hperm.symm).eq_of_sortedLE (sortedLE_sortSamples samples)
    hsorted

/-! ## Values at ranks -/

/-- Between a rank's whole part and the next whole rank the value is interpolated. -/
theorem atRank?_of_floor_eq (hi : i + 1 < ascending.length) (hfloor : ⌊rank⌋₊ = i) :
    atRank? ascending rank =
      some (ascending[i] + (rank - i) * (ascending[i + 1] - ascending[i])) := by
  have hwhole : Scalar.wholePart rank = i := hfloor
  have hdrop : ascending.drop i =
      ascending[i] :: ascending[i + 1] :: ascending.drop (i + 1 + 1) := by
    rw [← List.drop_eq_getElem_cons hi, ← List.drop_eq_getElem_cons]
  unfold atRank?
  dsimp only
  rw [hwhole, hdrop]
  rfl

/-- At a whole rank stands its sample. -/
theorem atRank?_natCast (hi : i < ascending.length) : atRank? ascending i = some ascending[i] := by
  rcases (Nat.succ_le_of_lt hi).lt_or_eq with hnext | hlast
  · rw [atRank?_of_floor_eq hnext (Nat.floor_natCast i), sub_self, zero_mul, add_zero]
  · -- the last sample is left alone
    have hwhole : Scalar.wholePart (i : ℚ) = i := Nat.floor_natCast i
    have hdrop : ascending.drop i = [ascending[i]] := by
      rw [List.drop_eq_getElem_cons hi, List.drop_eq_nil_of_le hlast.ge]
    unfold atRank?
    dsimp only
    rw [hwhole, hdrop]

/-- Between two whole ranks the values lie on the line through their samples. -/
theorem atRank?_between (hi : i + 1 < ascending.length) (hlow : i ≤ rank) (hhigh : rank ≤ i + 1) :
    atRank? ascending rank =
      some (ascending[i] + (rank - i) * (ascending[i + 1] - ascending[i])) := by
  rcases hhigh.lt_or_eq with hlt | rfl
  · have hnonneg : 0 ≤ rank := i.cast_nonneg.trans hlow
    exact atRank?_of_floor_eq hi ((Nat.floor_eq_iff hnonneg).mpr ⟨hlow, hlt⟩)
  · have hnext := atRank?_natCast hi
    push_cast at hnext
    rw [hnext, add_sub_cancel_left, one_mul, add_sub_cancel]

/-- Every rank lies between two neighbouring whole ranks. -/
theorem exists_between {n : ℕ} (hn : 2 ≤ n) (hlow : 0 ≤ rank) (hhigh : rank ≤ n - 1) :
    ∃ i : ℕ, i + 1 < n ∧ i ≤ rank ∧ rank ≤ i + 1 := by
  have hfloor := Nat.floor_le hlow
  have hceil := (Nat.lt_floor_add_one rank).le
  rcases lt_or_ge (⌊rank⌋₊ + 1) n with hlt | hge
  · exact ⟨⌊rank⌋₊, hlt, hfloor, hceil⟩
  · -- the last rank ends the last interval
    have hcast : ((n - 2 : ℕ) : ℚ) = n - 2 := Nat.cast_sub hn
    have hge' : (n : ℚ) ≤ ⌊rank⌋₊ + 1 := by exact_mod_cast hge
    exact ⟨n - 2, by omega, by linarith, by linarith⟩

/-- The value at a rank is taken along when the samples are mapped affinely. -/
theorem atRank?_map (ascending : List ℚ) (rank a b : ℚ) :
    atRank? (ascending.map (a * · + b)) rank = (atRank? ascending rank).map (a * · + b) := by
  unfold atRank?
  dsimp only
  rw [← List.map_drop]
  match ascending.drop (Scalar.wholePart rank) with
  | [] => rfl
  | [x] => rfl
  | x :: next :: rest =>
    simp only [List.map_cons, Option.map_some, Option.some.injEq]
    ring

/-- Turned round and negated, the samples have the negated value at the rank counted from behind. -/
theorem atRank?_reflect (hi : i + 1 < ascending.length) (hlow : i ≤ rank) (hhigh : rank ≤ i + 1) :
    atRank? (ascending.map (-·)).reverse (ascending.length - 1 - rank) =
      (atRank? ascending rank).map (-·) := by
  -- the interval from `i` becomes that from `n - 2 - i`, with its ends exchanged
  have hcast : ((ascending.length - 2 - i : ℕ) : ℚ) = ascending.length - 2 - i := by
    rw [Nat.cast_sub (by omega), Nat.cast_sub (by omega)]
    rfl
  have hreflected : ascending.length - 2 - i + 1 < (ascending.map (-·)).reverse.length := by
    rw [List.length_reverse, List.length_map]
    omega
  rw [atRank?_between hi hlow hhigh, atRank?_between hreflected (by linarith) (by linarith)]
  have hfirst : ascending.length - 1 - (ascending.length - 2 - i) = i + 1 := by omega
  have hsecond : ascending.length - 1 - (ascending.length - 2 - i + 1) = i := by omega
  simp only [List.getElem_reverse, List.getElem_map, List.length_map, hfirst, hsecond, hcast,
    Option.map_some, Option.some.injEq]
  ring

/-! ## Percentiles -/

/-- A percentile of an ascending series is the value at a rank, also of a single sample. -/
theorem percentileSorted?_eq (ascending : List ℚ) (p : ℚ) :
    percentileSorted? ascending p = atRank? ascending (p * (ascending.length - 1 : ℕ)) := by
  match ascending with
  | [] =>
    unfold atRank?
    dsimp only
    rw [List.drop_nil]
    rfl
  | [x] =>
    have hrank := @atRank?_natCast [x] 0 Nat.one_pos
    rw [List.length_singleton, Nat.sub_self, Nat.cast_zero, mul_zero, ← Nat.cast_zero, hrank]
    rfl
  | _ :: _ :: _ => rfl

/-- A percentile is the value at a rank of the samples in ascending order. -/
theorem percentile?_eq (hperm : ascending.Perm samples) (hsorted : ascending.SortedLE) (p : ℚ) :
    percentile? samples p = atRank? ascending (p * (ascending.length - 1 : ℕ)) := by
  unfold percentile?
  rw [sortSamples_eq hperm hsorted, percentileSorted?_eq]

/-- How the percentiles of samples are read off the samples in ascending order. -/
structure Interpolation (samples ascending : List ℚ) : Prop where
  /-- At the fraction `i / (n - 1)` stands the sample of rank `i`. -/
  sample : ∀ i (hi : i < ascending.length),
    percentile? samples (i / (ascending.length - 1)) = some ascending[i]
  /-- Between the fractions of two neighbours the percentile is affine. -/
  affine : ∀ i (hi : i + 1 < ascending.length) (p : ℚ), i / (ascending.length - 1) ≤ p →
    p ≤ (i + 1) / (ascending.length - 1) → percentile? samples p =
      some (ascending[i] + (p * (ascending.length - 1) - i) * (ascending[i + 1] - ascending[i]))
  /-- The negated samples have the negated percentile, with `p` counted from above. -/
  reflected : ∀ p : ℚ, 0 ≤ p → p ≤ 1 → ∃ x, percentile? samples p = some x ∧
    percentile? (samples.map (-·)) (1 - p) = some (-x)
  /-- A percentile is taken along when the samples are scaled and shifted. -/
  equivariant : ∀ a b p : ℚ, 0 ≤ a →
    percentile? (samples.map (a * · + b)) p = (percentile? samples p).map (a * · + b)

/-- Affine maps that do not fall keep the ascending order. -/
theorem sortedLE_map (hsorted : ascending.SortedLE) (ha : 0 ≤ a) (b : ℚ) :
    (ascending.map (a * · + b)).SortedLE := by
  rw [List.sortedLE_iff_pairwise, List.pairwise_map]
  refine hsorted.pairwise.imp fun hxy => ?_
  exact add_le_add_left (mul_le_mul_of_nonneg_left hxy ha) b

/-- Negated samples ascend once they are turned round. -/
theorem sortedLE_reflect (hsorted : ascending.SortedLE) :
    (ascending.map (-·)).reverse.SortedLE := by
  rw [List.sortedLE_iff_pairwise, List.pairwise_reverse, List.pairwise_map]
  exact hsorted.pairwise.imp fun hxy => neg_le_neg hxy

/-- Percentiles interpolate between the samples in ascending order, if there are two of them. -/
theorem percentile?_interpolates (hsize : 2 ≤ samples.length) (hperm : ascending.Perm samples)
    (hsorted : ascending.SortedLE) : Interpolation samples ascending := by
  have hlength : 2 ≤ ascending.length := hperm.length_eq ▸ hsize
  have hlast : ((ascending.length - 1 : ℕ) : ℚ) = ascending.length - 1 :=
    Nat.cast_pred (by omega)
  have hpos : (0 : ℚ) < ascending.length - 1 := by
    rw [← hlast]
    exact_mod_cast Nat.sub_pos_of_lt hlength
  have hrank : ∀ p, percentile? samples p = atRank? ascending (p * (ascending.length - 1)) := by
    intro p
    rw [percentile?_eq hperm hsorted, hlast]
  constructor
  case sample =>
    intro i hi
    rw [hrank, div_mul_cancel₀ _ hpos.ne', atRank?_natCast hi]
  case affine =>
    intro i hi p hlow hhigh
    rw [div_le_iff₀ hpos] at hlow
    rw [le_div_iff₀ hpos] at hhigh
    rw [hrank, atRank?_between hi hlow hhigh]
  case reflected =>
    intro p hlow hhigh
    -- negation turns the order round, so `1 - p` is the rank counted from behind
    have hnegated : percentile? (samples.map (-·)) (1 - p) =
        atRank? (ascending.map (-·)).reverse
          (ascending.length - 1 - p * (ascending.length - 1)) := by
      rw [percentile?_eq ((List.reverse_perm _).trans (hperm.map _)) (sortedLE_reflect hsorted),
        List.length_reverse, List.length_map, hlast, sub_mul, one_mul]
    obtain ⟨i, hi, hbelow, habove⟩ := exists_between hlength (mul_nonneg hlow hpos.le)
      (mul_le_of_le_one_left hpos.le hhigh)
    rw [hnegated, hrank, atRank?_reflect hi hbelow habove, atRank?_between hi hbelow habove]
    exact ⟨_, rfl, rfl⟩
  case equivariant =>
    intro a b p ha
    rw [hrank, ← atRank?_map, percentile?_eq (hperm.map _) (sortedLE_map hsorted ha b),
      List.length_map, hlast]

/-- Of four samples with a tie, which are not in order, the percentile 5/6 lies halfway between the
two largest. -/
theorem percentile?_interpolates_tied :
    2 ≤ ([7, 1, 4, 4] : List ℚ).length ∧ ([1, 4, 4, 7] : List ℚ).Perm [7, 1, 4, 4] ∧
      ([1, 4, 4, 7] : List ℚ).SortedLE ∧ Interpolation [7, 1, 4, 4] [1, 4, 4, 7] ∧
        percentile? ([7, 1, 4, 4] : List ℚ) (5 / 6) = some (11 / 2) := by
  have hsize : 2 ≤ ([7, 1, 4, 4] : List ℚ).length := by decide
  have hperm : ([1, 4, 4, 7] : List ℚ).Perm [7, 1, 4, 4] := by decide
  have hsorted : ([1, 4, 4, 7] : List ℚ).SortedLE := List.sortedLE_iff_pairwise.mpr (by decide)
  have hinterpolates := percentile?_interpolates hsize hperm hsorted
  refine ⟨hsize, hperm, hsorted, hinterpolates, ?_⟩
  rw [hinterpolates.affine 2 (by decide) _ (by norm_num) (by norm_num)]
  norm_num

end LedgerBench
