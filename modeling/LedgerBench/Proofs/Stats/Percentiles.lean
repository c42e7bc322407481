import LedgerBench.Proofs.Stats.Interpolation
import LedgerBench.Stats.Summary
import Mathlib.Algebra.Order.BigOperators.Group.List

/-!
# Ordered figures

With exact numbers as samples the figures of a series are ordered: a larger `p` has no smaller
percentile, and all of them, like the mean, lie between the least and the greatest sample
(`exists_orderedFigures`).

The samples themselves are the landmarks. A value at a rank is not below the samples up to this
rank, and not above those from this rank on (`getElem_le_of_atRank?`, `le_getElem_of_atRank?`). So
two ranks with a whole rank between them have their values on the two sides of its sample, and two
ranks without lie on one line, which does not fall (`atRank?_mono`).
-/

namespace LedgerBench

variable {samples samples' ascending : List ℚ} {rank rank' x y p q : ℚ} {i : ℕ}

/-! ## Values at ranks -/

/-- There is a value at each rank that does not lie past the last sample, whatever the order of the
samples. -/
theorem isSome_atRank? {n : ℕ} (hrank : rank ≤ n) (hn : n < ascending.length) :
    (atRank? ascending rank).isSome = true := by
  have hfloor : Scalar.wholePart rank ≤ n := Nat.floor_le_of_le hrank
  unfold atRank?
  dsimp only
  rw [List.drop_eq_getElem_cons (hfloor.trans_lt hn)]
  match ascending.drop (Scalar.wholePart rank + 1) with
  | [] => rfl
  | _ :: _ => rfl

/-- The value at a rank is not below the samples up to this rank. -/
theorem getElem_le_of_atRank? (hsorted : ascending.SortedLE) (hhigh : rank ≤ ascending.length - 1)
    (hi : i < ascending.length) (hle : i ≤ rank) (hx : atRank? ascending rank = some x) :
    ascending[i] ≤ x := by
  rcases hle.eq_or_lt with rfl | hlt
  · -- its own sample
    cases hx.symm.trans (atRank?_natCast hi)
    exact le_rfl
  · have hmany : 2 ≤ ascending.length := by
      have hcast : ((i + 1 : ℕ) : ℚ) < ascending.length := by push_cast; linarith
      have hlast : i + 1 < ascending.length := by exact_mod_cast hcast
      omega
    obtain ⟨k, hk, hbelow, habove⟩ := exists_between hmany (i.cast_nonneg.trans hle) hhigh
    have hik : i ≤ k := by
      have hcast : (i : ℚ) < (k + 1 : ℕ) := by push_cast; exact hlt.trans_le habove
      exact Nat.le_of_lt_succ (by exact_mod_cast hcast)
    have hgap : ascending[k] ≤ ascending[k + 1] :=
      hsorted.getElem_le_getElem_of_le (Nat.le_succ k)
    cases hx.symm.trans (atRank?_between hk hbelow habove)
    calc ascending[i] ≤ ascending[k] := hsorted.getElem_le_getElem_of_le hik
      _ ≤ ascending[k] + (rank - k) * (ascending[k + 1] - ascending[k]) :=
        le_add_of_nonneg_right (mul_nonneg (sub_nonneg.mpr hbelow) (sub_nonneg.mpr hgap))

/-- The value at a rank is not above the samples from this rank on. -/
theorem le_getElem_of_atRank? (hsorted : ascending.SortedLE) (hlow : 0 ≤ rank)
    (hi : i < ascending.length) (hle : rank ≤ i) (hx : atRank? ascending rank = some x) :
    x ≤ ascending[i] := by
  have hlast : (i : ℚ) ≤ ascending.length - 1 := by
    have hcast : ((i + 1 : ℕ) : ℚ) ≤ ascending.length := by exact_mod_cast hi
    push_cast at hcast
    linarith
  rcases hle.eq_or_lt with rfl | hlt
  · cases hx.symm.trans (atRank?_natCast hi)
    exact le_rfl
  · have hmany : 2 ≤ ascending.length := by
      have hpos : 0 < i := by exact_mod_cast hlow.trans_lt hlt
      omega
    obtain ⟨k, hk, hbelow, habove⟩ := exists_between hmany hlow (hle.trans hlast)
    have hki : k + 1 ≤ i := by exact_mod_cast hbelow.trans_lt hlt
    have hgap : ascending[k] ≤ ascending[k + 1] :=
      hsorted.getElem_le_getElem_of_le (Nat.le_succ k)
    cases hx.symm.trans (atRank?_between hk hbelow habove)
    calc ascending[k] + (rank - k) * (ascending[k + 1] - ascending[k])
        ≤ ascending[k] + (ascending[k + 1] - ascending[k]) := by
          have hstep := mul_le_of_le_one_left (sub_nonneg.mpr hgap) (sub_le_iff_le_add'.mpr habove)
          linarith
      _ = ascending[k + 1] := add_sub_cancel _ _
      _ ≤ ascending[i] := hsorted.getElem_le_getElem_of_le hki

/-- A larger rank has no smaller value. -/
theorem atRank?_mono (hsorted : ascending.SortedLE) (hlow : 0 ≤ rank) (hle : rank ≤ rank')
    (hhigh : rank' ≤ ascending.length - 1) (hx : atRank? ascending rank = some x)
    (hy : atRank? ascending rank' = some y) : x ≤ y := by
  -- the last whole rank up to `rank'`
  have hfloor := Nat.floor_le (hlow.trans hle)
  have hceil := (Nat.lt_floor_add_one rank').le
  have hwhole : ⌊rank'⌋₊ < ascending.length := by
    have hcast : (⌊rank'⌋₊ : ℚ) + 1 ≤ ascending.length := by linarith
    exact_mod_cast hcast
  rcases le_or_gt rank ⌊rank'⌋₊ with hbefore | hafter
  · -- its sample lies between the values
    calc x ≤ ascending[⌊rank'⌋₊] := le_getElem_of_atRank? hsorted hlow hwhole hbefore hx
      _ ≤ y := getElem_le_of_atRank? hsorted hhigh hwhole hfloor hy
  · -- both ranks come after it, on one line
    have hnext : ⌊rank'⌋₊ + 1 < ascending.length := by
      have hcast : (⌊rank'⌋₊ : ℚ) + 1 < ascending.length := by linarith
      exact_mod_cast hcast
    have hgap : ascending[⌊rank'⌋₊] ≤ ascending[⌊rank'⌋₊ + 1] :=
      hsorted.getElem_le_getElem_of_le (Nat.le_succ _)
    have hslope := mul_le_mul_of_nonneg_right (sub_le_sub_right hle ⌊rank'⌋₊)
      (sub_nonneg.mpr hgap)
    cases hx.symm.trans (atRank?_between hnext hafter.le (hle.trans hceil))
    cases hy.symm.trans (atRank?_between hnext hfloor hceil)
    linarith

/-! ## The mean -/

/-- The mean is the sum over the number of samples. -/
theorem mean?_eq (hne : samples ≠ []) : mean? samples = some (samples.sum / samples.length) := by
  cases samples with
  | nil => exact absurd rfl hne
  | cons x rest =>
    have hsum : rest.foldl (· + ·) x = (x :: rest).sum := by
      rw [List.sum_eq_foldl, List.foldl_cons, zero_add]
    rw [← hsum]
    rfl

/-- The mean lies between bounds of the samples. -/
theorem mean_bounds {low high : ℚ} (hne : samples ≠ []) (hlow : ∀ x ∈ samples, low ≤ x)
    (hhigh : ∀ x ∈ samples, x ≤ high) :
    low ≤ samples.sum / samples.length ∧ samples.sum / samples.length ≤ high := by
  have hpos : (0 : ℚ) < samples.length := by exact_mod_cast List.length_pos_of_ne_nil hne
  have hsum := List.card_nsmul_le_sum samples low hlow
  have hsum' := List.sum_le_card_nsmul samples high hhigh
  rw [nsmul_eq_mul] at hsum hsum'
  rw [le_div_iff₀ hpos, div_le_iff₀ hpos]
  exact ⟨by linarith, by linarith⟩

/-! ## Percentiles -/

/-- The percentiles of samples do not depend on their order. -/
theorem percentile?_perm (h : samples'.Perm samples) (p : ℚ) :
    percentile? samples' p = percentile? samples p := by
  have hsorted := sortedLE_sortSamples samples
  have hperm := perm_sortSamples samples
  rw [percentile?_eq hperm hsorted, percentile?_eq (hperm.trans h.symm) hsorted]

/-- A percentile up to one exists in a series with a sample, which need not be ascending. -/
theorem isSome_percentileSorted? (hne : ascending ≠ []) (hp : p ≤ 1) :
    (percentileSorted? ascending p).isSome = true := by
  have hlast : ascending.length - 1 < ascending.length :=
    Nat.sub_lt (List.length_pos_of_ne_nil hne) Nat.one_pos
  rw [percentileSorted?_eq]
  exact isSome_atRank? (mul_le_of_le_one_left (Nat.cast_nonneg _) hp) hlast

/-- Sorting leaves a sample. -/
theorem sortSamples_ne_nil (hne : samples ≠ []) : sortSamples samples ≠ [] := by
  intro hnil
  have hperm := perm_sortSamples samples
  rw [hnil] at hperm
  exact hne hperm.symm.eq_nil

/-- The percentile zero is the least sample. -/
theorem percentile?_zero (hne : samples ≠ []) : percentile? samples 0 = samples.min? := by
  have hsorted := sortedLE_sortSamples samples
  have hperm := perm_sortSamples samples
  have hpos := List.length_pos_of_ne_nil (sortSamples_ne_nil hne)
  rw [percentile?_eq hperm hsorted, zero_mul, ← Nat.cast_zero, atRank?_natCast hpos]
  refine (List.min?_eq_some_iff.mpr
    ⟨hperm.mem_iff.mp (List.getElem_mem hpos), fun x hx => ?_⟩).symm
  obtain ⟨i, hi, rfl⟩ := List.getElem_of_mem (hperm.mem_iff.mpr hx)
  exact hsorted.getElem_le_getElem_of_le (Nat.zero_le i)

/-- The percentile one is the greatest sample. -/
theorem percentile?_one (hne : samples ≠ []) : percentile? samples 1 = samples.max? := by
  have hsorted := sortedLE_sortSamples samples
  have hperm := perm_sortSamples samples
  have hlast : (sortSamples samples).length - 1 < (sortSamples samples).length :=
    Nat.sub_lt (List.length_pos_of_ne_nil (sortSamples_ne_nil hne)) Nat.one_pos
  rw [percentile?_eq hperm hsorted, one_mul, atRank?_natCast hlast]
  refine (List.max?_eq_some_iff.mpr
    ⟨hperm.mem_iff.mp (List.getElem_mem hlast), fun x hx => ?_⟩).symm
  obtain ⟨i, hi, rfl⟩ := List.getElem_of_mem (hperm.mem_iff.mpr hx)
  exact hsorted.getElem_le_getElem_of_le (Nat.le_sub_one_of_lt hi)

/-- A larger fraction has no smaller percentile. -/
theorem percentile?_mono (hne : samples ≠ []) (hlow : 0 ≤ p) (hle : p ≤ q) (hhigh : q ≤ 1)
    (hx : percentile? samples p = some x) (hy : percentile? samples q = some y) : x ≤ y := by
  have hsorted := sortedLE_sortSamples samples
  have hperm := perm_sortSamples samples
  have hlast : (((sortSamples samples).length - 1 : ℕ) : ℚ) = (sortSamples samples).length - 1 :=
    Nat.cast_pred (List.length_pos_of_ne_nil (sortSamples_ne_nil hne))
  have hcount : (0 : ℚ) ≤ ((sortSamples samples).length - 1 : ℕ) := Nat.cast_nonneg _
  rw [percentile?_eq hperm hsorted] at hx hy
  refine atRank?_mono hsorted (mul_nonneg hlow hcount) (mul_le_mul_of_nonneg_right hle hcount)
    ?_ hx hy
  rw [← hlast]
  exact mul_le_of_le_one_left hcount hhigh

/-! ## The figures of a series -/

/-- How the figures of samples are ordered, between the least and the greatest sample. -/
structure OrderedFigures (samples : List ℚ) (low high : ℚ) : Prop where
  /-- The lower bound is the least sample. -/
  least : samples.min? = some low
  /-- The upper bound is the greatest sample. -/
  greatest : samples.max? = some high
  /-- The percentile zero is the least sample. -/
  zero : percentile? samples 0 = some low
  /-- The percentile one is the greatest sample. -/
  one : percentile? samples 1 = some high
  /-- Percentiles are ordered like their fractions and lie between the bounds. -/
  ordered : ∀ p q : ℚ, 0 ≤ p → p ≤ q → q ≤ 1 → ∃ x y, percentile? samples p = some x ∧
    percentile? samples q = some y ∧ low ≤ x ∧ x ≤ y ∧ y ≤ high
  /-- The rank of a percentile up to one, and even of a negative one, does not lie past the last
  sample, whether the samples are sorted first or taken as they are. -/
  inRange : ∀ p : ℚ, p ≤ 1 →
    (percentile? samples p).isSome = true ∧ (percentileSorted? samples p).isSome = true
  /-- The order of the samples does not matter. -/
  anyOrder : ∀ samples' : List ℚ, samples'.Perm samples →
    ∀ p : ℚ, percentile? samples' p = percentile? samples p
  /-- The figures of the series are the mean and three ordered percentiles, all between the bounds,
  and the number of samples. -/
  summary : ∃ mean p50 p90 p95, mean = samples.sum / samples.length ∧ Summary.ofSamples samples =
      ⟨some mean, some p50, some p90, some p95, samples.length⟩ ∧
    low ≤ p50 ∧ p50 ≤ p90 ∧ p90 ≤ p95 ∧ p95 ≤ high ∧ low ≤ mean ∧ mean ≤ high

/-- The figures of a series with a sample are ordered. -/
theorem exists_orderedFigures (hne : samples ≠ []) :
    ∃ low high, OrderedFigures samples low high := by
  have hexists : ∀ p : ℚ, p ≤ 1 → ∃ x, percentile? samples p = some x := fun p hp =>
    Option.isSome_iff_exists.mp (isSome_percentileSorted? (sortSamples_ne_nil hne) hp)
  obtain ⟨low, hlow⟩ := hexists 0 zero_le_one
  obtain ⟨high, hhigh⟩ := hexists 1 le_rfl
  have hleast : samples.min? = some low := (percentile?_zero hne).symm.trans hlow
  have hgreatest : samples.max? = some high := (percentile?_one hne).symm.trans hhigh
  have hordered : ∀ p q : ℚ, 0 ≤ p → p ≤ q → q ≤ 1 → ∃ x y, percentile? samples p = some x ∧
      percentile? samples q = some y ∧ low ≤ x ∧ x ≤ y ∧ y ≤ high := by
    intro p q hp hpq hq
    obtain ⟨x, hx⟩ := hexists p (hpq.trans hq)
    obtain ⟨y, hy⟩ := hexists q hq
    exact ⟨x, y, hx, hy, percentile?_mono hne le_rfl hp (hpq.trans hq) hlow hx,
      percentile?_mono hne hp hpq hq hx hy, percentile?_mono hne (hp.trans hpq) hq le_rfl hy hhigh⟩
  refine ⟨low, high, hleast, hgreatest, hlow, hhigh, hordered, fun p hp =>
    ⟨isSome_percentileSorted? (sortSamples_ne_nil hne) hp, isSome_percentileSorted? hne hp⟩,
    fun samples' h => percentile?_perm h, ?_⟩
  -- three of the ordered percentiles are the figures of the summary
  have hperm := perm_sortSamples samples
  obtain ⟨p50, p90, h50, h90, hlow50, h5090, -⟩ := hordered 0.5 0.9 (by norm_num) (by norm_num)
    (by norm_num)
  obtain ⟨x, p95, hx, h95, -, h9095, hhigh95⟩ := hordered 0.9 0.95 (by norm_num) (by norm_num)
    (by norm_num)
  cases h90.symm.trans hx
  obtain ⟨hmean, hmean'⟩ := mean_bounds hne (List.min?_eq_some_iff.mp hleast).2
    (List.max?_eq_some_iff.mp hgreatest).2
  refine ⟨_, p50, p90, p95, rfl, ?_, hlow50, h5090, h9095, hhigh95, hmean, hmean'⟩
  unfold Summary.ofSamples Summary.ofSorted
  rw [mean?_eq (sortSamples_ne_nil hne), hperm.sum_eq, hperm.length_eq, ← h50, ← h90, ← h95]
  rfl

/-- Three samples, two of them equal, which are not in order. -/
theorem exists_orderedFigures_tied : ([9, -1, 9] : List ℚ) ≠ [] ∧
    (∃ low high, OrderedFigures [9, -1, 9] low high) ∧
      percentile? ([9, -1, 9] : List ℚ) (1 / 4) = some 4 := by
  have hne : ([9, -1, 9] : List ℚ) ≠ [] := List.cons_ne_nil _ _
  have hperm : ([-1, 9, 9] : List ℚ).Perm [9, -1, 9] := by decide
  have hsorted : ([-1, 9, 9] : List ℚ).SortedLE := List.sortedLE_iff_pairwise.mpr (by decide)
  refine ⟨hne, exists_orderedFigures hne, ?_⟩
  rw [percentile?_eq hperm hsorted, @atRank?_between _ _ 0 (by decide) (by norm_num) (by norm_num)]
  norm_num

end LedgerBench
