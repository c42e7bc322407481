import LedgerBench.Proofs.Double.Bounds
import LedgerBench.Report.Samples
import LedgerBench.Stats.Summary

/-!
# Figures that exist

A figure that does not exist is not-a-number in a report, and a figure that exists is not: the
fraction of a total lies between zero and one (`fractionOf_bounds`), and the mean and the
percentiles of a series of bounded doubles are numbers as long as there is a sample
(`exists_figure`).

The mean is a quotient of a sum, which may overflow to an infinity but not to not-a-number. A
percentile exists if its rank does not lie past the last sample. The rank is the rounded product of
a rounded count, so that it may lie above the exact one; but the percentiles of a report are so far
below one that it stays below the last sample all the same (`isRank_mul`). Then the interpolation
adds a product of two finite doubles to a finite one.
-/

namespace LedgerBench

open Float.Model (UnpackedFloat)

/-! ## Counts and fractions -/

section Counts

variable {m n : ℕ}

/-- A count that is not zero is at least one as a double. -/
theorem one_le_toRat_ofNat (hpos : 0 < n) (hsize : n ≤ 2 ^ 1023) : 1 ≤ toRat (Float.ofNat n) := by
  have hle : (1 : ℚ) ≤ n := by exact_mod_cast hpos
  exact (roundsTo_ofNat hsize).nearest.ge_of_ge .one hle

/-- A count is not negative as a double. -/
theorem toRat_ofNat_nonneg (hsize : n ≤ 2 ^ 1023) : 0 ≤ toRat (Float.ofNat n) := by
  exact (roundsTo_ofNat hsize).nearest.ge_of_ge .zero (Nat.cast_nonneg n)

/-- A larger count is not smaller as a double. -/
theorem toRat_ofNat_mono (h : m ≤ n) (hsize : n ≤ 2 ^ 1023) :
    toRat (Float.ofNat m) ≤ toRat (Float.ofNat n) := by
  rcases h.eq_or_lt with rfl | hlt
  · exact le_rfl
  · have hlt' : (m : ℚ) < n := by exact_mod_cast hlt
    exact (roundsTo_ofNat (h.trans hsize)).nearest.le_of_lt (roundsTo_ofNat hsize).nearest hlt'

/-- A part of a total is a fraction between zero and one. -/
theorem fractionOf_bounds (h : m ≤ n) (hpos : 0 < n) (hsize : n ≤ 2 ^ 1023) :
    (fractionOf m n).isNaN = false ∧ 0.0 ≤ fractionOf m n ∧ fractionOf m n ≤ 1.0 := by
  have hpart := roundsTo_ofNat (h.trans hsize)
  have htotal := roundsTo_ofNat hsize
  have hpart' := toRat_ofNat_nonneg (h.trans hsize)
  have htotal' := one_le_toRat_ofNat hpos hsize
  have hmono := toRat_ofNat_mono h hsize
  have hquotient : 0 ≤ toRat (Float.ofNat m) / toRat (Float.ofNat n) := by positivity
  have hquotient' : toRat (Float.ofNat m) / toRat (Float.ofNat n) ≤ 1 := by
    rw [div_le_one (by linarith)]
    exact hmono
  have hbound : |toRat (Float.ofNat m) / toRat (Float.ofNat n)| ≤ 2 ^ 1023 := by
    rw [abs_of_nonneg hquotient]
    exact hquotient'.trans (one_le_pow₀ one_le_two)
  have hrounds := RoundsTo.div hpart.isFinite htotal.isFinite (by linarith) hbound
  unfold fractionOf
  rw [if_neg (by omega)]
  refine ⟨isNaN_of_isFinite hrounds.isFinite, ?_, ?_⟩
  · rw [le_iff_toRat_le rfl hrounds.isFinite]
    exact hrounds.nearest.ge_of_ge .zero hquotient
  · rw [le_iff_toRat_le hrounds.isFinite rfl, toRat_one]
    exact hrounds.nearest.le_of_le .one hquotient'

end Counts

/-! ## The mean -/

/-- A sum of finite doubles is not not-a-number. -/
theorem isNaN_foldl_add {samples : List Float} {x : Float} (hx : x.isNaN = false)
    (h : ∀ y ∈ samples, y.isFinite = true) : (samples.foldl (· + ·) x).isNaN = false := by
  induction samples generalizing x with
  | nil => exact hx
  | cons y samples ih =>
    have hsum := isNaN_add hx (h y List.mem_cons_self)
    exact ih hsum fun z hz => h z (List.mem_cons_of_mem _ hz)

/-- A series with a sample has a mean. -/
theorem exists_mean {samples : List Float} (hne : samples ≠ [])
    (h : ∀ x ∈ samples, x.isFinite = true) (hsize : samples.length ≤ 2 ^ 1023) :
    ∃ x, mean? samples = some x ∧ x.isNaN = false := by
  cases samples with
  | nil => exact absurd rfl hne
  | cons x rest =>
    have hx := isNaN_of_isFinite (h x List.mem_cons_self)
    have hsum := isNaN_foldl_add hx fun y hy => h y (List.mem_cons_of_mem _ hy)
    have hcount : rest.length + 1 ≤ 2 ^ 1023 := hsize
    have hpos := one_le_toRat_ofNat (Nat.succ_pos rest.length) hcount
    have hne : toRat (Float.ofNat (rest.length + 1)) ≠ 0 := (one_pos.trans_le hpos).ne'
    exact ⟨_, rfl, isNaN_div hsum (roundsTo_ofNat hcount).isFinite hne⟩

/-! ## Percentiles -/

/-- The double is a fraction of one, and so far below one that the rank of a percentile does not
reach the last sample by rounding. -/
structure IsPortion (p : Float) : Prop where
  /-- It is finite. -/
  isFinite : p.isFinite = true
  /-- It is not negative. -/
  nonneg : 0 ≤ toRat p
  /-- It is far enough below one. -/
  le : toRat p ≤ 31 / 32

/-- The percentiles of a report are such fractions. -/
theorem isPortion_of_mem {p : Float} (h : p ∈ (reportedPercentiles : List Float)) :
    IsPortion p := by
  have hportion : ∀ {x : Float} {m : ℕ} {hm : 0 < m}, parts x = .finite .positive m (-53) hm →
      m ≤ 31 * 2 ^ 48 → IsPortion x := by
    intro x m hm hparts hle
    have hvalue := toRat_of_parts_eq hparts
    have hle' : (m : ℚ) ≤ 31 * 2 ^ 48 := by exact_mod_cast hle
    refine ⟨congrArg UnpackedFloat.isFinite hparts, ?_, ?_⟩
    · rw [hvalue]
      positivity
    · rw [hvalue, zpow_neg, ← div_eq_mul_inv, div_le_iff₀ (by positivity)]
      refine hle'.trans_eq ?_
      norm_num
  simp only [reportedPercentiles, List.mem_cons, List.not_mem_nil, or_false] at h
  rcases h with rfl | rfl | rfl
  · exact @hportion 0.5 (2 ^ 52) (by norm_num) rfl (by norm_num)
  · exact @hportion 0.9 8106479329266893 (by norm_num) rfl (by norm_num)
  · exact @hportion 0.95 8556839292003942 (by norm_num) rfl (by norm_num)

/-- The double is a rank of samples that are numbered up to `last`. -/
structure IsRank (last : ℕ) (rank : Float) : Prop where
  /-- It is finite. -/
  isFinite : rank.isFinite = true
  /-- It does not lie before the first sample. -/
  nonneg : 0 ≤ toRat rank
  /-- It does not lie past the last one. -/
  le : toRat rank ≤ last

/-- The rank of a percentile does not lie past the last sample. -/
theorem isRank_mul {p : Float} {last : ℕ} (hp : IsPortion p) (hpos : 0 < last)
    (hsize : last ≤ 2 ^ 1023) : IsRank last (p * Float.ofNat last) := by
  have hcount := roundsTo_ofNat hsize
  have hone : (1 : ℚ) ≤ last := by exact_mod_cast hpos
  have hnonneg := toRat_ofNat_nonneg hsize
  have hsize' : (last : ℚ) ≤ 2 ^ 1023 := by exact_mod_cast hsize
  -- the count is off by little, and the product is far below it
  obtain ⟨-, hnear⟩ := abs_le.mp (hcount.abs_sub_le hone)
  have hproduct : 0 ≤ toRat p * toRat (Float.ofNat last) := mul_nonneg hp.nonneg hnonneg
  have hproduct' : toRat p * toRat (Float.ofNat last) ≤ 31 / 32 * toRat (Float.ofNat last) :=
    mul_le_mul_of_nonneg_right hp.le hnonneg
  have hexact : toRat p * toRat (Float.ofNat last) ≤ last := by linarith
  have hbound : |toRat p * toRat (Float.ofNat last)| ≤ 2 ^ 1023 :=
    (abs_of_nonneg hproduct).trans_le (hexact.trans hsize')
  have hrounds := RoundsTo.mul hp.isFinite hcount.isFinite hbound
  refine ⟨hrounds.isFinite, hrounds.nearest.ge_of_ge .zero hproduct, ?_⟩
  rcases le_total (toRat p * toRat (Float.ofNat last)) 1 with hsmall | hlarge
  · exact (hrounds.nearest.le_of_le .one hsmall).trans hone
  · obtain ⟨-, hnear'⟩ := abs_le.mp (hrounds.abs_sub_le hlarge)
    linarith

namespace IsRank

variable {last : ℕ} {rank : Float}

/-- The whole part of a rank does not lie past the last sample either. -/
theorem wholePart_le (h : IsRank last rank) : Scalar.wholePart rank ≤ last := by
  exact_mod_cast (LedgerBench.wholePart_le h.isFinite h.nonneg).trans h.le

/-- The part of a rank after the point is finite. -/
theorem isFinite_sub_wholePart (h : IsRank last rank) (hsize : last ≤ 2 ^ 1023) :
    (rank - Float.ofNat (Scalar.wholePart rank)).isFinite = true := by
  have hwhole := h.wholePart_le.trans hsize
  have hlow := toRat_ofNat_nonneg hwhole
  have hhigh : toRat (Float.ofNat (Scalar.wholePart rank)) ≤ toRat rank :=
    (roundsTo_ofNat hwhole).nearest.le_of_le (representable_toRat h.isFinite)
      (LedgerBench.wholePart_le h.isFinite h.nonneg)
  have hsize' : (last : ℚ) ≤ 2 ^ 1023 := by exact_mod_cast hsize
  refine (RoundsTo.sub h.isFinite (roundsTo_ofNat hwhole).isFinite ?_).isFinite
  calc |toRat rank - toRat (Float.ofNat (Scalar.wholePart rank))|
      = toRat rank - toRat (Float.ofNat (Scalar.wholePart rank)) :=
        abs_of_nonneg (sub_nonneg.mpr hhigh)
    _ ≤ toRat rank := sub_le_self _ hlow
    _ ≤ 2 ^ 1023 := h.le.trans hsize'

end IsRank

/-- The value at a rank exists. -/
theorem exists_atRank {ascending : List Float} {rank : Float} (h : ∀ x ∈ ascending, IsBounded x)
    (hne : ascending ≠ []) (hsize : ascending.length ≤ 2 ^ 1023)
    (hrank : IsRank (ascending.length - 1) rank) :
    ∃ x, atRank? ascending rank = some x ∧ x.isNaN = false := by
  have hpos := List.length_pos_of_ne_nil hne
  have hwhole := hrank.wholePart_le
  have hrest : ∀ x ∈ ascending.drop (Scalar.wholePart rank), IsBounded x :=
    fun x hx => h x (List.mem_of_mem_drop hx)
  have hlength := List.length_drop (i := Scalar.wholePart rank) (l := ascending)
  unfold atRank?
  dsimp only
  match hdrop : ascending.drop (Scalar.wholePart rank) with
  | [] =>
    rw [hdrop, List.length_nil] at hlength
    omega
  | [x] =>
    rw [hdrop] at hrest
    exact ⟨x, rfl, isNaN_of_isFinite (hrest x List.mem_cons_self).isFinite⟩
  | x :: next :: rest =>
    rw [hdrop] at hrest
    have hx := hrest x List.mem_cons_self
    have hstep := (hrest next (List.mem_cons_of_mem _ List.mem_cons_self)).isFinite_sub hx
    have hpart := hrank.isFinite_sub_wholePart ((Nat.sub_le _ 1).trans hsize)
    exact ⟨_, rfl, isNaN_add' hx.isFinite (isNaN_mul hpart hstep)⟩

/-- A percentile of a series with a sample exists. -/
theorem exists_percentileSorted {ascending : List Float} {p : Float} (hp : IsPortion p)
    (h : ∀ x ∈ ascending, IsBounded x) (hne : ascending ≠ [])
    (hsize : ascending.length ≤ 2 ^ 1023) :
    ∃ x, percentileSorted? ascending p = some x ∧ x.isNaN = false := by
  match ascending with
  | [] => exact absurd rfl hne
  | [x] => exact ⟨x, rfl, isNaN_of_isFinite (h x List.mem_cons_self).isFinite⟩
  | x :: next :: rest =>
    have hrank := isRank_mul hp (Nat.succ_pos rest.length) ((Nat.sub_le _ 1).trans hsize)
    exact exists_atRank h hne hsize hrank

/-! ## The figures of a series -/

/-- The mean and the percentiles of a series in any order exist if there is a sample. -/
theorem exists_figure {samples : List Float} (h : ∀ x ∈ samples, IsBounded x) (hne : samples ≠ [])
    (hsize : samples.length ≤ 2 ^ 1023) {entry : String × Option Float}
    (hentry : entry ∈ (Summary.ofSamples samples).entries) :
    ∃ x, entry.2 = some x ∧ x.isNaN = false := by
  have hperm : (sortSamples samples).Perm samples := List.mergeSort_perm _ _
  have hsorted : ∀ x ∈ sortSamples samples, IsBounded x := fun x hx => h x (hperm.mem_iff.mp hx)
  have hfinite : ∀ x ∈ sortSamples samples, x.isFinite = true := fun x hx => (hsorted x hx).isFinite
  have hne' : sortSamples samples ≠ [] := by
    rwa [ne_eq, ← List.length_eq_zero_iff, hperm.length_eq, List.length_eq_zero_iff]
  rw [← hperm.length_eq] at hsize
  have hpercentile : ∀ p ∈ (reportedPercentiles : List Float),
      ∃ x, percentileSorted? (sortSamples samples) p = some x ∧ x.isNaN = false :=
    fun p hp => exists_percentileSorted (isPortion_of_mem hp) hsorted hne' hsize
  simp only [Summary.entries, List.mem_cons, List.not_mem_nil, or_false] at hentry
  rcases hentry with rfl | rfl | rfl | rfl
  · exact exists_mean hne' hfinite hsize
  · exact hpercentile 0.5 (by simp [reportedPercentiles])
  · exact hpercentile 0.9 (by simp [reportedPercentiles])
  · exact hpercentile 0.95 (by simp [reportedPercentiles])

/-- A figure of a series of bounded doubles is not-a-number in a report exactly if the series is
empty. -/
theorem isNaN_figure_iff {samples : List Float} (h : ∀ x ∈ samples, IsBounded x)
    (hsize : samples.length ≤ 2 ^ 1023) {entry : String × Option Float}
    (hentry : entry ∈ (Summary.ofSamples samples).entries) :
    (entry.2.getD noValue).isNaN = true ↔ samples = [] := by
  constructor
  · intro hnan
    by_contra hne
    obtain ⟨x, hx, hnot⟩ := exists_figure h hne hsize hentry
    rw [hx, Option.getD_some, hnot] at hnan
    cases hnan
  · rintro rfl
    -- an empty series has no figures
    have hsorted : sortSamples ([] : List Float) = [] := List.mergeSort_nil
    simp only [Summary.entries, Summary.ofSamples, hsorted, List.mem_cons, List.not_mem_nil,
      or_false] at hentry
    rcases hentry with rfl | rfl | rfl | rfl <;> rfl

end LedgerBench
