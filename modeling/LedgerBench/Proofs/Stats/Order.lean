import LedgerBench.Proofs.Double.SameNumber
import LedgerBench.Stats.Summary

/-!
# Figures of a series in any order

The figures of a series do not depend on the order of its samples (`Summary.ofSamples_perm`).
Samples are sorted first, and what comes out of two orders can differ in the signs of zeros only,
since equal samples keep the order in which they came. The mean and the percentiles then do the same
additions and multiplications with numbers that are the same.
-/

namespace LedgerBench

variable {samples samples' ascending ascending' : List Float}

/-- Samples in another order are the same numbers once they are sorted. -/
theorem sortSamples_perm (h : samples.Perm samples') :
    List.Forall₂ SameNumber (sortSamples samples) (sortSamples samples') := by
  have htotal : ∀ x y : Float, (Scalar.atMost x y || Scalar.atMost y x) = true := by
    intro x y
    simp only [Scalar.atMost, Bool.or_eq_true, decide_eq_true_eq]
    exact Int.le_total _ _
  have htrans : ∀ x y z : Float, Scalar.atMost x y = true → Scalar.atMost y z = true →
      Scalar.atMost x z = true := by
    intro x y z hxy hyz
    simp only [Scalar.atMost, decide_eq_true_eq] at hxy hyz ⊢
    exact Int.le_trans hxy hyz
  have hsorted : ∀ l : List Float, ((sortSamples l).map orderKey).Pairwise (· ≤ ·) := by
    intro l
    rw [List.pairwise_map]
    refine (List.pairwise_mergeSort htrans htotal l).imp fun hxy => ?_
    simpa only [Scalar.atMost, decide_eq_true_eq] using hxy
  have hperm : (sortSamples samples).Perm (sortSamples samples') :=
    (List.mergeSort_perm _ _).trans (h.trans (List.mergeSort_perm _ _).symm)
  -- the places in the order are sorted integers, so they are the same list
  have hkeys : (sortSamples samples).map orderKey = (sortSamples samples').map orderKey :=
    List.Perm.eq_of_pairwise (fun _ _ _ _ => Int.le_antisymm) (hsorted _) (hsorted _)
      (hperm.map orderKey)
  rw [← List.forall₂_eq_eq_eq, List.forall₂_map_left_iff, List.forall₂_map_right_iff] at hkeys
  exact hkeys.imp fun _ _ hkey => sameNumber_of_orderKey_eq hkey

/-- Sums of the same numbers are the same number. -/
theorem foldl_add_sameNumber {x x' : Float} (hx : SameNumber x x')
    (h : List.Forall₂ SameNumber samples samples') :
    SameNumber (samples.foldl (· + ·) x) (samples'.foldl (· + ·) x') := by
  induction h generalizing x x' with
  | nil => exact hx
  | cons hy _ ih => exact ih (hx.add hy)

/-- The same numbers have the same mean. -/
theorem mean?_sameNumber (h : List.Forall₂ SameNumber samples samples') :
    Option.Rel SameNumber (mean? samples) (mean? samples') := by
  cases h with
  | nil => exact .none
  | @cons x x' rest rest' hx hrest =>
    have hlength : rest.length = rest'.length := hrest.length_eq
    have hsum : SameNumber (rest.foldl (· + ·) x) (rest'.foldl (· + ·) x') :=
      foldl_add_sameNumber hx hrest
    refine .some ?_
    rw [hlength]
    exact hsum.div_left _

/-- The same ascending numbers have the same value at a rank. -/
theorem atRank?_sameNumber (h : List.Forall₂ SameNumber ascending ascending') (rank : Float) :
    Option.Rel SameNumber (atRank? ascending rank) (atRank? ascending' rank) := by
  have hdrop := List.forall₂_drop (Scalar.wholePart rank) h
  unfold atRank?
  dsimp only
  generalize ascending.drop (Scalar.wholePart rank) = above at hdrop ⊢
  generalize ascending'.drop (Scalar.wholePart rank) = above' at hdrop ⊢
  cases hdrop with
  | nil => exact .none
  | cons hx hrest =>
    cases hrest with
    | nil => exact .some hx
    | cons hnext _ =>
      -- between two ranks, the value goes in the direction of the next sample
      exact .some (hx.add (SameNumber.mul_right _ (hnext.sub hx)))

/-- The same ascending numbers have the same percentiles. -/
theorem percentileSorted?_sameNumber (h : List.Forall₂ SameNumber ascending ascending')
    (p : Float) :
    Option.Rel SameNumber (percentileSorted? ascending p) (percentileSorted? ascending' p) := by
  cases h with
  | nil => exact .none
  | cons hx hrest =>
    cases hrest with
    | nil => exact .some hx
    | @cons y y' rest rest' hy hrest =>
      have hlength : rest.length = rest'.length := hrest.length_eq
      unfold percentileSorted?
      dsimp only
      rw [List.length_cons, List.length_cons, List.length_cons, List.length_cons, hlength]
      exact atRank?_sameNumber (.cons hx (.cons hy hrest)) _

/-- Two summaries have the same numbers under their suffixes, or none under the same ones. -/
def Summary.SameFigures (a b : Summary Float) : Prop :=
  List.Forall₂ (fun e e' => e.1 = e'.1 ∧ Option.Rel SameNumber e.2 e'.2) a.entries b.entries

/-- The figures of a series are the same in any order of its samples. -/
theorem Summary.ofSamples_perm (h : samples.Perm samples') :
    (ofSamples samples).SameFigures (ofSamples samples') := by
  have hsorted := sortSamples_perm h
  exact .cons ⟨rfl, mean?_sameNumber hsorted⟩ (.cons ⟨rfl, percentileSorted?_sameNumber hsorted 0.5⟩
    (.cons ⟨rfl, percentileSorted?_sameNumber hsorted 0.9⟩
      (.cons ⟨rfl, percentileSorted?_sameNumber hsorted 0.95⟩ .nil)))

end LedgerBench
