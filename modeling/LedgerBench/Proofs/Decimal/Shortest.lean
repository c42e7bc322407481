import LedgerBench.Decimal.Shortest
import Mathlib.Algebra.Order.Field.Basic
import Mathlib.Algebra.Order.Field.Power
import Mathlib.Data.Rat.Cast.Order
import Mathlib.Tactic.FieldSimp
import Mathlib.Tactic.Linarith
import Mathlib.Tactic.Positivity
import Mathlib.Tactic.Ring

/-!
# The shortest decimal of a double

The shortest decimal of a positive double has at most seventeen digits, and it lies in the interval
of the double (`shortest_readsBack`). It is found because some grid point with seventeen digits lies
in the interval: the step of this grid is less than the unit of the last place
(`isSome_nearestOnGrid`), so that the nearer one of the two grid points next to the double is less
than half a unit away, and less than a quarter of it if the mantissa is the least one.

No double is written as a larger number than the largest one is (`value_shortest_le`).
-/

namespace LedgerBench.Decimal

/-- The number that a coefficient and an exponent stand for. -/
def Scientific.value (s : Scientific) : ℚ := s.coefficient * 10 ^ s.exponent

/-- An integer power is a quotient of natural ones. -/
theorem zpow_eq_div {b : ℚ} (hb : b ≠ 0) (k : ℤ) : b ^ k = b ^ k.toNat / b ^ (-k).toNat := by
  have hk : k = k.toNat - (-k).toNat := by omega
  conv_lhs => rw [hk]
  rw [zpow_sub₀ hb, zpow_natCast, zpow_natCast]

/-! ## Stripping zeros -/

/-- Stripping zeros leaves the value as it is. -/
theorem Scientific.value_stripped (s : Scientific) : s.stripped.value = s.value := by
  induction s using Scientific.stripped.induct with
  | case1 s h ih =>
    rw [Scientific.stripped, dif_pos h, ih]
    have hten : s.coefficient = 10 * (s.coefficient / 10) := by omega
    have hcast : (s.coefficient : ℚ) = 10 * (s.coefficient / 10 : ℕ) := by exact_mod_cast hten
    show (s.coefficient / 10 : ℕ) * (10 : ℚ) ^ (s.exponent + 1) = s.coefficient * 10 ^ s.exponent
    rw [hcast, zpow_add₀ (by norm_num), zpow_one]
    ring
  | case2 s h => rw [Scientific.stripped, dif_neg h]

/-- Stripping zeros from a positive coefficient leaves a positive one that is not larger. -/
theorem Scientific.coefficient_stripped {s : Scientific} (hpos : 0 < s.coefficient) :
    0 < s.stripped.coefficient ∧ s.stripped.coefficient ≤ s.coefficient := by
  induction s using Scientific.stripped.induct with
  | case1 s h ih =>
    rw [Scientific.stripped, dif_pos h]
    have hdiv : 0 < s.coefficient / 10 := by omega
    have hrest := ih hdiv
    dsimp only at hrest
    omega
  | case2 s h =>
    rw [Scientific.stripped, dif_neg h]
    exact ⟨hpos, Nat.le_refl _⟩

/-! ## The order of magnitude -/

/-- A number has as many digits as its order of magnitude says. -/
theorem toDigits_length_bounds {n : ℕ} (hpos : 0 < n) :
    10 ^ ((Nat.toDigits 10 n).length - 1) ≤ n ∧ n < 10 ^ (Nat.toDigits 10 n).length := by
  have hlength : 0 < (Nat.toDigits 10 n).length := Nat.length_toDigits_pos
  refine ⟨?_, (Nat.length_toDigits_le_iff (by norm_num) hlength).mp (Nat.le_refl _)⟩
  by_contra hlt
  by_cases hone : (Nat.toDigits 10 n).length = 1
  · rw [hone] at hlt
    omega
  · have hshort := (Nat.length_toDigits_le_iff (by norm_num) (by omega)).mpr (not_le.mp hlt)
    omega

/-- A quotient lies between two neighbouring powers of ten. -/
theorem orderOfMagnitude_bounds {num den : ℕ} (hnum : 0 < num) (hden : 0 < den) :
    (10 : ℚ) ^ orderOfMagnitude num den ≤ num / den ∧
      (num / den : ℚ) < 10 ^ (orderOfMagnitude num den + 1) := by
  have hden' : (0 : ℚ) < den := by exact_mod_cast hden
  unfold orderOfMagnitude
  split
  · rename_i hle
    -- the whole part has the digits
    have hpos : 0 < num / den := Nat.div_pos hle hden
    obtain ⟨hlow, hhigh⟩ := toDigits_length_bounds hpos
    have hlength : 0 < (Nat.toDigits 10 (num / den)).length := Nat.length_toDigits_pos
    generalize (Nat.toDigits 10 (num / den)).length = l at *
    have hexponent : ((l : ℤ) - 1) = (l - 1 : ℕ) := by omega
    have hlow' : 10 ^ (l - 1) * den ≤ num := (Nat.le_div_iff_mul_le hden).mp hlow
    have hhigh' : num < 10 ^ l * den := (Nat.div_lt_iff_lt_mul hden).mp hhigh
    rw [le_div_iff₀ hden', div_lt_iff₀ hden', sub_add_cancel, hexponent, zpow_natCast, zpow_natCast]
    exact ⟨by exact_mod_cast hlow', by exact_mod_cast hhigh'⟩
  · rename_i hlt
    -- so many places stand before the first digit
    have hpos : 0 < (den - 1) / num := Nat.div_pos (by omega) hnum
    obtain ⟨hlow, hhigh⟩ := toDigits_length_bounds hpos
    have hlength : 0 < (Nat.toDigits 10 ((den - 1) / num)).length := Nat.length_toDigits_pos
    generalize (Nat.toDigits 10 ((den - 1) / num)).length = l at *
    have hexponent : -(l : ℤ) + 1 = -(l - 1 : ℕ) := by omega
    have hlow' : 10 ^ (l - 1) * num < den := by
      have hle := (Nat.le_div_iff_mul_le hnum).mp hlow
      omega
    have hhigh' : den ≤ 10 ^ l * num := by
      have hlt := (Nat.div_lt_iff_lt_mul hnum).mp hhigh
      omega
    rw [hexponent, zpow_neg, zpow_neg, zpow_natCast, zpow_natCast]
    constructor
    · rw [inv_le_comm₀ (by positivity) (by positivity), inv_div,
        div_le_iff₀ (by exact_mod_cast hnum)]
      exact_mod_cast hhigh'
    · rw [lt_inv_comm₀ (by positivity) (by positivity), inv_div,
        lt_div_iff₀ (by exact_mod_cast hnum)]
      exact_mod_cast hlow'

/-! ## The interval of a double -/

namespace Interval

/-- A number lies in the interval. -/
def Holds (i : Interval) (q : ℚ) : Prop :=
  if i.closed then (i.low / i.den : ℚ) ≤ q ∧ q ≤ (i.high / i.den : ℚ)
  else (i.low / i.den : ℚ) < q ∧ q < (i.high / i.den : ℚ)

variable {i : Interval} {q : ℚ} {m : ℕ} {e : ℤ}

/-- What lies strictly between the ends lies in the interval. -/
theorem holds_of_lt (hlow : (i.low / i.den : ℚ) < q) (hhigh : q < (i.high / i.den : ℚ)) :
    i.Holds q := by
  unfold Holds
  split
  · exact ⟨hlow.le, hhigh.le⟩
  · exact ⟨hlow, hhigh⟩

/-- What lies in the interval is not beyond its ends. -/
theorem Holds.bounds (h : i.Holds q) : (i.low / i.den : ℚ) ≤ q ∧ q ≤ (i.high / i.den : ℚ) := by
  unfold Holds at h
  split at h
  · exact h
  · exact ⟨h.1.le, h.2.le⟩

/-- A decimal is tested by the products of its parts. -/
theorem contains_iff (hden : 0 < i.den) (c : ℕ) (k : ℤ) :
    i.contains (c * Nat.pow 10 k.toNat) (Nat.pow 10 (-k).toNat) = true ↔
      i.Holds (Scientific.value ⟨c, k⟩) := by
  have hden' : (0 : ℚ) < i.den := by exact_mod_cast hden
  have hpow : (0 : ℚ) < 10 ^ (-k).toNat := by positivity
  have hvalue : Scientific.value ⟨c, k⟩ = c * 10 ^ k.toNat / 10 ^ (-k).toNat := by
    show (c : ℚ) * 10 ^ k = _
    rw [zpow_eq_div (by norm_num), mul_div_assoc]
  unfold contains Holds
  rw [hvalue]
  cases i.closed with
  | true =>
    rw [if_pos rfl, if_pos rfl, div_le_div_iff₀ hden' hpow, div_le_div_iff₀ hpow hden',
      Bool.and_eq_true, decide_eq_true_eq, decide_eq_true_eq]
    exact_mod_cast Iff.rfl
  | false =>
    rw [if_neg (by simp), if_neg (by simp), div_lt_div_iff₀ hden' hpow, div_lt_div_iff₀ hpow hden',
      Bool.and_eq_true, decide_eq_true_eq, decide_eq_true_eq]
    exact_mod_cast Iff.rfl

/-- The denominator of the interval of a double is positive. -/
theorem den_around_pos (m : ℕ) (e : ℤ) : 0 < (around m e).den :=
  Nat.mul_pos (by norm_num) (Nat.two_pow_pos _)

/-- Quarters of the last place over the denominator of the interval. -/
theorem quarters_div_den (n : ℕ) (m : ℕ) (e : ℤ) :
    ((n * Nat.pow 2 e.toNat : ℕ) : ℚ) / (around m e).den = n / 4 * 2 ^ e := by
  have hpow : (0 : ℚ) < 2 ^ (-e).toNat := by positivity
  show ((n * 2 ^ e.toNat : ℕ) : ℚ) / (4 * 2 ^ (-e).toNat : ℕ) = n / 4 * 2 ^ e
  rw [zpow_eq_div two_ne_zero e]
  push_cast
  field_simp

/-- The double itself. -/
theorem mid_around (m : ℕ) (e : ℤ) :
    ((around m e).mid : ℚ) / (around m e).den = m * 2 ^ e := by
  refine (quarters_div_den (4 * m) m e).trans ?_
  push_cast
  ring

/-- The upper end is half a unit of the last place away. -/
theorem high_around (m : ℕ) (e : ℤ) :
    ((around m e).high : ℚ) / (around m e).den = (m + 1 / 2) * 2 ^ e := by
  refine (quarters_div_den (4 * m + 2) m e).trans ?_
  push_cast
  ring

/-- The lower end is half a unit away, or a quarter of it below a power of two. -/
theorem low_around (hm : 0 < m) (e : ℤ) : ((around m e).low : ℚ) / (around m e).den =
    (m - if m = Nat.pow 2 52 ∧ e ≠ -1074 then 1 / 4 else 1 / 2) * 2 ^ e := by
  refine (quarters_div_den _ m e).trans ?_
  split
  · rw [Nat.cast_sub (by omega)]
    push_cast
    ring
  · rw [Nat.cast_sub (by omega)]
    push_cast
    ring

/-- The interval of a positive double has positive numbers only. -/
theorem Holds.pos (hm : 0 < m) (h : (around m e).Holds q) : 0 < q := by
  have hlow := h.bounds.1
  have hm' : (1 : ℚ) ≤ m := by exact_mod_cast hm
  rw [low_around hm] at hlow
  refine lt_of_lt_of_le (mul_pos ?_ (by positivity)) hlow
  split <;> linarith

end Interval

/-! ## Grid points next to a double -/

section Grid

variable {i : Interval} {k : ℤ}

/-- The grid steps up to the middle of an interval, without a part of a step. -/
def stepsBelow (i : Interval) (k : ℤ) : ℕ :=
  i.mid * Nat.pow 10 (-k).toNat / (i.den * Nat.pow 10 k.toNat)

/-- The middle of an interval lies between two neighbouring grid points. -/
theorem stepsBelow_bounds (hden : 0 < i.den) (k : ℤ) :
    (stepsBelow i k : ℚ) * 10 ^ k ≤ i.mid / i.den ∧
      (i.mid / i.den : ℚ) < (stepsBelow i k + 1) * 10 ^ k := by
  have hden' : (0 : ℚ) < i.den := by exact_mod_cast hden
  have hpow : (0 : ℚ) < 10 ^ (-k).toNat := by positivity
  have hgrid : 0 < i.den * 10 ^ k.toNat := by positivity
  have hbelow : stepsBelow i k * (i.den * 10 ^ k.toNat) ≤ i.mid * 10 ^ (-k).toNat :=
    Nat.div_mul_le_self _ _
  have habove : i.mid * 10 ^ (-k).toNat < (stepsBelow i k + 1) * (i.den * 10 ^ k.toNat) :=
    (Nat.div_lt_iff_lt_mul hgrid).mp (Nat.lt_succ_self _)
  rw [zpow_eq_div (by norm_num) k, ← mul_div_assoc, ← mul_div_assoc, div_le_div_iff₀ hpow hden',
    div_lt_div_iff₀ hden' hpow]
  constructor
  · calc (stepsBelow i k : ℚ) * 10 ^ k.toNat * i.den
        = (stepsBelow i k * (i.den * 10 ^ k.toNat) : ℕ) := by push_cast; ring
      _ ≤ (i.mid * 10 ^ (-k).toNat : ℕ) := by exact_mod_cast hbelow
      _ = i.mid * 10 ^ (-k).toNat := by push_cast; ring
  · calc (i.mid : ℚ) * 10 ^ (-k).toNat = (i.mid * 10 ^ (-k).toNat : ℕ) := by push_cast; ring
      _ < ((stepsBelow i k + 1) * (i.den * 10 ^ k.toNat) : ℕ) := by exact_mod_cast habove
      _ = (stepsBelow i k + 1) * 10 ^ k.toNat * i.den := by push_cast; ring

/-- What is found on a grid lies in the interval, at one of the two grid points next to its
middle. -/
theorem holds_of_nearestOnGrid (hden : 0 < i.den) {s : Scientific}
    (h : nearestOnGrid i k = some s) :
    i.Holds s.value ∧ s.exponent = k ∧ s.coefficient ≤ stepsBelow i k + 1 := by
  unfold nearestOnGrid at h
  dsimp only at h
  split at h
  · rename_i hinside
    cases h
    rw [Bool.and_eq_true] at hinside
    exact ⟨(Interval.contains_iff hden _ k).mp hinside.1, rfl, Nat.le_succ _⟩
  · split at h
    · rename_i hinside
      cases h
      exact ⟨(Interval.contains_iff hden _ k).mp hinside, rfl, Nat.le_refl _⟩
    · cases h

/-- If one of the two grid points lies in the interval, one is found. -/
theorem isSome_nearestOnGrid (hden : 0 < i.den)
    (h : i.Holds (Scientific.value ⟨stepsBelow i k, k⟩) ∨
      i.Holds (Scientific.value ⟨stepsBelow i k + 1, k⟩)) : (nearestOnGrid i k).isSome := by
  rw [← Interval.contains_iff hden, ← Interval.contains_iff hden] at h
  unfold stepsBelow at h
  unfold nearestOnGrid
  dsimp only
  split
  · rfl
  · rename_i hbelow
    split
    · rfl
    · rename_i habove
      exact absurd h (by simp_all)

end Grid

/-! ## Seventeen digits -/

section Seventeen

variable {m : ℕ} {e : ℤ}

/-- A grid on which the double has seventeen digits has a point in its interval. -/
theorem isSome_nearestOnGrid_seventeen (hm : 0 < m) (hbits : m < 2 ^ 53) (e : ℤ) :
    (nearestOnGrid (.around m e)
      (orderOfMagnitude (Interval.around m e).mid (Interval.around m e).den - 16)).isSome := by
  have hden := Interval.den_around_pos m e
  have hmid : 0 < (Interval.around m e).mid :=
    Nat.mul_pos (Nat.mul_pos (by norm_num) hm) (Nat.two_pow_pos _)
  have horder := (orderOfMagnitude_bounds hmid hden).1
  generalize orderOfMagnitude _ _ = top at *
  obtain ⟨hbelow, habove⟩ := stepsBelow_bounds hden (top - 16)
  rw [Interval.mid_around] at horder hbelow habove
  -- a step of the grid is at most one part in `10 ^ 16` of the double
  have hstep : (10 : ℚ) ^ (top - 16) * 10 ^ 16 ≤ m * 2 ^ e := by
    refine le_trans (le_of_eq ?_) horder
    rw [← zpow_natCast, ← zpow_add₀ (by norm_num)]
    congr 1
    omega
  have hbits' : (m : ℚ) ≤ 2 ^ 53 := by exact_mod_cast hbits.le
  have hunit : (0 : ℚ) < 2 ^ e := by positivity
  have hscaled : (m : ℚ) * 2 ^ e ≤ 2 ^ 53 * 2 ^ e := by gcongr
  generalize hs : (10 : ℚ) ^ (top - 16) = step at *
  apply isSome_nearestOnGrid hden
  have hvalue : ∀ c : ℕ, Scientific.value ⟨c, top - 16⟩ = c * step := fun c => by rw [← hs]; rfl
  rw [hvalue, hvalue]
  by_cases hnear : (m : ℚ) * 2 ^ e - stepsBelow (.around m e) (top - 16) * step ≤ step / 2
  · left
    apply Interval.holds_of_lt
    · rw [Interval.low_around hm]
      split
      · -- the least mantissa: a step is less than half a unit
        rename_i hleast
        have hm' : (m : ℚ) = 2 ^ 52 := by exact_mod_cast hleast.1
        rw [hm'] at hstep hnear ⊢
        linarith
      · linarith
    · rw [Interval.high_around]
      linarith
  · right
    push_cast
    apply Interval.holds_of_lt
    · rw [Interval.low_around hm]
      split <;> linarith
    · rw [Interval.high_around]
      linarith

/-- A decimal that stands for the double `m · 2^e`: it lies in the interval of the double, and its
coefficient has at most seventeen digits. -/
structure ReadsBack (m : ℕ) (e : ℤ) (s : Scientific) : Prop where
  /-- The coefficient is positive. -/
  pos : 0 < s.coefficient
  /-- The coefficient has at most seventeen digits, or it is the next power of ten. -/
  coefficient_le : s.coefficient ≤ 10 ^ 17
  /-- The decimal lies in the interval. -/
  holds : (Interval.around m e).Holds s.value

/-- The shortest decimal of a double stands for this double. -/
theorem shortest_readsBack (hm : 0 < m) (hbits : m < 2 ^ 53) (e : ℤ) :
    ReadsBack m e (shortest m e) := by
  have hden := Interval.den_around_pos m e
  have hmid : 0 < (Interval.around m e).mid :=
    Nat.mul_pos (Nat.mul_pos (by norm_num) hm) (Nat.two_pow_pos _)
  have hseventeen := isSome_nearestOnGrid_seventeen hm hbits e
  have hmagnitude := (orderOfMagnitude_bounds hmid hden).2
  unfold shortest
  dsimp only
  generalize orderOfMagnitude _ _ = top at *
  -- the search ends with seventeen digits, if not before
  obtain ⟨s, hfound⟩ : ∃ s, ((List.range 17).findSome? fun (n : ℕ) =>
      nearestOnGrid (.around m e) (top - n)) = some s := by
    rw [← Option.isSome_iff_exists, List.findSome?_isSome_iff]
    exact ⟨16, by simp, hseventeen⟩
  rw [hfound, Option.getD_some]
  obtain ⟨n, hn, hgrid⟩ := List.exists_of_findSome?_eq_some hfound
  obtain ⟨hholds, hexponent, hcoefficient⟩ := holds_of_nearestOnGrid hden hgrid
  have hpos : 0 < s.coefficient := by
    have hvalue := hholds.pos hm
    rw [Nat.pos_iff_ne_zero]
    intro hzero
    rw [Scientific.value, hzero, Nat.cast_zero, zero_mul] at hvalue
    exact lt_irrefl _ hvalue
  have hsteps : stepsBelow (.around m e) (top - n) < 10 ^ 17 := by
    have hn : n < 17 := List.mem_range.mp hn
    have hlt : (stepsBelow (.around m e) (top - n) : ℚ) * 10 ^ (top - (n : ℤ)) <
        10 ^ 17 * 10 ^ (top - (n : ℤ)) :=
      calc (stepsBelow (.around m e) (top - n) : ℚ) * 10 ^ (top - (n : ℤ))
          ≤ (Interval.around m e).mid / (Interval.around m e).den := (stepsBelow_bounds hden _).1
        _ < 10 ^ (top + 1) := hmagnitude
        _ ≤ 10 ^ (17 + (top - (n : ℤ))) := zpow_le_zpow_right₀ (by norm_num) (by omega)
        _ = 10 ^ 17 * 10 ^ (top - (n : ℤ)) := by
          rw [zpow_add₀ (by norm_num)]
          norm_num
    exact_mod_cast lt_of_mul_lt_mul_right hlt (by positivity)
  obtain ⟨hpos', hle⟩ := Scientific.coefficient_stripped hpos
  exact ⟨hpos', by omega, by rwa [Scientific.value_stripped]⟩

/-- The decimal that the largest double is written as. -/
def largest : Scientific := ⟨17976931348623157, 292⟩

/-- The shortest decimal of the largest double. -/
theorem shortest_largest : shortest (2 ^ 53 - 1) 971 = largest := by
  have hfound : ((List.range 17).findSome? fun (n : ℕ) =>
      nearestOnGrid (.around (2 ^ 53 - 1) 971) (308 - n)) = some largest := by decide +kernel
  have htop : orderOfMagnitude (Interval.around (2 ^ 53 - 1) 971).mid
      (Interval.around (2 ^ 53 - 1) 971).den = 308 := by decide +kernel
  unfold shortest
  dsimp only
  rw [htop, hfound, Option.getD_some, Scientific.stripped, dif_neg (by decide)]

/-- No double is written as a larger number than the largest one. -/
theorem value_shortest_le (hm : 0 < m) (hbits : m < 2 ^ 53) (he : e ≤ 971) :
    (shortest m e).value ≤ largest.value := by
  by_cases hlargest : m = 2 ^ 53 - 1 ∧ e = 971
  · obtain ⟨rfl, rfl⟩ := hlargest
    rw [shortest_largest]
  · have hhigh := (shortest_readsBack hm hbits e).holds.bounds.2
    rw [Interval.high_around] at hhigh
    -- the upper end of any other interval is half a unit below the largest double
    have hend : ((m : ℚ) + 1 / 2) * 2 ^ e ≤ (2 ^ 53 - 3 / 2) * 2 ^ (971 : ℤ) := by
      by_cases hlast : e = 971
      · subst hlast
        have hm' : m + 2 ≤ 2 ^ 53 := by omega
        have hm'' : (m : ℚ) + 2 ≤ 2 ^ 53 := by exact_mod_cast hm'
        gcongr
        linarith
      · have hm' : (m : ℚ) ≤ 2 ^ 53 := by exact_mod_cast hbits.le
        calc ((m : ℚ) + 1 / 2) * 2 ^ e ≤ (2 ^ 53 + 1 / 2) * 2 ^ (970 : ℤ) := by
              have hpow : (2 : ℚ) ^ e ≤ 2 ^ (970 : ℤ) := zpow_le_zpow_right₀ one_le_two (by omega)
              gcongr
          _ ≤ (2 ^ 53 - 3 / 2) * 2 * 2 ^ (970 : ℤ) := by
              gcongr
              norm_num
          _ = (2 ^ 53 - 3 / 2) * 2 ^ (971 : ℤ) := by
              have hsplit : (2 : ℚ) ^ (971 : ℤ) = 2 ^ (1 : ℤ) * 2 ^ (970 : ℤ) :=
                zpow_add₀ two_ne_zero 1 970
              rw [hsplit, zpow_one]
              ring
    have hlast : 18014398509481981 * 2 ^ 970 ≤ 17976931348623157 * 10 ^ 292 := by decide +kernel
    calc (shortest m e).value ≤ ((m : ℚ) + 1 / 2) * 2 ^ e := hhigh
      _ ≤ (2 ^ 53 - 3 / 2) * 2 ^ (971 : ℤ) := hend
      _ = (18014398509481981 * 2 ^ 970 : ℕ) := by
        have hsplit : (2 : ℚ) ^ (971 : ℤ) = 2 * 2 ^ 970 := by
          rw [show (971 : ℤ) = (970 + 1 : ℕ) from rfl, zpow_natCast, pow_succ']
        rw [hsplit, Nat.cast_mul, Nat.cast_pow, Nat.cast_ofNat, Nat.cast_ofNat]
        generalize (2 : ℚ) ^ 970 = unit
        ring
      _ ≤ (17976931348623157 * 10 ^ 292 : ℕ) := by exact_mod_cast hlast
      _ = largest.value := by
        rw [Nat.cast_mul, Nat.cast_pow, Nat.cast_ofNat, Nat.cast_ofNat]
        rfl

end Seventeen

end LedgerBench.Decimal
