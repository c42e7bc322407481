import LedgerBench.Decimal.Fixed
import LedgerBench.Proofs.Decimal.Shortest
import LedgerBench.Proofs.Double.Finite
import LedgerBench.Proofs.Text.Digits

/-!
# Numbers with a fixed number of places

A text with a fixed number of places writes a number, and only one (`Writes.append_inj`): the point
ends its whole part, and its places are counted. The number that is written of a finite double is
nearest to its value, and of two such numbers the one with the even last place (`writes_fixed`).

So the rounded number does not go beyond a whole number that bounds the exact one
(`IsNearest.abs_rounded_le`). It can reach a whole number from below, and does so from half a unit
of the last place on (`IsNearest.le_abs_rounded_iff`).
-/

namespace LedgerBench.Decimal

/-! ## Texts and roundings -/

/-- A text writes a number with so many places: perhaps a minus sign, digits, a point, and a digit
for each place. -/
inductive Writes (places : ℕ) : List Char → ℚ → Prop
  /-- The digits are read as one number, and the point divides it by a power of ten. -/
  | signed (negative : Bool) {whole fraction : List Char} (nonempty : whole ≠ [])
      (length : fraction.length = places) (digits : ∀ c ∈ whole ++ fraction, c.isDigit = true) :
      Writes places ((if negative then ['-'] else []) ++ whole ++ '.' :: fraction)
        ((if negative then -1 else 1) *
          (valueAfter 0 (digitValues (whole ++ fraction)) / 10 ^ places))

/-- So many units in the last of some places are nearest to an exact number, and of two such numbers
of units this is the even one. -/
structure IsNearest (places : ℕ) (x : ℚ) (units : ℤ) : Prop where
  /-- They are off by half a unit at most. -/
  abs_sub_le : |x * 10 ^ places - units| ≤ 1 / 2
  /-- Halfway between two integers their number is even. -/
  even_of_tie : |x * 10 ^ places - units| = 1 / 2 → Even units

/-! ## Reading -/

section Reading

variable {places : ℕ} {s s' t t' : List Char} {q q' : ℚ}

/-- A sign and digits are read in one way. -/
theorem signed_digits_inj {negative negative' : Bool} {whole whole' : List Char}
    (hdigits : ∀ c ∈ whole, c.isDigit = true) (hdigits' : ∀ c ∈ whole', c.isDigit = true)
    (h : (if negative then ['-'] else []) ++ whole = (if negative' then ['-'] else []) ++ whole') :
    negative = negative' ∧ whole = whole' := by
  have hminus : ∀ {l l' : List Char}, (∀ c ∈ l', c.isDigit = true) → '-' :: l ≠ l' := by
    rintro l l' hdigits rfl
    exact absurd (hdigits '-' List.mem_cons_self) (by decide)
  cases negative <;> cases negative' <;>
    simp only [Bool.false_eq_true, if_true, if_false, List.nil_append, List.singleton_append] at h
  · exact ⟨rfl, h⟩
  · exact absurd h.symm (hminus hdigits)
  · exact absurd h (hminus hdigits')
  · exact ⟨rfl, List.tail_eq_of_cons_eq h⟩

/-- A number with so many places, and what follows without a point, are read in one way. -/
theorem Writes.append_inj (h : Writes places t q) (h' : Writes places t' q') (hs : '.' ∉ s)
    (heq : t ++ s = t' ++ s') : q = q' ∧ s = s' := by
  obtain ⟨negative, -, hlength, hdigits⟩ := h
  obtain ⟨negative', -, hlength', hdigits'⟩ := h'
  obtain ⟨hwhole, hfraction⟩ := List.forall_mem_append.mp hdigits
  obtain ⟨hwhole', -⟩ := List.forall_mem_append.mp hdigits'
  have hpoint : ∀ {l : List Char}, (∀ c ∈ l, c.isDigit = true) → '.' ∉ l := fun hl hmem =>
    absurd (hl '.' hmem) (by decide)
  -- the point ends the digits in front, and the places are counted
  have hsign : '.' ∉ (if negative then ['-'] else []) := by
    cases negative <;> decide
  have hfront := List.not_mem_append hsign (hpoint hwhole)
  have hback := List.not_mem_append (hpoint hfraction) hs
  rw [List.append_assoc _ _ s, List.append_assoc _ _ s', List.cons_append, List.cons_append,
    List.append_cons_inj_of_notMem hfront hback] at heq
  obtain ⟨hsigned, -, hplaces⟩ := heq
  obtain ⟨rfl, rfl⟩ := signed_digits_inj hwhole hwhole' hsigned
  obtain ⟨rfl, rfl⟩ := List.append_inj hplaces (hlength.trans hlength'.symm)
  exact ⟨rfl, rfl⟩

end Reading

/-! ## Writing -/

/-- Digits that are filled up with zeros. -/
theorem padded_spec {width n : ℕ} (hwidth : 0 < width) (hn : n < 10 ^ width) :
    (padded width n).length = width ∧ (∀ c ∈ padded width n, c.isDigit = true) ∧
      valueAfter 0 (digitValues (padded width n)) = n := by
  have hlength : (Nat.toDigits 10 n).length ≤ width :=
    (Nat.length_toDigits_le_iff (by decide) hwidth).mpr hn
  have hzeros : ∀ k, valueAfter 0 (digitValues (List.replicate k '0')) = 0 := by
    intro k
    induction k with
    | zero => rfl
    | succ k ih => exact ih
  unfold padded
  dsimp only
  refine ⟨?_, ?_, ?_⟩
  · rw [List.length_append, List.length_replicate]
    omega
  · refine List.forall_mem_append.mpr ⟨fun c hc => ?_, fun c hc => isDigit_toDigits hc⟩
    rw [List.eq_of_mem_replicate hc]
    rfl
  · rw [digitValues_append, valueAfter_append]
    exact (congrArg (valueAfter · _) (hzeros _)).trans (valueAfter_toDigits n)

/-- The text of so many units in the last place writes them. -/
theorem writes_ofUnits {places : ℕ} (hplaces : 0 < places) (negative : Bool) (units : ℕ) :
    Writes places (ofUnits places negative units)
      ((if negative then -1 else 1) * (units / 10 ^ places)) := by
  have hpow : 0 < 10 ^ places := Nat.pow_pos (by decide)
  obtain ⟨hlength, hdigits, hvalue⟩ := padded_spec hplaces (Nat.mod_lt units hpow)
  have hall : ∀ c ∈ Nat.toDigits 10 (units / 10 ^ places) ++ padded places (units % 10 ^ places),
      c.isDigit = true :=
    List.forall_mem_append.mpr ⟨fun c hc => isDigit_toDigits hc, hdigits⟩
  have hunits : valueAfter 0 (digitValues (Nat.toDigits 10 (units / 10 ^ places) ++
      padded places (units % 10 ^ places))) = units := by
    have hcount : (digitValues (padded places (units % 10 ^ places))).length = places := by
      rw [digitValues, List.length_map, hlength]
    rw [digitValues_append, valueAfter_append, valueAfter_toDigits, valueAfter_eq, hcount, hvalue]
    exact Nat.div_add_mod' units (10 ^ places)
  have hwrites := Writes.signed negative Nat.toDigits_ne_nil hlength hall
  rwa [hunits] at hwrites

/-! ## Rounding -/

/-- A rounded quotient is off by half a unit at most. -/
theorem abs_sub_roundDiv_le (num : ℕ) {den : ℕ} (hden : 0 < den) :
    |(num / den : ℚ) - roundDiv num den| ≤ 1 / 2 := by
  have hden' : (0 : ℚ) < den := by exact_mod_cast hden
  obtain ⟨hlow, hhigh⟩ := two_mul_sub_le num hden
  have hlow' : (2 * num : ℚ) ≤ (2 * roundDiv num den + 1) * den := by exact_mod_cast hlow
  have hhigh' : (2 * roundDiv num den * den : ℚ) ≤ 2 * num + den := by exact_mod_cast hhigh
  have habove : (num / den : ℚ) ≤ roundDiv num den + 1 / 2 := by
    rw [div_le_iff₀ hden']
    linarith
  have hbelow : (roundDiv num den : ℚ) - 1 / 2 ≤ num / den := by
    rw [le_div_iff₀ hden']
    linarith
  exact abs_le.mpr ⟨by linarith, by linarith⟩

/-- A rounded quotient that is off by half a unit is even. -/
theorem even_roundDiv (num : ℕ) {den : ℕ} (hden : 0 < den)
    (htie : |(num / den : ℚ) - roundDiv num den| = 1 / 2) : Even (roundDiv num den) := by
  have hden' : (0 : ℚ) < den := by exact_mod_cast hden
  have hsplit : (num / den : ℚ) = (num / den : ℕ) + (num % den : ℕ) / den := by
    have hdiv : (den : ℚ) * (num / den : ℕ) + (num % den : ℕ) = num := by
      exact_mod_cast Nat.div_add_mod num den
    rw [← hdiv]
    field_simp
  have hmod : ((num % den : ℕ) / den : ℚ) < 1 := by
    rw [div_lt_one hden']
    exact_mod_cast Nat.mod_lt num hden
  have hnonneg : (0 : ℚ) ≤ (num % den : ℕ) / den := by positivity
  rw [hsplit] at htie
  rcases lt_trichotomy (2 * (num % den)) den with hlt | heq | hgt
  · have hhalf : ((num % den : ℕ) / den : ℚ) < 1 / 2 := by
      rw [div_lt_div_iff₀ hden' two_pos, one_mul, mul_comm]
      exact_mod_cast hlt
    have hdown : roundDiv num den = num / den := by simp [roundDiv, hlt]
    rw [hdown, add_sub_cancel_left, abs_of_nonneg hnonneg] at htie
    linarith
  · exact Nat.even_iff.mpr (Decimal.even_of_tie heq)
  · have hhalf : 1 / 2 < ((num % den : ℕ) / den : ℚ) := by
      rw [div_lt_div_iff₀ two_pos hden', one_mul, mul_comm _ (2 : ℚ)]
      exact_mod_cast hgt
    have hup : roundDiv num den = num / den + 1 := by simp [roundDiv, hgt, hgt.not_gt]
    rw [hup, Nat.cast_add_one, add_sub_add_left_eq_sub, abs_of_neg (by linarith)] at htie
    linarith

/-- The text of a quotient writes a number that is nearest to it. -/
theorem writes_fixedQuotient {places : ℕ} (hplaces : 0 < places) (negative : Bool) (num : ℕ)
    {den : ℕ} (hden : 0 < den) : ∃ units : ℤ,
      Writes places (fixedQuotient places negative num den) (units / 10 ^ places) ∧
        IsNearest places ((if negative then -1 else 1) * (num / den)) units := by
  have hscaled : (((num * Nat.pow 10 places : ℕ) : ℚ) / den) = num / den * 10 ^ places := by
    rw [Nat.pow_eq]
    push_cast
    ring
  generalize hunits : roundDiv (num * Nat.pow 10 places) den = units
  have hoff : (if negative then -1 else 1) * (num / den) * 10 ^ places -
      (((if negative then -1 else 1) * units : ℤ) : ℚ) =
        (if negative then -1 else 1) * ((num / den) * 10 ^ places - units) := by
    push_cast
    ring
  refine ⟨(if negative then -1 else 1) * units, ?_, ?_, ?_⟩
  · have hwrites := writes_ofUnits hplaces negative units
    unfold fixedQuotient
    rw [hunits]
    push_cast
    rwa [mul_div_assoc]
  · rw [hoff, abs_sign_mul, ← hscaled, ← hunits]
    exact abs_sub_roundDiv_le _ hden
  · rw [hoff, abs_sign_mul, ← hscaled, ← hunits]
    intro htie
    have heven : Even (roundDiv (num * Nat.pow 10 places) den : ℤ) := by
      exact_mod_cast even_roundDiv _ hden htie
    exact heven.mul_left _

/-- The text of a finite double writes a number that is nearest to its value. -/
theorem writes_fixed {places : ℕ} (hplaces : 0 < places) {x : Float} (h : x.isFinite = true) :
    ∃ units : ℤ, Writes places (fixed places x).toList (units / 10 ^ places) ∧
      IsNearest places (toRat x) units := by
  obtain ⟨negative, m, e, hparts, -, -⟩ := exists_ofFloat_eq_finite h
  have hvalue : toRat x = (if negative then -1 else 1) *
      (Binary64.numerator m e / Binary64.denominator e) := by
    rw [toRat_of_ofFloat hparts, zpow_eq_div two_ne_zero, Binary64.numerator, Binary64.denominator,
      Nat.pow_eq, Nat.pow_eq]
    push_cast
    rw [mul_div_assoc]
  rw [hvalue, fixed, hparts]
  dsimp only
  rw [String.toList_ofList]
  exact writes_fixedQuotient hplaces negative _ (Binary64.denominator_pos e)

/-! ## Rounded numbers -/

namespace IsNearest

variable {places n : ℕ} {x : ℚ} {units : ℤ}

/-- The magnitude is off by half a unit at most. -/
theorem abs_abs_sub_le (h : IsNearest places x units) :
    |(|x| * 10 ^ places - |(units : ℚ)|)| ≤ 1 / 2 := by
  have hscaled : |x| * 10 ^ places = |x * 10 ^ places| := by
    rw [abs_mul, abs_of_pos (by positivity : (0 : ℚ) < 10 ^ places)]
  rw [hscaled]
  exact (abs_abs_sub_abs_le _ _).trans h.abs_sub_le

/-- Rounding does not go beyond a whole number. -/
theorem abs_rounded_le (h : IsNearest places x units) (hx : |x| ≤ n) :
    |(units / 10 ^ places : ℚ)| ≤ n := by
  have hpow : (0 : ℚ) < 10 ^ places := by positivity
  have hscaled : |x| * 10 ^ places ≤ n * 10 ^ places := mul_le_mul_of_nonneg_right hx hpow.le
  obtain ⟨hlow, -⟩ := abs_le.mp h.abs_abs_sub_le
  -- an integer that is less than one above another one is not above it
  have hlt : |(units : ℚ)| < n * 10 ^ places + 1 := by linarith
  have hle : |units| ≤ n * 10 ^ places := Int.lt_add_one_iff.mp (by exact_mod_cast hlt)
  rw [abs_div, abs_of_pos hpow, div_le_iff₀ hpow]
  exact_mod_cast hle

/-- Rounding reaches a whole number from half a unit below it on: there the tie goes to the whole
number, whose last place is zero. -/
theorem le_abs_rounded_iff (hplaces : 0 < places) (h : IsNearest places x units) :
    n ≤ |(units / 10 ^ places : ℚ)| ↔ n - 1 / (2 * 10 ^ places) ≤ |x| := by
  have hpow : (0 : ℚ) < 10 ^ places := by positivity
  have hleft : n ≤ |(units / 10 ^ places : ℚ)| ↔ (n * 10 ^ places : ℤ) ≤ |units| := by
    rw [abs_div, abs_of_pos hpow, le_div_iff₀ hpow]
    exact_mod_cast Iff.rfl
  have hright : n - 1 / (2 * 10 ^ places) ≤ |x| ↔ n * 10 ^ places - 1 / 2 ≤ |x| * 10 ^ places := by
    have hhalf : (n - 1 / (2 * 10 ^ places) : ℚ) * 10 ^ places = n * 10 ^ places - 1 / 2 := by
      field_simp
    rw [← hhalf, mul_le_mul_iff_left₀ hpow]
  obtain ⟨hlow, hhigh⟩ := abs_le.mp h.abs_abs_sub_le
  rw [hleft, hright]
  constructor
  · intro hreached
    have hreached' : (n * 10 ^ places : ℚ) ≤ |(units : ℚ)| := by exact_mod_cast hreached
    linarith
  · intro hnear
    by_contra hlt
    -- the number would be halfway between the whole number and the units before it
    have hbelow : |units| ≤ n * 10 ^ places - 1 := by omega
    have hbelow' : |(units : ℚ)| ≤ n * 10 ^ places - 1 := by exact_mod_cast hbelow
    have habove : (n * 10 ^ places - 1 : ℚ) ≤ |(units : ℚ)| := by linarith
    have habove' : n * 10 ^ places - 1 ≤ |units| := by exact_mod_cast habove
    have htie : 1 / 2 ≤ |x * 10 ^ places - units| := by
      have hoff := abs_sub_abs_le_abs_sub (x * 10 ^ places) (units : ℚ)
      rw [abs_mul, abs_of_pos hpow] at hoff
      linarith
    -- then both would be even
    have heven : Even (n * 10 ^ places - 1 : ℤ) := by
      rw [le_antisymm habove' hbelow]
      exact even_abs.mpr (h.even_of_tie (le_antisymm h.abs_sub_le htie))
    have hwhole : Even (n * 10 ^ places : ℤ) :=
      (Int.even_pow.mpr ⟨by decide, hplaces.ne'⟩).mul_left _
    exact absurd (hwhole.sub heven) (by norm_num)

end IsNearest

end LedgerBench.Decimal
