/-!
# Rounding a quotient to the nearest natural number

`roundDiv` is within half a unit of the exact quotient (`two_mul_sub_le`), and a tie goes to the
even neighbour (`even_of_tie`).
-/

namespace LedgerBench.Decimal

/-- The natural number nearest to `num / den`; a tie goes to the even neighbour. -/
def roundDiv (num den : Nat) : Nat :=
  let quotient := num / den
  let remainder := num % den
  if 2 * remainder < den then quotient
  else if den < 2 * remainder then quotient + 1
  else quotient + quotient % 2

/-- The rounded quotient misses the exact one by at most half a unit. -/
theorem two_mul_sub_le (num : Nat) {den : Nat} (h : 0 < den) :
    2 * num ≤ (2 * roundDiv num den + 1) * den ∧ 2 * roundDiv num den * den ≤ 2 * num + den := by
  have hsplit := Nat.div_add_mod num den
  have hlt := Nat.mod_lt num h
  have hcomm : num / den * den = den * (num / den) := Nat.mul_comm _ _
  unfold roundDiv
  dsimp only
  split
  · constructor <;> grind
  · split
    · constructor <;> grind
    -- a tie moves by half a unit either way
    · rcases Nat.mod_two_eq_zero_or_one (num / den) with h2 | h2 <;> rw [h2] <;> constructor <;>
        grind

/-- Halfway between two natural numbers the even one is taken. -/
theorem even_of_tie {num den : Nat} (h : 2 * (num % den) = den) : roundDiv num den % 2 = 0 := by
  unfold roundDiv
  simp only [h, Nat.lt_irrefl, if_false]
  omega

end LedgerBench.Decimal
