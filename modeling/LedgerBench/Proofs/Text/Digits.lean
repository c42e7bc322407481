import Mathlib.Algebra.Order.Ring.Nat
import Mathlib.Tactic.Ring

/-!
# Numbers in decimal digits

Digits are read from the left, and each of them makes the number before it ten times as large
(`valueAfter`), as if their own number were added (`valueAfter_eq`). So a number lies between two
powers of ten that its digits tell (`mul_pow_le_valueAfter`, `valueAfter_lt`), and the digits that
are written of a number are read as this number again (`valueAfter_toDigits`).
-/

namespace LedgerBench

/-! ## Values of digits -/

/-- The values of decimal digits. -/
def digitValues (digits : List Char) : List Nat := digits.map fun c => c.toNat - '0'.toNat

/-- Digits have values one by one. -/
theorem digitValues_append (cs cs' : List Char) :
    digitValues (cs ++ cs') = digitValues cs ++ digitValues cs' :=
  List.map_append

/-- The value of a decimal digit is less than ten. -/
theorem digitValue_lt {c : Char} (h : c.isDigit = true) : c.toNat - '0'.toNat < 10 := by
  have hnine : c.toNat ≤ 57 := (Char.isDigit_iff_toNat.mp h).2
  have hzero : '0'.toNat = 48 := rfl
  omega

/-- So are the values of all digits of a number. -/
theorem lt_of_mem_digitValues {digits : List Char} (h : ∀ c ∈ digits, c.isDigit = true) :
    ∀ d ∈ digitValues digits, d < 10 := by
  intro d hd
  obtain ⟨c, hc, rfl⟩ := List.mem_map.mp hd
  exact digitValue_lt (h c hc)

/-! ## Numbers -/

/-- The number that digits write behind those of another number. -/
def valueAfter (n : Nat) (digits : List Nat) : Nat := digits.foldl (fun n d => 10 * n + d) n

variable {ds : List ℕ}

/-- Digits are written one part after the other. -/
theorem valueAfter_append (n : ℕ) (ds ds' : List ℕ) :
    valueAfter n (ds ++ ds') = valueAfter (valueAfter n ds) ds' :=
  List.foldl_append

/-- Digits that follow move a number by one place each, and their own number is added. -/
theorem valueAfter_eq (n : ℕ) (ds : List ℕ) :
    valueAfter n ds = n * 10 ^ ds.length + valueAfter 0 ds := by
  induction ds generalizing n with
  | nil => exact (Nat.mul_one n).symm
  | cons d ds ih =>
    show valueAfter (10 * n + d) ds = _ + valueAfter (10 * 0 + d) ds
    rw [ih (10 * n + d), ih (10 * 0 + d), List.length_cons, pow_succ]
    ring

/-- Every digit that follows makes a number ten times as large at least. -/
theorem mul_pow_le_valueAfter (n : ℕ) (ds : List ℕ) : n * 10 ^ ds.length ≤ valueAfter n ds := by
  rw [valueAfter_eq]
  exact Nat.le_add_right _ _

/-- More digits do not make a number smaller. -/
theorem le_valueAfter (n : ℕ) (ds : List ℕ) : n ≤ valueAfter n ds :=
  (Nat.le_mul_of_pos_right n (Nat.pow_pos (by decide))).trans (mul_pow_le_valueAfter n ds)

/-- A number of so many digits is below the power of ten. -/
theorem valueAfter_lt (n : ℕ) (h : ∀ d ∈ ds, d < 10) :
    valueAfter n ds < (n + 1) * 10 ^ ds.length := by
  induction ds generalizing n with
  | nil => exact (Nat.lt_succ_self n).trans_eq (Nat.mul_one _).symm
  | cons d ds ih =>
    obtain ⟨hd, hds⟩ := List.forall_mem_cons.mp h
    calc valueAfter n (d :: ds) < (10 * n + d + 1) * 10 ^ ds.length := ih (10 * n + d) hds
      _ ≤ (n + 1) * 10 * 10 ^ ds.length := Nat.mul_le_mul_right _ (by omega)
      _ = (n + 1) * 10 ^ (d :: ds).length := by
        rw [List.length_cons, pow_succ]
        ring

/-- Digits that follow a number make it larger by one place each. -/
theorem foldl_digits_lt {digits : List Char} (h : ∀ c ∈ digits, c.isDigit = true) (n : ℕ) :
    digits.foldl (fun n c => 10 * n + (c.toNat - '0'.toNat)) n < (n + 1) * 10 ^ digits.length := by
  have hlt := valueAfter_lt n (lt_of_mem_digitValues h)
  rwa [valueAfter, digitValues, List.foldl_map, List.length_map] at hlt

/-! ## The digits of a number -/

/-- Decimal digits write the number that they are the digits of. -/
theorem valueAfter_toDigits (n : Nat) : valueAfter 0 (digitValues (Nat.toDigits 10 n)) = n := by
  unfold valueAfter digitValues
  rw [List.foldl_map]
  exact Nat.ofDigitChars_ten_toDigits

/-- The digits of a number are digits. -/
theorem isDigit_toDigits {n : Nat} {c : Char} (h : c ∈ Nat.toDigits 10 n) : c.isDigit = true :=
  Nat.isDigit_of_mem_toDigits (by decide) (by decide) h

/-- The digits of a number do not begin with zero, unless it is zero. -/
theorem exists_toDigits {n : Nat} (hpos : 0 < n) : ∃ c cs, Nat.toDigits 10 n = c :: cs ∧
    c.isDigit = true ∧ c.toNat - '0'.toNat ≠ 0 := by
  induction n using Nat.strongRecOn with
  | ind n ih =>
    by_cases hlt : n < 10
    · rw [Nat.toDigits_of_lt_base hlt]
      refine ⟨_, _, rfl, ?_, ?_⟩
      · simpa using hlt
      · have hvalue := Nat.toNat_digitChar_of_lt_ten hlt
        have hzero : '0'.toNat = 48 := rfl
        omega
    · obtain ⟨c, cs, hdigits, hc⟩ := ih (n / 10) (by omega) (by omega)
      rw [Nat.toDigits_of_base_le (by decide) (by omega), hdigits]
      exact ⟨c, _, rfl, hc⟩

end LedgerBench
