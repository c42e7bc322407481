import Mathlib.Data.Int.Cast.Basic
import Mathlib.Tactic.Linarith
import LedgerBench.Text.Columns

/-!
# Which texts have a width

A character may give back columns when it melts into a ligature or an emoji sequence with what
stands ahead of it. It never gives back more than have been counted: the parts of which a column may
be taken back later hold it as a credit, the credit is covered whenever a part comes about, and it
is used up when the column is given back (`Ahead.credit_measure_le`). So the characters of every
text together take no negative number of columns (`Ahead.measureAll_nonneg`), and only a colour code
can be the reason that a text has no width (`isSome_columns?`).

Printable characters of ASCII and Latin-1 take one column each (`columns?_of_isNarrow`).
-/

namespace LedgerBench.Text

/-! ## Columns that may be given back -/

/-- The columns that a part of a ligature may give back. -/
def Ligature.credit : Ligature → ℕ
  | joinedTifinagh | khmerLetter => 1
  | _ => 0

/-- The columns that a part of an emoji sequence may give back. -/
def Emoji.credit : Emoji → ℕ
  | joinedIndicator | joinedIndicators true => 1
  | _ => 0

/-- The columns that what stands ahead may give back. -/
def Head.credit : Head → ℕ
  | plain => 0
  | ligature part => part.credit
  | emoji part => part.credit

namespace Ligature

/-- A part gives back one column at most. -/
theorem credit_le_one (part : Ligature) : part.credit ≤ 1 := by
  unfold credit
  split <;> omega

/-- A mark between the parts changes nothing. -/
theorem credit_of_pass? {part part' : Ligature} {c : Char} (h : part.pass? c = some part') :
    part'.credit = part.credit := by
  have hjoin : part.join.credit = part.credit := by cases part <;> rfl
  cases part <;> grind [pass?]

/-- A character that takes up a part gives back no more than the credit of the part. -/
theorem credit_of_merge? {part : Ligature} {c : Char} {columns : ℤ} {left : Option Ligature}
    (h : part.merge? c = some (columns, left)) :
    (left.elim 0 credit : ℕ) ≤ part.credit + columns := by
  unfold merge? at h
  split at h <;> grind [credit, Option.elim]

end Ligature

namespace Emoji

/-- An emoji by itself gives back nothing. -/
theorem credit_of_ofChar? {part : Emoji} {c : Char} (h : ofChar? c = some part) :
    part.credit = 0 := by
  unfold ofChar? at h
  split_ifs at h <;> cases h <;> rfl

/-- A character that belongs to a sequence gives back no more than the credit of the part. -/
theorem credit_of_extend? {part part' : Emoji} {c : Char} {columns : ℤ}
    (h : part.extend? c = some (columns, part')) : part'.credit ≤ part.credit + columns := by
  unfold extend? at h
  split at h
  · cases h
    exact Int.natCast_nonneg _
  · split at h <;> grind [credit, extendJoined?, extendTag?, credit_of_ofChar?]

end Emoji

namespace Head

/-- A character by itself takes the columns that it may give back later. -/
theorem credit_ofChar_le (c : Char) : (ofChar c).2.credit ≤ (ofChar c).1 := by
  unfold ofChar
  cases hligature : Ligature.ofChar? c with
  | some part =>
    show (part.credit : ℤ) ≤ 1
    exact_mod_cast part.credit_le_one
  | none =>
    cases hemoji : Emoji.ofChar? c with
    | some part =>
      -- an emoji takes two columns, a regional indicator one
      have hzero : (emoji part).credit = 0 := Emoji.credit_of_ofChar? hemoji
      cases part <;> simp_all
    | none =>
      dsimp only
      split_ifs <;> decide

/-- A character gives back no more than the credit of what stands ahead of it. -/
theorem credit_measure_le (h : Head) (c : Char) :
    (h.measure c).2.credit ≤ h.credit + (h.measure c).1 := by
  have hself : (ofChar c).2.credit ≤ h.credit + (ofChar c).1 := by
    have hown := credit_ofChar_le c
    omega
  cases h with
  | plain => exact hself
  | ligature part =>
    unfold measure
    dsimp only
    cases hpass : part.pass? c with
    | some next =>
      show (next.credit : ℤ) ≤ part.credit + 0
      rw [Ligature.credit_of_pass? hpass, add_zero]
    | none =>
      cases hmerge : part.merge? c with
      | none => exact hself
      | some merged =>
        obtain ⟨columns, left⟩ := merged
        have hcredit := Ligature.credit_of_merge? hmerge
        cases left <;> exact hcredit
  | emoji part =>
    unfold measure
    dsimp only
    cases hextend : part.extend? c with
    | none => exact hself
    | some extended => exact Emoji.credit_of_extend? hextend

/-- What is left of a style that was not chosen adds no credit. -/
theorem credit_unstyled_le (h : Head) : h.unstyled.credit ≤ h.credit := by
  cases h with
  | emoji part => exact Nat.zero_le _
  | _ => exact Nat.le_refl _

/-- A variation selector adds no credit. -/
theorem credit_styled_le (style : Style) (h : Head) : (h.styled style).head.credit ≤ h.credit := by
  unfold styled
  split
  · exact Nat.le_refl _
  · exact h.credit_unstyled_le

end Head

namespace Ahead

/-- A character gives back no more than the credit of what stands ahead of it. -/
theorem credit_measure_le (a : Ahead) (c : Char) :
    (a.measure c).2.head.credit ≤ a.head.credit + (a.measure c).1 := by
  have hsettled : a.settled.credit ≤ a.head.credit := by
    unfold settled
    split
    · exact Nat.le_refl _
    · exact a.head.credit_unstyled_le
  have hselector : ∀ style, (a.settled.styled style).head.credit ≤ a.head.credit := fun style =>
    (a.settled.credit_styled_le style).trans hsettled
  have hplain : ((0 : ℕ) : ℤ) ≤ a.head.credit + 1 := by omega
  unfold measure
  split_ifs
  · -- an emoji that is joined takes no column, one that stands alone two
    show ((0 : ℕ) : ℤ) ≤ a.head.credit + 0
    omega
  · show ((0 : ℕ) : ℤ) ≤ a.head.credit + 2
    omega
  · exact hplain
  · exact hplain
  · rw [add_zero]
    exact_mod_cast hselector .emoji
  · rw [add_zero]
    exact_mod_cast hselector .text
  · have hstep := a.settled.credit_measure_le c
    show ((a.settled.measure c).2.credit : ℤ) ≤ a.head.credit + (a.settled.measure c).1
    omega

/-- The columns of a text cover what may be given back of them. -/
theorem credit_measureAll_le (text : List Char) :
    (measureAll text).2.head.credit ≤ (measureAll text).1 := by
  induction text with
  | nil => exact Int.le_refl _
  | cons c text ih =>
    show ((measureAll text).2.measure c).2.head.credit ≤
      (measureAll text).1 + ((measureAll text).2.measure c).1
    have hstep := (measureAll text).2.credit_measure_le c
    omega

/-- No text takes a negative number of columns. -/
theorem measureAll_nonneg (text : List Char) : 0 ≤ (measureAll text).1 := by
  have hcredit := credit_measureAll_le text
  omega

end Ahead

/-! ## Colour codes -/

/-- Nothing is hidden in a text without colour codes. -/
theorem hidden_of_not_mem {text : List Char} (h : '\x1b' ∉ text) : hidden text = 0 := by
  unfold hidden
  dsimp only
  induction text with
  | nil => rfl
  | cons c text ih =>
    rw [List.mem_cons, not_or] at h
    obtain ⟨hc, htext⟩ := h
    have hplain : ColourCode.step .outside c = (0, .outside) := by
      rw [ColourCode.step, if_neg (Ne.symm hc)]
    rw [List.foldl_cons, hplain]
    exact ih htext

/-- A text has no width exactly when its colour codes hide more than it takes. -/
theorem columns?_eq_none_iff {s : String} :
    columns? s = none ↔ (Ahead.measureAll s.toList).1 < hidden s.toList := by
  unfold columns?
  dsimp only
  split
  · simp only [reduceCtorEq, false_iff]
    omega
  · simp only [true_iff]
    omega

/-- A text without colour codes has a width. -/
theorem isSome_columns? {s : String} (h : '\x1b' ∉ s.toList) : (columns? s).isSome = true := by
  rw [Option.isSome_iff_ne_none, ne_eq, columns?_eq_none_iff, hidden_of_not_mem h]
  exact not_lt.mpr (Ahead.measureAll_nonneg _)

/-! ## Simple texts -/

/-- Whether a character takes one column wherever it stands, and begins neither a line nor a colour
code. -/
def isNarrow (c : Char) : Bool := (0x20 ≤ c.toNat && c.toNat ≤ 0xA0) || c = 'μ'

variable {text : List Char}

/-- Such characters take one column each, and put nothing ahead of others. -/
theorem measureAll_of_isNarrow (h : text.all isNarrow = true) :
    Ahead.measureAll text = (↑text.length, Ahead.start) := by
  induction text with
  | nil => rfl
  | cons c text ih =>
    rw [List.all_cons, Bool.and_eq_true] at h
    obtain ⟨hc, htext⟩ := h
    simp only [isNarrow, Bool.or_eq_true, Bool.and_eq_true, decide_eq_true_eq] at hc
    have hone : Ahead.start.measure c = (1, Ahead.start) := by
      rcases hc with ⟨-, hsmall⟩ | rfl
      · -- nothing stands ahead that asks for a style
        unfold Ahead.measure
        rw [if_neg (by simp [Ahead.start]), if_neg (by simp [Ahead.start]), if_pos hsmall]
      · decide +kernel
    show ((Ahead.measureAll text).1 + ((Ahead.measureAll text).2.measure c).1,
      ((Ahead.measureAll text).2.measure c).2) = _
    rw [ih htext, hone, List.length_cons, Nat.cast_add_one]

/-- A control character is none of them. -/
theorem not_mem_of_isNarrow (h : text.all isNarrow = true) {c : Char} (hc : c.toNat < 0x20) :
    c ∉ text := by
  intro hmem
  have hnarrow := List.all_eq_true.mp h c hmem
  simp only [isNarrow, Bool.or_eq_true, Bool.and_eq_true, decide_eq_true_eq] at hnarrow
  rcases hnarrow with ⟨hlarge, -⟩ | rfl
  · omega
  · exact absurd hc (by decide)

/-- They are the columns of the text. -/
theorem columns?_of_isNarrow (h : text.all isNarrow = true) :
    columns? (String.ofList text) = some text.length := by
  have hescape : '\x1b' ∉ text := not_mem_of_isNarrow h (by decide)
  unfold columns?
  rw [String.toList_ofList, measureAll_of_isNarrow h, hidden_of_not_mem hescape]
  simp

end LedgerBench.Text
