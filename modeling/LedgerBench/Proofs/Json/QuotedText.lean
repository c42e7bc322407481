import LedgerBench.Json.Scanner

/-!
# Reading a string in quotation marks

What `quoted` writes, the scanner reads as the same string (`Scanner.readRest_quoted`), wherever the
value of a string or a key is wanted; the rest of the text is read from there (`Scanner.readRest`).
The escape of one character is read as this character (`Scanner.run_escape`). Most escapes are a
backslash and one letter. The `\u` escape of a control character consists of two zeros and the two
hexadecimal digits of the character, and it is judged after the last one
(`TextScan.step_lastDigit`).
-/

namespace LedgerBench.Json

/-- A hexadecimal digit has its value. -/
theorem hexValue?_hexDigit {n : Nat} (h : n < 16) : hexValue? (hexDigit n) = some n := by
  have hall : ∀ n : Fin 16, hexValue? (hexDigit n) = some n.val := by decide
  exact hall ⟨n, h⟩

/-- A hexadecimal digit takes one byte. -/
theorem utf8Size_hexDigit {n : Nat} (h : n < 16) : (hexDigit n).utf8Size = 1 := by
  have hall : ∀ n : Fin 16, (hexDigit n).utf8Size = 1 := by decide
  exact hall ⟨n, h⟩

namespace TextScan

variable {done : List Char} {c : Char}

/-- The first three digits of a `\u` escape are collected. -/
theorem step_hex (wanted : Bool) {digits : List Char} (h : byteCount (digits ++ [c]) < 4) :
    step wanted ⟨done, .hex digits none⟩ c = .more ⟨done, .hex (digits ++ [c]) none⟩ := by
  simp only [step, if_pos h]

/-- After the last digit the `\u` escape of a control character stands for this character. -/
theorem step_lastDigit (done : List Char) (hc : c.toNat < 0x20) :
    step true ⟨done, .hex ['0', '0', hexDigit (c.toNat / 16)] none⟩ (hexDigit (c.toNat % 16)) =
      .more ⟨c :: done, .plain⟩ := by
  have hcount : byteCount ['0', '0', hexDigit (c.toNat / 16), hexDigit (c.toNat % 16)] = 4 := by
    simp only [byteCount, List.foldl_cons, List.foldl_nil,
      utf8Size_hexDigit (by omega : c.toNat / 16 < 16),
      utf8Size_hexDigit (by omega : c.toNat % 16 < 16)]
    rfl
  have hzero : hexValue? '0' = some 0 := rfl
  have hunit : unitOf? ['0', '0', hexDigit (c.toNat / 16), hexDigit (c.toNat % 16)] =
      some c.toNat := by
    simp only [unitOf?, hzero, hexValue?_hexDigit (by omega : c.toNat / 16 < 16),
      hexValue?_hexDigit (by omega : c.toNat % 16 < 16), Option.bind_eq_bind, Option.bind_some,
      Option.pure_def, Option.some.injEq]
    omega
  -- a control character is no half of a surrogate pair
  have htrail : isTrail c.toNat = false := by simp [isTrail]; omega
  have hlead : isLead c.toNat = false := by simp [isLead]; omega
  simp only [step, List.cons_append, List.nil_append, hcount, hunit, afterUnit, htrail, hlead, push]
  simp

end TextScan

namespace Scanner

variable {goal : Goal} {frames : List Frame} {isKey : Bool}

/-! ## The rest of a text -/

/-- Reads the rest of a text that holds one document. -/
def readRest (goal : Goal) (s : Scanner) (rest : List Char) : Except JsonFault Document :=
  (run goal s rest).bind fun s => s.finish goal

/-- A text is read from the start. -/
theorem readDocument_eq (goal : Goal) (text : List Char) :
    readDocument goal text = readRest goal .start text := by
  unfold readDocument readRest
  cases run goal .start text <;> rfl

/-- A text that goes on to a state is read from there. -/
theorem readRest_append {s s' : Scanner} {front : List Char} (h : run goal s front = .ok s')
    (rest : List Char) : readRest goal s (front ++ rest) = readRest goal s' rest := by
  unfold readRest
  rw [run_append, h]
  rfl

/-- A text is read from its first character on. -/
theorem readRest_cons (s : Scanner) (c : Char) (rest : List Char) :
    readRest goal s (c :: rest) = (step goal s c).bind fun s => readRest goal s rest := by
  unfold readRest
  rw [run]
  cases step goal s c <;> rfl

/-! ## Strings -/

/-- A string goes on with the next character. -/
theorem run_text {scan scan' : TextScan} {c : Char}
    (h : scan.step (textWanted goal isKey frames) c = .more scan') (rest : List Char) :
    run goal ⟨.text isKey scan, frames⟩ (c :: rest) =
      run goal ⟨.text isKey scan', frames⟩ rest := by
  simp only [run, step, h]

/-- The escape of a character is read as this character. -/
theorem run_escape (hwanted : textWanted goal isKey frames = true) (done : List Char) (c : Char)
    (rest : List Char) : run goal ⟨.text isKey ⟨done, .plain⟩, frames⟩ (escape c ++ rest) =
      run goal ⟨.text isKey ⟨c :: done, .plain⟩, frames⟩ rest := by
  -- a backslash and one letter
  have hletter : ∀ letter, unescape? letter = some c → letter ≠ 'u' →
      run goal ⟨.text isKey ⟨done, .plain⟩, frames⟩ ('\\' :: letter :: rest) =
        run goal ⟨.text isKey ⟨c :: done, .plain⟩, frames⟩ rest := by
    intro letter hescape hne
    have hbackslash : TextScan.step (textWanted goal isKey frames) ⟨done, .plain⟩ '\\' =
        .more ⟨done, .backslash⟩ := rfl
    have hdone : TextScan.step (textWanted goal isKey frames) ⟨done, .backslash⟩ letter =
        .more ⟨c :: done, .plain⟩ := by
      simp only [TextScan.step, if_neg hne, hescape, TextScan.push]
    rw [run_text hbackslash, run_text hdone]
  unfold escape
  split
  case h_8 hquote hslash _ _ _ _ _ =>
    split
    · rename_i hcontrol
      have hmark : TextScan.step (textWanted goal isKey frames) ⟨done, .plain⟩ '\\' =
          .more ⟨done, .backslash⟩ := rfl
      have hunicode : TextScan.step (textWanted goal isKey frames) ⟨done, .backslash⟩ 'u' =
          .more ⟨done, .hex [] none⟩ := rfl
      have hthird : TextScan.byteCount ['0', '0', hexDigit (c.toNat / 16)] < 4 := by
        simp only [TextScan.byteCount, List.foldl_cons, List.foldl_nil,
          utf8Size_hexDigit (by omega : c.toNat / 16 < 16)]
        decide
      have hlast := TextScan.step_lastDigit done hcontrol
      rw [← hwanted] at hlast
      rw [List.cons_append, run_text hmark, List.cons_append, run_text hunicode, List.cons_append,
        run_text (TextScan.step_hex _ (by decide)), List.cons_append,
        run_text (TextScan.step_hex _ (by decide)), List.cons_append,
        run_text (TextScan.step_hex _ hthird), List.cons_append]
      exact run_text hlast rest
    · rename_i hplain
      have hpush : TextScan.step (textWanted goal isKey frames) ⟨done, .plain⟩ c =
          .more ⟨c :: done, .plain⟩ := by
        simp only [TextScan.step, if_neg hquote, if_neg hslash, if_neg hplain, TextScan.push]
      exact run_text hpush rest
  all_goals exact hletter _ rfl (by decide)

/-- What is written in quotation marks is read as the same string, up to the closing mark. -/
theorem run_characters (hwanted : textWanted goal isKey frames = true)
    (done text rest : List Char) :
    run goal ⟨.text isKey ⟨done, .plain⟩, frames⟩ (text.flatMap escape ++ rest) =
      run goal ⟨.text isKey ⟨text.reverse ++ done, .plain⟩, frames⟩ rest := by
  induction text generalizing done with
  | nil => rfl
  | cons c text ih =>
    rw [List.flatMap_cons, List.append_assoc, run_escape hwanted, ih, List.reverse_cons,
      List.append_assoc]
    rfl

/-- A string in quotation marks is read as this string: it names the next member, or it goes where
it belongs. The rest is read from there. -/
theorem readRest_quoted (hwanted : textWanted goal isKey frames = true) {focus : Focus}
    (hopen : step goal ⟨focus, frames⟩ '"' = .ok ⟨.text isKey .start, frames⟩) (s : String)
    (rest : List Char) : readRest goal ⟨focus, frames⟩ (quoted s ++ rest) =
      (if isKey then named goal s frames else deliver goal (.text s) frames).bind
        fun s => readRest goal s rest := by
  have hclose : step goal ⟨.text isKey ⟨s.toList.reverse, .plain⟩, frames⟩ '"' =
      if isKey then named goal s frames else deliver goal (.text s) frames := by
    have hvalue : String.ofList s.toList.reverse.reverse = s := by
      rw [List.reverse_reverse, String.ofList_toList]
    simp only [step, TextScan.step, if_true, hvalue]
  have hcharacters := run_characters hwanted [] s.toList []
  rw [List.append_nil, List.append_nil] at hcharacters
  have hread : readRest goal ⟨.text isKey .start, frames⟩ (s.toList.flatMap escape ++ '"' :: rest) =
      readRest goal ⟨.text isKey ⟨s.toList.reverse, .plain⟩, frames⟩ ('"' :: rest) :=
    readRest_append hcharacters _
  unfold quoted
  rw [List.cons_append, readRest_cons, hopen, List.append_assoc]
  refine hread.trans ?_
  rw [readRest_cons, hclose]

end Scanner

end LedgerBench.Json
