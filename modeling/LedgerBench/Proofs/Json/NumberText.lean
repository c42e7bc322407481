import LedgerBench.Proofs.Json.QuotedText
import LedgerBench.Proofs.Json.TrailingSpace
import LedgerBench.Proofs.Json.Words
import LedgerBench.Proofs.Text.Digits

/-!
# Reading the text of a number

A number is read character by character, as long as its characters go on with it
(`NumberScan.ofText?`). A character that cannot belong to it ends it, and so does the end of the
text: in both cases the number goes where it belongs and the rest is read from there
(`Scanner.readRest_number`).

The text of an integer consists of decimal digits and perhaps a minus sign. Its digits are gathered
in a word, and none is dropped if the integer fits (`JsonNumber.gather_of_lt`). So an integer that
fits a word is read as itself (`Scanner.readRest_integerText`), and two different integers have
different texts (`JsonNumber.integerText_inj`).
-/

namespace LedgerBench

namespace JsonNumber

/-- Digits whose number fits a word are all gathered. -/
theorem gather_of_lt {n : Nat} {digits : List Nat} (h : valueAfter n digits < 2 ^ 64) :
    gather n digits = (valueAfter n digits, digits.length) := by
  induction digits generalizing n with
  | nil => rfl
  | cons d digits ih =>
    have hcons : valueAfter n (d :: digits) = valueAfter (10 * n + d) digits := rfl
    have hfits : 10 * n + d < Nat.pow 2 64 :=
      Nat.lt_of_le_of_lt (le_valueAfter _ digits) (hcons ▸ h)
    rw [gather, if_pos hfits, ih (hcons ▸ h)]
    rfl

/-- The text of an integer is the digits of its magnitude, behind a minus sign if it is negative. -/
theorem integerText_eq (n : Int) :
    integerText n = (if n < 0 then ['-'] else []) ++ Nat.toDigits 10 n.natAbs := by
  cases n with
  | ofNat n => rw [if_neg (by simp)]; rfl
  | negSucc n => rw [if_pos (Int.negSucc_lt_zero n)]; rfl

/-- Different integers have different texts. -/
theorem integerText_inj {n m : Int} : integerText n = integerText m ↔ n = m := by
  refine ⟨fun h => ?_, congrArg integerText⟩
  have hdigits : ∀ {k l : Nat}, Nat.toDigits 10 k = Nat.toDigits 10 l → k = l := by
    intro k l heq
    rw [← valueAfter_toDigits k, ← valueAfter_toDigits l, heq]
  -- a minus sign is no digit
  have hsign : ∀ {k : Nat} {cs : List Char}, Nat.toDigits 10 k ≠ '-' :: cs := by
    intro k cs heq
    have hmem : '-' ∈ Nat.toDigits 10 k := heq ▸ List.mem_cons_self
    exact absurd (isDigit_toDigits hmem) (by decide)
  cases n with
  | ofNat k =>
    cases m with
    | ofNat l => exact congrArg Int.ofNat (hdigits h)
    | negSucc l => exact absurd h hsign
  | negSucc k =>
    cases m with
    | ofNat l => exact absurd h.symm hsign
    | negSucc l =>
      have hsucc := hdigits (List.cons_inj_right '-' |>.mp h)
      rw [Nat.succ.inj hsucc]

end JsonNumber

namespace Json

/-! ## The scan of a number -/

namespace NumberScan

variable {negative below : Bool} {front ds : List Nat} {back : Option (List Nat)}
  {scan scan' : NumberScan} {c : Char} {cs : List Char}

/-- The scan after characters that all go on with it. -/
def run? (scan : NumberScan) : List Char → Option NumberScan
  | [] => some scan
  | c :: rest =>
    match scan.step c with
    | .more scan => scan.run? rest
    | _ => none

/-- The scan of a text all characters of which belong to the number. -/
def ofText? : List Char → Option NumberScan
  | [] => none
  | c :: rest => (start? c).bind fun scan => scan.run? rest

/-- A character goes on with the scan, and what follows it with the next one. -/
theorem run?_cons (h : scan.step c = .more scan') (cs : List Char) :
    scan.run? (c :: cs) = scan'.run? cs := by
  rw [run?, h]

/-- A scan goes on with two texts one after the other. -/
theorem run?_append (cs cs' : List Char) :
    scan.run? (cs ++ cs') = (scan.run? cs).bind fun scan => scan.run? cs' := by
  induction cs generalizing scan with
  | nil => rfl
  | cons c cs ih =>
    simp only [List.cons_append, run?]
    cases scan.step c with
    | more scan => exact ih
    | ended => rfl
    | broken => rfl

/-- A digit has its value. -/
theorem digit?_of_isDigit (h : c.isDigit = true) : digit? c = some (c.toNat - '0'.toNat) := if_pos h

/-- Digits go on with a whole part that does not consist of a zero. -/
theorem run?_whole (hdigits : ∀ c ∈ cs, c.isDigit = true) (hne : ds ≠ []) (hzero : ds ≠ [0]) :
    (whole negative ds).run? cs = some (.whole negative ((digitValues cs).reverse ++ ds)) := by
  induction cs generalizing ds with
  | nil => rfl
  | cons c cs ih =>
    obtain ⟨hc, hcs⟩ := List.forall_mem_cons.mp hdigits
    have hstep : (whole negative ds).step c =
        .more (.whole negative ((c.toNat - '0'.toNat) :: ds)) := by
      simp only [step, digit?_of_isDigit hc, if_neg hzero]
    have hmore : (c.toNat - '0'.toNat) :: ds ≠ [0] := fun h => hne (List.cons.inj h).2
    rw [run?_cons hstep, ih hcs (List.cons_ne_nil _ _) hmore]
    simp [digitValues]

/-- Behind a sign or without one a whole part begins with its first digit. It goes on only if this
digit is not zero. -/
theorem ofText?_signed (negative : Bool) (hc : c.isDigit = true)
    (hcs : ∀ c ∈ cs, c.isDigit = true) (hzero : c.toNat - '0'.toNat = 0 → cs = [])
    (more : List Char) :
    ofText? ((if negative then ['-'] else []) ++ (c :: cs ++ more)) =
      (whole negative (digitValues (c :: cs)).reverse).run? more := by
  have hfirst : ofText? ((if negative then ['-'] else []) ++ (c :: cs ++ more)) =
      (whole negative [c.toNat - '0'.toNat]).run? (cs ++ more) := by
    cases negative with
    | true =>
      have hsign : start? '-' = some .sign := rfl
      have hstep : sign.step c = .more (.whole true [c.toNat - '0'.toNat]) := by
        simp only [step, digit?_of_isDigit hc]
      simp only [if_true, List.cons_append, List.nil_append, ofText?, hsign, Option.bind_some, run?,
        hstep]
    | false =>
      have hminus : c ≠ '-' := by
        rintro rfl
        cases hc
      have hstart : start? c = some (.whole false [c.toNat - '0'.toNat]) := by
        rw [start?, if_neg hminus, digit?_of_isDigit hc, Option.map_some]
      simp only [Bool.false_eq_true, if_false, List.cons_append, List.nil_append, ofText?, hstart,
        Option.bind_some]
  rw [hfirst, run?_append]
  cases cs with
  | nil => rfl
  | cons c' cs =>
    have hnonzero : [c.toNat - '0'.toNat] ≠ [0] := fun h => by cases hzero (List.cons.inj h).1
    rw [run?_whole hcs (List.cons_ne_nil _ _) hnonzero, Option.bind_some]
    simp [digitValues]

/-- The text of an integer is scanned as its digits. -/
theorem ofText?_integerText (n : Int) : ofText? (JsonNumber.integerText n) =
    some (.whole (n < 0) (digitValues (Nat.toDigits 10 n.natAbs)).reverse) := by
  have hsigned : ∀ c cs, Nat.toDigits 10 n.natAbs = c :: cs → (c.toNat - '0'.toNat = 0 → cs = []) →
      ofText? (JsonNumber.integerText n) =
        some (.whole (n < 0) (digitValues (Nat.toDigits 10 n.natAbs)).reverse) := by
    intro c cs hdigits hzero
    have hall : ∀ c' ∈ c :: cs, c'.isDigit = true := fun c' hc' => isDigit_toDigits (hdigits ▸ hc')
    obtain ⟨hc, hcs⟩ := List.forall_mem_cons.mp hall
    have hscan := ofText?_signed (decide (n < 0)) hc hcs hzero []
    rw [List.append_nil] at hscan
    simpa only [JsonNumber.integerText_eq, hdigits, decide_eq_true_eq, run?] using hscan
  rcases Nat.eq_zero_or_pos n.natAbs with hzero | hpos
  · exact hsigned '0' [] (by rw [hzero, Nat.toDigits_zero]) fun _ => rfl
  · obtain ⟨c, cs, hdigits, -, hnonzero⟩ := exists_toDigits hpos
    exact hsigned c cs hdigits fun h => absurd h hnonzero

/-! ## The end of a number -/

/-- The character cannot belong to a number that is complete. -/
def Stops (c : Char) : Prop := c.isDigit = false ∧ c ≠ '.' ∧ isMark c = false

instance (c : Char) : Decidable (Stops c) := inferInstanceAs (Decidable (_ ∧ _))

/-- Such a character ends a number that is complete. -/
theorem step_of_stops (hscan : scan.written?.isSome) (hc : Stops c) : scan.step c = .ended := by
  obtain ⟨hdigit, hpoint, hmark⟩ := hc
  have hdigit : digit? c = none := by simp [digit?, hdigit]
  cases scan <;> simp_all [written?, step]

end NumberScan

namespace Scanner

variable {goal : Goal} {frames : List Frame}

/-- A number goes on with the characters that belong to it. -/
theorem run_scan {scan scan' : NumberScan} {cs : List Char} (h : scan.run? cs = some scan') :
    run goal ⟨.number scan, frames⟩ cs = .ok ⟨.number scan', frames⟩ := by
  induction cs generalizing scan with
  | nil =>
    cases h
    rfl
  | cons c cs ih =>
    unfold NumberScan.run? at h
    split at h
    · rename_i next hstep
      have hmore : step goal ⟨.number scan, frames⟩ c = .ok ⟨.number next, frames⟩ := by
        simp only [step, hstep]
      rw [run, hmore]
      exact ih h
    · cases h

/-- A number begins where a value begins. -/
theorem step_value_of_start? {c : Char} {scan : NumberScan} (h : NumberScan.start? c = some scan)
    (opened : Bool) :
    step goal ⟨.value opened, frames⟩ c = .ok ⟨.number scan, frames⟩ := by
  -- whatever else can stand here is neither a minus sign nor a digit
  have hother : ∀ d, NumberScan.start? d = none → c ≠ d := by
    rintro d hd rfl
    cases hd.symm.trans h
  have hspace : isSpace c = false := by
    simp [isSpace, hother ' ' rfl, hother '\t' rfl, hother '\n' rfl, hother '\r' rfl]
  have hbracket : (c = ']' && opened) ≠ true := by simp [hother ']' rfl]
  have hconstant : constant? c = none := by
    unfold constant?
    split
    · exact absurd rfl (hother 'n' rfl)
    · exact absurd rfl (hother 't' rfl)
    · exact absurd rfl (hother 'f' rfl)
    · rfl
  simp only [step, stepValue]
  rw [if_neg (Bool.eq_false_iff.mp hspace), if_neg (hother '"' rfl), if_neg (hother '[' rfl),
    if_neg (hother '\x7b' rfl), if_neg hbracket, hconstant, h]

/-- A number is read up to its last character. -/
theorem run_number {text : List Char} {scan : NumberScan}
    (h : NumberScan.ofText? text = some scan) (opened : Bool) :
    run goal ⟨.value opened, frames⟩ text = .ok ⟨.number scan, frames⟩ := by
  cases text with
  | nil => cases h
  | cons c cs =>
    obtain ⟨first, hstart, hrun⟩ := Option.bind_eq_some_iff.mp h
    rw [run, step_value_of_start? hstart]
    exact run_scan hrun

/-- After a complete value any character is one after a complete value. -/
theorem AtRest.step_eq {s : Scanner} (h : s.AtRest) (c : Char) :
    step goal s c = stepNext goal s c := by
  obtain ⟨focus, frames⟩ := s
  rcases h with rfl | ⟨d, rfl⟩ <;> rfl

/-- A complete number goes where it belongs, and the rest is read from there: its end is the end of
the text, or a character that cannot belong to it. -/
theorem readRest_number {scan : NumberScan} (hscan : scan.written?.isSome) {rest : List Char}
    (hrest : ∀ c ∈ rest.head?, NumberScan.Stops c) :
    readRest goal ⟨.number scan, frames⟩ rest =
      (endNumber goal frames scan).bind fun s => readRest goal s rest := by
  cases rest with
  | nil =>
    have hwritten : scan.written?.isNone = false := Option.isNone_eq_false_iff.mpr hscan
    have hfinish : readRest goal ⟨.number scan, frames⟩ [] =
        finish goal ⟨.number scan, frames⟩ := rfl
    rw [hfinish, finish]
    simp only [hwritten, Bool.false_eq_true, if_false]
    cases hend : endNumber goal frames scan with
    | error e => rfl
    | ok s =>
      obtain ⟨focus, below⟩ := s
      rcases atRest_endNumber hend with rfl | ⟨d, rfl⟩ <;> rfl
  | cons c rest =>
    have hended : scan.step c = .ended := NumberScan.step_of_stops hscan (hrest c rfl)
    have hstep : step goal ⟨.number scan, frames⟩ c =
        (endNumber goal frames scan).bind fun s => stepNext goal s c := by
      simp only [step, hended]
      rfl
    rw [readRest_cons, hstep]
    cases hend : endNumber goal frames scan with
    | error e => rfl
    | ok s =>
      simp only [Except.bind, readRest_cons, (atRest_endNumber hend).step_eq]

/-- The text of a number is read as this number, and the rest from where it belongs. -/
theorem readRest_numberText {text : List Char} {scan : NumberScan} {n : JsonNumber}
    (htext : NumberScan.ofText? text = some scan)
    (hvalue : scan.written?.bind JsonNumber.ofWritten = some n)
    (hwanted : goal.wantInside frames ≠ .nothing) (opened : Bool) {rest : List Char}
    (hrest : ∀ c ∈ rest.head?, NumberScan.Stops c) :
    readRest goal ⟨.value opened, frames⟩ (text ++ rest) =
      (deliver goal (.number n) frames).bind fun s => readRest goal s rest := by
  have hscan : scan.written?.isSome := by
    obtain ⟨w, hw, -⟩ := Option.bind_eq_some_iff.mp hvalue
    rw [hw]
    rfl
  have hend : endNumber goal frames scan = deliver goal (.number n) frames := by
    simp only [endNumber, if_neg hwanted, hvalue]
  rw [readRest_append (run_number htext opened), readRest_number hscan hrest, hend]

end Scanner

/-- The digits of an integer that fits a word, with its sign, are worth this integer. -/
theorem ofWritten_digits {n : Int} (h : (JsonNumber.integer n).FitsWord) :
    JsonNumber.ofWritten ⟨n < 0, digitValues (Nat.toDigits 10 n.natAbs), none, none⟩ =
      some (.integer n) := by
  obtain ⟨hlow, hhigh⟩ := h
  have hvalue := valueAfter_toDigits n.natAbs
  have hgather : JsonNumber.gather 0 (digitValues (Nat.toDigits 10 n.natAbs)) =
      (n.natAbs, (digitValues (Nat.toDigits 10 n.natAbs)).length) := by
    have hlt : valueAfter 0 (digitValues (Nat.toDigits 10 n.natAbs)) < 2 ^ 64 := by omega
    rw [JsonNumber.gather_of_lt hlt, hvalue]
  unfold JsonNumber.ofWritten
  simp only [hgather, Nat.sub_self, Option.isNone_none]
  by_cases hneg : n < 0
  · -- the magnitude of a negative integer fits a signed word
    have hword : n.natAbs ≤ Nat.pow 2 63 := by
      have hpow : Nat.pow 2 63 = 9223372036854775808 := rfl
      omega
    have hpos : 0 < n.natAbs := by omega
    have hmagnitude : -(n.natAbs : Int) = n := by omega
    simp only [hneg, hword, hpos, hmagnitude, decide_true, Bool.and_self, Bool.not_true,
      Bool.and_false, if_true]
    rfl
  · have hmagnitude : (n.natAbs : Int) = n := by omega
    simp only [hneg, hmagnitude, decide_true, decide_false, Bool.and_true, Bool.not_false, if_true]

namespace Scanner

variable {goal : Goal} {frames : List Frame}

/-- An integer that fits a word is read as itself. -/
theorem readRest_integerText {n : Int} (h : (JsonNumber.integer n).FitsWord)
    (hwanted : goal.wantInside frames ≠ .nothing) (opened : Bool) {rest : List Char}
    (hrest : ∀ c ∈ rest.head?, NumberScan.Stops c) :
    readRest goal ⟨.value opened, frames⟩ (JsonNumber.integerText n ++ rest) =
      (deliver goal (.number (.integer n)) frames).bind fun s => readRest goal s rest := by
  refine readRest_numberText (NumberScan.ofText?_integerText n) ?_ hwanted opened hrest
  rw [NumberScan.written?, Option.bind_some, List.reverse_reverse]
  exact ofWritten_digits h

end Scanner

end Json

end LedgerBench
