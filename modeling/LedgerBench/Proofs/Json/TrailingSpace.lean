import LedgerBench.Proofs.Event.Tells

/-!
# White space behind a document

A text that holds a document may have white space behind it: with one more space at its end it holds
the same document (`readDocument_concat_space`). For a log this means that a line may keep the
carriage return that belongs to its end (`Record.read_concat_space`).

Whether a text is complete is decided by the state in which the scanner has come to its end, so the
proof goes through the states (`finish_of_step_space`). Between the parts of a document a space
changes nothing. It ends a number as the end of the text does. Inside a string or the name of a
constant the text is incomplete, with the space as without it; for constants this takes an invariant
of the scanner, that no space is left of a name (`SpaceFree`).
-/

namespace LedgerBench.Json

/-! ## Numbers and strings -/

/-- A space ends a number that is complete, and breaks any other. -/
theorem NumberScan.step_space {c : Char} (hc : Scanner.isSpace c = true) (scan : NumberScan) :
    scan.step c = .ended ∧ scan.written?.isSome ∨ scan.step c = .broken ∧ scan.written? = none := by
  have hchar : c = ' ' ∨ c = '\t' ∨ c = '\n' ∨ c = '\r' := by
    simpa [Scanner.isSpace, or_assoc] using hc
  rcases hchar with rfl | rfl | rfl | rfl <;> cases scan <;>
    simp [step, digit?, isMark, written?, Char.isDigit]

/-- A `\u` escape does not close a string. -/
theorem TextScan.afterUnit_ne_closed (wanted : Bool) (scan : TextScan) (unit : Nat)
    (lead : Option Nat) (t : String) : scan.afterUnit wanted unit lead ≠ .closed t := by
  cases lead <;> grind [afterUnit, push]

/-- Only a quotation mark closes a string. -/
theorem TextScan.eq_quote_of_closed {scan : TextScan} {wanted : Bool} {c : Char} {t : String}
    (h : scan.step wanted c = .closed t) : c = '"' := by
  unfold step at h
  split at h <;> grind [push, afterUnit_ne_closed]

namespace Scanner

variable {goal : Goal} {frames : List Frame} {s s' : Scanner} {c : Char}

/-! ## No space in the name of a constant -/

/-- Where the name of a constant is being read, no space is left of it. -/
def SpaceFree (s : Scanner) : Prop :=
  ∀ rest v, s.focus = .word rest v → ∀ c ∈ rest, isSpace c = false

/-- A value has just been completed. -/
def AtRest (s : Scanner) : Prop := s.focus = .next ∨ ∃ d, s.focus = .done d

/-- After a complete value no name is being read. -/
theorem AtRest.spaceFree (h : s.AtRest) : s.SpaceFree := by
  unfold AtRest at h
  grind [SpaceFree]

/-- A value that has gone where it belongs is complete. -/
theorem atRest_deliver {v : Json} (h : deliver goal v frames = .ok s') : s'.AtRest := by
  unfold deliver at h
  grind [AtRest]

/-- A form that is closed is complete. -/
theorem atRest_closeForm {filled : List (Option Json)} (h : closeForm goal filled = .ok s') :
    s'.AtRest := by
  unfold closeForm at h
  grind [AtRest]

/-- An array that is closed is complete. -/
theorem atRest_closeArray (h : closeArray goal frames = .ok s') : s'.AtRest := by
  unfold closeArray at h
  grind [atRest_deliver, atRest_closeForm]

/-- An object that is closed is complete. -/
theorem atRest_closeObject (h : closeObject goal frames = .ok s') : s'.AtRest := by
  unfold closeObject at h
  grind [atRest_deliver, atRest_closeForm]

/-- A number that has ended is complete. -/
theorem atRest_endNumber {scan : NumberScan} (h : endNumber goal frames scan = .ok s') :
    s'.AtRest := by
  unfold endNumber at h
  grind [atRest_deliver]

/-- After a complete value no constant begins. -/
theorem spaceFree_stepNext (hs : s.SpaceFree) (h : stepNext goal s c = .ok s') :
    s'.SpaceFree := by
  unfold stepNext comma at h
  grind [AtRest.spaceFree, atRest_closeArray, atRest_closeObject, SpaceFree]

/-- No constant has a space in its name. -/
theorem isSpace_constant {rest : List Char} {v : Json} (h : constant? c = some (rest, v)) :
    ∀ c ∈ rest, isSpace c = false := by
  unfold constant? at h
  split at h <;> cases h <;> simp [isSpace]

/-- A character leaves no space in the name of a constant if there was none. -/
theorem spaceFree_step (hs : s.SpaceFree) (h : step goal s c = .ok s') : s'.SpaceFree := by
  obtain ⟨focus, frames⟩ := s
  unfold step at h
  cases focus with
  | value opened =>
    unfold stepValue openArray openObject at h
    grind [AtRest.spaceFree, atRest_closeArray, SpaceFree, isSpace_constant]
  | key opened =>
    unfold stepKey at h
    grind [AtRest.spaceFree, atRest_closeObject, SpaceFree]
  | colon => grind [SpaceFree]
  | next => exact spaceFree_stepNext hs h
  | done result => exact spaceFree_stepNext hs h
  | word rest v =>
    unfold stepWord at h
    grind [AtRest.spaceFree, atRest_deliver, SpaceFree]
  | text isKey scan =>
    unfold named at h
    grind [AtRest.spaceFree, atRest_deliver, SpaceFree]
  | number scan =>
    dsimp only at h
    split at h
    · grind [SpaceFree]
    · cases h
    · -- the number is complete, and the character follows it
      obtain ⟨ended, hended, hnext⟩ := bind_eq_ok.mp h
      exact spaceFree_stepNext (atRest_endNumber hended).spaceFree hnext

/-- In all states that are reached no space is left in the name of a constant. -/
theorem spaceFree_run {text : List Char} (hs : s.SpaceFree) (h : run goal s text = .ok s') :
    s'.SpaceFree :=
  run_preserves (fun _ _ _ hs hstep => spaceFree_step hs hstep) hs h

/-! ## One more space -/

/-- A text that ends in this state holds a document exactly if it does so with one more space. -/
theorem finish_of_step_space (hc : isSpace c = true) (hs : s.SpaceFree) {d : Document} :
    (∃ s', step goal s c = .ok s' ∧ s'.finish goal = .ok d) ↔ s.finish goal = .ok d := by
  obtain ⟨focus, frames⟩ := s
  cases focus with
  | value opened => simp [step, stepValue, hc]
  | key opened => simp [step, stepKey, hc]
  | colon => simp [step, hc]
  | next => simp [step, stepNext, hc]
  | done result => simp [step, stepNext, hc]
  | word rest v =>
    -- the name is incomplete, and the space is no part of it
    have hne : ∀ first ∈ rest, c ≠ first := by
      rintro first hmem rfl
      rw [hs rest v rfl c hmem] at hc
      cases hc
    unfold step stepWord
    dsimp only
    cases rest with
    | nil => simp [finish]
    | cons first rest => cases rest <;> simp [finish, hne first List.mem_cons_self]
  | text isKey scan =>
    -- the string goes on or is broken, but does not close
    cases hstep : scan.step (textWanted goal isKey frames) c with
    | more scan' => simp [step, hstep, finish]
    | broken => simp [step, hstep, finish]
    | closed t =>
      rw [TextScan.eq_quote_of_closed hstep] at hc
      cases hc
  | number scan =>
    rcases scan.step_space hc with ⟨hstep, hwritten⟩ | ⟨hstep, hwritten⟩
    · -- the number is complete, and the space follows it
      have hnext : ∀ s, stepNext goal s c = .ok s := fun s => if_pos hc
      have hstays : step goal ⟨.number scan, frames⟩ c = endNumber goal frames scan := by
        simp only [step, hstep, hnext]
        cases endNumber goal frames scan <;> rfl
      unfold finish
      simp only [hstays, Option.isNone_eq_false_iff.mpr hwritten]
      cases hend : endNumber goal frames scan with
      | error e => simp
      | ok ended =>
        obtain ⟨focus, below⟩ := ended
        rcases atRest_endNumber hend with rfl | ⟨result, rfl⟩ <;> simp
    · simp [step, hstep, finish, hwritten]

end Scanner

/-- White space behind a document does not matter. -/
theorem readDocument_concat_space {goal : Goal} {text : List Char} {c : Char} {d : Document}
    (hc : Scanner.isSpace c = true) :
    readDocument goal (text ++ [c]) = .ok d ↔ readDocument goal text = .ok d := by
  unfold readDocument
  rw [Scanner.run_append]
  cases hrun : Scanner.run goal .start text with
  | error e => simp [Except.bind]
  | ok s =>
    have hstart : Scanner.start.SpaceFree := by
      intro rest v h
      cases h
    have hfree := Scanner.spaceFree_run hstart hrun
    refine Iff.trans ?_ (Scanner.finish_of_step_space hc hfree)
    simp only [Except.bind, Scanner.run]
    cases Scanner.step goal s c <;> simp

end LedgerBench.Json

namespace LedgerBench

/-- A line holds the same record with one more space at its end. -/
theorem Record.read_concat_space {line : List Char} {c : Char} {r : Record}
    (hc : Json.Scanner.isSpace c = true) : read (line ++ [c]) = .ok r ↔ read line = .ok r := by
  have hform : ∀ text, read text = .ok r ↔ ∃ fields,
      Json.readDocument (.form form) text = .ok (.form fields) ∧ ofFields fields = some r := by
    intro text
    unfold read
    cases Json.readDocument (.form form) text with
    | error e => simp
    | ok d =>
      cases d with
      | value v => simp
      | form fields => cases h : ofFields fields <;> simp [h]
  rw [hform, hform]
  simp only [Json.readDocument_concat_space hc]

end LedgerBench
