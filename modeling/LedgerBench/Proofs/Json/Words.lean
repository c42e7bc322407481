import Mathlib.Algebra.Ring.Int.Defs
import Mathlib.Algebra.Ring.Nat
import LedgerBench.Proofs.Event.Tells

/-!
# Integers fit machine words

An integer is kept exactly only if it fits a signed or an unsigned word of 64 bits. So in every
document that is read, each integer lies between `-2^63` and `2^64 - 1`, however deep it stands
(`fitsWords_readDocument`); in particular a height that a record gives fits an unsigned word
(`Record.lt_of_height`).

The digits of a number are gathered in a word as long as they fit (`JsonNumber.gather_lt`). Whatever
else the scanner does, it moves values that are complete: into the innermost open array or object,
and with this into the next one. So the property is kept of the values in all frames, character by
character (`fitsWords_step`).
-/

namespace LedgerBench

namespace JsonNumber

/-- An integer fits a signed or an unsigned word; a double is no integer. -/
def FitsWord : JsonNumber → Prop
  | integer n => -2 ^ 63 ≤ n ∧ n < 2 ^ 64
  | float _ => True

/-- Digits are gathered as long as they fit a word. -/
theorem gather_lt {word : Nat} (digits : List Nat) (h : word < 2 ^ 64) :
    (gather word digits).1 < 2 ^ 64 := by
  induction digits generalizing word with
  | nil => exact h
  | cons d rest ih =>
    unfold gather
    split
    · rename_i hfits
      exact ih hfits
    · exact h

/-- A number that has been written fits a word, or is kept as a double. -/
theorem fitsWord_ofWritten {w : Written} {n : JsonNumber} (h : ofWritten w = some n) :
    n.FitsWord := by
  have hword := gather_lt w.whole (Nat.two_pow_pos 64)
  unfold ofWritten at h
  generalize gather 0 w.whole = gathered at h hword
  obtain ⟨word, taken⟩ := gathered
  dsimp only at h hword
  split at h
  · cases h
    exact ⟨by omega, by omega⟩
  · split at h
    · -- the word is negated, and so bounded by a signed one
      rename_i hnegative
      simp only [Bool.and_eq_true, decide_eq_true_eq] at hnegative
      have hle : word ≤ 2 ^ 63 := hnegative.2
      cases h
      exact ⟨by omega, by omega⟩
    · obtain ⟨x, -, rfl⟩ := Option.map_eq_some_iff.mp h
      trivial

end JsonNumber

namespace Json

/-- Every integer in a value fits a word. -/
inductive FitsWords : Json → Prop where
  /-- There is none in the value `null`. -/
  | null : FitsWords .null
  /-- Nor in a truth value. -/
  | bool (b : Bool) : FitsWords (.bool b)
  /-- Nor in a string. -/
  | text (s : String) : FitsWords (.text s)
  /-- A number that is an integer fits. -/
  | number {n : JsonNumber} (h : n.FitsWord) : FitsWords (.number n)
  /-- Those of the items fit. -/
  | array {items : List Json} (h : ∀ v ∈ items, FitsWords v) : FitsWords (.array items)
  /-- Those of the members fit. -/
  | object {members : List (String × Json)} (h : ∀ m ∈ members, FitsWords m.2) :
    FitsWords (.object members)

/-- The values of an object in which every integer fits are such values. -/
theorem FitsWords.get? {v value : Json} {key : String} (hv : v.FitsWords)
    (h : v.get? key = some value) : value.FitsWords := by
  cases hv with
  | object hmembers =>
    obtain ⟨m, hfind, rfl⟩ := Option.map_eq_some_iff.mp h
    exact hmembers m (List.mem_reverse.mp (List.mem_of_find?_eq_some hfind))
  | _ => cases h

/-- Every integer in a document fits a word. -/
def Document.FitsWords : Document → Prop
  | value v => v.FitsWords
  | form fields => ∀ v, some v ∈ fields → v.FitsWords

/-- Every integer in an open array or object fits a word. -/
def Frame.FitsWords : Frame → Prop
  | array items => ∀ v ∈ items, v.FitsWords
  | object members _ => ∀ m ∈ members, m.2.FitsWords
  | fields filled _ => ∀ v, some v ∈ filled → v.FitsWords
  | fieldArray filled => ∀ v ∈ filled, v.FitsWords
  | skippedArray | skippedObject => True

/-- Every integer in a value that is being completed fits a word. -/
def Focus.FitsWords : Focus → Prop
  | word _ v => v.FitsWords
  | done d => d.FitsWords
  | _ => True

namespace Scanner

/-- Every integer that has been read fits a word. -/
structure FitsWords (s : Scanner) : Prop where
  /-- Those of a value that is being completed do. -/
  focus : s.focus.FitsWords
  /-- Those in the open arrays and objects do. -/
  frames : ∀ f ∈ s.frames, f.FitsWords

variable {goal : Goal} {frames : List Frame} {s s' : Scanner} {c : Char}

/-- A value goes where it belongs with its integers. -/
theorem fitsWords_deliver {v : Json} (hv : v.FitsWords) (hframes : ∀ f ∈ frames, f.FitsWords)
    (h : deliver goal v frames = .ok s') : s'.FitsWords := by
  unfold deliver at h
  split at h
  · split at h <;> cases h
    exact ⟨hv, hframes⟩
  -- the value is added to the innermost frame, or dropped
  all_goals obtain ⟨hframe, hbelow⟩ := List.forall_mem_cons.mp hframes
  · cases h
    exact ⟨trivial, List.forall_mem_cons.mpr ⟨List.forall_mem_cons.mpr ⟨hv, hframe⟩, hbelow⟩⟩
  · cases h
    exact ⟨trivial, List.forall_mem_cons.mpr ⟨List.forall_mem_cons.mpr ⟨hv, hframe⟩, hbelow⟩⟩
  · cases h
    exact ⟨trivial, hframes⟩
  · cases h
    exact ⟨trivial, hframes⟩
  · cases h
    exact ⟨trivial, hframes⟩
  · split at h <;> cases h
    refine ⟨trivial, List.forall_mem_cons.mpr ⟨fun v' hv' => ?_, hbelow⟩⟩
    rcases List.mem_or_eq_of_mem_set hv' with hold | hnew
    · exact hframe v' hold
    · cases hnew
      exact hv
  · split at h <;> cases h
    exact ⟨trivial, List.forall_mem_cons.mpr ⟨List.forall_mem_cons.mpr ⟨hv, hframe⟩, hbelow⟩⟩

/-- A form is closed with the integers of its fields. -/
theorem fitsWords_closeForm {filled : List (Option Json)}
    (hfilled : ∀ v, some v ∈ filled → v.FitsWords) (h : closeForm goal filled = .ok s') :
    s'.FitsWords := by
  unfold closeForm at h
  split at h <;> cases h
  exact ⟨hfilled, List.forall_mem_nil _⟩

/-- An array is closed with the integers of its items. -/
theorem fitsWords_closeArray (hframes : ∀ f ∈ frames, f.FitsWords)
    (h : closeArray goal frames = .ok s') : s'.FitsWords := by
  unfold closeArray at h
  split at h
  · obtain ⟨hitems, hbelow⟩ := List.forall_mem_cons.mp hframes
    exact fitsWords_deliver (.array fun v hv => hitems v (List.mem_reverse.mp hv)) hbelow h
  · exact fitsWords_deliver .null (List.forall_mem_cons.mp hframes).2 h
  · -- the fields that were not reached have no value
    have hfields := (List.forall_mem_cons.mp hframes).1
    refine fitsWords_closeForm (fun v hv => hfields v ?_) h
    rcases List.mem_append.mp hv with hv | hv
    · simpa using hv
    · cases (List.mem_replicate.mp hv).2
  · cases h

/-- An object is closed with the integers of its members. -/
theorem fitsWords_closeObject (hframes : ∀ f ∈ frames, f.FitsWords)
    (h : closeObject goal frames = .ok s') : s'.FitsWords := by
  unfold closeObject at h
  split at h
  · obtain ⟨hmembers, hbelow⟩ := List.forall_mem_cons.mp hframes
    exact fitsWords_deliver (.object fun m hm => hmembers m (List.mem_reverse.mp hm)) hbelow h
  · exact fitsWords_deliver .null (List.forall_mem_cons.mp hframes).2 h
  · exact fitsWords_closeForm (List.forall_mem_cons.mp hframes).1 h
  · cases h

/-- A complete key is kept with the members before it. -/
theorem fitsWords_named {key : String} (hframes : ∀ f ∈ frames, f.FitsWords)
    (h : named goal key frames = .ok s') : s'.FitsWords := by
  unfold named at h
  split at h
  · cases h
    obtain ⟨hmembers, hbelow⟩ := List.forall_mem_cons.mp hframes
    exact ⟨trivial, List.forall_mem_cons.mpr ⟨hmembers, hbelow⟩⟩
  · cases h
    exact ⟨trivial, hframes⟩
  · obtain ⟨hfields, hbelow⟩ := List.forall_mem_cons.mp hframes
    split at h
    · split at h <;> cases h
      exact ⟨trivial, List.forall_mem_cons.mpr ⟨hfields, hbelow⟩⟩
    · cases h
      exact ⟨trivial, List.forall_mem_cons.mpr ⟨hfields, hbelow⟩⟩
  · cases h

/-- An array that is begun has no integers yet. -/
theorem fitsWords_openArray (hframes : ∀ f ∈ frames, f.FitsWords)
    (h : openArray goal frames = .ok s') : s'.FitsWords := by
  unfold openArray at h
  split at h
  · split at h <;> cases h
    exact ⟨trivial, List.forall_mem_cons.mpr ⟨List.forall_mem_nil _, hframes⟩⟩
  · cases h
    exact ⟨trivial, List.forall_mem_cons.mpr ⟨trivial, hframes⟩⟩
  · cases h
  · cases h
    exact ⟨trivial, List.forall_mem_cons.mpr ⟨List.forall_mem_nil _, hframes⟩⟩

/-- Nor has an object. -/
theorem fitsWords_openObject (hframes : ∀ f ∈ frames, f.FitsWords)
    (h : openObject goal frames = .ok s') : s'.FitsWords := by
  unfold openObject at h
  split at h
  · split at h <;> cases h
    exact ⟨trivial, List.forall_mem_cons.mpr ⟨List.forall_mem_nil _, hframes⟩⟩
  · cases h
    exact ⟨trivial, List.forall_mem_cons.mpr ⟨trivial, hframes⟩⟩
  · cases h
  · cases h
    refine ⟨trivial, List.forall_mem_cons.mpr ⟨fun v hv => ?_, hframes⟩⟩
    cases (List.mem_replicate.mp hv).2

/-- A number that has ended fits a word if it is an integer. -/
theorem fitsWords_endNumber {scan : NumberScan} (hframes : ∀ f ∈ frames, f.FitsWords)
    (h : endNumber goal frames scan = .ok s') : s'.FitsWords := by
  unfold endNumber at h
  split at h
  · exact fitsWords_deliver .null hframes h
  · split at h
    · rename_i n hn
      obtain ⟨w, -, hw⟩ := Option.bind_eq_some_iff.mp hn
      exact fitsWords_deliver (.number (JsonNumber.fitsWord_ofWritten hw)) hframes h
    · cases h

/-- A comma leaves the frames as they are. -/
theorem fitsWords_comma (hframes : ∀ f ∈ frames, f.FitsWords) (h : comma goal frames = .ok s') :
    s'.FitsWords := by
  unfold comma at h
  split at h
  all_goals first | cases h | split at h <;> cases h
  all_goals exact ⟨trivial, hframes⟩

/-- After a complete value nothing but complete values is moved. -/
theorem fitsWords_stepNext (hs : s.FitsWords) (h : stepNext goal s c = .ok s') :
    s'.FitsWords := by
  unfold stepNext at h
  split at h
  · cases h
    exact hs
  · split at h
    · split at h
      · exact fitsWords_comma hs.frames h
      · split at h
        · exact fitsWords_closeArray hs.frames h
        · split at h
          · exact fitsWords_closeObject hs.frames h
          · cases h
    · cases h

/-- No constant is an integer. -/
theorem fitsWords_constant {rest : List Char} {v : Json} (h : constant? c = some (rest, v)) :
    v.FitsWords := by
  unfold constant? at h
  split at h <;> cases h <;> constructor

/-- Where a value begins, there is no integer yet. -/
theorem fitsWords_stepValue {opened : Bool} (hframes : ∀ f ∈ frames, f.FitsWords)
    (h : stepValue goal opened frames c = .ok s') : s'.FitsWords := by
  unfold stepValue at h
  split at h
  · cases h
    exact ⟨trivial, hframes⟩
  split at h
  · cases h
    exact ⟨trivial, hframes⟩
  split at h
  · exact fitsWords_openArray hframes h
  split at h
  · exact fitsWords_openObject hframes h
  split at h
  · exact fitsWords_closeArray hframes h
  split at h
  · rename_i hconstant
    cases h
    exact ⟨fitsWords_constant hconstant, hframes⟩
  split at h <;> cases h
  exact ⟨trivial, hframes⟩

/-- A key begins, or an object ends. -/
theorem fitsWords_stepKey {opened : Bool} (hframes : ∀ f ∈ frames, f.FitsWords)
    (h : stepKey goal opened frames c = .ok s') : s'.FitsWords := by
  unfold stepKey at h
  split at h
  · cases h
    exact ⟨trivial, hframes⟩
  split at h
  · cases h
    exact ⟨trivial, hframes⟩
  split at h
  · exact fitsWords_closeObject hframes h
  · cases h

/-- A character leaves only integers that fit words. -/
theorem fitsWords_step (hs : s.FitsWords) (h : step goal s c = .ok s') : s'.FitsWords := by
  obtain ⟨focus, frames⟩ := s
  have hframes := hs.frames
  unfold step at h
  cases focus with
  | value opened => exact fitsWords_stepValue hframes h
  | key opened => exact fitsWords_stepKey hframes h
  | colon =>
    dsimp only at h
    split at h
    · cases h
      exact hs
    · split at h <;> cases h
      exact ⟨trivial, hframes⟩
  | next => exact fitsWords_stepNext hs h
  | done result => exact fitsWords_stepNext hs h
  | word rest v =>
    have hv : v.FitsWords := hs.focus
    dsimp only at h
    unfold stepWord at h
    split at h
    · cases h
    · -- the last character of the name completes the value
      split at h
      · exact fitsWords_deliver hv hframes h
      · cases h
    · split at h <;> cases h
      exact ⟨hv, hframes⟩
  | text isKey scan =>
    dsimp only at h
    split at h
    · cases h
      exact ⟨trivial, hframes⟩
    · cases h
    · -- the string is complete: a key, or a value
      split at h
      · exact fitsWords_named hframes h
      · exact fitsWords_deliver (.text _) hframes h
  | number scan =>
    dsimp only at h
    split at h
    · cases h
      exact ⟨trivial, hframes⟩
    · cases h
    · -- the number is complete, and the character follows it
      obtain ⟨ended, hended, hnext⟩ := bind_eq_ok.mp h
      exact fitsWords_stepNext (fitsWords_endNumber hframes hended) hnext

/-- All states that are reached hold only integers that fit words. -/
theorem fitsWords_run {text : List Char} (hs : s.FitsWords) (h : run goal s text = .ok s') :
    s'.FitsWords :=
  run_preserves (fun _ _ _ hs hstep => fitsWords_step hs hstep) hs h

/-- A text that ends in such a state holds a document with such integers. -/
theorem fitsWords_finish {d : Document} (hs : s.FitsWords) (h : s.finish goal = .ok d) :
    d.FitsWords := by
  obtain ⟨focus, frames⟩ := s
  unfold finish at h
  cases focus with
  | done result =>
    cases h
    exact hs.focus
  | number scan =>
    dsimp only at h
    split at h
    · cases h
    · split at h
      · rename_i hended
        cases h
        exact (fitsWords_endNumber hs.frames hended).focus
      · cases h
      · cases h
  | _ => cases h

end Scanner

/-- Every integer in a document that is read fits a word. -/
theorem fitsWords_readDocument {goal : Goal} {text : List Char} {d : Document}
    (h : readDocument goal text = .ok d) : d.FitsWords := by
  unfold readDocument at h
  split at h
  · rename_i s hrun
    have hstart : Scanner.start.FitsWords := ⟨trivial, fun f hf => by cases hf⟩
    exact Scanner.fitsWords_finish (Scanner.fitsWords_run hstart hrun) h
  · cases h

end Json

/-- Every integer in the payload of a record that is read fits a word. -/
theorem Record.fitsWords_payload {line : List Char} {r : Record} (h : read line = .ok r) :
    r.payload.FitsWords := by
  unfold read at h
  split at h
  · rename_i fields hread
    have hfields := Json.fitsWords_readDocument hread
    split at h
    · rename_i record hrecord
      cases h
      unfold ofFields at hrecord
      split at hrecord
      · rename_i payload
        cases hrecord
        cases payload with
        | none => exact .null
        | some v => exact hfields v (by simp)
      · cases hrecord
    · cases h
  · cases h
  · cases h

/-- A height in a record that is read fits an unsigned word. -/
theorem Record.lt_of_height {line : List Char} {r : Record} {n : Nat} (h : read line = .ok r)
    (hheight : r.payload.get? "height" = some (.number (.integer n))) : n < 2 ^ 64 := by
  cases (fitsWords_payload h).get? hheight with
  | number hfits =>
    have hlt : (n : Int) < 2 ^ 64 := hfits.2
    omega

end LedgerBench
