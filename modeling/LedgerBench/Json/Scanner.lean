import LedgerBench.Json.Scan.Text
import LedgerBench.Json.Scan.Number

/-!
# Reading JSON

A text is read from left to right, one character at a time, so that the first problem met decides
what is wrong with it. The state is what the next character belongs to (`Focus`) and the arrays and
objects that are still open (`Frame`).

A text holds either any value or a *form*: an object whose fields have been laid down, some of them
to be strings. A form may also be written as an array of its fields in order. Fields that are not
laid down are skipped: their values have to be well formed, but their depth, the size of their
numbers and half surrogate pairs do not matter.

Main statement: reading a text in two parts is reading it whole (`run_append`).
-/

namespace LedgerBench

/-- Why a text cannot be read as JSON. -/
inductive JsonFault where
  /-- The text is no JSON. -/
  | malformed
  /-- The text is JSON so far, but a value is not of the kind laid down. -/
  | mistyped
  /-- The text ends inside a value. -/
  | truncated
deriving Repr, DecidableEq

namespace Json

/-- A field of a form. -/
structure Field where
  /-- The key of the field. -/
  name : String
  /-- Whether the field is required and a string. -/
  isText : Bool

/-- The fields of a form in the order of its array notation. -/
abbrev Form := List Field

/-- What a text holds. -/
inductive Goal where
  /-- A value of any kind. -/
  | value
  /-- A form. -/
  | form (f : Form)

/-- What has been read. -/
inductive Document where
  /-- A value. -/
  | value (v : Json)
  /-- The fields of a form, those that are missing as `none`. -/
  | form (fields : List (Option Json))

/-- An array or object that is still open. -/
inductive Frame where
  /-- An array, with the items so far, last one first. -/
  | array (items : List Json)
  /-- An object, with the members so far, last one first, and the key of the next one. -/
  | object (members : List (String × Json)) (key : String)
  /-- An array whose value nobody wants. -/
  | skippedArray
  /-- An object whose value nobody wants. -/
  | skippedObject
  /-- A form, with the fields so far and the place of the next one, if it is one of them. -/
  | fields (filled : List (Option Json)) (place : Option Nat)
  /-- A form in array notation, with the fields so far, last one first. -/
  | fieldArray (filled : List Json)

/-- What the next character belongs to. -/
inductive Focus where
  /-- The beginning of a value, or the end of an array that has just been opened. -/
  | value (opened : Bool)
  /-- The beginning of a key, or the end of an object that has just been opened. -/
  | key (opened : Bool)
  /-- The colon after a key. -/
  | colon
  /-- A comma, or the end of the array or object. -/
  | next
  /-- The rest of the name of a constant. -/
  | word (rest : List Char) (value : Json)
  /-- A number. -/
  | number (scan : NumberScan)
  /-- A string or a key. -/
  | text (isKey : Bool) (scan : TextScan)
  /-- The end of the text. -/
  | done (result : Document)

/-- A text of which a part has been read. -/
structure Scanner where
  /-- What the next character belongs to. -/
  focus : Focus
  /-- The arrays and objects that are open, innermost first. -/
  frames : List Frame

/-- What kind of value is read next. -/
inductive Want where
  /-- A value of any kind. -/
  | anything
  /-- A string. -/
  | string
  /-- A form. -/
  | form
  /-- A value that is skipped. -/
  | nothing
deriving DecidableEq

namespace Goal

/-- The fields that a goal lays down. -/
def fields : Goal → Form
  | value => []
  | form f => f

/-- What the whole text is to hold. -/
def want : Goal → Want
  | value => .anything
  | form _ => .form

/-- What is wanted for the field at a place. -/
def wantField (goal : Goal) (place : Nat) : Want :=
  match goal.fields[place]? with
  | some field => if field.isText then .string else .anything
  | none => .nothing

/-- What is wanted inside the open arrays and objects. -/
def wantInside (goal : Goal) : List Frame → Want
  | [] => goal.want
  | .array _ :: _ => .anything
  | .object _ _ :: _ => .anything
  | .skippedArray :: _ => .nothing
  | .skippedObject :: _ => .nothing
  | .fields _ (some place) :: _ => goal.wantField place
  | .fields _ none :: _ => .nothing
  | .fieldArray filled :: _ => goal.wantField filled.length

end Goal

/-- Whether a complete value is what was wanted. -/
def Want.admits : Want → Json → Bool
  | string, .text _ => true
  | string, _ => false
  | _, _ => true

namespace Scanner

/-- The scanner before the first character. -/
def start : Scanner := ⟨.value false, []⟩

/-- How many wanted arrays and objects may be open at once. -/
def depthLimit : Nat := 127

/-- White space between the parts of a JSON text. -/
def isSpace (c : Char) : Bool := c = ' ' || c = '\t' || c = '\n' || c = '\r'

/-- A complete value goes where it belongs. -/
def deliver (goal : Goal) (v : Json) : List Frame → Except JsonFault Scanner
  | [] =>
    match goal with
    | .value => .ok ⟨.done (.value v), []⟩
    | .form _ => .error .mistyped
  | .array items :: below => .ok ⟨.next, .array (v :: items) :: below⟩
  | .object members key :: below => .ok ⟨.next, .object ((key, v) :: members) key :: below⟩
  | .skippedArray :: below => .ok ⟨.next, .skippedArray :: below⟩
  | .skippedObject :: below => .ok ⟨.next, .skippedObject :: below⟩
  | .fields filled none :: below => .ok ⟨.next, .fields filled none :: below⟩
  | .fields filled (some place) :: below =>
    if (goal.wantField place).admits v then
      .ok ⟨.next, .fields (filled.set place (some v)) none :: below⟩
    else .error .mistyped
  | .fieldArray filled :: below =>
    if (goal.wantField filled.length).admits v then
      .ok ⟨.next, .fieldArray (v :: filled) :: below⟩
    else .error .mistyped

/-- A form is complete when none of its strings is missing. -/
def closeForm (goal : Goal) (filled : List (Option Json)) : Except JsonFault Scanner :=
  if (goal.fields.zip filled).all fun f => !f.1.isText || f.2.isSome then
    .ok ⟨.done (.form filled), []⟩
  else .error .mistyped

/-- The end of an array. -/
def closeArray (goal : Goal) : List Frame → Except JsonFault Scanner
  | .array items :: below => deliver goal (.array items.reverse) below
  | .skippedArray :: below => deliver goal .null below
  | .fieldArray filled :: _ =>
    -- the fields that were not reached are missing
    closeForm goal (filled.reverse.map some ++
      List.replicate (goal.fields.length - filled.length) none)
  | _ => .error .malformed

/-- The end of an object. -/
def closeObject (goal : Goal) : List Frame → Except JsonFault Scanner
  | .object members _ :: below => deliver goal (.object members.reverse) below
  | .skippedObject :: below => deliver goal .null below
  | .fields filled _ :: _ => closeForm goal filled
  | _ => .error .malformed

/-- The beginning of an array. -/
def openArray (goal : Goal) (frames : List Frame) : Except JsonFault Scanner :=
  match goal.wantInside frames with
  | .anything =>
    if frames.length < depthLimit then .ok ⟨.value true, .array [] :: frames⟩
    else .error .malformed
  | .nothing => .ok ⟨.value true, .skippedArray :: frames⟩
  | .string => .error .mistyped
  | .form => .ok ⟨.value true, .fieldArray [] :: frames⟩

/-- The beginning of an object. -/
def openObject (goal : Goal) (frames : List Frame) : Except JsonFault Scanner :=
  match goal.wantInside frames with
  | .anything =>
    if frames.length < depthLimit then .ok ⟨.key true, .object [] "" :: frames⟩
    else .error .malformed
  | .nothing => .ok ⟨.key true, .skippedObject :: frames⟩
  | .string => .error .mistyped
  | .form => .ok ⟨.key true, .fields (List.replicate goal.fields.length none) none :: frames⟩

/-- A comma. Nothing follows the last field of a form in array notation. -/
def comma (goal : Goal) (frames : List Frame) : Except JsonFault Scanner :=
  match frames with
  | .array _ :: _ | .skippedArray :: _ => .ok ⟨.value false, frames⟩
  | .object _ _ :: _ | .skippedObject :: _ | .fields _ _ :: _ => .ok ⟨.key false, frames⟩
  | .fieldArray filled :: _ =>
    if filled.length < goal.fields.length then .ok ⟨.value false, frames⟩ else .error .malformed
  | [] => .error .malformed

/-- A complete key. A field of a form must not be repeated. -/
def named (goal : Goal) (key : String) : List Frame → Except JsonFault Scanner
  | .object members _ :: below => .ok ⟨.colon, .object members key :: below⟩
  | .skippedObject :: below => .ok ⟨.colon, .skippedObject :: below⟩
  | .fields filled _ :: below =>
    match goal.fields.findIdx? fun f => f.name == key with
    | some place =>
      if (filled[place]?.join).isSome then .error .mistyped
      else .ok ⟨.colon, .fields filled (some place) :: below⟩
    | none => .ok ⟨.colon, .fields filled none :: below⟩
  | _ => .error .malformed

/-- The constant that starts with a character: the rest of its name, and its value. -/
def constant? : Char → Option (List Char × Json)
  | 'n' => some (['u', 'l', 'l'], .null)
  | 't' => some (['r', 'u', 'e'], .bool true)
  | 'f' => some (['a', 'l', 's', 'e'], .bool false)
  | _ => none

/-- A character where a value begins. -/
def stepValue (goal : Goal) (opened : Bool) (frames : List Frame) (c : Char) :
    Except JsonFault Scanner :=
  if isSpace c then .ok ⟨.value opened, frames⟩
  else if c = '"' then .ok ⟨.text false .start, frames⟩
  else if c = '[' then openArray goal frames
  else if c = '\x7b' then openObject goal frames
  else if c = ']' && opened then closeArray goal frames
  else match constant? c with
    | some (rest, v) => .ok ⟨.word rest v, frames⟩
    | none =>
      match NumberScan.start? c with
      | some scan => .ok ⟨.number scan, frames⟩
      | none => .error .malformed

/-- A character where a key begins. -/
def stepKey (goal : Goal) (opened : Bool) (frames : List Frame) (c : Char) :
    Except JsonFault Scanner :=
  if isSpace c then .ok ⟨.key opened, frames⟩
  else if c = '"' then .ok ⟨.text true .start, frames⟩
  else if c = '\x7d' && opened then closeObject goal frames
  else .error .malformed

/-- A character after a complete value. -/
def stepNext (goal : Goal) (s : Scanner) (c : Char) : Except JsonFault Scanner :=
  if isSpace c then .ok s
  else match s.focus with
    | .next =>
      if c = ',' then comma goal s.frames
      else if c = ']' then closeArray goal s.frames
      else if c = '\x7d' then closeObject goal s.frames
      else .error .malformed
    | _ => .error .malformed

/-- A complete number. The size of a number does not matter where it is skipped. -/
def endNumber (goal : Goal) (frames : List Frame) (scan : NumberScan) :
    Except JsonFault Scanner :=
  if goal.wantInside frames = .nothing then deliver goal .null frames
  else match scan.written?.bind JsonNumber.ofWritten with
    | some n => deliver goal (.number n) frames
    | none => .error .malformed

/-- A character of the name of a constant. -/
def stepWord (goal : Goal) (v : Json) (frames : List Frame) (c : Char) :
    List Char → Except JsonFault Scanner
  | [] => .error .malformed
  | [last] => if c = last then deliver goal v frames else .error .malformed
  | first :: rest => if c = first then .ok ⟨.word rest v, frames⟩ else .error .malformed

/-- Whether the value of a string matters. -/
def textWanted (goal : Goal) (isKey : Bool) (frames : List Frame) : Bool :=
  match isKey, frames with
  | true, .skippedObject :: _ => false
  | true, _ => true
  | false, _ => goal.wantInside frames ≠ .nothing

/-- Reads one character. -/
def step (goal : Goal) (s : Scanner) (c : Char) : Except JsonFault Scanner :=
  match s.focus with
  | .value opened => stepValue goal opened s.frames c
  | .key opened => stepKey goal opened s.frames c
  | .colon =>
    if isSpace c then .ok s
    else if c = ':' then .ok ⟨.value false, s.frames⟩
    else .error .malformed
  | .next => stepNext goal s c
  | .word rest v => stepWord goal v s.frames c rest
  | .number scan =>
    match scan.step c with
    | .more scan => .ok ⟨.number scan, s.frames⟩
    | .broken => .error .malformed
    | .ended => do
      -- the character belongs to what follows the number
      let s ← endNumber goal s.frames scan
      stepNext goal s c
  | .text isKey scan =>
    match scan.step (textWanted goal isKey s.frames) c with
    | .more scan => .ok ⟨.text isKey scan, s.frames⟩
    | .broken => .error .malformed
    | .closed t => if isKey then named goal t s.frames else deliver goal (.text t) s.frames
  | .done _ => stepNext goal s c

/-- Reads characters from left to right up to the first problem. -/
def run (goal : Goal) (s : Scanner) : List Char → Except JsonFault Scanner
  | [] => .ok s
  | c :: rest =>
    match step goal s c with
    | .ok s => run goal s rest
    | .error e => .error e

/-- The document if the text is complete. A number may end with the text; one that is skipped has to
be complete all the same. -/
def finish (goal : Goal) (s : Scanner) : Except JsonFault Document :=
  match s.focus with
  | .done d => .ok d
  | .number scan =>
    if scan.written?.isNone then
      .error (if goal.wantInside s.frames = .nothing then .malformed else .truncated)
    else match endNumber goal s.frames scan with
      | .ok ⟨.done d, _⟩ => .ok d
      | .ok _ => .error .truncated
      | .error e => .error e
  | _ => .error .truncated

/-- Reading a text in two parts is reading it whole. -/
theorem run_append (goal : Goal) (s : Scanner) (a b : List Char) :
    run goal s (a ++ b) = (run goal s a).bind fun s => run goal s b := by
  induction a generalizing s with
  | nil => rfl
  | cons c a ih =>
    simp only [List.cons_append, run]
    cases step goal s c with
    | error e => rfl
    | ok s => exact ih s

/-- What every step preserves holds of all states that are reached. -/
theorem run_preserves {goal : Goal} {holds : Scanner → Prop}
    (hstep : ∀ s c s', holds s → step goal s c = .ok s' → holds s') {s s' : Scanner}
    {text : List Char} (hs : holds s) (h : run goal s text = .ok s') : holds s' := by
  induction text generalizing s with
  | nil =>
    cases h
    exact hs
  | cons c text ih =>
    unfold run at h
    cases hnext : step goal s c with
    | error e =>
      rw [hnext] at h
      cases h
    | ok next =>
      rw [hnext] at h
      exact ih (hstep s c next hs hnext) h

end Scanner

/-- Reads a text that holds one document. -/
def readDocument (goal : Goal) (text : List Char) : Except JsonFault Document :=
  match Scanner.run goal .start text with
  | .ok s => s.finish goal
  | .error e => .error e

/-- Reads a text that holds one value. -/
def read (text : List Char) : Except JsonFault Json :=
  match readDocument .value text with
  | .ok (.value v) => .ok v
  | .ok (.form _) => .error .mistyped
  | .error e => .error e

end Json

end LedgerBench
