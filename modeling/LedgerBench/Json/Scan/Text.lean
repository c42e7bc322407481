import LedgerBench.Json.Quoted

/-!
# Reading a JSON string one character at a time

The scan starts after the opening quotation mark. A `\u` escape is judged once four bytes have
followed it; the escapes of a surrogate pair stand for one character, and half a pair stands for
none. A string whose value nobody wants may hold half pairs.
-/

namespace LedgerBench.Json

/-- How far an escape has been read. -/
inductive EscapeScan where
  /-- Not inside an escape. -/
  | plain
  /-- A backslash has been read. -/
  | backslash
  /-- The beginning of a `\u` escape, and the first half of a surrogate pair before it. -/
  | hex (digits : List Char) (lead : Option Nat)
  /-- The first half of a surrogate pair has been read. -/
  | lead (unit : Nat)
  /-- The first half of a surrogate pair and a backslash have been read. -/
  | leadBackslash (unit : Nat)

/-- A string of which a part has been read. -/
structure TextScan where
  /-- The characters so far, last one first. -/
  characters : List Char
  /-- How far an escape has been read. -/
  escape : EscapeScan

namespace TextScan

/-- The scan after the opening quotation mark. -/
def start : TextScan := ⟨[], .plain⟩

/-- What one more character does to the scan of a string. -/
inductive Step where
  /-- The string goes on. -/
  | more (scan : TextScan)
  /-- The string has ended. -/
  | closed (value : String)
  /-- The character cannot stand here. -/
  | broken

/-- The scan goes on after a complete character. -/
def push (s : TextScan) (c : Char) : Step := .more ⟨c :: s.characters, .plain⟩

/-- The 16-bit unit that four hexadecimal digits write. -/
def unitOf? : List Char → Option Nat
  | [a, b, c, d] => do
    return 4096 * (← hexValue? a) + 256 * (← hexValue? b) + 16 * (← hexValue? c) + (← hexValue? d)
  | _ => none

/-- The unit opens a surrogate pair. -/
def isLead (unit : Nat) : Bool := 0xD800 ≤ unit && unit ≤ 0xDBFF

/-- The unit closes a surrogate pair. -/
def isTrail (unit : Nat) : Bool := 0xDC00 ≤ unit && unit ≤ 0xDFFF

/-- The character of a surrogate pair. -/
def pairChar (lead trail : Nat) : Char :=
  Char.ofNat (0x10000 + 0x400 * (lead - 0xD800) + (trail - 0xDC00))

/-- A complete `\u` escape; `wanted` tells whether the string's value is wanted. -/
def afterUnit (wanted : Bool) (s : TextScan) (unit : Nat) : Option Nat → Step
  | none =>
    if !wanted then .more ⟨s.characters, .plain⟩
    else if isTrail unit then .broken
    else if isLead unit then .more ⟨s.characters, .lead unit⟩
    else s.push (Char.ofNat unit)
  | some lead => if isTrail unit then s.push (pairChar lead unit) else .broken

/-- The number of bytes that characters take in UTF-8. -/
def byteCount (cs : List Char) : Nat := cs.foldl (fun n c => n + c.utf8Size) 0

/-- Reads one character. -/
def step (wanted : Bool) (s : TextScan) (c : Char) : Step :=
  match s.escape with
  | .plain =>
    if c = '"' then .closed (String.ofList s.characters.reverse)
    else if c = '\\' then .more ⟨s.characters, .backslash⟩
    else if c.toNat < 0x20 then .broken
    else s.push c
  | .backslash =>
    if c = 'u' then .more ⟨s.characters, .hex [] none⟩
    else match unescape? c with
      | some d => s.push d
      | none => .broken
  | .hex digits lead =>
    let digits := digits ++ [c]
    if byteCount digits < 4 then .more ⟨s.characters, .hex digits lead⟩
    else match unitOf? digits with
      | some unit => afterUnit wanted s unit lead
      | none => .broken
  | .lead unit => if c = '\\' then .more ⟨s.characters, .leadBackslash unit⟩ else .broken
  | .leadBackslash unit => if c = 'u' then .more ⟨s.characters, .hex [] (some unit)⟩ else .broken

end TextScan

end LedgerBench.Json
