import LedgerBench.Event.Record
import LedgerBench.Text.Blank
import LedgerBench.Text.Lines

/-!
# Event logs

A log holds one record in each line. Lines of white space are skipped, but counted. A log with an
unreadable line has no entries at all.
-/

namespace LedgerBench

/-- A record and the line it stands in. -/
structure Entry where
  /-- The number of the line; the first line is line one. -/
  line : Nat
  /-- The record. -/
  record : Record

/-- An unreadable line of a log. -/
structure LineFault where
  /-- The number of the line. -/
  line : Nat
  /-- What is wrong with it. -/
  cause : JsonFault
deriving Repr, DecidableEq

/-- The text of an unreadable line's fault, without its cause. -/
def LineFault.message (e : LineFault) : String := s!"line {e.line}: invalid JSON event"

namespace Log

/-- Whether a line is skipped. -/
def isBlankLine (line : List Char) : Bool := line.all Text.isBlank

/-- The lines of a text that are not skipped, each with its number. -/
def numberedLines (text : List Char) : List (List Char × Nat) :=
  ((Text.lines text).zipIdx 1).filter fun line => !isBlankLine line.1

/-- The entry of a numbered line. -/
def readLine (line : List Char × Nat) : Except LineFault Entry :=
  match Record.read line.1 with
  | .ok record => .ok ⟨line.2, record⟩
  | .error cause => .error ⟨line.2, cause⟩

/-- The entries of a log; the first unreadable line is the fault. -/
def read (text : String) : Except LineFault (List Entry) :=
  (numberedLines text.toList).mapM readLine

end Log

end LedgerBench
