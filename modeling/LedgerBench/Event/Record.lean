import LedgerBench.Json.Scanner

/-!
# Event records

A record is one line of an event log: its kind and label, and fields whose types matter only to
those who use them.
-/

namespace LedgerBench

/-- One line of an event log. -/
structure Record where
  /-- The kind of record. -/
  kind : String
  /-- The label, which tells together with the kind what has happened. -/
  label : String
  /-- When it happened, for an event. -/
  timestamp : Option Json
  /-- How long it took in microseconds, for a measured time. -/
  duration : Option Json
  /-- What else there is to say. -/
  payload : Json

namespace Record

/-- The fields of a record in JSON. -/
def form : Json.Form :=
  [⟨"k", true⟩, ⟨"l", true⟩, ⟨"ts", false⟩, ⟨"t_in_us", false⟩, ⟨"v", false⟩]

/-- A field in which `null` says nothing. -/
def present : Option Json → Option Json
  | some .null => none
  | field => field

/-- The record with the given fields. -/
def ofFields : List (Option Json) → Option Record
  | [some (.text kind), some (.text label), timestamp, duration, payload] =>
    some ⟨kind, label, present timestamp, present duration, payload.getD .null⟩
  | _ => none

/-- Reads a record. -/
def read (text : List Char) : Except JsonFault Record :=
  match Json.readDocument (.form form) text with
  | .ok (.form fields) =>
    match ofFields fields with
    | some r => .ok r
    | none => .error .mistyped
  | .ok (.value _) => .error .mistyped
  | .error e => .error e

end Record

end LedgerBench
