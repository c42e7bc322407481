import LedgerBench.Fault
import LedgerBench.Ledger.Notice
import LedgerBench.Ledger.Session

/-!
# Replaying streams into a session

All logs are read before the first record is applied. Then the streams are replayed one after the
other, each in the order of its lines, up to the first record that cannot be used. Which records
pass, and what is noticed about them, follows from the stream alone; the session only collects the
effects.
-/

namespace LedgerBench

/-- A log that has been read. -/
structure Stream where
  /-- Where it comes from. -/
  source : Source
  /-- Its entries in the order of the lines. -/
  entries : List Entry

/-- A log as it is found: its text, or why it cannot be read. -/
structure Input where
  /-- Where it comes from. -/
  source : Source
  /-- Its text. -/
  text : Except FileFault String

/-- The log of a source among files. -/
def Source.fetch (files : String → Except FileFault String) (source : Source) : Input :=
  ⟨source, files source.path⟩

/-- Reads a log. -/
def Input.load (i : Input) : Except Fault Stream :=
  match i.text with
  | .error cause => .error (.unreadable i.source.path cause)
  | .ok text =>
    match Log.read text with
    | .error cause => .error (.badLine i.source.path cause)
    | .ok entries => .ok ⟨i.source, entries⟩

/-- The verdicts on the entries of a stream, up to the first one that cannot be used. -/
structure Judged where
  /-- The entries that can be used, each with its verdict. -/
  passed : List (Entry × Verdict)
  /-- The line of the first entry that cannot be used, and why. -/
  stop : Option (Nat × RecordFault)

namespace Judged

/-- Puts an entry in front of entries that have been judged. -/
def cons (role : Role) (entry : Entry) (rest : Judged) : Judged :=
  match entry.record.judge role with
  | .ok verdict => ⟨(entry, verdict) :: rest.passed, rest.stop⟩
  | .error cause => ⟨[], some (entry.line, cause)⟩

/-- Judges the entries of a stream with the given role. -/
def ofEntries (role : Role) (entries : List Entry) : Judged := entries.foldr (cons role) ⟨[], none⟩

/-- Judges a stream. -/
def ofStream (stream : Stream) : Judged := ofEntries stream.source.role stream.entries

/-- The effects of the entries that passed. -/
def effects (j : Judged) : List Effect :=
  j.passed.filterMap fun p =>
    match p.2 with
    | .applied effect => some effect
    | _ => none

/-- How many entries got which verdict. -/
def tally (j : Judged) : Tally := j.passed.foldl (fun t p => t.add p.2) {}

/-- The notices about entries that were passed over. -/
def notices (j : Judged) (source : Source) : List Notice :=
  j.passed.filterMap fun p => Notice.ofVerdict? source p.1 p.2

end Judged

/-- What a replay leaves behind. -/
structure Replay (α : Type) where
  /-- The session with all effects up to the end or the first fault. -/
  session : Session
  /-- The notices in order. -/
  notices : List Notice
  /-- The result, or what stopped the replay. -/
  outcome : Except Fault α

namespace Session

/-- Replays one stream. -/
def replay (s : Session) (stream : Stream) : Replay Tally :=
  let judged := Judged.ofStream stream
  { session := s.applyAll judged.effects
    notices := judged.notices stream.source
    outcome :=
      match judged.stop with
      | none => .ok judged.tally
      | some (line, cause) => .error (.badRecord stream.source.path line cause) }

/-- Replays streams one after the other. -/
def replayAll (s : Session) : List Stream → Replay Unit
  | [] => ⟨s, [], .ok ()⟩
  | stream :: rest =>
    let one := s.replay stream
    match one.outcome with
    | .error fault => ⟨one.session, one.notices, .error fault⟩
    | .ok tally =>
      let more := one.session.replayAll rest
      { more with notices := one.notices ++ .processed stream.source tally :: more.notices }

/-- Reads all logs and then replays them. -/
def absorb (s : Session) (inputs : List Input) : Replay Unit :=
  match inputs.mapM Input.load with
  | .error fault => ⟨s, [], .error fault⟩
  | .ok streams => s.replayAll streams

end Session

end LedgerBench
