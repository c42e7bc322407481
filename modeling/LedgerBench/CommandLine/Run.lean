import LedgerBench.Analysis
import LedgerBench.CommandLine.Options
import LedgerBench.Report.Table

/-!
# Carrying out a command line

The analysis of the logs that the options name. The report is printed as a table before it is
written to a file.
-/

namespace LedgerBench

/-- What the program needs from the system that it runs on. -/
structure Host (m : Type → Type) where
  /-- Whether a path names anything. -/
  contains : String → m Bool
  /-- The text of a file. -/
  read : String → m (Except FileFault String)
  /-- Writes a text to a file: first the path, then the text. -/
  write : String → String → m (Except FileFault Unit)
  /-- Prints a text. -/
  print : String → m Unit
  /-- Passes on a notice. -/
  notify : Notice → m Unit

/-- How a run ends. -/
inductive Ending where
  /-- All has been done. -/
  | done
  /-- The analysis was stopped. -/
  | failed (fault : Fault)
  /-- The command line was not carried out. -/
  | refused (fault : UsageFault)

namespace Ending

/-- The exit code: one for a fault, two for a wrong use. -/
def code : Ending → Nat
  | done => 0
  | failed _ => 1
  | refused .helpWanted => 0
  | refused _ => 2

/-- The text that tells what stopped the analysis, with the line feed at its end. -/
def errorText? : Ending → Option String
  | failed fault => some ("Error: " ++ fault.headline ++ "\n")
  | _ => none

end Ending

variable {m : Type → Type} [Monad m]

/-- Finds the log of a source. -/
def Host.input (host : Host m) (source : Source) : m Input := do
  return ⟨source, ← host.read source.path⟩

/-- Writes the report to a file. -/
def Host.save (host : Host m) (path : String) (report : Report) : m Ending := do
  match ← host.write path report.indentedJson with
  | .ok () =>
    host.notify (.written path)
    return .done
  | .error cause => return .failed (.unwritable path cause)

/-- Analyses the logs and shows the report. -/
def Options.run (o : Options) (host : Host m) : m Ending := do
  if !(← host.contains o.client) then return .failed (.noClient o.client)
  let analysis := analyze (← o.sources.mapM host.input)
  analysis.notices.forM host.notify
  match analysis.outcome with
  | .error fault => return .failed fault
  | .ok report =>
    -- the names of an analysis are plain, so its report has a table
    report.table?.forM host.print
    match o.output with
    | none => return .done
    | some path => host.save path report

/-- Carries out a command line. -/
def runCommand (host : Host m) (args : List String) : m Ending :=
  match Options.read args with
  | .error fault => return .refused fault
  | .ok o => o.run host

end LedgerBench
