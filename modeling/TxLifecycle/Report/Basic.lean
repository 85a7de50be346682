import TxLifecycle.Error
import TxLifecycle.Files.Path
import TxLifecycle.Violation

/-!
# Reports

What a run over many files gives: violations placed in their files, the files that could not be
checked, and totals. The files of a run are checked in any order, so their results are collected
in a `Sink` and sorted in the end.
-/

namespace TxLifecycle

structure Diagnostic where
  file : String
  range : Range
  violation : Violation
deriving DecidableEq, Repr, Inhabited

/-- A file that could not be checked. -/
structure FileFailure where
  file : String
  code : String
  message : String
deriving DecidableEq, Repr, Inhabited

/-- The failure that an error means for a file. -/
def FileFailure.ofError (file : String) (error : CheckError) : FileFailure :=
  ⟨file, error.code, error.message⟩

/-- The order of diagnostics: by file, then by position, then by name of the variable. -/
def Diagnostic.compare (a b : Diagnostic) : Ordering :=
  ((Path.compare a.file b.file).then
    (Ord.compare a.violation.span.start b.violation.span.start)).then
    (Ord.compare a.violation.variableName b.violation.variableName)

structure Sink where
  /-- Diagnostics in the order of delivery. -/
  diagnostics : List Diagnostic := []
  failures : List FileFailure := []
deriving DecidableEq, Repr, Inhabited

namespace Sink

/-- Deliver the diagnostics of one file. -/
def extend (sink : Sink) (diagnostics : List Diagnostic) : Sink :=
  { sink with diagnostics := sink.diagnostics ++ diagnostics }

/-- Deliver the failure of one file. -/
def fail (sink : Sink) (failure : FileFailure) : Sink :=
  { sink with failures := sink.failures ++ [failure] }

/-- The diagnostics in order; those that the order does not tell apart stay as delivered. -/
def sortedDiagnostics (sink : Sink) : List Diagnostic :=
  sink.diagnostics.mergeSort fun a b => a.compare b != .gt

/-- The failures in the order of their files. -/
def sortedFailures (sink : Sink) : List FileFailure :=
  sink.failures.mergeSort fun a b => Path.compare a.file b.file != .gt

end Sink

structure CheckReport where
  filesChecked : Nat := 0
  functionsChecked : Nat := 0
  diagnostics : List Diagnostic := []
  /-- What could not be checked, in order. -/
  failures : List FileFailure := []
  elapsedMs : Nat := 0
deriving DecidableEq, Repr, Inhabited

namespace CheckReport

/-- Number of diagnostics that are at least as severe as the threshold. -/
def countAtLeast (report : CheckReport) (threshold : Severity) : Nat :=
  report.diagnostics.countP (·.violation.severity.atLeast threshold)

/-- Number of diagnostics of a severity. -/
def countOf (report : CheckReport) (severity : Severity) : Nat :=
  report.diagnostics.countP (·.violation.severity == severity)

/-- Number of diagnostics of a kind. -/
def countKind (report : CheckReport) (kind : ViolationKind) : Nat :=
  report.diagnostics.countP (·.violation.kind == kind)

end CheckReport

inductive ExitCode where
  | success
  | generalError
  /-- Violations at or above the threshold. -/
  | blocking
  | parseError
  | ioError
  | configError
deriving DecidableEq, Repr, Inhabited

namespace ExitCode

/-- The number that the process ends with. -/
def value : ExitCode → Nat
  | .success => 0
  | .generalError => 1
  | .blocking => 2
  | .parseError => 4
  | .ioError => 5
  | .configError => 6

def description : ExitCode → String
  | .success => "Success"
  | .generalError => "General error"
  | .blocking => "Blocking violations found"
  | .parseError => "Parse error"
  | .ioError => "I/O error"
  | .configError => "Configuration error"

/-- The name of the code in structured output. -/
def name : ExitCode → String
  | .success => "OK"
  | .generalError => "GENERAL_ERROR"
  | .blocking => "VIOLATIONS"
  | .parseError => "PARSE_ERROR"
  | .ioError => "IO_ERROR"
  | .configError => "CONFIG_ERROR"

/-- The status in structured output. -/
def status : ExitCode → String
  | .success => "success"
  | .blocking => "violations"
  | _ => "error"

/-- The code of a finished run. Violations win over failures, and the first failure decides
between the kinds of failure. -/
def ofReport (report : CheckReport) (failOn : Severity) : ExitCode :=
  if 0 < report.countAtLeast failOn then .blocking
  else
    match report.failures with
    | [] => .success
    | failure :: _ => if failure.code == "FILE_READ_ERROR" then .ioError else .parseError

/-- The code of a run that ends with an error. -/
def ofError : CheckError → ExitCode
  | .parse _ _ => .parseError
  | .fileRead _ _ | .pathNotFound _ => .ioError
  | .config _ => .configError
  | .analysis _ _ _ | .general _ => .generalError

end ExitCode

end TxLifecycle
