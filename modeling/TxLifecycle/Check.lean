import TxLifecycle.Verdict

/-!
# Checking a source file

Every function of a file is walked and judged on its own. A function that exceeds a limit is
skipped; any other failure ends the check of the file.
-/

namespace TxLifecycle

structure AnalysisConfig where
  /-- The names by which calls are recognized. -/
  names : Recognizers := {}
  /-- The limits under which a function is analysed. -/
  limits : Limits := {}
  /-- Files of tests are not checked at all. -/
  skipTestFiles : Bool := false
deriving DecidableEq, Repr, Inhabited

/-- The violations of one function. -/
def AnalysisConfig.checkFunction (config : AnalysisConfig) (unit : FunctionUnit) :
    Except AnalysisError (List Violation) :=
  (unit.track config.limits config.names).map (·.violations unit.name)

structure FileReport where
  functions : Nat := 0
  /-- Violations in the order of functions and bindings. -/
  violations : List Violation := []
  /-- Functions that were skipped because they exceed a limit. -/
  skipped : List String := []
deriving DecidableEq, Repr, Inhabited

/-- A failure inside the analysis of one function. -/
structure FunctionFailure where
  function : String
  cause : AnalysisError
deriving DecidableEq, Repr

/-- Add the outcome of one function to the report of its file. -/
def FileReport.add (report : FileReport) (unit : FunctionUnit) :
    Except AnalysisError (List Violation) → Except FunctionFailure FileReport
  | .ok violations => .ok { report with violations := report.violations ++ violations }
  | .error e =>
    if e.isInternal then .error ⟨unit.name, e⟩
    else .ok { report with skipped := report.skipped ++ [unit.name] }

/-- Check the functions of a file in declaration order. -/
def AnalysisConfig.checkFile (config : AnalysisConfig) (file : SourceFile) :
    Except FunctionFailure FileReport :=
  file.scan.foldlM (fun report unit => report.add unit (config.checkFunction unit))
    { functions := file.scan.length }

end TxLifecycle
