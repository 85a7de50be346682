import TxLifecycle.Concrete.Lowering
import TxLifecycle.Files.Discovery
import TxLifecycle.Host
import TxLifecycle.Report.Basic
import TxLifecycle.Settings.Basic
import TxLifecycle.Source.Lines

/-!
# Checking files

Checking a single file and checking all sources below several paths. A file that cannot be read or
parsed is a failure of that file; a failure inside the analysis ends the run.
-/

namespace TxLifecycle

structure FileFindings where
  functions : Nat := 0
  diagnostics : List Diagnostic := []
deriving Repr, Inhabited

def AnalysisConfig.checkContent (config : AnalysisConfig) (path : String) (content : ByteArray) :
    Except CheckError FileFindings :=
  match String.fromUTF8? content with
  | none => .error (.parse path .invalidUtf8)
  | some text =>
    match config.checkFile (SourceFile.ofText config.limits.maxDepth text) with
    | .error failure => .error (.analysis path failure.function failure.cause)
    | .ok report =>
      let lines := LineIndex.ofString text
      .ok
        { functions := report.functions
          diagnostics := report.violations.map fun v => ⟨path, lines.range v.span, v⟩ }

namespace Host

/-- Check the file that a path names. -/
def checkFile (host : Host) (config : AnalysisConfig) (path : String) :
    Except CheckError FileFindings :=
  match host.files.read host.cwd path with
  | .error e => .error (.fileRead path e.message)
  | .ok content => config.checkContent path content

/-- Drop every path that names the same place as the one before it. -/
def withoutRepeats : List String → List String
  | [] => []
  | [path] => [path]
  | a :: b :: rest =>
    if Path.same a b then withoutRepeats (a :: rest) else a :: withoutRepeats (b :: rest)
termination_by paths => paths.length

/-- The sources below several paths, in order and without repetition. -/
def sourceFiles (host : Host) (settings : Settings) (paths : List String) : List String :=
  let filter : SourceFilter :=
    { skipTests := settings.analysis.skipTestFiles
      patterns := RuleSet.ofPatterns settings.ignorePatterns }
  let found := paths.flatMap (host.files.sources host.cwd filter)
  withoutRepeats (found.mergeSort fun a b => Path.compare a b != .gt)

/-- What has been found so far in a run. -/
structure Findings where
  functions : Nat := 0
  sink : Sink := {}

/-- Take in the outcome of one file. -/
def Findings.add (findings : Findings) (path : String) :
    Except CheckError FileFindings → Except CheckError Findings
  | .ok checked =>
    .ok ⟨findings.functions + checked.functions, findings.sink.extend checked.diagnostics⟩
  | .error (.analysis file function cause) => .error (.analysis file function cause)
  | .error e => .ok { findings with sink := findings.sink.fail (FileFailure.ofError path e) }

/-- Check all sources below several paths, each of which has to exist. -/
def checkPaths (host : Host) (settings : Settings) (paths : List String) :
    Except CheckError CheckReport := do
  if let some missing := paths.find? (!host.pathExists ·) then
    throw (.pathNotFound missing)
  let files := host.sourceFiles settings paths
  let findings ← files.foldlM
    (fun findings path => findings.add path (host.checkFile settings.analysis path))
    ({} : Findings)
  return {
    filesChecked := files.length
    functionsChecked := findings.functions
    diagnostics := findings.sink.sortedDiagnostics
    failures := findings.sink.sortedFailures }

end Host

end TxLifecycle
