import TxLifecycle.Check
import TxLifecycle.Report.Json
import TxLifecycle.Toml.Printer

/-!
# Settings

What a user can set, with the defaults, and the two ways to show it: as a settings file and as a
structured value.
-/

namespace TxLifecycle

structure Settings where
  version : Nat := 1
  /-- The directory of the workspace, if there is one. -/
  workspaceRoot : Option String := none
  debug : Bool := false
  analysis : AnalysisConfig := {}
  format : String := "text"
  /-- The least severity that fails a run. -/
  failOn : Severity := .high
  threads : Nat
  /-- Patterns of files that are not checked. -/
  ignorePatterns : List String := ["vendor/**", "*.pb.go"]
deriving DecidableEq, Repr

namespace Settings

/-- The settings as a settings file. -/
def toToml (s : Settings) : String :=
  let root := match s.workspaceRoot with
    | some root => s!"workspace_root = {Toml.writeText root}\n"
    | none => ""
  let names := s.analysis.names
  let lists := [("acquire_methods", names.acquireMethods), ("commit_methods", names.commitMethods),
    ("rollback_methods", names.rollbackMethods), ("fatal_functions", names.fatalFunctions),
    ("panic_functions", names.panicFunctions), ("callback_helpers", names.callbackHelpers)]
  let list (entry : String × List String) : String :=
    entry.1 ++ " = " ++ Toml.writeTexts entry.2 ++ "\n"
  s!"version = {s.version}\n" ++ root
    ++ s!"debug = {Toml.writeBool s.debug}\n\n[analysis]\n"
    ++ String.join (lists.map list)
    ++ s!"max_steps_per_function = {s.analysis.limits.maxSteps}\n"
    ++ s!"max_nesting_depth = {s.analysis.limits.maxDepth}\n"
    ++ s!"skip_test_files = {Toml.writeBool s.analysis.skipTestFiles}\n\n[output]\n"
    ++ s!"format = {Toml.writeText s.format}\n"
    ++ s!"fail_on = {Toml.writeText s.failOn.text}\n\n[indexing]\n"
    ++ s!"parallel_threads = {s.threads}\n"
    ++ list ("ignore_patterns", s.ignorePatterns)

/-- The settings as a structured value. -/
def toJson (s : Settings) : JsonValue :=
  let root := match s.workspaceRoot with
    | some root => [("workspace_root", JsonValue.text root)]
    | none => []
  let texts (items : List String) : JsonValue := .list (items.map .text)
  let names := s.analysis.names
  let analysis := JsonValue.object
    [("acquire_methods", texts names.acquireMethods),
     ("commit_methods", texts names.commitMethods),
     ("rollback_methods", texts names.rollbackMethods),
     ("fatal_functions", texts names.fatalFunctions),
     ("panic_functions", texts names.panicFunctions),
     ("callback_helpers", texts names.callbackHelpers),
     ("max_steps_per_function", .nat s.analysis.limits.maxSteps),
     ("max_nesting_depth", .nat s.analysis.limits.maxDepth),
     ("skip_test_files", .bool s.analysis.skipTestFiles)]
  .object ([("version", .nat s.version)] ++ root
    ++ [("debug", .bool s.debug), ("analysis", analysis),
      ("output", .object [("format", .text s.format), ("fail_on", .text s.failOn.text)]),
      ("indexing", .object [("parallel_threads", .nat s.threads),
        ("ignore_patterns", texts s.ignorePatterns)])])

end Settings

end TxLifecycle
