import TxLifecycle.Settings.Load

/-!
# Setting up a workspace

The commented settings file and the ignore file that a new workspace starts with.
-/

namespace TxLifecycle

def fileOf (lines : List String) : String :=
  String.join (lines.map (· ++ "\n"))

/-- The settings file of a new workspace, with all defaults. -/
def settingsTemplate (threads : Nat) : String :=
  let limits : Limits := {}
  fileOf [
   "# txguard Configuration File",
   "",
   "# Version of the configuration schema",
   "version = 1",
   "",
   "# Verbose logging",
   "debug = false",
   "",
   "[analysis]",
   "# Extra methods that start a transaction (Begin, BeginTx, BeginTxx, Beginx,",
   "# MustBegin and MustBeginTx are always recognized)",
   "acquire_methods = []",
   "",
   "# Methods that finalize a transaction",
   "commit_methods = [\"Commit\"]",
   "rollback_methods = [\"Rollback\", \"RollbackUnlessCommitted\"]",
   "",
   "# Calls treated as process exit and as panic",
   "fatal_functions = [\"log.Fatal\", \"log.Fatalf\", \"log.Fatalln\", \"os.Exit\", "
     ++ "\"runtime.Goexit\"]",
   "panic_functions = [\"panic\", \"log.Panic\", \"log.Panicf\", \"log.Panicln\"]",
   "",
   "# Helpers that own the transaction they are given",
   "callback_helpers = [\"WithTx\", \"WithTransaction\", \"RunInTx\", "
     ++ "\"RunInTransaction\", \"InTx\", \"Transact\"]",
   "",
   "# Statements visited per function before the function is skipped",
   s!"max_steps_per_function = {limits.maxSteps}",
   "",
   "# Nested statements and expressions allowed before a function is skipped",
   s!"max_nesting_depth = {limits.maxDepth}",
   "",
   "# Skip *_test.go files",
   "skip_test_files = false",
   "",
   "[output]",
   "# \"text\" or \"json\"",
   "format = \"text\"",
   "",
   "# Lowest severity that fails the run: low, medium, high or critical",
   "fail_on = \"high\"",
   "",
   "[indexing]",
   "# Number of threads used for checking (default: CPU count)",
   s!"parallel_threads = {threads}",
   "",
   "# Additional exclusions (gitignore syntax)",
   "ignore_patterns = [\"vendor/**\", \"*.pb.go\"]"]

/-- The ignore file of a new workspace. -/
def ignoreTemplate : String :=
  fileOf [
   "# txguard ignore patterns (gitignore syntax)",
   "#",
   "# Files and directories listed here are never checked.",
   "",
   "# Dependencies",
   "vendor/",
   "",
   "# Generated code",
   "*.pb.go",
   "*_gen.go",
   "mock_*.go"]

/-- What setting up a workspace gives. -/
structure Setup where
  writes : List FileWrite := []
  /-- The path of the settings file, or why there is none. -/
  result : Except String String

/-- Set up a workspace in a directory. Files that are there already stay as they are, unless `force`
is given; a settings file that is there already is an error. -/
def Host.setUp (host : Host) (root : List String) (force : Bool) : Setup :=
  let directory := root ++ [settingsDirectory]
  let settings := directory ++ [settingsFile]
  let ignores := root ++ [".txguardignore"]
  if !force && (host.files.at? settings).isSome then
    { result := .error "Configuration file already exists. Use --force to overwrite" }
  else
    match host.checkDirectories directory, host.checkWrite settings with
    | .error e, _ | .ok (), .error e => { result := .error e.message }
    | .ok (), .ok () =>
      let first : FileWrite := ⟨settings, settingsTemplate host.processors⟩
      if !force && (host.files.at? ignores).isSome then
        { writes := [first], result := .ok (absolutePath settings) }
      else
        match host.checkWrite ignores with
        | .error e => { writes := [first], result := .error e.message }
        | .ok () =>
          { writes := [first, ⟨ignores, ignoreTemplate⟩], result := .ok (absolutePath settings) }

end TxLifecycle
