import TxLifecycle.Settings.Basic
import TxLifecycle.Settings.Layer

/-!
# Reading settings from layers

Values of the right kind become settings; what is not set has its default. The first value that does
not fit ends the reading with an error that says where it stands. Entries of tables are read in the
order of their keys.
-/

namespace TxLifecycle

inductive SettingsFault where
  | malformed
  | invalidType (found expected : String)
  | invalidValue (found expected : String)
  | unknownVariant (found : String) (expected : List String)
deriving DecidableEq, Repr

def SettingsFault.message : SettingsFault → String
  | .malformed => "TOML parse error"
  | .invalidType found expected => s!"invalid type: found {found}, expected {expected}"
  | .invalidValue found expected => s!"invalid value {found}, expected {expected}"
  | .unknownVariant found expected =>
    let names := ", ".intercalate (expected.map fun name => s!"`{name}`")
    s!"unknown variant: found `{found}`, expected `one of {names}`"

/-- A value that does not fit, and where it stands. -/
structure SettingsError where
  fault : SettingsFault
  /-- Keys and positions that lead to the value. -/
  path : List String := []
  origin : Origin := .file
deriving DecidableEq, Repr

namespace SettingsError

/-- The error as seen from a value around it. -/
def within (key : String) (error : SettingsError) : SettingsError :=
  { error with path := key :: error.path }

end SettingsError

/-- The outcome of reading a value. -/
abbrev Decoded (α : Type) := Except SettingsError α

def Decoded.check {α : Type} (decoded : Decoded α) : Decoded Unit :=
  decoded.map fun _ => ()

namespace Setting

/-- A value of another kind than the expected one. -/
def mismatch {α : Type} (value : Setting) (expected : String) : Decoded α :=
  .error { fault := .invalidType value.describe expected, origin := value.origin }

def asText (expected : String) : Setting → Decoded String
  | .text _ s => .ok s
  | other => other.mismatch expected

def asBool : Setting → Decoded Bool
  | .bool _ b => .ok b
  | other => other.mismatch "a boolean"

def asNat (bound : Nat) (expected : String) (value : Setting) : Decoded Nat :=
  let outOfRange : Decoded Nat :=
    .error { fault := .invalidValue value.describe expected, origin := value.origin }
  match value with
  | .unsigned _ n => if n < bound then .ok n else outOfRange
  | .signed _ (.ofNat n) => if n < bound then .ok n else outOfRange
  | .signed _ _ => outOfRange
  | other => other.mismatch expected

/-- Read the members of a list, the first of them at a position. -/
def asItems {α : Type} (decode : Setting → Decoded α) : (index : Nat) → List Setting →
    Decoded (List α)
  | _, [] => .ok []
  | index, v :: vs => do
    let a ← (decode v).mapError (·.within (toString index))
    let as ← asItems decode (index + 1) vs
    return a :: as

def asTexts : Setting → Decoded (List String)
  | .list _ items => asItems (asText "a string") 0 items
  | other => other.mismatch "a sequence"

/-- Read a severity. A table stands for the name that is its first key, which takes no value. -/
def asSeverity : Setting → Decoded Severity
  | .text origin name =>
    match Severity.all.find? (·.text == name) with
    | some severity => .ok severity
    | none => .error { fault := unknown name, origin }
  | .table origin entries =>
    match entries.mergeSort fun a b => a.1 ≤ b.1 with
    | [] => .error { fault := .invalidType "map" "enum", origin }
    | (name, value) :: _ =>
      if Severity.all.any (·.text == name) then
        (value.mismatch "unit").mapError (·.within name)
      else .error { fault := unknown name, path := [name], origin }
  | other => other.mismatch "enum Severity"
where
  unknown (name : String) : SettingsFault := .unknownVariant name (Severity.all.map (·.text))

/-- Fields of a group of settings: given by key in a table, or by position in a list. -/
structure Fields where
  /-- The field with a key and a position. -/
  find : (key : String) → (position : Nat) → Option (String × Setting)
  byPosition : Bool

def asFields (name : String) : Setting → Decoded Fields
  | .table _ entries => .ok ⟨fun key _ => (entries.lookup key).map fun v => (key, v), false⟩
  | .list _ items => .ok ⟨fun _ n => items[n]?.map fun v => (toString n, v), true⟩
  | other => other.mismatch name

def Fields.get {α : Type} (fields : Fields) (key : String) (position : Nat)
    (decode : Setting → Decoded α) (default : α) : Decoded α :=
  match fields.find key position with
  | some (step, value) => (decode value).mapError (·.within step)
  | none => .ok default

end Setting

open Setting

/-- One past the largest number of 64 bits. -/
def wordBound : Nat := UInt64.size

/-- Read the settings of the analysis. -/
def decodeAnalysis (value : Setting) : Decoded AnalysisConfig := do
  let fields ← value.asFields "struct AnalysisConfig"
  let d : AnalysisConfig := {}
  let word := asNat wordBound "usize"
  let acquire := fields.get "acquire_methods" 0 asTexts d.names.acquireMethods
  let commit := fields.get "commit_methods" 1 asTexts d.names.commitMethods
  let rollback := fields.get "rollback_methods" 2 asTexts d.names.rollbackMethods
  let fatal := fields.get "fatal_functions" 3 asTexts d.names.fatalFunctions
  let panics := fields.get "panic_functions" 4 asTexts d.names.panicFunctions
  let helpers := fields.get "callback_helpers" 5 asTexts d.names.callbackHelpers
  let steps := fields.get "max_steps_per_function" 6 word d.limits.maxSteps
  let depth := fields.get "max_nesting_depth" 7 word d.limits.maxDepth
  let skip := fields.get "skip_test_files" 8 asBool d.skipTestFiles
  if !fields.byPosition then
    [acquire.check, helpers.check, commit.check, fatal.check, depth.check, steps.check,
      panics.check, rollback.check, skip.check].forM id
  return {
    names :=
      { acquireMethods := ← acquire, commitMethods := ← commit, rollbackMethods := ← rollback
        fatalFunctions := ← fatal, panicFunctions := ← panics, callbackHelpers := ← helpers }
    limits := { maxSteps := ← steps, maxDepth := ← depth }
    skipTestFiles := ← skip }

/-- Read the settings of reports: the name of the format and the least severity that fails a run. -/
def decodeOutput (default : String × Severity) (value : Setting) :
    Decoded (String × Severity) := do
  let fields ← value.asFields "struct OutputConfig"
  let format := fields.get "format" 0 (asText "a string") default.1
  let failOn := fields.get "fail_on" 1 asSeverity default.2
  if fields.byPosition then
    let format ← format
    return (format, ← failOn)
  else
    let failOn ← failOn
    return (← format, failOn)

/-- Read the settings of the search for files: the number of threads and the patterns. A list that
is too short for patterns means none. -/
def decodeIndexing (default : Nat × List String) (value : Setting) :
    Decoded (Nat × List String) := do
  let fields ← value.asFields "struct IndexingConfig"
  let threads := fields.get "parallel_threads" 0 (asNat wordBound "usize") default.1
  if fields.byPosition then
    let threads ← threads
    return (threads, ← fields.get "ignore_patterns" 1 asTexts [])
  else
    let patterns ← fields.get "ignore_patterns" 1 asTexts default.2
    return (← threads, patterns)

def Settings.decode (defaults : Settings) (value : Setting) : Decoded Settings := do
  let fields ← value.asFields "struct Settings"
  let analysis ← fields.get "analysis" 0 decodeAnalysis defaults.analysis
  let debug ← fields.get "debug" 0 asBool defaults.debug
  let (threads, ignorePatterns) ← fields.get "indexing" 0
    (decodeIndexing (defaults.threads, defaults.ignorePatterns))
    (defaults.threads, defaults.ignorePatterns)
  let (format, failOn) ← fields.get "output" 0 (decodeOutput (defaults.format, defaults.failOn))
    (defaults.format, defaults.failOn)
  let version ← fields.get "version" 0 (asNat UInt32.size "u32") defaults.version
  let workspaceRoot ← fields.get "workspace_root" 0
    (fun v => some <$> v.asText "path string") defaults.workspaceRoot
  return { version, workspaceRoot, debug, analysis, format, failOn, threads, ignorePatterns }

end TxLifecycle
