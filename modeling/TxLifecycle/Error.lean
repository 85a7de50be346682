import TxLifecycle.Scope.Basic

/-!
# Errors

Why a file or a run cannot be checked, with the text, the stable code and the advice that reports
show for each cause.
-/

namespace TxLifecycle

/-- Why a source text gives no syntax tree. -/
inductive ParseError where
  /-- The reader for a language cannot be set up. -/
  | parserInit (language reason : String)
  | invalidUtf8
  | syntaxTreeUnavailable
deriving DecidableEq, Repr

def ParseError.message : ParseError → String
  | .parserInit language reason => s!"Failed to initialize {language} parser: {reason}"
  | .invalidUtf8 => "Invalid UTF-8 in source file"
  | .syntaxTreeUnavailable => "tree-sitter produced no syntax tree"

def AnalysisError.message : AnalysisError → String
  | .scopeUnderflow => "scope stack underflow: attempted to pop the function scope"
  | .unknownScope index => s!"scope index {index} is not present in the scope arena"
  | .stepLimitExceeded limit => s!"step limit of {limit} statements exceeded"
  | .nestingLimitExceeded limit => s!"nesting deeper than {limit} levels"

/-- Why a file or a run cannot be checked. -/
inductive CheckError where
  | fileRead (path reason : String)
  | parse (path : String) (cause : ParseError)
  /-- The analysis of a function fails for a reason other than a limit. -/
  | analysis (path function : String) (cause : AnalysisError)
  /-- A path to be checked does not exist. -/
  | pathNotFound (path : String)
  | config (reason : String)
  | general (text : String)
deriving DecidableEq, Repr

namespace CheckError

/-- An error with a text put in front of its own. -/
def withContext (context reason : String) : CheckError :=
  .general s!"{context}: {reason}"

def message : CheckError → String
  | .fileRead path reason => s!"Failed to read file '{path}': {reason}"
  | .parse path cause => s!"Failed to parse Go file '{path}': {cause.message}"
  | .analysis path function cause =>
    s!"Internal analyzer error in function '{function}' of '{path}': {cause.message}"
  | .pathNotFound path => s!"Path '{path}' does not exist"
  | .config reason => s!"Invalid configuration: {reason}"
  | .general text => text

/-- The code by which reports name the cause. -/
def code : CheckError → String
  | .fileRead _ _ => "FILE_READ_ERROR"
  | .parse _ _ => "PARSE_ERROR"
  | .analysis _ _ _ => "INTERNAL_ANALYSIS_ERROR"
  | .pathNotFound _ => "PATH_NOT_FOUND"
  | .config _ => "CONFIG_ERROR"
  | .general _ => "GENERAL_ERROR"

/-- What a user can do about the error. -/
def suggestions : CheckError → List String
  | .fileRead _ _ =>
    ["Check that the file exists and you have read permissions",
     "Ensure the file is not locked by another process"]
  | .parse _ _ =>
    ["Check that the file is valid UTF-8 Go source",
     "Run 'gofmt -l' on the file to locate syntax problems"]
  | .analysis _ _ _ =>
    ["This is a bug in txguard, please report it with the offending function",
     "Add the file to .txguardignore to unblock the run"]
  | .pathNotFound _ => ["Check the path passed to 'txguard check'"]
  | .config _ =>
    ["Run 'txguard config' to inspect the effective settings",
     "Run 'txguard init --force' to regenerate .txguard/settings.toml"]
  | .general _ => []

end CheckError

end TxLifecycle
