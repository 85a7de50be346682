import TxLifecycle.Report.Json
import TxLifecycle.Report.Table

/-!
# Output

What the program writes for a report, a value or an error, as text for people or as a structured
value for tools, and the code with which it then ends.
-/

namespace TxLifecycle

inductive OutputFormat where
  | text
  | json
deriving DecidableEq, Repr, Inhabited

namespace OutputFormat

/-- The format with the given name, capitals and small letters taken alike. -/
def ofText (name : String) : Except String OutputFormat :=
  match name.toLower with
  | "text" => .ok .text
  | "json" => .ok .json
  | other => .error s!"unknown output format '{other}', expected text or json"

/-- The format of a run: the flag wins over the configured name, and an unknown name means text. -/
def resolve (json : Bool) (configured : String) : OutputFormat :=
  if json then .json else (ofText configured).toOption.getD .text

end OutputFormat

/-- What a run writes and how it ends. -/
structure Output where
  stdout : String := ""
  stderr : String := ""
  code : ExitCode := .success
deriving DecidableEq, Repr, Inhabited

/-- The version that structured output names. -/
def programVersion : String := "0.1.0"

def successLine (text : String) : String := "✓ " ++ text

def errorLine (text : String) : String := "✗ " ++ text

def warningLine (text : String) : String := "⚠ " ++ text

def linesOf (lines : List String) : String :=
  String.join (lines.map (· ++ "\n"))

/-- The line for one diagnostic, with columns counted from one. -/
def Diagnostic.line (d : Diagnostic) : String :=
  let v := d.violation
  s!"{d.file}:{d.range.first.line}:{d.range.first.column + 1}: {v.severity.text} {v.kind.text}: "
    ++ s!"{v.message} ({v.function})"

/-- Lines for diagnostics, with an empty line wherever the file changes. -/
def diagnosticLines : List Diagnostic → List String
  | [] => []
  | [d] => [d.line]
  | d :: e :: rest =>
    d.line :: (if Path.same d.file e.file then [] else [""]) ++ diagnosticLines (e :: rest)

/-- The range as a structured value. -/
def Range.toJson (range : Range) : JsonValue :=
  .object [("start_line", .nat range.first.line), ("start_column", .nat range.first.column),
    ("end_line", .nat range.last.line), ("end_column", .nat range.last.column)]

/-- The diagnostic as a structured value, with the fields of its violation among its own. -/
def Diagnostic.toJson (d : Diagnostic) : JsonValue :=
  let v := d.violation
  .object [("file", .text d.file), ("range", d.range.toJson), ("function", .text v.function),
    ("variable_name", .text v.variableName), ("kind", .text v.kind.text),
    ("severity", .text v.severity.text), ("message", .text v.message),
    ("pos", .nat v.span.start), ("end", .nat v.span.stop)]

/-- The failure as a structured value. -/
def FileFailure.toJson (f : FileFailure) : JsonValue :=
  .object [("file", .text f.file), ("code", .text f.code), ("message", .text f.message)]

/-- The report as a structured value. -/
def CheckReport.toJson (report : CheckReport) : JsonValue :=
  .object [("files_checked", .nat report.filesChecked),
    ("functions_checked", .nat report.functionsChecked),
    ("diagnostics", .list (report.diagnostics.map Diagnostic.toJson)),
    ("failures", .list (report.failures.map FileFailure.toJson)),
    ("elapsed_ms", .nat report.elapsedMs)]

/-- The envelope around a structured value. -/
def envelope (code : ExitCode) (message : String) (data : JsonValue)
    (stamp : List (String × JsonValue)) : JsonValue :=
  .object ([("status", .text code.status), ("code", .text code.name), ("message", .text message),
    ("data", data), ("exit_code", .nat code.value)] ++ stamp)

def errorEnvelope (error : CheckError) : JsonValue :=
  .object [("status", .text "error"), ("code", .text error.code), ("message", .text error.message),
    ("error", .object [("suggestions", .list (error.suggestions.map .text))]),
    ("exit_code", .nat (ExitCode.ofError error).value)]

namespace Output

/-- The output of a finished run that violations from `failOn` on block. -/
def ofReport (format : OutputFormat) (timestamp : String) (failOn : Severity)
    (report : CheckReport) : Output :=
  let code := ExitCode.ofReport report failOn
  match format with
  | .json =>
    let message := s!"{report.diagnostics.length} violations in {report.filesChecked} files"
    let stamp := JsonValue.object [("version", .text programVersion),
      ("timestamp", .text timestamp), ("execution_time_ms", .nat report.elapsedMs)]
    let value := envelope code message report.toJson [("meta", stamp)]
    { stdout := linesOf [value.render], code }
  | .text =>
    let verdict :=
      if code = .blocking then
        errorLine s!"{report.countAtLeast failOn} violations at or above {failOn.text}"
      else if report.diagnostics.isEmpty then successLine "No transaction lifecycle violations"
      else successLine s!"No violations at or above {failOn.text}"
    let found := diagnosticLines report.diagnostics
      ++ if report.diagnostics.isEmpty then [] else [""]
    { stdout := linesOf (found ++ [report.summary, verdict])
      stderr := linesOf (report.failures.map fun f => warningLine s!"{f.file}: {f.message}")
      code }

/-- The output of a value: the value itself for tools, `text` for people. -/
def ofValue (format : OutputFormat) (value : JsonValue) (text : String) : Output :=
  match format with
  | .json =>
    let shown := envelope .success "Operation completed successfully" value []
    { stdout := linesOf [shown.render] }
  | .text => { stdout := linesOf [text] }

/-- The output of an error with the advice for it. -/
def ofError (format : OutputFormat) (error : CheckError) : Output :=
  let code := ExitCode.ofError error
  match format with
  | .json => { stderr := linesOf [(errorEnvelope error).render], code }
  | .text =>
    { stderr := linesOf (errorLine s!"Error: {error.message}"
        :: error.suggestions.map ("  Suggestion: " ++ ·))
      code }

/-- The output of a message for people; tools get none. -/
def ofMessage (format : OutputFormat) (message : String) : Output :=
  match format with
  | .json => {}
  | .text => { stdout := linesOf [message] }

end Output

end TxLifecycle
