import TxLifecycle.Source.Span

/-!
# Violations

The kinds of defect, how severe each of them is, and the record that reports one.
-/

namespace TxLifecycle

/-- How severe a defect is, from the least to the most. -/
inductive Severity where
  | low
  | medium
  | high
  | critical
deriving DecidableEq, Repr, Inhabited

namespace Severity

/-- Every severity, from the least to the most. -/
def all : List Severity := [.low, .medium, .high, .critical]

def text : Severity → String
  | .low => "low"
  | .medium => "medium"
  | .high => "high"
  | .critical => "critical"

/-- Position in the order of severities. -/
def rank : Severity → Nat
  | .low => 0
  | .medium => 1
  | .high => 2
  | .critical => 3

/-- The first severity is at least as severe as the second. -/
def atLeast (severity threshold : Severity) : Bool :=
  threshold.rank ≤ severity.rank

/-- The severity with the given name, capitals and small letters taken alike. -/
def ofText (text : String) : Except String Severity :=
  match all.find? (·.text == text.toLower) with
  | some severity => .ok severity
  | none =>
    .error s!"unknown severity '{text.toLower}', expected one of: low, medium, high, critical"

end Severity

inductive ViolationKind where
  | noCommitRollback
  | noRollback
  | noCommit
  /-- A nested declaration of the same name while the handle may be open. -/
  | shadowedTransaction
  /-- A new handle in the variable while the old one may be open. -/
  | variableReassignment
  | goroutineCapture
  /-- The process exits while the handle may be open. -/
  | fatalWithoutDefer
  /-- A panic while the handle may be open. -/
  | panicWithoutDefer
  /-- A commit in a loop that the transaction was not started in. -/
  | commitInLoop
  /-- A commit in some clauses of a switch only. -/
  | commitInSwitch
  /-- A commit in some clauses of a select only. -/
  | commitInSelect
  /-- A commit on one branch of a conditional only. -/
  | conditionalCommit
  /-- A `return` while the handle may be open. -/
  | earlyReturn
  /-- The error of a commit is thrown away. -/
  | commitErrorIgnored
deriving DecidableEq, Repr, Inhabited

namespace ViolationKind

def all : List ViolationKind :=
  [.noCommitRollback, .noRollback, .noCommit, .shadowedTransaction, .variableReassignment,
   .goroutineCapture, .fatalWithoutDefer, .panicWithoutDefer, .commitInLoop, .commitInSwitch,
   .commitInSelect, .conditionalCommit, .earlyReturn, .commitErrorIgnored]

/-- The identifier by which reports name the kind. -/
def text : ViolationKind → String
  | .noCommitRollback => "no_commit_rollback"
  | .noRollback => "no_rollback"
  | .noCommit => "no_commit"
  | .shadowedTransaction => "shadowed_transaction"
  | .variableReassignment => "variable_reassignment"
  | .goroutineCapture => "goroutine_capture"
  | .fatalWithoutDefer => "fatal_without_defer"
  | .panicWithoutDefer => "panic_without_defer"
  | .commitInLoop => "commit_in_loop"
  | .commitInSwitch => "commit_in_switch"
  | .commitInSelect => "commit_in_select"
  | .conditionalCommit => "conditional_commit"
  | .earlyReturn => "early_return"
  | .commitErrorIgnored => "commit_error_ignored"

def severity : ViolationKind → Severity
  | .noCommitRollback => .critical
  | .noRollback | .shadowedTransaction | .variableReassignment | .goroutineCapture
  | .fatalWithoutDefer | .earlyReturn => .high
  | .noCommit | .panicWithoutDefer | .commitInLoop | .commitInSwitch | .commitInSelect
  | .conditionalCommit => .medium
  | .commitErrorIgnored => .low

/-- The report points at the offending statement and not at the acquisition. -/
def anchorsOnStatement : ViolationKind → Bool
  | .commitInLoop | .commitInSwitch | .commitInSelect | .commitErrorIgnored => true
  | _ => false

/-- The sentence that reports the kind for a variable. -/
def describe (kind : ViolationKind) (handle : String) : String :=
  match kind with
  | .noCommitRollback => s!"transaction '{handle}' is never committed or rolled back"
  | .noRollback =>
    s!"transaction '{handle}' is committed but never rolled back on failure paths"
  | .noCommit => s!"transaction '{handle}' is rolled back but never committed"
  | .shadowedTransaction =>
    s!"transaction '{handle}' is shadowed by a new transaction in a nested scope; "
      ++ "the outer handle may never be finalized"
  | .variableReassignment =>
    s!"transaction variable '{handle}' is reassigned before the previous transaction "
      ++ "is finalized"
  | .goroutineCapture =>
    s!"transaction '{handle}' is captured by a goroutine without a deferred rollback"
  | .fatalWithoutDefer =>
    s!"process exits while transaction '{handle}' is open and no rollback is deferred"
  | .panicWithoutDefer =>
    s!"panic while transaction '{handle}' is open and no rollback is deferred"
  | .commitInLoop =>
    s!"transaction '{handle}' is committed inside a loop it was not started in"
  | .commitInSwitch => s!"transaction '{handle}' is only committed in some switch cases"
  | .commitInSelect => s!"transaction '{handle}' is only committed in some select cases"
  | .conditionalCommit =>
    s!"transaction '{handle}' is only committed on one conditional branch"
  | .earlyReturn =>
    s!"function returns before transaction '{handle}' is committed or rolled back"
  | .commitErrorIgnored =>
    s!"error returned by committing transaction '{handle}' is discarded"

/-- The kind with the given identifier. -/
def ofText (text : String) : Except String ViolationKind :=
  match all.find? (·.text == text) with
  | some kind => .ok kind
  | none => .error s!"unknown violation kind '{text}'"

end ViolationKind

/-- One reported defect of one transaction. -/
structure Violation where
  function : String
  /-- Name of the variable that holds the handle. -/
  variableName : String
  kind : ViolationKind
  severity : Severity
  message : String
  /-- The place that the report points at. -/
  span : Span
deriving DecidableEq, Repr, Inhabited

/-- The report of a defect of the given kind. -/
def Violation.new (function variableName : String) (kind : ViolationKind) (span : Span) :
    Violation :=
  { function, variableName, kind, severity := kind.severity,
    message := kind.describe variableName, span }

end TxLifecycle
