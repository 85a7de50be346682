import TxLifecycle.Binding.Basic
import TxLifecycle.Syntax.Basic
import TxLifecycle.Text.Blank

/-!
# Recognizers

The names by which calls are recognized: those that start, commit or roll back a transaction,
those that abort the function, and the helpers that take a handle over.
-/

namespace TxLifecycle

structure Recognizers where
  /-- Methods that start a transaction, on top of the built-in ones. -/
  acquireMethods : List String := []
  commitMethods : List String := ["Commit"]
  rollbackMethods : List String := ["Rollback", "RollbackUnlessCommitted"]
  /-- Dotted names of functions that end the process or the goroutine. -/
  fatalFunctions : List String :=
    ["log.Fatal", "log.Fatalf", "log.Fatalln", "os.Exit", "runtime.Goexit"]
  /-- Dotted names of functions that panic. -/
  panicFunctions : List String := ["panic", "log.Panic", "log.Panicf", "log.Panicln"]
  /-- Names of helpers that take a handle over and run a callback with it. -/
  callbackHelpers : List String :=
    ["WithTx", "WithTransaction", "RunInTx", "RunInTransaction", "InTx", "Transact"]
deriving DecidableEq, Repr, Inhabited

namespace Recognizers

def isCommit (names : Recognizers) (method : String) : Bool :=
  names.commitMethods.contains method

def isRollback (names : Recognizers) (method : String) : Bool :=
  names.rollbackMethods.contains method

/-- A transaction can be started on such an expression: a name other than the blank one, a chain
of selections that starts at a name, or a call. -/
def startsOn : Expr → Bool
  | .ident name _ => name != "_"
  | .selector operand field span => (Expr.selector operand field span).qualifiedName.isSome
  | .call _ _ _ => true
  | _ => false

/-- How the expression starts a transaction, if it does. -/
def acquisition (names : Recognizers) (e : Expr) : Option AcquisitionKind :=
  match e.methodCall with
  | none => none
  | some (receiver, method) =>
    if startsOn receiver then
      match AcquisitionKind.ofMethod? method with
      | some kind => some kind
      | none => if names.acquireMethods.contains method then some .custom else none
    else none

/-- The function called by an aborting call is one of the configured names. -/
def abortByName (names : Recognizers) (name : String) : Option AbortKind :=
  if names.fatalFunctions.contains name then some .fatal
  else if names.panicFunctions.contains name then some .panic
  else none

/-- The field name of a selection starts with `Fatal`. -/
def selectsFatal : Expr → Bool
  | .selector _ field _ => "Fatal".toList.isPrefixOf field.toList
  | _ => false

/-- How the call aborts the function, if it does. -/
def abortKind (names : Recognizers) : Expr → Option AbortKind
  | .call func _ _ =>
    match func.qualifiedName.bind names.abortByName with
    | some kind => some kind
    | none => if selectsFatal func then some .fatal else none
  | _ => none

/-- The last name of the called function. -/
def calleeName : Expr → Option String
  | .ident name _ => some name
  | .selector _ field _ => some field
  | _ => none

/-- The type is written with a name that ends in `Tx`. -/
def isTxType (type : String) : Bool :=
  "Tx".toList.isSuffixOf (Text.trimEnd type.toList)

/-- The expression is a function literal with a transaction parameter. -/
def isTxCallback : Expr → Bool
  | .funcLit params _ _ => params.any (isTxType ·.type)
  | _ => false

/-- The call takes over the handles that it is given: it has a configured name, or one of its
arguments is a function literal with a transaction parameter. -/
def isCallbackHelper (names : Recognizers) : Expr → Bool
  | .call func args _ =>
    (calleeName func).any names.callbackHelpers.contains || args.any isTxCallback
  | _ => false

end Recognizers

/-- The variable that receives the error of an acquisition: the second target, where the call
gives an error and that target is a name other than the blank one. -/
def errorTarget (targets : List Expr) (kind : AcquisitionKind) : Option String :=
  if kind.returnsError then
    (targets[1]?.bind Expr.asIdent).filter (· != "_")
  else none

end TxLifecycle
