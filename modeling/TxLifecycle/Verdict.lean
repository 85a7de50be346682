import TxLifecycle.Violation
import TxLifecycle.Walk.Run

/-!
# Verdicts

At most one violation for every binding of a tracked function. The checks are tried in order and
the first that applies decides; a binding that was handed over is never reported.
-/

namespace TxLifecycle

namespace Binding

/-- Commits that run where they are written, outside function literals. -/
def directCommits (binding : Binding) : List Event :=
  binding.events.filter fun event => event.kind == .directCommit && !event.inClosure

/-- The event stands in more loops than the acquiring scope. -/
def crossesLoop (binding : Binding) (tree : ScopeTree) (event : Event) : Bool :=
  ((tree.get? binding.acquiredIn).map (·.loopDepth)).getD 0 < event.loopDepth

/-- The first commit in a loop that the transaction was not started in, where no commit outside
such loops follows it. -/
def commitInLoop (binding : Binding) (tree : ScopeTree) : Option Event :=
  match binding.directCommits.find? (binding.crossesLoop tree) with
  | none => none
  | some inLoop =>
    let committedAfter := binding.directCommits.any fun event =>
      inLoop.span.precedes event.span && !binding.crossesLoop tree event
    if committedAfter then none else some inLoop

/-- The construct takes an arm in every case, and each arm finalizes the transaction or never
falls through. -/
def coveredBy (binding : Binding) (tree : ScopeTree) (construct : Construct) : Bool :=
  construct.hasFallback && construct.arms.all (binding.armOk tree)

/-- The innermost construct between the event and the acquiring scope that can be passed without
finalizing the transaction. -/
def uncoveredAround (binding : Binding) (tree : ScopeTree) (event : Event) : Option Construct :=
  let arms := (tree.pathBelow event.scope binding.acquiredIn).filterMap fun id =>
    (tree.get? id).bind (·.armOf)
  (arms.filterMap tree.construct?).find? (!binding.coveredBy tree ·)

/-- The kind of defect for a commit on some arms of a construct only. -/
def branchKind : ConstructKind → ViolationKind
  | .conditional => .conditionalCommit
  | .switch => .commitInSwitch
  | .select => .commitInSelect

/-- A commit that only some arms of a branching statement reach. -/
def branchCommit (binding : Binding) (tree : ScopeTree) : Option (ViolationKind × Span) :=
  if binding.finalizes tree binding.acquiredIn then none
  else
    binding.directCommits.findSome? fun event =>
      (binding.uncoveredAround tree event).map fun construct =>
        let kind := branchKind construct.kind
        (kind, if kind.anchorsOnStatement then event.span else binding.acquisition)

/-- The first commit whose error is thrown away. -/
def discardedCommit (binding : Binding) : Option (ViolationKind × Span) :=
  (binding.events.find? fun event => event.kind == .directCommit && event.errorDiscarded).map
    fun event => (.commitErrorIgnored, event.span)

/-- What is wrong with a binding, and where; `none` if nothing is. -/
def verdict (binding : Binding) (tree : ScopeTree) : Option (ViolationKind × Span) :=
  if binding.isEscaped then none
  else if !binding.hasCommit && !binding.hasRollback then
    some (.noCommitRollback, binding.acquisition)
  else if binding.has .shadowing then some (.shadowedTransaction, binding.acquisition)
  else if binding.has .reassignment then some (.variableReassignment, binding.acquisition)
  else if binding.hasSafetyNet tree then
    if !binding.hasCommit then some (.noCommit, binding.acquisition) else binding.discardedCommit
  else if binding.has .goroutineCapture then some (.goroutineCapture, binding.acquisition)
  else if binding.has (.fatalExit .fatal) then some (.fatalWithoutDefer, binding.acquisition)
  else if binding.has (.fatalExit .panic) then some (.panicWithoutDefer, binding.acquisition)
  else
    match binding.commitInLoop tree with
    | some event => some (.commitInLoop, event.span)
    | none =>
      match binding.branchCommit tree with
      | some found => some found
      | none =>
        if !binding.hasRollback then some (.noRollback, binding.acquisition)
        else if !binding.hasCommit then some (.noCommit, binding.acquisition)
        else if binding.has .earlyReturn then some (.earlyReturn, binding.acquisition)
        else binding.discardedCommit

end Binding

/-- The violations of a tracked function, in the order of its bindings. -/
def Tracked.violations (function : String) (tracked : Tracked) : List Violation :=
  tracked.bindings.filterMap fun binding =>
    (binding.verdict tracked.scopes).map fun (kind, span) =>
      Violation.new function binding.name kind span

end TxLifecycle
