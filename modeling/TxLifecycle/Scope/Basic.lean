import TxLifecycle.Source.Span

/-!
# Scopes

The parts from which a function's scope tree is made: scopes, the branching constructs whose arms
are sibling scopes, and the records that `defer` statements leave in a scope. Scopes, constructs
and bindings are named by their index in the order of creation.
-/

namespace TxLifecycle

/-- Index of a scope in its tree; the function's own scope is zero. -/
abbrev ScopeId := Nat

/-- Index of a branching construct in its tree. -/
abbrev ConstructId := Nat

/-- Index of a binding in the table of its function. -/
abbrev BindingId := Nat

inductive AnalysisError where
  /-- The function's own scope was to be left. -/
  | scopeUnderflow
  /-- A scope that the tree does not hold was asked for. -/
  | unknownScope (index : Nat)
  /-- The function has more statements than the limit. -/
  | stepLimitExceeded (limit : Nat)
  /-- The function nests more deeply than the limit. -/
  | nestingLimitExceeded (limit : Nat)
deriving DecidableEq, Repr

/-- An error that no function can cause, as opposed to a limit that it exceeds. -/
def AnalysisError.isInternal : AnalysisError → Bool
  | .scopeUnderflow | .unknownScope _ => true
  | .stepLimitExceeded _ | .nestingLimitExceeded _ => false

inductive ScopeKind where
  | function
  | block
  | ifBranch
  | elseBranch
  | switchCase
  | selectCase
  | loopBody
  | closure
  | goroutine
deriving DecidableEq, Repr

/-- Code in such a scope runs when a function value is called, not where it is written. -/
def ScopeKind.isClosure : ScopeKind → Bool
  | .closure | .goroutine => true
  | _ => false

inductive ConstructKind where
  | conditional
  | switch
  | select
deriving DecidableEq, Repr

/-- The kind of scope that a clause of the construct opens. -/
def ConstructKind.clauseKind : ConstructKind → ScopeKind
  | .select => .selectCase
  | .conditional | .switch => .switchCase

/-- A branching statement whose arms are sibling scopes. -/
structure Construct where
  kind : ConstructKind
  /-- The scope in which the statement stands. -/
  owner : ScopeId
  arms : List ScopeId := []
  /-- One arm is always taken: there is an `else` or a `default`. -/
  hasFallback : Bool
  span : Span
deriving DecidableEq, Repr

/-- What one `defer` statement takes care of. -/
structure DeferRecord where
  /-- Bindings that the deferred call rolls back, each of them once. -/
  rollbacks : List BindingId := []
deriving DecidableEq, Repr

namespace DeferRecord

/-- The deferred call rolls the binding back. -/
def rollsBack (record : DeferRecord) (binding : BindingId) : Bool :=
  record.rollbacks.contains binding

/-- Note that the deferred call rolls the binding back. -/
def note (record : DeferRecord) (binding : BindingId) : DeferRecord :=
  if record.rollsBack binding then record
  else { record with rollbacks := record.rollbacks ++ [binding] }

end DeferRecord

structure Scope where
  /-- The scope around it; absent for the function's own scope only. -/
  parent : Option ScopeId := none
  kind : ScopeKind
  /-- Loop bodies around and including it. -/
  loopDepth : Nat := 0
  /-- The `defer` statements that stand directly in it, in source order. -/
  defers : List DeferRecord := []
  /-- The scopes opened directly in it, in source order. -/
  children : List ScopeId := []
  /-- The construct of which it is an arm. -/
  armOf : Option ConstructId := none
  /-- Plain locals and parameters declared in it, without repetition. -/
  declared : List String := []
  /-- A `return` or an abort stands directly in it, so control never falls out of its end. -/
  terminated : Bool := false
deriving DecidableEq, Repr

namespace Scope

def declare (scope : Scope) (name : String) : Scope :=
  if scope.declared.contains name then scope
  else { scope with declared := scope.declared ++ [name] }

/-- Some `defer` statement of the scope rolls the binding back. -/
def rollsBack (scope : Scope) (binding : BindingId) : Bool :=
  scope.defers.any (·.rollsBack binding)

/-- Note a rollback on the latest `defer` statement; nothing happens where there is none. -/
def noteRollback (scope : Scope) (binding : BindingId) : Scope :=
  { scope with defers := scope.defers.modify (scope.defers.length - 1) (·.note binding) }

end Scope

end TxLifecycle
