import TxLifecycle.Scope.Basic

/-!
# Bindings and their events

A binding is one local variable while it holds one transaction handle. Reading the function
appends lifecycle events to it; the verdict is taken from those events.
-/

namespace TxLifecycle

/-- The call that produced a handle. -/
inductive AcquisitionKind where
  | begin
  | beginTx
  | beginTxx
  | beginx
  | mustBegin
  | mustBeginTx
  /-- A method that only the settings name. -/
  | custom
deriving DecidableEq, Repr

namespace AcquisitionKind

/-- The built-in acquisition methods. -/
def ofMethod? : String → Option AcquisitionKind
  | "Begin" => some .begin
  | "BeginTx" => some .beginTx
  | "BeginTxx" => some .beginTxx
  | "Beginx" => some .beginx
  | "MustBegin" => some .mustBegin
  | "MustBeginTx" => some .mustBeginTx
  | _ => none

/-- The call gives an error as its second result. The `Must` forms panic instead. -/
def returnsError : AcquisitionKind → Bool
  | .mustBegin | .mustBeginTx => false
  | _ => true

end AcquisitionKind

/-- How a call ends the function without a `return`. -/
inductive AbortKind where
  | fatal
  | panic
deriving DecidableEq, Repr

/-- What can happen to a transaction. -/
inductive EventKind where
  | directCommit
  | directRollback
  /-- A commit call that runs when the function ends. -/
  | deferredCommit
  /-- A rollback call that runs when the function ends. -/
  | deferredRollback
  /-- An abort while the transaction may be open. -/
  | fatalExit (kind : AbortKind)
  /-- The handle is shared with a goroutine. -/
  | goroutineCapture
  /-- A `return` while the transaction may be open. -/
  | earlyReturn
  /-- The variable receives a new handle while the old one may be open. -/
  | reassignment
  /-- A nested scope declares a new handle of the same name while this one may be open. -/
  | shadowing
deriving DecidableEq, Repr

namespace EventKind

def isCommit : EventKind → Bool
  | .directCommit | .deferredCommit => true
  | _ => false

/-- A rollback, at once or deferred. -/
def isRollback : EventKind → Bool
  | .directRollback | .deferredRollback => true
  | _ => false

/-- A commit or rollback that runs where it is written. -/
def isDirectFinalization : EventKind → Bool
  | .directCommit | .directRollback => true
  | _ => false

/-- A commit or rollback that runs when the function ends. -/
def isDeferred : EventKind → Bool
  | .deferredCommit | .deferredRollback => true
  | _ => false

end EventKind

/-- One thing that happened to a transaction. -/
structure Event where
  kind : EventKind
  span : Span
  /-- The scope of that statement; for a deferred call, the scope of the `defer` statement. -/
  scope : ScopeId
  /-- Loop bodies around and including the scope. -/
  loopDepth : Nat := 0
  /-- The statement stands in a function literal that is not deferred. -/
  inClosure : Bool := false
  /-- The result of a commit was assigned to the blank identifier. -/
  errorDiscarded : Bool := false
deriving DecidableEq, Repr

/-- A local variable while it holds one transaction handle. -/
structure Binding where
  id : BindingId
  name : String
  /-- The scope to which the variable belongs. -/
  home : ScopeId
  /-- The scope of the acquisition, or the scope around all acquisitions on sibling branches. -/
  acquiredIn : ScopeId
  /-- The statement of the first acquisition. -/
  acquisition : Span
  /-- The variable that received the acquisition's error. -/
  errVar : Option String := none
  /-- What happened, in the order of reading. -/
  events : List Event := []
  /-- The handle was returned or given to a helper that finishes it. -/
  escaped : Bool := false
  /-- Where the last store of the handle into a field ends. -/
  fieldStoreEnd : Option Nat := none
  /-- Where the last mention of the variable ends. -/
  lastMention : Nat
  /-- A later acquisition replaced this binding. -/
  retired : Bool := false
deriving DecidableEq, Repr

namespace Binding

/-- A binding for a new acquisition. -/
def new (id : BindingId) (name : String) (home acquiredIn : ScopeId) (acquisition : Span) :
    Binding :=
  { id, name, home, acquiredIn, acquisition, lastMention := acquisition.stop }

/-- An event of this kind was recorded. -/
def has (binding : Binding) (kind : EventKind) : Bool :=
  binding.events.any (·.kind == kind)

/-- A commit was recorded, at once or deferred. -/
def hasCommit (binding : Binding) : Bool :=
  binding.events.any (·.kind.isCommit)

/-- A rollback was recorded, at once or deferred. -/
def hasRollback (binding : Binding) : Bool :=
  binding.events.any (·.kind.isRollback)

/-- The handle is somebody else's to finish: it was returned, given to a helper, or stored in a
field and not mentioned after that store. -/
def isEscaped (binding : Binding) : Bool :=
  binding.escaped || binding.fieldStoreEnd.any (binding.lastMention ≤ ·)

def record (binding : Binding) (event : Event) : Binding :=
  { binding with events := binding.events ++ [event] }

/-- Note a mention of the variable that ends at `offset`. -/
def mention (binding : Binding) (offset : Nat) : Binding :=
  { binding with lastMention := max binding.lastMention offset }

end Binding

end TxLifecycle
