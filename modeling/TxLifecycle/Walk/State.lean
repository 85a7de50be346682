import TxLifecycle.Binding.Coverage
import TxLifecycle.Walk.Action

/-!
# The state of a walk

What is known while a function is read: its scopes, its bindings, the statement that events point
at, and the surroundings of the code being read.

Everything that an opening action puts aside for the closing one lies on a stack of its own, so a
balanced list of actions leaves those stacks as they were.
-/

namespace TxLifecycle

/-- The limits under which a function is analysed. -/
structure Limits where
  maxSteps : Nat := 100000
  maxDepth : Nat := defaultMaxNesting
deriving DecidableEq, Repr

/-- An acquisition that waits for the check of its error variable. -/
structure Guard where
  binding : BindingId
  /-- The variable that received the error. -/
  errVar : String
deriving DecidableEq, Repr

/-- A `go` statement whose launched call is being read. -/
structure Launch where
  scope : ScopeId
  span : Span
deriving DecidableEq, Repr

/-- The surroundings of the code being read. The body of a function literal has its own. -/
structure Context where
  span : Span := {}
  /-- Function literals around the code that are not deferred. -/
  closureDepth : Nat := 0
  /-- Scope of the `defer` statement whose function literal is being read. -/
  deferScope : Option ScopeId := none
  /-- The `go` statements around the code, the outermost first. -/
  launches : List Launch := []
  /-- For every open acquisition error check, the bindings that it guards. -/
  guarded : List (List BindingId) := []
deriving DecidableEq, Repr

/-- The context of a body read inside `context`: guards do not reach into it, a deferred body is
bound to the scope of its `defer` statement, any other literal is not deferred, and a launched
call keeps what it was launched in. -/
def Context.enterBody (context : Context) (kind : BodyKind) (outer inner : ScopeId) : Context :=
  match kind with
  | .closure =>
    { context with
      guarded := [], closureDepth := context.closureDepth + 1, deferScope := none }
  | .deferred => { context with guarded := [], deferScope := some outer }
  | .goroutine launch =>
    { context with
      guarded := [], closureDepth := context.closureDepth + 1,
      launches := context.launches ++ [⟨inner, launch⟩] }

def BodyKind.scopeKind : BodyKind → ScopeKind
  | .closure | .deferred => .closure
  | .goroutine _ => .goroutine

/-- The state of reading one function. -/
structure Walk where
  /-- The scopes and constructs seen so far. -/
  scopes : ScopeTree := ScopeTree.empty
  bindings : List Binding := []
  steps : Nat := 0
  /-- Surroundings of the code being read. -/
  context : Context := {}
  /-- Surroundings of the bodies around that code, the innermost first. -/
  outer : List Context := []
  /-- The open constructs, the innermost first. -/
  constructs : List ConstructId := []
  /-- Acquisitions that wait for the next statement. -/
  pending : List Guard := []
  /-- For every `if` whose condition has not been read yet, the acquisitions that wait for it. -/
  held : List (List Guard) := []
  /-- The value being read is assigned to the blank identifier. -/
  discarding : Bool := false
  /-- The same for the calls whose arguments are being read, the innermost first. -/
  sheltered : List Bool := []
deriving DecidableEq, Repr

namespace Walk

/-- The binding that a scope owns under a name: the latest one that is not retired. -/
def ownedBy (w : Walk) (scope : ScopeId) (name : String) : Option Binding :=
  w.bindings.reverse.find? fun b => b.name == name && b.home == scope && !b.retired

/-- The binding that a name means, looked up through scopes from the innermost outwards. A plain
local hides the bindings of the scopes around it. -/
def resolveIn (w : Walk) (name : String) : List ScopeId → Option BindingId
  | [] => none
  | scope :: rest =>
    match w.ownedBy scope name with
    | some binding => some binding.id
    | none => if w.scopes.declares scope name then none else w.resolveIn name rest

/-- The binding that a name means at this point. -/
def resolve (w : Walk) (name : String) : Option BindingId :=
  w.resolveIn name w.scopes.stack

/-- Change one binding of the table. -/
def modifyBinding (w : Walk) (id : BindingId) (f : Binding → Binding) : Walk :=
  { w with bindings := w.bindings.modify id f }

def setScopes (w : Walk) (scopes : ScopeTree) : Walk :=
  { w with scopes }

def modifyContext (w : Walk) (f : Context → Context) : Walk :=
  { w with context := f w.context }

/-- Append an event to a binding. Its loop depth is that of the scope it is recorded for. -/
def recordAt (w : Walk) (id : BindingId) (kind : EventKind) (span : Span) (scope : ScopeId)
    (errorDiscarded : Bool) : Except AnalysisError Walk :=
  match w.scopes.get scope with
  | .error e => .error e
  | .ok s =>
    .ok (w.modifyBinding id (·.record
      { kind, span, scope, loopDepth := s.loopDepth,
        inClosure := decide (0 < w.context.closureDepth), errorDiscarded }))

/-- Append an event of the current statement in the current scope. -/
def record (w : Walk) (id : BindingId) (kind : EventKind) : Except AnalysisError Walk :=
  w.recordAt id kind w.context.span w.scopes.current false

/-- Append an event to each of several bindings. -/
def recordAll (w : Walk) (ids : List BindingId) (kind : EventKind) : Except AnalysisError Walk :=
  ids.foldlM (fun w id => w.record id kind) w

/-- Append a deferred commit or rollback for the latest `defer` statement of a scope. -/
def recordDeferred (w : Walk) (id : BindingId) (commit : Bool) (scope : ScopeId) :
    Except AnalysisError Walk :=
  if commit then w.recordAt id .deferredCommit w.context.span scope false
  else
    match w.scopes.noteDeferredRollback scope id with
    | .error e => .error e
    | .ok scopes =>
      (w.setScopes scopes).recordAt id .deferredRollback w.context.span scope false

/-- Append the capture by a `go` statement, unless that statement's capture is there already. -/
def recordCapture (w : Walk) (id : BindingId) (span : Span) : Except AnalysisError Walk :=
  let known := w.bindings[id]?.any fun b =>
    b.events.any fun event => event.kind == .goroutineCapture && event.span == span
  if known then .ok w else w.recordAt id .goroutineCapture span w.scopes.current false

/-- The bindings that leaving the function here would leak: visible, not handed over, outside
their own error check, and neither finalized nor covered by a `defer` on this path. -/
def exposed (w : Walk) : List BindingId :=
  (w.bindings.filter fun b =>
    !b.retired && !b.isEscaped && w.resolve b.name == some b.id
      && !(w.context.guarded.any (·.contains b.id)) && !b.guardedOnPath w.scopes).map (·.id)

def addBinding (w : Walk) (name : String) (home acquiredIn : ScopeId) (span : Span) :
    BindingId × Walk :=
  (w.bindings.length,
    { w with bindings := w.bindings ++ [Binding.new w.bindings.length name home acquiredIn span] })

end Walk

end TxLifecycle
