import TxLifecycle.Walk.Reading
import TxLifecycle.Walk.State

/-!
# Running actions

What each action does to the state of a walk, and the walk of a whole function. A walk fails when
it exceeds one of its limits; the other errors mark states that no function reaches.
-/

namespace TxLifecycle

namespace Walk

/-- Open a scope, unless as many are open as the limit allows. -/
def enter (limits : Limits) (w : Walk) (kind : ScopeKind) :
    Except AnalysisError (ScopeId × Walk) :=
  if limits.maxDepth ≤ w.scopes.depth then .error (.nestingLimitExceeded limits.maxDepth)
  else
    match w.scopes.push kind with
    | .error e => .error e
    | .ok (id, scopes) => .ok (id, w.setScopes scopes)

/-- Open the next arm of the innermost construct, unless as many scopes are open as the limit
allows. -/
def enterArm (limits : Limits) (w : Walk) (kind : ScopeKind) : Except AnalysisError Walk :=
  if limits.maxDepth ≤ w.scopes.depth then .error (.nestingLimitExceeded limits.maxDepth)
  else
    match w.scopes.pushArm kind (w.constructs.headD 0) with
    | .error e => .error e
    | .ok (_, scopes) => .ok (w.setScopes scopes)

def leave (w : Walk) : Except AnalysisError Walk :=
  match w.scopes.pop with
  | .error e => .error e
  | .ok (_, scopes) => .ok (w.setScopes scopes)

/-- Change the scope tree by an operation that can fail. -/
def updateScopes (w : Walk) (f : ScopeTree → Except AnalysisError ScopeTree) :
    Except AnalysisError Walk :=
  match f w.scopes with
  | .error e => .error e
  | .ok scopes => .ok (w.setScopes scopes)

def countStep (limits : Limits) (w : Walk) : Except AnalysisError Walk :=
  if limits.maxSteps < w.steps + 1 then .error (.stepLimitExceeded limits.maxSteps)
  else .ok { w with steps := w.steps + 1 }

/-- Begin to read a function literal or a launched call. -/
def openBody (limits : Limits) (w : Walk) (kind : BodyKind) : Except AnalysisError Walk :=
  match w.enter limits kind.scopeKind with
  | .error e => .error e
  | .ok (inner, w') =>
    .ok { w' with
      outer := w.context :: w.outer
      context := w.context.enterBody kind w.scopes.current inner }

/-- Come back from a function literal or a launched call to its surroundings. -/
def closeBody (w : Walk) : Except AnalysisError Walk :=
  ({ w with context := w.outer.headD w.context, outer := w.outer.tail } : Walk).leave

/-- Mention a variable. In a goroutine this captures the handle, unless the variable belongs to
the launched call itself; deferred code captures nothing. -/
def mention (w : Walk) (name : String) (span : Span) : Except AnalysisError Walk :=
  match w.resolve name with
  | none => .ok w
  | some id =>
    let w := w.modifyBinding id (·.mention span.stop)
    if w.context.deferScope.isSome then .ok w
    else
      let home := (w.bindings[id]?.map (·.home)).getD ScopeTree.root
      let crossed := w.context.launches.filter fun launch =>
        !w.scopes.isAncestor launch.scope home
      crossed.foldlM (fun w launch => w.recordCapture id launch.span) w

/-- Commit or roll back a variable: at once, or on behalf of the `defer` statement whose function
literal is being read. -/
def finalize (w : Walk) (name : String) (commit : Bool) : Except AnalysisError Walk :=
  match w.resolve name with
  | none => .ok w
  | some id =>
    match w.context.deferScope with
    | some scope => w.recordDeferred id commit scope
    | none =>
      w.recordAt id (if commit then .directCommit else .directRollback) w.context.span
        w.scopes.current (commit && w.discarding)

/-- Let a call on a `defer` statement take care of a variable. -/
def deferCall (w : Walk) (name : String) (commit : Bool) : Except AnalysisError Walk :=
  match w.resolve name with
  | none => .ok w
  | some id => w.recordDeferred id commit w.scopes.current

/-- Share a variable with the goroutine that it is passed to. -/
def capture (w : Walk) (name : String) (span : Span) : Except AnalysisError Walk :=
  if w.context.deferScope.isSome then .ok w
  else
    match w.resolve name with
    | none => .ok w
    | some id => w.recordCapture id span

/-- Mark the bindings that the names mean as handed over. -/
def markEscaped (w : Walk) (ids : List BindingId) : Walk :=
  ids.foldl (fun w id => w.modifyBinding id fun b => { b with escaped := true }) w

/-- Hand the bindings that a helper is given over to it. One that is given twice stays. -/
def delegate (w : Walk) (names : List String) : Walk :=
  let passed := names.filterMap w.resolve
  w.markEscaped (passed.filter fun id => passed.count id == 1)

/-- Hand returned bindings over to the caller. A `return` of a function literal hands out nothing
of the function itself. -/
def handOut (w : Walk) (names : List String) : Walk :=
  if w.scopes.inClosure then w else w.markEscaped (names.filterMap w.resolve)

/-- Leave the function: every exposed binding records it. Leaving a function literal is no exit of
the function. -/
def exit (w : Walk) (how : Exit) : Except AnalysisError Walk :=
  if w.scopes.inClosure then .ok w
  else
    match w.recordAll w.exposed how.event with
    | .error e => .error e
    | .ok w => w.updateScopes (·.markTerminated)

/-- Note the store of a variable into a field. -/
def storeField (w : Walk) (name : String) (stop : Nat) : Walk :=
  match w.resolve name with
  | none => w
  | some id => w.modifyBinding id fun b => { b with fieldStoreEnd := some stop }

/-- Acquire once more into a variable that holds a handle. A handle that is finished or handed over
gives way to a new binding; one from a branch that has been left is merged with the new one; any
other handle is lost. -/
def reacquire (w : Walk) (old : Binding) (span : Span) : Except AnalysisError (BindingId × Walk) :=
  if old.finalizedOnPath w.scopes || old.isEscaped then
    .ok ((w.modifyBinding old.id fun b => { b with retired := true }).addBinding
      old.name old.home w.scopes.current span)
  else if !w.scopes.isOnStack old.acquiredIn then
    let merged := w.scopes.commonAncestor old.acquiredIn w.scopes.current
    .ok (old.id, w.modifyBinding old.id fun b => { b with acquiredIn := merged })
  else
    match w.record old.id .reassignment with
    | .error e => .error e
    | .ok w => .ok (old.id, w)

/-- Find or make the binding for an acquisition into a variable that now means `existing`. -/
def bind (w : Walk) (existing : Option Binding) (name : String) (span : Span) (declares : Bool) :
    Except AnalysisError (BindingId × Walk) :=
  match existing with
  | none =>
    let home :=
      if declares then w.scopes.current
      else (w.scopes.declaringScope name).getD w.scopes.current
    .ok (w.addBinding name home w.scopes.current span)
  | some old =>
    if declares && old.home != w.scopes.current then
      if old.finalizedOnPath w.scopes then
        .ok (w.addBinding name w.scopes.current w.scopes.current span)
      else
        match w.record old.id .shadowing with
        | .error e => .error e
        | .ok w => .ok (w.addBinding name w.scopes.current w.scopes.current span)
    else w.reacquire old span

/-- Note the error variable of an acquisition and let it wait for its check. -/
def awaitCheck (w : Walk) (id : BindingId) : Option String → Walk
  | none => w
  | some errVar =>
    let w := w.modifyBinding id fun b => { b with errVar := some errVar }
    { w with pending := w.pending ++ [⟨id, errVar⟩] }

/-- Declare the error variable of an acquisition that declares its targets. -/
def declareError (w : Walk) (errVar : Option String) (declares : Bool) :
    Except AnalysisError Walk :=
  match errVar with
  | some name => if declares then w.updateScopes (·.declare name) else .ok w
  | none => .ok w

/-- Start a transaction and store it in a variable. -/
def acquire (w : Walk) (name : String) (errVar : Option String) (span : Span) (declares : Bool) :
    Except AnalysisError Walk :=
  let existing := (w.resolve name).bind (w.bindings[·]?)
  match w.declareError errVar declares with
  | .error e => .error e
  | .ok w =>
    match w.bind existing name span declares with
    | .error e => .error e
    | .ok (id, w) => .ok (w.awaitCheck id errVar)

/-- Register a branching construct and make it the innermost one. -/
def openConstruct (w : Walk) (kind : ConstructKind) (hasFallback : Bool) (span : Span) : Walk :=
  let (id, scopes) := w.scopes.openConstruct kind hasFallback span
  { w with scopes, constructs := id :: w.constructs }

/-- Begin an `if` statement with the acquisitions that wait for it. -/
def holdGuards (w : Walk) (take : Bool) : Walk :=
  if take then { w with held := w.pending :: w.held, pending := [] }
  else { w with held := [] :: w.held }

/-- Let the acquisitions of an initial statement wait for the condition. -/
def collectGuards (w : Walk) : Walk :=
  match w.held with
  | [] => { w with pending := [] }
  | guards :: rest => { w with held := (guards ++ w.pending) :: rest, pending := [] }

/-- Guard the acquisitions whose error variable the condition mentions. -/
def openGuard (w : Walk) (names : List String) : Walk :=
  let guards := (w.held.headD []).filter (names.contains ·.errVar)
  { w with
    held := w.held.tail
    context := { w.context with guarded := guards.map (·.binding) :: w.context.guarded } }

def exec (limits : Limits) (w : Walk) : Action → Except AnalysisError Walk
  | .count => w.countStep limits
  | .setSpan span => .ok (w.modifyContext ({ · with span }))
  | .enter kind => (w.enter limits kind).map (·.2)
  | .enterArm kind => w.enterArm limits kind
  | .leave => w.leave
  | .openConstruct kind hasFallback span => .ok (w.openConstruct kind hasFallback span)
  | .closeConstruct => .ok { w with constructs := w.constructs.tail }
  | .openBody kind => w.openBody limits kind
  | .closeBody => w.closeBody
  | .declare name => w.updateScopes (·.declare name)
  | .mention name span => w.mention name span
  | .acquire name errVar span declares => w.acquire name errVar span declares
  | .storeField name stop => .ok (w.storeField name stop)
  | .finalize name commit => w.finalize name commit
  | .addDefer => w.updateScopes (·.addDefer)
  | .deferCall name commit => w.deferCall name commit
  | .capture name span => w.capture name span
  | .delegate names => .ok (w.delegate names)
  | .handOut names => .ok (w.handOut names)
  | .exit how => w.exit how
  | .dropGuards => .ok { w with pending := [] }
  | .holdGuards take => .ok (w.holdGuards take)
  | .collectGuards => .ok w.collectGuards
  | .openGuard names => .ok (w.openGuard names)
  | .closeGuard => .ok (w.modifyContext fun c => { c with guarded := c.guarded.tail })
  | .beginAssign blank => .ok { w with discarding := blank }
  | .endAssign => .ok { w with discarding := false }
  | .openArgs => .ok { w with sheltered := w.discarding :: w.sheltered, discarding := false }
  | .closeArgs =>
    .ok { w with discarding := w.sheltered.headD false, sheltered := w.sheltered.tail }

/-- Run actions one after the other. -/
def run (limits : Limits) (w : Walk) (actions : List Action) : Except AnalysisError Walk :=
  actions.foldlM (exec limits) w

/-- Running nothing changes nothing. -/
@[simp]
theorem run_nil (limits : Limits) (w : Walk) : w.run limits [] = .ok w := rfl

/-- Running a list of actions runs the first one and then the others. -/
theorem run_cons (limits : Limits) (w : Walk) (action : Action) (rest : List Action) :
    w.run limits (action :: rest) = w.exec limits action >>= fun w => w.run limits rest := rfl

/-- Running two lists of actions runs the first and then the second. -/
theorem run_append (limits : Limits) (w : Walk) (first second : List Action) :
    w.run limits (first ++ second) = w.run limits first >>= fun w => w.run limits second := by
  simp [run, List.foldlM_append]

end Walk

/-- What the walk of one function gives. -/
structure Tracked where
  /-- The scopes and constructs of the function. -/
  scopes : ScopeTree
  bindings : List Binding
deriving DecidableEq, Repr

/-- Read one function from first to last. -/
def FunctionUnit.walk (limits : Limits) (names : Recognizers) (unit : FunctionUnit) :
    Except AnalysisError Walk :=
  if unit.nestingExceeded then .error (.nestingLimitExceeded limits.maxDepth)
  else Walk.run limits {} (unit.actions names)

/-- The scopes and bindings of one function. -/
def FunctionUnit.track (limits : Limits) (names : Recognizers) (unit : FunctionUnit) :
    Except AnalysisError Tracked :=
  (unit.walk limits names).map fun w => { scopes := w.scopes, bindings := w.bindings }

end TxLifecycle
