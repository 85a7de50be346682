import TxLifecycle.Recognizer

/-!
# Actions

A function body is read from first to last, and reading it is one flat list of `Action`s: scopes
that open and close, names that are mentioned, calls that finalize a handle, statements that leave
the function. Which actions there are depends on the text and the recognizers only; what they do
depends on the state in which they run.

Actions that open something come in pairs with one that closes it again.
-/

namespace TxLifecycle

/-- Code that is written in one place and runs in another. -/
inductive BodyKind where
  | closure
  /-- The body of a function literal that a `defer` statement calls. -/
  | deferred
  /-- What a `go` statement launches; `launch` is that statement. -/
  | goroutine (launch : Span)
deriving DecidableEq, Repr

/-- How control leaves the function. -/
inductive Exit where
  | byReturn
  | byAbort (kind : AbortKind)
deriving DecidableEq, Repr

/-- The event that an exit leaves on a transaction that may be open. -/
def Exit.event : Exit → EventKind
  | .byReturn => .earlyReturn
  | .byAbort kind => .fatalExit kind

/-- One thing that reading a function does. -/
inductive Action where
  | count
  /-- The statement at `span` is the one that later events point at. -/
  | setSpan (span : Span)
  | enter (kind : ScopeKind)
  /-- The next arm of the innermost open construct opens. -/
  | enterArm (kind : ScopeKind)
  | leave
  | openConstruct (kind : ConstructKind) (hasFallback : Bool) (span : Span)
  | closeConstruct
  /-- The body of a function literal or a launched call opens. -/
  | openBody (kind : BodyKind)
  | closeBody
  | declare (name : String)
  | mention (name : String) (span : Span)
  /-- A transaction is started and stored in a variable. -/
  | acquire (name : String) (errVar : Option String) (span : Span) (declares : Bool)
  /-- A variable is stored into a field by a statement that ends at `stop`. -/
  | storeField (name : String) (stop : Nat)
  /-- A commit or rollback method is called on a variable. -/
  | finalize (name : String) (commit : Bool)
  | addDefer
  /-- The registered `defer` statement calls a method on a variable, or hands it to a function. -/
  | deferCall (name : String) (commit : Bool)
  /-- A variable is an argument of the call that the `go` statement at `span` launches. -/
  | capture (name : String) (span : Span)
  /-- The named arguments of a call to a helper that takes handles over. -/
  | delegate (names : List String)
  /-- The names whose values a `return` statement hands out. -/
  | handOut (names : List String)
  | exit (how : Exit)
  /-- The statement that follows an acquisition is not an `if`: waiting error checks lapse. -/
  | dropGuards
  /-- An `if` statement begins; `take` tells whether it follows the acquisitions whose error
  checks are waiting. -/
  | holdGuards (take : Bool)
  /-- The initial statement of an `if` has been read: its acquisitions wait for the condition. -/
  | collectGuards
  /-- The condition of the innermost `if` mentions these names: the acquisitions whose error
  variable is among them are guarded in its consequence. -/
  | openGuard (names : List String)
  | closeGuard
  /-- The right side of an assignment begins; `blank` tells whether its only target is `_`. -/
  | beginAssign (blank : Bool)
  /-- The right side of an assignment has been read. -/
  | endAssign
  /-- The arguments of a call begin: a commit in them does not give the assigned value. -/
  | openArgs
  /-- The arguments of a call have been read. -/
  | closeArgs
deriving DecidableEq, Repr

end TxLifecycle
