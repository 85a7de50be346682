import TxLifecycle.Proofs.Frame
import TxLifecycle.Proofs.Limits

/-!
# Execution paths

A walk reads all code of a function once. An execution runs some of it: one arm of a branching
statement, the body of a loop any number of times, nothing of a function literal. This file says
which actions a path through a flow executes, and in which order.

* `Step`: one thing that a path does, told by what had been read before it;
* `Flow.Runs`: the steps of the paths through a flow;
* `Flow.regions`: the code of every scope that reading a flow opens, in the order of the scopes.

A step tells the state in which the walk meets it (`Walk.At`), and so what it means for a binding:
whether it finalizes, acquires or defers it.
-/

namespace TxLifecycle

/-! ## Paths -/

/-- One thing that an execution does. -/
inductive Step where
  /-- It executes an action that is read after `before`. -/
  | did (before : List Action) (action : Action)
  /-- It executes a `defer` statement that is read after `before`. -/
  | deferred (before statement : List Action)
deriving DecidableEq

/-- How an execution of a piece of code ends. -/
inductive Outcome where
  /-- It falls through to the end of the code. -/
  | falls
  | stops
deriving DecidableEq

/-- The action leaves the function. -/
def Action.isExit : Action → Bool
  | .exit _ => true
  | _ => false

namespace Flow

/-- The actions of an `if` statement up to the start of its consequence. -/
def toConsequence (take : Bool) (head : Flow .code) (names : List String) (hasElse : Bool)
    (span : Span) : List Action :=
  .holdGuards take :: head.actions
    ++ [.openGuard names, .openConstruct .conditional hasElse span, .enterArm .ifBranch]

/-- The actions of an `if` statement up to the start of its alternative. -/
def toAlternative (take : Bool) (head : Flow .code) (names : List String) (hasElse : Bool)
    (span : Span) (consequence : Flow .code) : List Action :=
  toConsequence take head names hasElse span ++ consequence.actions ++ [.leave, .closeGuard]

section Conditional

open Walk

variable {limits : Limits} {w w₁ w₂ w₃ w₄ u v w₅ w₆ : Walk} {take : Bool} {head : Flow .code}
  {names : List String} {hasElse : Bool} {span : Span} {consequence : Flow .code}

/-- Reading an `if` statement up to the start of its consequence. -/
theorem run_toConsequence (hhold : w.exec limits (.holdGuards take) = .ok w₁)
    (hhead : head.Walks limits w₁ w₂) (hguard : w₂.exec limits (.openGuard names) = .ok w₃)
    (hconstruct : w₃.exec limits (.openConstruct .conditional hasElse span) = .ok w₄)
    (harm : w₄.exec limits (.enterArm .ifBranch) = .ok u) :
    w.run limits (toConsequence take head names hasElse span) = .ok u :=
  run_then (run_cons_eq_ok.mpr ⟨w₁, hhold, hhead.run⟩)
    (run_cons_eq_ok.mpr ⟨w₃, hguard, run_cons_eq_ok.mpr ⟨w₄, hconstruct, run_single harm⟩⟩)

/-- Reading on up to the start of its alternative. -/
theorem run_toAlternative (h : w.run limits (toConsequence take head names hasElse span) = .ok u)
    (hthen : consequence.Walks limits u v) (hleave : v.exec limits .leave = .ok w₅)
    (hunguard : w₅.exec limits .closeGuard = .ok w₆) :
    w.run limits (toAlternative take head names hasElse span consequence) = .ok w₆ :=
  run_then (run_then h hthen.run) (run_cons_eq_ok.mpr ⟨w₅, hleave, run_single hunguard⟩)

end Conditional

/-- `flow.Runs before trace outcome`: some execution of `flow`, which is read after `before`, does
what `trace` says and ends with `outcome`.

A branching statement takes one of its arms, or none where it has no fallback. Every call in an
evaluated expression is executed; the body of a function literal is not, nor is the call that a
`go` or `defer` statement launches. A jump has no rule: no execution through one is described. -/
inductive Runs : {shape : Shape} → List Action → Flow shape → List Step → Outcome → Prop where
  | skip {before : List Action} : Runs before .skip [] .falls
  | act {before : List Action} {action : Action} {plain : action.isPlain = true} :
      action.isExit = false →
      Runs before (.act action plain) [.did before action] .falls
  | exit {before : List Action} {action : Action} {plain : action.isPlain = true} :
      action.isExit = true → Runs before (.act action plain) [.did before action] .stops
  /-- The first piece of code falls through to the second. -/
  | seq {before : List Action} {first second : Flow .code} {trace trace' : List Step}
      {outcome : Outcome} :
      Runs before first trace .falls → Runs (before ++ first.actions) second trace' outcome →
      Runs before (.seq first second) (trace ++ trace') outcome
  | seqStop {before : List Action} {first second : Flow .code} {trace : List Step} :
      Runs before first trace .stops → Runs before (.seq first second) trace .stops
  | block {before : List Action} {body : Flow .code} {trace : List Step} {outcome : Outcome} :
      Runs (before ++ [.enter .block]) body trace outcome → Runs before (.block body) trace outcome
  /-- The condition of a loop does not fall through. -/
  | loopHead {before : List Action} {head body : Flow .code} {trace : List Step} :
      Runs before head trace .stops → Runs before (.loop head body) trace .stops
  | loopDone {before : List Action} {head body : Flow .code} {trace : List Step} :
      Runs before head trace .falls → Runs before (.loop head body) trace .falls
  | loopStop {before : List Action} {head body : Flow .code} {trace trace' : List Step} :
      Runs before head trace .falls →
      Runs (before ++ head.actions ++ [.enter .loopBody]) body trace' .stops →
      Runs before (.loop head body) (trace ++ trace') .stops
  /-- The body of a loop falls through, and the loop goes on. -/
  | loopAgain {before : List Action} {head body : Flow .code} {trace trace' trace'' : List Step}
      {outcome : Outcome} :
      Runs before head trace .falls →
      Runs (before ++ head.actions ++ [.enter .loopBody]) body trace' .falls →
      Runs before (.loop head body) trace'' outcome →
      Runs before (.loop head body) (trace ++ trace' ++ trace'') outcome
  /-- What an `if` evaluates before the choice stops. -/
  | conditionalHead {before : List Action} {take : Bool} {head : Flow .code} {names : List String}
      {hasElse : Bool} {span : Span} {consequence : Flow .code} {alternative : Flow .arms}
      {trace : List Step} :
      Runs (before ++ [.holdGuards take]) head trace .stops →
      Runs before (.conditional take head names hasElse span consequence alternative) trace .stops
  | consequence {before : List Action} {take : Bool} {head : Flow .code} {names : List String}
      {hasElse : Bool} {span : Span} {consequence : Flow .code} {alternative : Flow .arms}
      {trace trace' : List Step} {outcome : Outcome} :
      Runs (before ++ [.holdGuards take]) head trace .falls →
      Runs (before ++ toConsequence take head names hasElse span) consequence trace' outcome →
      Runs before (.conditional take head names hasElse span consequence alternative)
        (trace ++ trace') outcome
  | alternative {before : List Action} {take : Bool} {head : Flow .code} {names : List String}
      {hasElse : Bool} {span : Span} {consequence : Flow .code} {alternative : Flow .arms}
      {trace trace' : List Step} {outcome : Outcome} :
      Runs (before ++ [.holdGuards take]) head trace .falls →
      Runs (before ++ toAlternative take head names hasElse span consequence) alternative trace'
        outcome →
      Runs before (.conditional take head names hasElse span consequence alternative)
        (trace ++ trace') outcome
  /-- An `if` without an alternative takes no arm. -/
  | noBranch {before : List Action} {take : Bool} {head : Flow .code} {names : List String}
      {span : Span} {consequence : Flow .code} {alternative : Flow .arms} {trace : List Step} :
      Runs (before ++ [.holdGuards take]) head trace .falls →
      Runs before (.conditional take head names false span consequence alternative) trace .falls
  /-- A switch or select takes one of its clauses. -/
  | clauses {before : List Action} {kind : ConstructKind} {hasDefault : Bool} {span : Span}
      {arms : Flow .arms} {trace : List Step} {outcome : Outcome} :
      Runs (before ++ [.openConstruct kind hasDefault span]) arms trace outcome →
      Runs before (.clauses kind hasDefault span arms) trace outcome
  /-- A switch or select without a default clause takes none. -/
  | noClause {before : List Action} {kind : ConstructKind} {span : Span} {arms : Flow .arms} :
      Runs before (.clauses kind false span arms) [] .falls
  /-- The arguments of a call are evaluated. -/
  | arguments {before : List Action} {args : Flow .code} {trace : List Step} {outcome : Outcome} :
      Runs (before ++ [.openArgs]) args trace outcome →
      Runs before (.arguments args) trace outcome
  | literal {before : List Action} {launch : Option Span} {body : Flow .code} :
      Runs before (.literal launch body) [] .falls
  /-- The function that a `go` statement launches is evaluated, but not called here. -/
  | launched {before : List Action} {span : Span} {call : List Action}
      {finalizes : ∀ action ∈ call, action.isFinalize = true} {func : Flow .code}
      {trace : List Step} {outcome : Outcome} :
      Runs (before ++ .openBody (.goroutine span) :: call) func trace outcome →
      Runs before (.launched span call finalizes func) trace outcome
  /-- A `defer` statement evaluates the function and the arguments of its call. -/
  | deferral {before calls : List Action}
      {deferred : ∀ action ∈ calls, action.isDeferCall = true} {evaluated : Flow .code}
      {trace : List Step} {outcome : Outcome} :
      Runs (before ++ .addDefer :: calls) evaluated trace outcome →
      Runs before (.deferral calls deferred evaluated)
        (.deferred before (Flow.deferral calls deferred evaluated).actions :: trace) outcome
  /-- A `defer` statement that calls a literal evaluates the arguments. -/
  | deferredLiteral {before : List Action} {evaluated body : Flow .code} {trace : List Step}
      {outcome : Outcome} :
      Runs (before ++ [.addDefer]) evaluated trace outcome →
      Runs before (.deferredLiteral evaluated body)
        (.deferred before (Flow.deferredLiteral evaluated body).actions :: trace) outcome
  | armHere {before : List Action} {kind : ScopeKind} {isArm : kind.isArm = true}
      {body : Flow .code} {rest : Flow .arms} {trace : List Step} {outcome : Outcome} :
      Runs (before ++ [.enterArm kind]) body trace outcome →
      Runs before (.arm kind isArm body rest) trace outcome
  | armLater {before : List Action} {kind : ScopeKind} {isArm : kind.isArm = true}
      {body : Flow .code} {rest : Flow .arms} {trace : List Step} {outcome : Outcome} :
      Runs (before ++ (.enterArm kind :: body.actions ++ [.leave])) rest trace outcome →
      Runs before (.arm kind isArm body rest) trace outcome

end Flow

/-- What had been read before the step. -/
def Step.before : Step → List Action
  | .did before _ | .deferred before _ => before

/-- The step is met while `actions` are read after `start`. -/
def Step.Within (start actions : List Action) (step : Step) : Prop :=
  ∃ read, step.before = start ++ read ∧ read <+: actions

namespace Step.Within

variable {start start' actions part : List Action} {step : Step}

/-- The step is met at once. -/
theorem here (actions : List Action) (h : step.before = start) : step.Within start actions :=
  ⟨[], by rw [h, List.append_nil], List.nil_prefix⟩

/-- The step is met in a part that is read between `lead` and `rest`. -/
theorem of_part (lead rest : List Action) (h : step.Within start' part)
    (hstart : start' = start ++ lead) (hactions : lead ++ part ++ rest = actions) :
    step.Within start actions := by
  obtain ⟨read, hbefore, tail, htail⟩ := h
  refine ⟨lead ++ read, by rw [hbefore, hstart, List.append_assoc], tail ++ rest, ?_⟩
  rw [← hactions, ← htail]
  simp only [List.append_assoc]

end Step.Within

namespace Flow.Runs

variable {shape : Shape} {flow : Flow shape} {before : List Action} {trace : List Step}
  {outcome : Outcome}

/-- A path stays within the code that is read. -/
theorem within (h : flow.Runs before trace outcome) :
    ∀ step ∈ trace, step.Within before flow.actions := by
  -- a part that is read between `lead` and `rest`, and the two ways in which traces are made
  have hpart : ∀ {start start' part whole : List Action} {trace : List Step}
      (lead rest : List Action),
      (∀ step ∈ trace, step.Within start' part) → start' = start ++ lead →
      lead ++ part ++ rest = whole → ∀ step ∈ trace, step.Within start whole :=
    fun lead rest h hstart hwhole step hstep => (h step hstep).of_part lead rest hstart hwhole
  have hboth : ∀ {start whole : List Action} {trace trace' : List Step},
      (∀ step ∈ trace, step.Within start whole) → (∀ step ∈ trace', step.Within start whole) →
      ∀ step ∈ trace ++ trace', step.Within start whole := by
    intro start whole trace trace' h h' step hstep
    rcases List.mem_append.mp hstep with hstep | hstep
    · exact h step hstep
    · exact h' step hstep
  have hdeferred : ∀ {start statement whole : List Action} {trace : List Step},
      (∀ step ∈ trace, step.Within start whole) →
      ∀ step ∈ Step.deferred start statement :: trace, step.Within start whole := by
    intro start statement whole trace h step hstep
    rcases List.mem_cons.mp hstep with rfl | hstep
    · exact .here whole rfl
    · exact h step hstep
  have hhead : ∀ {start : List Action} {take : Bool} {head : Flow .code} {names : List String}
      {hasElse : Bool} {span : Span} {consequence : Flow .code} {alternative : Flow .arms}
      {trace : List Step},
      (∀ step ∈ trace, step.Within (start ++ [.holdGuards take]) head.actions) →
      ∀ step ∈ trace, step.Within start
        (conditional take head names hasElse span consequence alternative).actions := by
    intro start take head names hasElse span consequence alternative trace h
    exact hpart [.holdGuards take] (.openGuard names :: .openConstruct .conditional hasElse span
      :: .enterArm .ifBranch :: consequence.actions ++ .leave :: .closeGuard
      :: alternative.actions ++ [.closeConstruct]) h rfl (by simp [actions])
  induction h with
  | skip | literal | noClause =>
    intro step hstep
    cases hstep
  | act _ | exit _ =>
    intro step hstep
    rw [List.mem_singleton.mp hstep]
    exact .here _ rfl
  | @seq _ first second _ _ _ _ _ ih ih' =>
    exact hboth (hpart [] second.actions ih (by simp) (by simp [actions]))
      (hpart first.actions [] ih' rfl (by simp [actions]))
  | @seqStop _ _ second _ _ ih => exact hpart [] second.actions ih (by simp) (by simp [actions])
  | block _ ih => exact hpart [.enter .block] [.leave] ih rfl (by simp [actions])
  | @loopHead _ _ body _ _ ih | @loopDone _ _ body _ _ ih =>
    exact hpart [] (.enter .loopBody :: body.actions ++ [.leave]) ih (by simp) (by simp [actions])
  | @loopStop _ head body _ _ _ _ ih ih' =>
    exact hboth
      (hpart [] (.enter .loopBody :: body.actions ++ [.leave]) ih (by simp) (by simp [actions]))
      (hpart (head.actions ++ [.enter .loopBody]) [.leave] ih' (by simp) (by simp [actions]))
  | @loopAgain _ head body _ _ _ _ _ _ _ ih ih' ih'' =>
    exact hboth (hboth
      (hpart [] (.enter .loopBody :: body.actions ++ [.leave]) ih (by simp) (by simp [actions]))
      (hpart (head.actions ++ [.enter .loopBody]) [.leave] ih' (by simp) (by simp [actions]))) ih''
  | conditionalHead _ ih | noBranch _ ih => exact hhead ih
  | @consequence _ take head names hasElse span _ alternative _ _ _ _ _ ih ih' =>
    exact hboth (hhead ih) (hpart (toConsequence take head names hasElse span)
      (.leave :: .closeGuard :: alternative.actions ++ [.closeConstruct]) ih' rfl
      (by simp [actions, toConsequence]))
  | @alternative _ take head names hasElse span consequence _ _ _ _ _ _ ih ih' =>
    exact hboth (hhead ih) (hpart (toAlternative take head names hasElse span consequence)
      [.closeConstruct] ih' rfl (by simp [actions, toAlternative, toConsequence]))
  | @clauses _ kind hasDefault span _ _ _ _ ih =>
    exact hpart [.openConstruct kind hasDefault span] [.closeConstruct] ih rfl (by simp [actions])
  | arguments _ ih => exact hpart [.openArgs] [.closeArgs] ih rfl (by simp [actions])
  | @launched _ span call _ _ _ _ _ ih =>
    exact hpart (.openBody (.goroutine span) :: call) [.closeBody] ih rfl (by simp [actions])
  | @deferral _ calls _ _ _ _ _ ih =>
    exact hdeferred (hpart (.addDefer :: calls) [] ih rfl (by simp [actions]))
  | @deferredLiteral _ _ body _ _ _ ih =>
    exact hdeferred (hpart [.addDefer] (.openBody .deferred :: body.actions ++ [.closeBody]) ih rfl
      (by simp [actions]))
  | @armHere _ kind _ _ rest _ _ _ ih =>
    exact hpart [.enterArm kind] (.leave :: rest.actions) ih rfl (by simp [actions])
  | @armLater _ kind _ body _ _ _ _ ih =>
    exact hpart (.enterArm kind :: body.actions ++ [.leave]) [] ih rfl (by simp [actions])

end Flow.Runs

/-! ## What a step means for a binding -/

namespace Walk

/-- The walk of a function is in this state when it has read `before`. Limits decide whether it
comes that far, not what the state is. -/
def At (before : List Action) (w : Walk) : Prop :=
  ∃ limits, Walk.run limits {} before = .ok w

theorem At.unique {before : List Action} {w w' : Walk} (h : At before w) (h' : At before w') :
    w = w' := by
  obtain ⟨limits, h⟩ := h
  obtain ⟨limits', h'⟩ := h'
  -- both limits can be raised to the same one
  obtain ⟨top, hleft, hright⟩ : ∃ top : Limits, limits ≤ top ∧ limits' ≤ top :=
    ⟨⟨max limits.maxSteps limits'.maxSteps, max limits.maxDepth limits'.maxDepth⟩,
      ⟨Nat.le_max_left _ _, Nat.le_max_left _ _⟩, ⟨Nat.le_max_right _ _, Nat.le_max_right _ _⟩⟩
  exact Except.ok.inj ((run_mono hleft h).symm.trans (run_mono hright h'))

/-- The events that a binding gets between two states. -/
def recorded (w w' : Walk) (id : BindingId) : List Event :=
  (w'.eventsOf id).drop (w.eventsOf id).length

end Walk

namespace Step

/-- The step commits or rolls back the binding. -/
def Finalizes (id : BindingId) : Step → Prop
  | .did before (.finalize name _) => ∃ w, Walk.At before w ∧ w.resolve name = some id
  | _ => False

/-- The step starts a transaction that the walk records for the binding. -/
def Acquires (id : BindingId) : Step → Prop
  | .did before (.acquire name errVar span declares) =>
    ∃ w v, Walk.At before w ∧ w.acquisition name errVar span declares = .ok (id, v)
  | _ => False

/-- The step is a `defer` statement for which the walk records a deferred commit or rollback of the
binding. -/
def Defers (id : BindingId) : Step → Prop
  | .deferred before statement =>
    ∃ w w', Walk.At before w ∧ Walk.At (before ++ statement) w' ∧
      ∃ event ∈ w.recorded w' id, event.kind.isDeferred = true
  | _ => False

end Step

/-! ## The code of a scope -/

/-- The code of one scope. -/
structure Region where
  /-- What is read before it, the opening of the scope included. -/
  before : List Action
  kind : ScopeKind
  code : Flow .code
  /-- The scope is that of a function literal or stands in one. -/
  inLiteral : Bool

/-- The code of every scope that reading a flow after `before` opens, in the order of opening. -/
def Flow.regions (inLiteral : Bool) : {shape : Shape} → List Action → Flow shape → List Region
  | _, before, .seq first second =>
    first.regions inLiteral before ++ second.regions inLiteral (before ++ first.actions)
  | _, before, .block body =>
    ⟨before ++ [.enter .block], .block, body, inLiteral⟩
      :: body.regions inLiteral (before ++ [.enter .block])
  | _, before, .loop head body =>
    head.regions inLiteral before
      ++ ⟨before ++ head.actions ++ [.enter .loopBody], .loopBody, body, inLiteral⟩
      :: body.regions inLiteral (before ++ head.actions ++ [.enter .loopBody])
  | _, before, .conditional take head names hasElse span consequence alternative =>
    head.regions inLiteral (before ++ [.holdGuards take])
      ++ ⟨before ++ toConsequence take head names hasElse span, .ifBranch, consequence, inLiteral⟩
      :: consequence.regions inLiteral (before ++ toConsequence take head names hasElse span)
      ++ alternative.regions inLiteral
        (before ++ toAlternative take head names hasElse span consequence)
  | _, before, .clauses kind hasDefault span arms =>
    arms.regions inLiteral (before ++ [.openConstruct kind hasDefault span])
  | _, before, .arguments args => args.regions inLiteral (before ++ [.openArgs])
  | _, before, .literal launch body =>
    ⟨before ++ [.openBody (literalKind launch)], (literalKind launch).scopeKind, body, true⟩
      :: body.regions true (before ++ [.openBody (literalKind launch)])
  | _, before, .launched span call finalizes func =>
    ⟨before ++ [.openBody (.goroutine span)], .goroutine,
      .seq (.acts call fun a ha => Action.isPlain_of_isFinalize (finalizes a ha)) func, inLiteral⟩
      :: func.regions inLiteral (before ++ .openBody (.goroutine span) :: call)
  | _, before, .deferral calls _ evaluated =>
    evaluated.regions inLiteral (before ++ .addDefer :: calls)
  | _, before, .deferredLiteral evaluated body =>
    evaluated.regions inLiteral (before ++ [.addDefer])
      ++ ⟨before ++ (.addDefer :: evaluated.actions ++ [.openBody .deferred]), .closure, body, true⟩
      :: body.regions true (before ++ (.addDefer :: evaluated.actions ++ [.openBody .deferred]))
  | _, before, .arm kind _ body rest =>
    ⟨before ++ [.enterArm kind], kind, body, inLiteral⟩
      :: body.regions inLiteral (before ++ [.enterArm kind])
      ++ rest.regions inLiteral (before ++ (.enterArm kind :: body.actions ++ [.leave]))
  | _, _, .skip | _, _, .act _ _ | _, _, .jump | _, _, .noArm => []

/-- The code of every scope of a function; the first one is that of the function itself. -/
def FunctionUnit.regions (names : Recognizers) (unit : FunctionUnit) : List Region :=
  ⟨[], .function, unit.flow names, false⟩ :: (unit.flow names).regions false []

/-- The walk is in the scope when it comes to the code of the region, and again at the end of the
code. -/
def Region.ReadIn (limits : Limits) (scope : ScopeId) (region : Region) : Prop :=
  ∃ u v, Walk.run limits {} region.before = .ok u ∧ u.run limits region.code.actions = .ok v ∧
    u.scopes.current = scope ∧ v.scopes.current = scope

end TxLifecycle
