import Mathlib.Order.MinMax
import TxLifecycle.Walk.Run

/-!
# The flow of control

Reading a function is a flat list of actions in which the brackets of its structure can no longer
be seen as pairs. A `Flow` is the same list with that structure kept: what runs in order, what is
a loop, which scopes are the arms of one branching statement, which code is only written down here
and runs elsewhere.

The module introduces:

* `Flow shape`, a piece of code (`shape = .code`) or the arms of a branching statement that are
  still to be read (`shape = .arms`); actions that open or close something occur in pairs by
  construction;
* `Flow.actions`, the flat list again;
* `Flow.Proper`: an `if` has one alternative where it has an `else`, and the clauses of a switch or
  select are of one kind;
* the flow of every syntax tree, which is proper (`FunctionUnit.proper`) and has the flat list that
  reading the tree is (`FunctionUnit.flow_actions`).
-/

namespace TxLifecycle

/-- The action neither opens nor closes anything and belongs to no `defer` statement. -/
def Action.isPlain : Action → Bool
  | .enter _ | .enterArm _ | .leave | .openConstruct _ _ _ | .closeConstruct | .openBody _
  | .closeBody | .addDefer | .deferCall _ _ | .holdGuards _ | .openGuard _ | .closeGuard
  | .openArgs | .closeArgs => false
  | _ => true

/-- The action lets a deferred call take care of a variable. -/
def Action.isDeferCall : Action → Bool
  | .deferCall _ _ => true
  | _ => false

/-- The action commits or rolls back a variable. -/
def Action.isFinalize : Action → Bool
  | .finalize _ _ => true
  | _ => false

/-- Scopes of this kind are arms of branching statements. -/
def ScopeKind.isArm : ScopeKind → Bool
  | .ifBranch | .elseBranch | .switchCase | .selectCase => true
  | _ => false

/-- The clauses of a construct are arms. -/
theorem ConstructKind.isArm_clauseKind (kind : ConstructKind) : kind.clauseKind.isArm = true := by
  cases kind <;> rfl

/-- What a flow describes. -/
inductive Shape where
  /-- Code that is read from its start to its end. -/
  | code
  /-- The arms of a branching statement from some arm on. -/
  | arms
deriving DecidableEq

/-- Code is not the arms of a statement. -/
theorem Shape.not_arms {p : Prop} (h : Shape.code = .arms) : p := by
  cases h

/-- The actions of reading a piece of code, with the structure of the code. -/
inductive Flow : Shape → Type where
  | skip : Flow .code
  | act (action : Action) (plain : action.isPlain = true) : Flow .code
  | seq (first second : Flow .code) : Flow .code
  | block (body : Flow .code) : Flow .code
  /-- A loop: its condition, and the body with all that runs in every iteration. -/
  | loop (head body : Flow .code) : Flow .code
  /-- An `if` statement: all that runs before the choice, the names that the condition mentions,
  the consequence, and the alternative, if there is one. -/
  | conditional (take : Bool) (head : Flow .code) (names : List String) (hasElse : Bool)
      (span : Span) (consequence : Flow .code) (alternative : Flow .arms) : Flow .code
  | clauses (kind : ConstructKind) (hasDefault : Bool) (span : Span) (arms : Flow .arms) :
      Flow .code
  | arguments (args : Flow .code) : Flow .code
  /-- A function literal; with a span, the one that the `go` statement there launches. -/
  | literal (launch : Option Span) (body : Flow .code) : Flow .code
  /-- The call of something else than a literal that the `go` statement at `span` launches: the
  commit or rollback that the call may be, which runs elsewhere, and the expression that gives the
  called function. -/
  | launched (span : Span) (call : List Action)
      (finalizes : ∀ action ∈ call, action.isFinalize = true) (func : Flow .code) : Flow .code
  /-- A `defer` statement: the calls that it defers, and what it evaluates at once. -/
  | deferral (calls : List Action) (deferred : ∀ action ∈ calls, action.isDeferCall = true)
      (evaluated : Flow .code) : Flow .code
  /-- A `defer` statement that calls a function literal. -/
  | deferredLiteral (evaluated body : Flow .code) : Flow .code
  /-- A `break`, `continue`, `goto` or `fallthrough`. -/
  | jump : Flow .code
  | noArm : Flow .arms
  | arm (kind : ScopeKind) (isArm : kind.isArm = true) (body : Flow .code) (rest : Flow .arms) :
      Flow .arms

variable {action : Action}

theorem Action.isPlain_of_isFinalize (h : action.isFinalize = true) : action.isPlain = true := by
  cases action <;> first | rfl | cases h

namespace Flow

/-- The body that a literal opens. -/
def literalKind : Option Span → BodyKind
  | none => .closure
  | some span => .goroutine span

/-- The flat list of actions. -/
def actions : {shape : Shape} → Flow shape → List Action
  | _, .skip => []
  | _, .act action _ => [action]
  | _, .seq first second => first.actions ++ second.actions
  | _, .block body => .enter .block :: body.actions ++ [.leave]
  | _, .loop head body => head.actions ++ .enter .loopBody :: body.actions ++ [.leave]
  | _, .conditional take head names hasElse span consequence alternative =>
    .holdGuards take :: head.actions
      ++ .openGuard names :: .openConstruct .conditional hasElse span :: .enterArm .ifBranch
      :: consequence.actions ++ .leave :: .closeGuard :: alternative.actions ++ [.closeConstruct]
  | _, .clauses kind hasDefault span arms =>
    .openConstruct kind hasDefault span :: arms.actions ++ [.closeConstruct]
  | _, .arguments args => .openArgs :: args.actions ++ [.closeArgs]
  | _, .literal launch body => .openBody (literalKind launch) :: body.actions ++ [.closeBody]
  | _, .launched span call _ func =>
    .openBody (.goroutine span) :: call ++ func.actions ++ [.closeBody]
  | _, .deferral calls _ evaluated => .addDefer :: calls ++ evaluated.actions
  | _, .deferredLiteral evaluated body =>
    .addDefer :: evaluated.actions ++ .openBody .deferred :: body.actions ++ [.closeBody]
  | _, .jump => []
  | _, .noArm => []
  | _, .arm kind _ body rest => .enterArm kind :: body.actions ++ .leave :: rest.actions

/-- Plain actions one after the other. -/
def acts : (list : List Action) → (∀ action ∈ list, action.isPlain = true) → Flow .code
  | [], _ => .skip
  | action :: rest, plain =>
    .seq (.act action (plain action (by simp))) (acts rest fun a h => plain a (by simp [h]))

/-- The actions of a list of plain actions. -/
@[simp]
theorem actions_acts (list : List Action) (plain : ∀ action ∈ list, action.isPlain = true) :
    (acts list plain).actions = list := by
  induction list with
  | nil => rfl
  | cons action rest ih => simp [acts, actions, ih]

/-- The start of every statement: it is counted, and later events point at it. -/
def begin (span : Span) : Flow .code :=
  acts [.count, .setSpan span] (by simp [Action.isPlain])

/-- The actions at the start of a statement. -/
@[simp]
theorem actions_begin (span : Span) : (begin span).actions = [.count, .setSpan span] :=
  actions_acts _ _

end Flow

/-! ## Small lists of plain actions -/

theorem eq_declare_of_mem_paramActions {params : List Param} (h : action ∈ paramActions params) :
    ∃ name, action = .declare name := by
  obtain ⟨param, -, hparam⟩ := List.mem_flatMap.mp h
  unfold Param.actions at hparam
  split at hparam
  · split at hparam
    · cases hparam
    · exact ⟨_, List.mem_singleton.mp hparam⟩
  · cases hparam

/-- Declarations of parameters are plain. -/
theorem paramActions_plain (params : List Param) :
    ∀ action ∈ paramActions params, action.isPlain = true := by
  intro action haction
  obtain ⟨name, rfl⟩ := eq_declare_of_mem_paramActions haction
  rfl

theorem eq_declare_of_mem_declareActions {targets : List Expr}
    (h : action ∈ declareActions targets) : ∃ name, action = .declare name := by
  obtain ⟨target, -, htarget⟩ := List.mem_filterMap.mp h
  obtain ⟨name, -, rfl⟩ := Option.map_eq_some_iff.mp htarget
  exact ⟨name, rfl⟩

/-- Declarations of plain locals are plain. -/
theorem declareActions_plain (targets : List Expr) :
    ∀ action ∈ declareActions targets, action.isPlain = true := by
  intro action haction
  obtain ⟨name, rfl⟩ := eq_declare_of_mem_declareActions haction
  rfl

namespace Recognizers

theorem eq_acquire_of_mem_acquireActions {targets : List Expr} {kind : AcquisitionKind}
    {span : Span} {declares : Bool} {action : Action}
    (h : action ∈ acquireActions targets kind span declares) :
    ∃ name errVar, action = .acquire name errVar span declares := by
  unfold acquireActions at h
  split at h
  · split at h
    · cases h
    · exact ⟨_, _, List.mem_singleton.mp h⟩
  · cases h

theorem acquireActions_plain (targets : List Expr) (kind : AcquisitionKind) (span : Span)
    (declares : Bool) :
    ∀ action ∈ acquireActions targets kind span declares, action.isPlain = true := by
  intro action haction
  obtain ⟨name, errVar, rfl⟩ := eq_acquire_of_mem_acquireActions haction
  rfl

/-- After its right sides a declaration acquires into its first target, and declares others. -/
theorem cases_of_mem_declarationActions {names : Recognizers} {targets right : List Expr}
    {span : Span} {action : Action} (h : action ∈ names.declarationActions targets right span) :
    (∃ kind, names.acquisitionOf right = some kind ∧
      action ∈ acquireActions targets kind span true) ∨ ∃ name, action = .declare name := by
  unfold declarationActions at h
  split at h
  · rename_i kind hkind
    exact (List.mem_append.mp h).imp (fun h => ⟨kind, hkind, h⟩) eq_declare_of_mem_declareActions
  · exact Or.inr (eq_declare_of_mem_declareActions h)

theorem declarationActions_plain (names : Recognizers) (targets right : List Expr) (span : Span) :
    ∀ action ∈ names.declarationActions targets right span, action.isPlain = true := by
  intro action haction
  rcases cases_of_mem_declarationActions haction with ⟨kind, -, h⟩ | ⟨name, rfl⟩
  · exact acquireActions_plain _ _ _ _ action h
  · rfl

/-- The commit or rollback of a call is one. -/
theorem finalizeActions_isFinalize (names : Recognizers) (call : Expr) :
    ∀ action ∈ names.finalizeActions call, action.isFinalize = true := by
  intro action haction
  unfold finalizeActions at haction
  split at haction
  · split at haction
    · rw [List.mem_singleton.mp haction]
      rfl
    · split at haction
      · rw [List.mem_singleton.mp haction]
        rfl
      · cases haction
  · cases haction

theorem finalizeActions_plain (names : Recognizers) (call : Expr) :
    ∀ action ∈ names.finalizeActions call, action.isPlain = true := fun action haction =>
  Action.isPlain_of_isFinalize (names.finalizeActions_isFinalize call action haction)

theorem delegateActions_plain (names : Recognizers) (call : Expr) :
    ∀ action ∈ names.delegateActions call, action.isPlain = true := by
  intro action haction
  unfold delegateActions at haction
  split at haction
  · rw [List.mem_singleton.mp haction]
    rfl
  · cases haction

theorem abortActions_plain (names : Recognizers) (call : Expr) :
    ∀ action ∈ names.abortActions call, action.isPlain = true := by
  intro action haction
  unfold abortActions at haction
  split at haction
  · rw [List.mem_singleton.mp haction]
    rfl
  · cases haction

/-- What a deferred call takes care of consists of deferred calls. -/
theorem deferActions_isDeferCall (names : Recognizers) (call : Expr) :
    ∀ action ∈ names.deferActions call, action.isDeferCall = true := by
  intro action haction
  unfold deferActions at haction
  split at haction
  · rw [List.mem_singleton.mp haction]
    rfl
  · cases haction
  · obtain ⟨name, -, rfl⟩ := List.mem_map.mp haction
    rfl

end Recognizers

theorem storeActions_plain (left right : List Expr) (stop : Nat) :
    ∀ action ∈ storeActions left right stop, action.isPlain = true := by
  intro action haction
  obtain ⟨⟨target, value⟩, -, hstore⟩ := List.mem_filterMap.mp haction
  split at hstore
  · cases hstore
    rfl
  · cases hstore

theorem captureActions_plain (args : List Expr) (span : Span) :
    ∀ action ∈ captureActions args span, action.isPlain = true := by
  intro action haction
  obtain ⟨name, -, rfl⟩ := List.mem_map.mp haction
  rfl

/-! ## The flow of syntax trees -/

open TxLifecycle.Flow in
mutual

/-- The flow of an expression. -/
def Expr.flow (names : Recognizers) : Expr → Flow .code
  | .ident name span => .act (.mention name span) rfl
  | .call func args span =>
    .seq (acts _ (names.finalizeActions_plain (.call func args span)))
      (.seq (acts _ (names.delegateActions_plain (.call func args span)))
        (.seq (func.flow names)
          (.seq (.arguments (exprsFlow names args))
            (acts _ (names.abortActions_plain (.call func args span))))))
  | .selector operand _ _ => operand.flow names
  | .funcLit params ⟨stmts, _⟩ _ =>
    .literal none (.seq (acts _ (paramActions_plain params)) (stmtsFlow names stmts))
  | .composite elements _ => exprsFlow names elements
  | .keyValue key value _ =>
    .seq (if key.asIdent.isSome then .skip else key.flow names) (value.flow names)
  | .unary _ operand _ => operand.flow names
  | .literal _ => .skip
  | .other _ children _ => exprsFlow names children

/-- The flow of expressions one after the other. -/
def exprsFlow (names : Recognizers) : List Expr → Flow .code
  | [] => .skip
  | e :: es => .seq (e.flow names) (exprsFlow names es)

/-- The flow of the targets of an assignment. -/
def targetsFlow (names : Recognizers) : List Expr → Flow .code
  | [] => .skip
  | e :: es => .seq (if e.asIdent.isSome then .skip else e.flow names) (targetsFlow names es)

/-- The flow of an expression that may be absent. -/
def exprFlow? (names : Recognizers) : Option Expr → Flow .code
  | none => .skip
  | some e => e.flow names

/-- The flow of a statement that may be absent. -/
def stmtFlow? (names : Recognizers) : Option Stmt → Flow .code
  | none => .skip
  | some s => s.flow names

/-- The flow of a statement. -/
def Stmt.flow (names : Recognizers) : Stmt → Flow .code
  | .shortVarDecl left right span =>
    .seq (begin span)
      (.seq (exprsFlow names right) (acts _ (names.declarationActions_plain left right span)))
  | .varDecl declared values span =>
    .seq (begin span)
      (.seq (exprsFlow names values)
        (acts _ (names.declarationActions_plain (declared.map (.ident · span)) values span)))
  | .assign left right span =>
    .seq (begin span)
      (.seq (.act (.beginAssign (match left with | [e] => e.isBlank | _ => false)) rfl)
        (.seq (exprsFlow names right)
          (.seq (.act .endAssign rfl)
            (.seq (acts _ (storeActions_plain left right span.stop))
              (match names.acquisitionOf right with
                | some kind => acts _ (Recognizers.acquireActions_plain left kind span false)
                | none => targetsFlow names left)))))
  | .exprStmt e span => .seq (begin span) (e.flow names)
  | .returnStmt values span =>
    .seq (begin span)
      (.seq (.act (.handOut (Expr.handedOutBy values)) rfl)
        (.seq (exprsFlow names values) (.act (.exit .byReturn) rfl)))
  | .deferStmt call span =>
    .seq (begin span) (match call with
      | .call (.funcLit params ⟨stmts, _⟩ _) args _ =>
        .deferredLiteral (exprsFlow names args)
          (.seq (acts _ (paramActions_plain params)) (stmtsFlow names stmts))
      | .call func args callSpan =>
        .deferral _ (names.deferActions_isDeferCall (.call func args callSpan))
          (.seq (func.flow names) (exprsFlow names args))
      | e => .deferral [] (by simp) (e.flow names))
  | .goStmt call span =>
    .seq (begin span) (match call with
      | .call (.funcLit params ⟨stmts, _⟩ _) args _ =>
        .seq (acts _ (captureActions_plain args span))
          (.seq (exprsFlow names args)
            (.literal (some span)
              (.seq (acts _ (paramActions_plain params)) (stmtsFlow names stmts))))
      | .call func args callSpan =>
        .seq (acts _ (captureActions_plain args span))
          (.seq (exprsFlow names args)
            (.launched span _ (names.finalizeActions_isFinalize (.call func args callSpan))
              (func.flow names)))
      | e => e.flow names)
  | .ifStmt stmt => .seq (begin stmt.span) (stmt.flow names false .skip)
  | .forStmt init cond post ⟨stmts, _⟩ span =>
    .seq (begin span)
      (.seq (stmtFlow? names init)
        (.loop (exprFlow? names cond) (.seq (stmtsFlow names stmts) (stmtFlow? names post))))
  | .rangeStmt left declares right ⟨stmts, _⟩ span =>
    .seq (begin span)
      (.seq (right.flow names)
        (.loop .skip
          (.seq (if declares then acts _ (declareActions_plain left) else exprsFlow names left)
            (stmtsFlow names stmts))))
  | .switchStmt init tag cases span =>
    .seq (begin span)
      (.seq (stmtFlow? names init)
        (.seq (exprFlow? names tag)
          (.clauses .switch (cases.any (·.isDefault)) span (casesFlow names .switch cases))))
  | .selectStmt cases span =>
    .seq (begin span)
      (.clauses .select (cases.any (·.isDefault)) span (casesFlow names .select cases))
  | .block ⟨stmts, span⟩ => .seq (begin span) (.block (stmtsFlow names stmts))
  | .seq stmts span => .seq (begin span) (stmtsFlow names stmts)
  | .labeled _ stmt span => .seq (begin span) (stmt.flow names)
  | .incDec operand span => .seq (begin span) (operand.flow names)
  | .send channel value span =>
    .seq (begin span) (.seq (channel.flow names) (value.flow names))
  | .branch span => .seq (begin span) .jump
  | .empty span => begin span
  | .unsupported _ span => begin span

/-- The flow of a statement list. -/
def stmtsFlow (names : Recognizers) : List Stmt → Flow .code
  | [] => .skip
  | .ifStmt stmt :: rest =>
    .seq (stmt.flow names true (begin stmt.span)) (stmtsFlow names rest)
  | stmt :: rest => .seq (.act .dropGuards rfl) (.seq (stmt.flow names) (stmtsFlow names rest))

/-- The flow of an `if` statement that takes the waiting error checks where `take` says so and
whose own flow comes after `lead`. -/
def IfStmt.flow (names : Recognizers) (take : Bool) (lead : Flow .code) : IfStmt → Flow .code
  | ⟨init, cond, ⟨stmts, _⟩, otherwise, span⟩ =>
    .conditional take
      (.seq lead
        (.seq
          (.seq (stmtFlow? names init)
            (if init.isSome then .act .collectGuards rfl else .skip))
          (.seq (.act (.setSpan span) rfl) (cond.flow names))))
      cond.mentioned otherwise.isSome span (stmtsFlow names stmts)
      (match otherwise with
        | none => .noArm
        | some (.block ⟨alternative, _⟩) =>
          .arm .elseBranch rfl (stmtsFlow names alternative) .noArm
        | some (.elseIf stmt) =>
          .arm .elseBranch rfl (.seq (.act .count rfl) (stmt.flow names false .skip)) .noArm)

/-- The flow of the clauses of a switch or select. -/
def casesFlow (names : Recognizers) (kind : ConstructKind) : List CaseClause → Flow .arms
  | [] => .noArm
  | ⟨_, values, comm, body, span⟩ :: rest =>
    .arm kind.clauseKind kind.isArm_clauseKind
      (.seq (.act (.setSpan span) rfl)
        (.seq (exprsFlow names values)
          (.seq (stmtFlow? names comm) (stmtsFlow names body))))
      (casesFlow names kind rest)

end

/-! ## The size of syntax trees -/

/-- The size of a piece of syntax. -/
structure Size where
  /-- The largest number of nodes that take a level on a way to a leaf. -/
  levels : Nat := 0
  /-- The number of statements, with the `if` statements that follow an `else`. -/
  statements : Nat := 0
  /-- The number of those that stand in targets that are not read. -/
  skipped : Recognizers → Nat := fun _ => 0

namespace Size

/-- The size of two pieces that stand side by side. -/
def and (s t : Size) : Size where
  levels := max s.levels t.levels
  statements := s.statements + t.statements
  skipped names := s.skipped names + t.skipped names

/-- The size of a node that takes a level, with what stands in it. -/
def inside (s : Size) : Size :=
  { s with levels := s.levels + 1 }

/-- The size of a statement, with what stands in it. -/
def counted (s : Size) : Size :=
  { s with statements := s.statements + 1 }

/-- The size of targets that are not read in some cases. -/
def unread (s : Size) (skips : Recognizers → Bool) : Size :=
  { s with skipped names := if skips names then s.statements else s.skipped names }

@[simp]
theorem zero_and (s : Size) : ({} : Size).and s = s := by
  simp [and]

@[simp]
theorem and_zero (s : Size) : s.and {} = s := by
  simp [and]

end Size

mutual

/-- The size of an expression. Every expression takes a level, but for keyed elements. -/
def Expr.size : Expr → Size
  | .ident _ _ | .literal _ => { levels := 1 }
  | .call func args _ => (func.size.and (exprsSize args)).inside
  | .selector operand _ _ | .unary _ operand _ => operand.size.inside
  | .funcLit _ ⟨stmts, _⟩ _ => (stmtsSize stmts).inside
  | .composite parts _ | .other _ parts _ => (exprsSize parts).inside
  | .keyValue key value _ => key.size.and value.size

def exprsSize : List Expr → Size
  | [] => {}
  | e :: es => e.size.and (exprsSize es)

def exprSize? : Option Expr → Size
  | none => {}
  | some e => e.size

def stmtSize? : Option Stmt → Size
  | none => {}
  | some s => s.size

/-- The size of a statement. Every statement takes a level, but for the specifications of a `var`.
Targets that are declared are not read, nor are those of an acquisition. -/
def Stmt.size : Stmt → Size
  | .shortVarDecl left right _ =>
    ((exprsSize right).and ((exprsSize left).unread fun _ => true)).inside.counted
  | .varDecl _ values _ => (exprsSize values).counted
  | .assign left right _ =>
    ((exprsSize right).and ((exprsSize left).unread fun names =>
      (names.acquisitionOf right).isSome)).inside.counted
  | .exprStmt e _ | .deferStmt e _ | .goStmt e _ | .incDec e _ => e.size.inside.counted
  | .returnStmt values _ => (exprsSize values).inside.counted
  | .ifStmt stmt => stmt.size.counted
  | .forStmt init cond post ⟨stmts, _⟩ _ =>
    ((stmtSize? init).and ((exprSize? cond).and
      ((stmtsSize stmts).and (stmtSize? post)))).inside.counted
  | .rangeStmt left declares right ⟨stmts, _⟩ _ =>
    (right.size.and (((exprsSize left).unread fun _ => declares).and
      (stmtsSize stmts))).inside.counted
  | .switchStmt init tag cases _ =>
    ((stmtSize? init).and ((exprSize? tag).and (casesSize cases))).inside.counted
  | .selectStmt cases _ => (casesSize cases).inside.counted
  | .block ⟨stmts, _⟩ | .seq stmts _ => (stmtsSize stmts).inside.counted
  | .labeled _ stmt _ => stmt.size.inside.counted
  | .send channel value _ => (channel.size.and value.size).inside.counted
  | .branch _ | .empty _ | .unsupported _ _ => ({} : Size).inside.counted

def stmtsSize : List Stmt → Size
  | [] => {}
  | stmt :: rest => stmt.size.and (stmtsSize rest)

/-- The size of what stands in an `if` statement, with the level that it takes. -/
def IfStmt.size : IfStmt → Size
  | ⟨init, cond, ⟨stmts, _⟩, otherwise, _⟩ =>
    (((stmtSize? init).and cond.size).and ((stmtsSize stmts).and (elseSize? otherwise))).inside

/-- An `if` statement that follows an `else` counts as another statement. -/
def elseSize? : Option Else → Size
  | none => {}
  | some (.block ⟨stmts, _⟩) => stmtsSize stmts
  | some (.elseIf stmt) => stmt.size.counted

def casesSize : List CaseClause → Size
  | [] => {}
  | ⟨_, values, comm, body, _⟩ :: rest =>
    ((exprsSize values).and ((stmtSize? comm).and (stmtsSize body))).and (casesSize rest)

end

/-- The size of a function. -/
def FunctionUnit.size (unit : FunctionUnit) : Size :=
  stmtsSize unit.body.stmts

/-! ## The flat list of the flow -/

/-- Reading what follows `else`. -/
def Else.actions (names : Recognizers) : Else → List Action
  | .block ⟨alternative, _⟩ => .enterArm .elseBranch :: stmtsActions names alternative ++ [.leave]
  | .elseIf stmt =>
    .enterArm .elseBranch :: .count :: .holdGuards false :: stmt.actions names ++ [.leave]

section Reading

/-! Reading statements with parts that may be absent. -/

variable {names : Recognizers} {init post comm : Option Stmt} {cond : Option Expr} {test : Expr}
  {values : List Expr} {stmts : List Stmt} {otherwise : Option Else} {cases : List CaseClause}
  {span place : Span}

theorem Stmt.actions_forStmt :
    Stmt.actions names (.forStmt init cond post ⟨stmts, place⟩ span) = .count :: .setSpan span
      :: init.elim [] (Stmt.actions names) ++ cond.elim [] (Expr.actions names)
      ++ .enter .loopBody :: stmtsActions names stmts ++ post.elim [] (Stmt.actions names)
      ++ [.leave] := by
  cases init <;> cases cond <;> cases post <;> rfl

theorem Stmt.actions_switchStmt :
    Stmt.actions names (.switchStmt init cond cases span) = .count :: .setSpan span
      :: init.elim [] (Stmt.actions names) ++ cond.elim [] (Expr.actions names)
      ++ .openConstruct .switch (cases.any (·.isDefault)) span
      :: casesActions names .switch cases ++ [.closeConstruct] := by
  cases init <;> cases cond <;> rfl

theorem IfStmt.actions_mk :
    IfStmt.actions names ⟨init, test, ⟨stmts, place⟩, otherwise, span⟩ =
      (init.elim [] fun s => s.actions names ++ [.collectGuards])
      ++ .setSpan span :: test.actions names ++ .openGuard test.mentioned
      :: .openConstruct .conditional otherwise.isSome span :: .enterArm .ifBranch
      :: stmtsActions names stmts ++ .leave :: .closeGuard
      :: otherwise.elim [] (Else.actions names) ++ [.closeConstruct] := by
  cases init <;> rcases otherwise with _ | (⟨⟨_, _⟩⟩ | _) <;> rfl

theorem casesActions_cons (kind : ConstructKind) (isDefault : Bool) :
    casesActions names kind (⟨isDefault, values, comm, stmts, span⟩ :: cases) =
      .enterArm kind.clauseKind :: .setSpan span :: exprsActions names values
      ++ comm.elim [] (Stmt.actions names) ++ stmtsActions names stmts
      ++ .leave :: casesActions names kind cases := by
  cases comm <;> rfl

end Reading

/-- The kinds of arms that the construct has once its statement is read. -/
def ConstructKind.Allows (kind : ConstructKind) (hasFallback : Bool) (arms : List ScopeKind) :
    Prop :=
  match kind with
  | .conditional => arms = .ifBranch :: if hasFallback then [.elseBranch] else []
  | .switch | .select => ∀ arm ∈ arms, arm = kind.clauseKind

namespace Flow

/-- The kinds of the arms that a flow adds to the innermost construct. -/
def armKinds : {shape : Shape} → Flow shape → List ScopeKind
  | _, .arm kind _ _ rest => kind :: rest.armKinds
  | _, _ => []

/-- Every branching statement of the flow has the arms that belong to it. -/
def Proper : {shape : Shape} → Flow shape → Prop
  | _, .seq first second => first.Proper ∧ second.Proper
  | _, .block body => body.Proper
  | _, .loop head body => head.Proper ∧ body.Proper
  | _, .conditional _ head _ hasElse _ consequence alternative =>
    head.Proper ∧ consequence.Proper ∧ alternative.Proper ∧
      alternative.armKinds = if hasElse then [.elseBranch] else []
  | _, .clauses kind hasDefault _ arms =>
    arms.Proper ∧ kind ≠ .conditional ∧ kind.Allows hasDefault arms.armKinds
  | _, .arguments args => args.Proper
  | _, .literal _ body => body.Proper
  | _, .launched _ _ _ func => func.Proper
  | _, .deferral _ _ evaluated => evaluated.Proper
  | _, .deferredLiteral evaluated body => evaluated.Proper ∧ body.Proper
  | _, .arm _ _ body rest => body.Proper ∧ rest.Proper
  | _, _ => True

/-- How many scopes of the flow are open at once. -/
def levels : {shape : Shape} → Flow shape → Nat
  | _, .seq first second => max first.levels second.levels
  | _, .block body => body.levels + 1
  | _, .loop head body => max head.levels (body.levels + 1)
  | _, .conditional _ head _ _ _ consequence alternative =>
    max head.levels (max (consequence.levels + 1) alternative.levels)
  | _, .clauses _ _ _ arms => arms.levels
  | _, .arguments args => args.levels
  | _, .literal _ body => body.levels + 1
  | _, .launched _ _ _ func => func.levels + 1
  | _, .deferral _ _ evaluated => evaluated.levels
  | _, .deferredLiteral evaluated body => max evaluated.levels (body.levels + 1)
  | _, .arm _ _ body rest => max (body.levels + 1) rest.levels
  | _, _ => 0

/-- One piece of code after the other. -/
theorem actions_seq {first second : Flow .code} {a b : List Action} (hfirst : first.actions = a)
    (hsecond : second.actions = b) : (seq first second).actions = a ++ b := by
  rw [actions, hfirst, hsecond]

/-- The flow has the actions and the arms that belong to its statements. It has at most `k` scopes
more open at once than the syntax has levels, and counts the statements that are read. -/
structure Spells (names : Recognizers) (k : Nat) {shape : Shape} (flow : Flow shape) (s : Size)
    (list : List Action) : Prop where
  actions : flow.actions = list
  proper : flow.Proper
  levels : flow.levels ≤ s.levels + k
  counts : list.count .count + s.skipped names = s.statements

/-! The flows of which syntax trees are made, with the actions as reading the trees lists them. -/

namespace Spells

variable {names : Recognizers} {k : Nat} {shape : Shape} {flow : Flow shape}
  {first second : Flow .code} {arms : Flow .arms} {s t u : Size} {a b c : List Action}
  {kind : ScopeKind} {span : Span}

/-- A node that takes a level makes up for a scope. -/
theorem inside (h : flow.Spells names k s a) (hlist : a = b := by rfl)
    (hk : k ≤ 1 := by decide) : flow.Spells names 0 s.inside b :=
  hlist ▸ ⟨h.actions, h.proper, Nat.le_trans h.levels (Nat.add_le_add_left hk _), h.counts⟩

theorem skip : Flow.skip.Spells names 0 {} [] :=
  ⟨rfl, trivial, Nat.le_refl 0, rfl⟩

theorem jump : Flow.jump.Spells names 0 {} [] :=
  ⟨rfl, trivial, Nat.le_refl 0, rfl⟩

theorem noArm : Flow.noArm.Spells names 1 {} [] :=
  ⟨rfl, trivial, Nat.zero_le 1, rfl⟩

theorem act {action : Action} {plain : action.isPlain = true}
    (haction : action ≠ .count := by simp) : (Flow.act action plain).Spells names 0 {} [action] :=
  ⟨rfl, trivial, Nat.le_refl 0, List.count_eq_zero.mpr (by simpa using haction.symm)⟩

theorem seq (h : first.Spells names 0 s a) (h' : second.Spells names k t b) :
    (Flow.seq first second).Spells names k (s.and t) (a ++ b) := by
  have hlevels := h.levels
  have hlevels' := h'.levels
  have hcounts := h.counts
  have hcounts' := h'.counts
  refine ⟨actions_seq h.actions h'.actions, ⟨h.proper, h'.proper⟩, ?_, ?_⟩ <;>
  · simp only [Size.and, Flow.levels, List.count_append]
    omega

/-- Something that is no syntax of its own, before a piece of code or behind it. -/
theorem lead (h : second.Spells names k s b) (hlead : first.Spells names 0 {} a) :
    (Flow.seq first second).Spells names k s (a ++ b) := by
  simpa using hlead.seq h

theorem trail (h : first.Spells names 0 s a) (htrail : second.Spells names 0 {} b) :
    (Flow.seq first second).Spells names 0 s (a ++ b) := by
  simpa using h.seq htrail

theorem acts {list : List Action} {plain : ∀ action ∈ list, action.isPlain = true}
    (hlist : .count ∉ list) : (Flow.acts list plain).Spells names 0 {} list := by
  induction list with
  | nil => exact skip
  | cons action rest ih =>
    obtain ⟨hne, hrest⟩ := not_or.mp (mt List.mem_cons.mpr hlist)
    exact (ih hrest).lead (act (Ne.symm hne))

/-- Targets may not be read. -/
theorem unread {skips : Recognizers → Bool} (h : flow.Spells names 0 {} a)
    (hskips : skips names = true) : flow.Spells names 0 (s.unread skips) a :=
  ⟨h.actions, h.proper, Nat.le_trans h.levels (Nat.zero_le _), by
    simpa [Size.unread, hskips] using h.counts⟩

theorem read {skips : Recognizers → Bool} (h : flow.Spells names 0 s a)
    (hskips : skips names = false) : flow.Spells names 0 (s.unread skips) a :=
  ⟨h.actions, h.proper, h.levels, by simpa [Size.unread, hskips] using h.counts⟩

theorem arguments (h : first.Spells names k s a) :
    (Flow.arguments first).Spells names k s (.openArgs :: a ++ [.closeArgs]) :=
  ⟨by simp [Flow.actions, h.actions], h.proper, h.levels, by simpa using h.counts⟩

theorem block (h : first.Spells names 0 s a) :
    (Flow.block first).Spells names 1 s (.enter .block :: a ++ [.leave]) :=
  ⟨by simp [Flow.actions, h.actions], h.proper, Nat.succ_le_succ h.levels, by simpa using h.counts⟩

theorem literal {launch : Option Span} (h : first.Spells names 0 s a) :
    (Flow.literal launch first).Spells names 1 s
      (.openBody (literalKind launch) :: a ++ [.closeBody]) :=
  ⟨by simp [Flow.actions, h.actions], h.proper, Nat.succ_le_succ h.levels, by simpa using h.counts⟩

theorem launched {call : List Action} {finalizes : ∀ x ∈ call, x.isFinalize = true}
    (h : first.Spells names 0 s a) : (Flow.launched span call finalizes first).Spells names 1 s
      (.openBody (.goroutine span) :: call ++ a ++ [.closeBody]) := by
  have hcall : call.count .count = 0 := List.count_eq_zero.mpr fun h => by cases finalizes _ h
  exact ⟨by simp [Flow.actions, h.actions], h.proper, Nat.succ_le_succ h.levels, by
    simpa [hcall] using h.counts⟩

theorem deferral {calls : List Action} {deferred : ∀ x ∈ calls, x.isDeferCall = true}
    (h : first.Spells names k s a) :
    (Flow.deferral calls deferred first).Spells names k s (.addDefer :: calls ++ a) := by
  have hcalls : calls.count .count = 0 := List.count_eq_zero.mpr fun h => by cases deferred _ h
  exact ⟨by simp [Flow.actions, h.actions], h.proper, h.levels, by simpa [hcalls] using h.counts⟩

theorem loop (h : first.Spells names 0 s a) (h' : second.Spells names 0 t b) :
    (Flow.loop first second).Spells names 1 (s.and t)
      (a ++ .enter .loopBody :: b ++ [.leave]) :=
  ⟨by simp [Flow.actions, h.actions, h'.actions], ⟨h.proper, h'.proper⟩, (h.seq h'.block).levels,
    by simpa using (h.seq h').counts⟩

theorem deferredLiteral (h : first.Spells names 0 s a) (h' : second.Spells names 0 t b) :
    (Flow.deferredLiteral first second).Spells names 1 (s.and t)
      (.addDefer :: a ++ .openBody .deferred :: b ++ [.closeBody]) :=
  ⟨by simp [Flow.actions, h.actions, h'.actions], ⟨h.proper, h'.proper⟩, (h.seq h'.block).levels,
    by simpa using (h.seq h').counts⟩

theorem arm {isArm : kind.isArm = true} (h : first.Spells names 0 s a)
    (h' : arms.Spells names 1 t b) (hlist : a = c := by rfl) :
    (Flow.arm kind isArm first arms).Spells names 1 (s.and t)
      (.enterArm kind :: c ++ .leave :: b) := by
  subst hlist
  have hlevels := h.levels
  have hlevels' := h'.levels
  have hcounts := h.counts
  have hcounts' := h'.counts
  refine ⟨by simp [Flow.actions, h.actions, h'.actions], ⟨h.proper, h'.proper⟩, ?_, ?_⟩
  · simp only [Size.and, Flow.levels]
    omega
  · simp [Size.and]
    omega

theorem lastArm {isArm : kind.isArm = true} (h : first.Spells names 0 s a) :
    (Flow.arm kind isArm first .noArm).Spells names 1 s (.enterArm kind :: a ++ [.leave]) := by
  simpa using h.arm noArm

theorem clauses {kind : ConstructKind} {hasDefault : Bool} (h : arms.Spells names k s a)
    (hkind : kind ≠ .conditional) (hkinds : ∀ arm ∈ arms.armKinds, arm = kind.clauseKind) :
    (Flow.clauses kind hasDefault span arms).Spells names k s
      (.openConstruct kind hasDefault span :: a ++ [.closeConstruct]) := by
  refine ⟨by simp [Flow.actions, h.actions], ⟨h.proper, hkind, ?_⟩, h.levels, by
    simpa using h.counts⟩
  cases kind with
  | conditional => exact absurd rfl hkind
  | switch | select => exact hkinds

/-- An `if` statement takes a level, which is not that of what leads to it. -/
theorem conditional {take hasElse : Bool} {mentioned : List String} {n : Nat} {lead : Flow .code}
    {l : List Action} (hlead : lead.Spells names 0 { statements := n } l)
    (h : first.Spells names 0 s a) (hthen : second.Spells names 0 t b)
    (helse : arms.Spells names 1 u c)
    (hkinds : arms.armKinds = if hasElse then [.elseBranch] else []) :
    (Flow.conditional take (Flow.seq lead first) mentioned hasElse span second arms).Spells names 0
      { (s.and (t.and u)).inside with statements := (s.and (t.and u)).statements + n }
      (.holdGuards take :: l ++ (a ++ .openGuard mentioned
        :: .openConstruct .conditional hasElse span :: .enterArm .ifBranch :: b
        ++ .leave :: .closeGuard :: c ++ [.closeConstruct])) := by
  have hhead := hlead.seq h
  have harms : (Flow.arm .ifBranch rfl second arms).Spells names 1 _ _ := hthen.arm helse
  obtain ⟨hlevels, hcounts⟩ := And.intro hhead.levels hhead.counts
  obtain ⟨hlevels', hcounts'⟩ := And.intro harms.levels harms.counts
  refine ⟨by simp [Flow.actions, hlead.actions, h.actions, hthen.actions, helse.actions],
    ⟨hhead.proper, hthen.proper, helse.proper, hkinds⟩, ?_, ?_⟩
  · simp only [Size.and, Size.inside, Flow.levels] at *
    omega
  · simp [Size.and, Size.inside] at *
    omega

/-- A call on a statement of its own, of which the arguments are read first. -/
theorem call (h : flow.Spells names 1 (s.and t) a) (hu : u = t ∨ u = t.inside) (hlist : a = b) :
    flow.Spells names 0 (u.and s).inside b := by
  have hlevels := h.levels
  have hcounts := h.counts
  refine hlist ▸ ⟨h.actions, h.proper, ?_, ?_⟩ <;>
  · rcases hu with rfl | rfl <;>
    · simp only [Size.and, Size.inside] at *
      omega

theorem counted (h : second.Spells names 0 s b)
    (hlead : first.Spells names 0 { statements := 1 } a) :
    (Flow.seq first second).Spells names 0 s.counted (a ++ b) := by
  simpa [Size.and, Size.counted, Nat.add_comm] using hlead.seq h

theorem count : (Flow.act .count rfl).Spells names 0 { statements := 1 } [.count] :=
  ⟨rfl, trivial, Nat.le_refl 0, rfl⟩

theorem begin : (Flow.begin span).Spells names 0 { statements := 1 } [.count, .setSpan span] :=
  (skip.lead act).counted count

/-- A statement is counted at its start. -/
theorem statement (h : first.Spells names 0 s a) (hlist : a = b := by rfl) :
    (Flow.seq (Flow.begin span) first).Spells names 0 s.counted (.count :: .setSpan span :: b) :=
  hlist ▸ h.counted begin

end Spells

end Flow

section Spelling

open TxLifecycle.Flow TxLifecycle.Flow.Spells

variable (names : Recognizers)

theorem spells_params (params : List Param) :
    (Flow.acts _ (paramActions_plain params)).Spells names 0 {} (paramActions params) := by
  refine .acts fun h => ?_
  obtain ⟨_, h⟩ := eq_declare_of_mem_paramActions h
  cases h

theorem spells_declare (targets : List Expr) :
    (Flow.acts _ (declareActions_plain targets)).Spells names 0 {} (declareActions targets) := by
  refine .acts fun h => ?_
  obtain ⟨_, h⟩ := eq_declare_of_mem_declareActions h
  cases h

theorem spells_acquire (targets : List Expr) (kind : AcquisitionKind) (span : Span)
    (declares : Bool) :
    (Flow.acts _ (Recognizers.acquireActions_plain targets kind span declares)).Spells names 0 {}
      (Recognizers.acquireActions targets kind span declares) := by
  refine .acts fun h => ?_
  obtain ⟨_, _, h⟩ := Recognizers.eq_acquire_of_mem_acquireActions h
  cases h

theorem spells_declaration (targets right : List Expr) (span : Span) :
    (Flow.acts _ (names.declarationActions_plain targets right span)).Spells names 0 {}
      (names.declarationActions targets right span) := by
  refine .acts fun h => ?_
  rcases Recognizers.cases_of_mem_declarationActions h with ⟨kind, -, h⟩ | ⟨_, h⟩
  · obtain ⟨_, _, h⟩ := Recognizers.eq_acquire_of_mem_acquireActions h
    cases h
  · cases h

/-- A name is not read where it is a target or a key. -/
theorem spells_unlessIdent {e : Expr}
    (h : (e.flow names).Spells names 0 e.size (e.actions names)) :
    (if e.asIdent.isSome then .skip else e.flow names).Spells names 0 e.size
      (if e.asIdent.isSome then [] else e.actions names) := by
  cases e with
  | ident => exact skip.inside
  | _ => exact h

/-- What a call does itself, around its function and its arguments. -/
theorem spells_call {func : Expr} {args : List Expr} {span : Span}
    (hfunc : (func.flow names).Spells names 0 func.size (func.actions names))
    (hargs : (exprsFlow names args).Spells names 0 (exprsSize args) (exprsActions names args)) :
    ((Expr.call func args span).flow names).Spells names 0 (Expr.call func args span).size
      ((Expr.call func args span).actions names) := by
  have hfinalize : .count ∉ names.finalizeActions (.call func args span) := fun h => by
    cases names.finalizeActions_isFinalize _ _ h
  have hdelegate : .count ∉ names.delegateActions (.call func args span) := by
    unfold Recognizers.delegateActions
    split <;> simp
  have habort : .count ∉ names.abortActions (.call func args span) := by
    unfold Recognizers.abortActions
    split <;> simp
  exact (((hfunc.seq (hargs.arguments.trail (.acts habort))).lead (.acts hdelegate)).lead
    (.acts hfinalize)).inside (by simp [Expr.actions])

mutual

/-- The flow of an expression spells what reading it does. -/
theorem Expr.spells : ∀ e : Expr, (e.flow names).Spells names 0 e.size (e.actions names)
  | .ident _ _ => (Spells.act).inside
  | .literal _ => skip.inside
  | .call func args _ => spells_call names func.spells (exprs_spell args)
  | .selector e _ _ | .unary _ e _ => e.spells.inside
  | .funcLit params ⟨stmts, _⟩ _ =>
    ((stmts_spell stmts).lead (spells_params names params)).literal.inside
  | .composite es _ | .other _ es _ => (exprs_spell es).inside
  | .keyValue key value _ => (spells_unlessIdent names key.spells).seq value.spells

theorem exprs_spell : ∀ es : List Expr,
    (exprsFlow names es).Spells names 0 (exprsSize es) (exprsActions names es)
  | [] => skip
  | e :: es => e.spells.seq (exprs_spell es)

theorem targets_spell : ∀ es : List Expr,
    (targetsFlow names es).Spells names 0 (exprsSize es) (targetsActions names es)
  | [] => skip
  | e :: es => (spells_unlessIdent names e.spells).seq (targets_spell es)

/-- An expression that may be absent. -/
theorem expr?_spells : ∀ e? : Option Expr,
    (exprFlow? names e?).Spells names 0 (exprSize? e?) (e?.elim [] (Expr.actions names))
  | none => skip
  | some e => e.spells

theorem stmt?_spells : ∀ s? : Option Stmt,
    (stmtFlow? names s?).Spells names 0 (stmtSize? s?) (s?.elim [] (Stmt.actions names))
  | none => skip
  | some s => s.spells

/-- The flow of a statement. -/
theorem Stmt.spells : ∀ s : Stmt, (s.flow names).Spells names 0 s.size (s.actions names)
  | .shortVarDecl left right span =>
    ((exprs_spell right).seq
      ((spells_declaration names left right span).unread rfl)).inside.statement
  | .varDecl declared values span =>
    ((exprs_spell values).trail (spells_declaration names _ values span)).statement
  | .assign left right span => by
    have hstore : .count ∉ storeActions left right span.stop := by
      intro h
      obtain ⟨⟨_, _⟩, -, h⟩ := List.mem_filterMap.mp h
      split at h <;> cases h
    have hassign := fun blank rest => (List.append_assoc
      (.beginAssign blank :: exprsActions names right)
      (.endAssign :: storeActions left right span.stop) rest).symm
    refine .statement (.inside (k := 0) (.lead (.seq (exprs_spell right)
      (.lead (.lead ?_ (.acts hstore)) act)) act)) (hassign _ _)
    cases hkind : names.acquisitionOf right with
    | some kind => exact (spells_acquire names left kind span false).unread (congrArg _ hkind)
    | none => exact (targets_spell left).read (congrArg _ hkind)
  | .exprStmt e _ | .incDec e _ => e.spells.inside.statement
  | .returnStmt values _ => (((exprs_spell values).trail act).lead act).inside.statement
  | .deferStmt call span => by
    -- neither reading unfolds before it is known what is called
    have hcall := call.spells
    cases call with
    | call func args place =>
      have hargs := exprs_spell args
      have hfunc := func.spells
      cases func with
      | funcLit params body place' =>
        obtain ⟨stmts, place''⟩ := body
        exact ((hargs.deferredLiteral ((stmts_spell stmts).lead (spells_params names params))).call
          (.inr rfl) rfl).inside.statement (by simp)
      | _ => exact (hfunc.seq hargs).deferral.inside.inside.statement (by simp)
    | _ => exact hcall.deferral.inside.statement
  | .goStmt call span => by
    have hcall := call.spells
    cases call with
    | call func args place =>
      have hargs := exprs_spell args
      have hfunc := func.spells
      have hcapture : .count ∉ captureActions args span := by simp [captureActions]
      cases func with
      | funcLit params body place' =>
        obtain ⟨stmts, place''⟩ := body
        exact (((hargs.seq ((stmts_spell stmts).lead (spells_params names params)).literal).lead
          (.acts hcapture)).call (.inr rfl) rfl).inside.statement (by simp [literalKind])
      | _ =>
        exact (((hargs.seq hfunc.launched).lead (.acts hcapture)).call (.inl rfl)
          rfl).inside.statement (by simp)
    | _ => exact hcall.inside.statement
  | .ifStmt stmt => (stmt.spells false skip).statement
  | .forStmt init cond post ⟨stmts, _⟩ span => by
    rw [Stmt.actions_forStmt]
    exact ((stmt?_spells init).seq ((expr?_spells cond).loop
      ((stmts_spell stmts).seq (stmt?_spells post)))).inside.statement (by simp)
  | .rangeStmt left declares right ⟨stmts, _⟩ span => by
    have hleft : (if declares then Flow.acts _ (declareActions_plain left)
        else exprsFlow names left).Spells names 0 ((exprsSize left).unread fun _ => declares)
        (if declares then declareActions left else exprsActions names left) := by
      cases declares with
      | false => exact (exprs_spell left).read rfl
      | true => exact (spells_declare names left).unread rfl
    have hloop := skip.loop (hleft.seq (stmts_spell stmts))
    rw [Size.zero_and] at hloop
    exact (right.spells.seq hloop).inside.statement (by simp)
  | .switchStmt init tag arms span => by
    obtain ⟨harms, hkinds⟩ := cases_spell .switch arms
    rw [Stmt.actions_switchStmt]
    exact ((stmt?_spells init).seq ((expr?_spells tag).seq
      (harms.clauses (by decide) hkinds))).inside.statement (by simp)
  | .selectStmt cases span => by
    obtain ⟨harms, hkinds⟩ := cases_spell .select cases
    exact (harms.clauses (by decide) hkinds).inside.statement
  | .block ⟨stmts, _⟩ => (stmts_spell stmts).block.inside.statement
  | .seq stmts _ => (stmts_spell stmts).inside.statement
  | .labeled _ stmt _ => stmt.spells.inside.statement
  | .send channel value _ => (channel.spells.seq value.spells).inside.statement
  | .branch _ => jump.inside.statement
  | .empty _ | .unsupported _ _ => begin.inside

theorem stmts_spell : ∀ stmts : List Stmt,
    (stmtsFlow names stmts).Spells names 0 (stmtsSize stmts) (stmtsActions names stmts)
  | [] => skip
  | stmt :: rest => by
    have hrest := stmts_spell rest
    have hstmt := stmt.spells
    cases stmt with
    | ifStmt stmt =>
      -- here the `if` takes the waiting checks, as it does not on its own
      exact (stmt.spells true begin).seq hrest
    | _ => exact (hstmt.seq hrest).lead act

/-- The flow of an `if` statement, with what leads to it. -/
theorem IfStmt.spells : ∀ (stmt : IfStmt) (take : Bool) {lead : Flow .code} {n : Nat}
    {a : List Action}, lead.Spells names 0 { statements := n } a →
    (stmt.flow names take lead).Spells names 0
      { stmt.size with statements := stmt.size.statements + n }
      (.holdGuards take :: a ++ stmt.actions names)
  | ⟨init, cond, ⟨stmts, _⟩, otherwise, span⟩, take, lead, n, a, hlead => by
    have hinit : (Flow.seq (stmtFlow? names init)
        (if init.isSome = true then .act .collectGuards rfl else .skip)).Spells names 0
        (stmtSize? init) (init.elim [] fun s => s.actions names ++ [.collectGuards]) := by
      cases init with
      | none => exact skip.seq skip
      | some s => exact s.spells.trail act
    have hcond := cond.spells
    have hstmts := stmts_spell stmts
    obtain ⟨helse, hkinds⟩ := else?_spells otherwise
    rw [IfStmt.actions_mk]
    -- nor before it is known what follows `else`
    rcases otherwise with _ | (⟨⟨_, _⟩⟩ | _) <;>
      exact hlead.conditional (hinit.seq (hcond.lead .act)) hstmts helse hkinds

/-- An alternative that may be absent is the one arm of its flow. -/
theorem else?_spells : ∀ otherwise : Option Else,
    let alternative : Flow .arms := match otherwise with
      | none => .noArm
      | some (.block ⟨alternative, _⟩) => .arm .elseBranch rfl (stmtsFlow names alternative) .noArm
      | some (.elseIf stmt) =>
        .arm .elseBranch rfl (.seq (.act .count rfl) (stmt.flow names false .skip)) .noArm
    alternative.Spells names 1 (elseSize? otherwise) (otherwise.elim [] (Else.actions names)) ∧
      alternative.armKinds = if otherwise.isSome then [.elseBranch] else []
  | none => ⟨noArm, rfl⟩
  | some (.block ⟨alternative, _⟩) => ⟨(stmts_spell alternative).lastArm, rfl⟩
  | some (.elseIf stmt) => ⟨((stmt.spells false skip).counted count).lastArm, rfl⟩

/-- The clauses of a switch or select are of one kind. -/
theorem cases_spell (kind : ConstructKind) : ∀ cases : List CaseClause,
    (casesFlow names kind cases).Spells names 1 (casesSize cases)
        (casesActions names kind cases) ∧
      ∀ arm ∈ (casesFlow names kind cases).armKinds, arm = kind.clauseKind
  | [] => ⟨noArm, fun arm harm => by cases harm⟩
  | ⟨_, values, comm, body, span⟩ :: rest => by
    obtain ⟨hrest, hkinds⟩ := cases_spell kind rest
    refine ⟨?_, List.forall_mem_cons.mpr ⟨rfl, hkinds⟩⟩
    rw [casesActions_cons]
    exact (((exprs_spell values).seq ((stmt?_spells comm).seq (stmts_spell body))).lead .act).arm
      hrest (by simp)

end

end Spelling

section Reading

variable (names : Recognizers)

/-- Reading an expression is the flat list of its flow. -/
theorem Expr.flow_actions (e : Expr) : (e.flow names).actions = e.actions names :=
  (e.spells names).actions

theorem exprsFlow_actions (es : List Expr) :
    (exprsFlow names es).actions = exprsActions names es :=
  (exprs_spell names es).actions

theorem Stmt.flow_actions (s : Stmt) : (s.flow names).actions = s.actions names :=
  (s.spells names).actions

theorem stmtsFlow_actions (stmts : List Stmt) :
    (stmtsFlow names stmts).actions = stmtsActions names stmts :=
  (stmts_spell names stmts).actions

namespace FunctionUnit

variable (unit : FunctionUnit)

/-- The flow of a whole function: receiver, parameters, body. -/
def flow : Flow .code :=
  .seq (Flow.acts _ (paramActions_plain unit.receiver.toList))
    (.seq (Flow.acts _ (paramActions_plain unit.params)) (stmtsFlow names unit.body.stmts))

/-- The flow of a function spells what reading it does. -/
theorem spells : (unit.flow names).Spells names 0 unit.size (unit.actions names) := by
  have h := ((stmts_spell names unit.body.stmts).lead (spells_params names unit.params)).lead
    (spells_params names unit.receiver.toList)
  rwa [← List.append_assoc] at h

theorem proper : (unit.flow names).Proper :=
  (unit.spells names).proper

/-- Reading a function is the flat list of its flow. -/
theorem flow_actions : (unit.flow names).actions = unit.actions names :=
  (unit.spells names).actions

end FunctionUnit

end Reading

end TxLifecycle
