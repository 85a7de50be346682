import TxLifecycle.Syntax.Entrypoint
import TxLifecycle.Walk.Action

/-!
# Reading syntax as actions

The list of actions of every statement and expression, in the order in which Go evaluates them as
far as the analysis cares: right sides before targets, arguments after the called function.
-/

namespace TxLifecycle

/-- Declarations of the named parameters. -/
def Param.actions (param : Param) : List Action :=
  match param.name with
  | some name => if name == "_" then [] else [.declare name]
  | none => []

/-- Declarations of a list of parameters. -/
def paramActions (params : List Param) : List Action :=
  params.flatMap Param.actions

/-- Declarations of the names among the targets, the blank one left out. -/
def declareActions (targets : List Expr) : List Action :=
  targets.filterMap fun target =>
    (target.asIdent.filter (· != "_")).map Action.declare

namespace Recognizers

/-- How a statement with these right sides starts a transaction: only a single right side does. -/
def acquisitionOf (names : Recognizers) (right : List Expr) : Option AcquisitionKind :=
  match right with
  | [call] => names.acquisition call
  | _ => none

/-- The acquisition into the first target, where that is a name other than the blank one. -/
def acquireActions (targets : List Expr) (kind : AcquisitionKind) (span : Span)
    (declares : Bool) : List Action :=
  match targets.head?.bind Expr.asIdent with
  | some name =>
    if name == "_" then [] else [.acquire name (errorTarget targets kind) span declares]
  | none => []

/-- What `targets := right` or `var targets = right` does after its right sides were read: an
acquisition goes into the first target, and all other names become plain locals. -/
def declarationActions (names : Recognizers) (targets right : List Expr) (span : Span) :
    List Action :=
  match names.acquisitionOf right with
  | some kind => acquireActions targets kind span true ++ declareActions (targets.drop 1)
  | none => declareActions targets

/-- The commit or rollback of a method call on a variable. -/
def finalizeActions (names : Recognizers) (call : Expr) : List Action :=
  match call.methodCall with
  | some (.ident name _, method) =>
    if names.isCommit method then [.finalize name true]
    else if names.isRollback method then [.finalize name false]
    else []
  | _ => []

/-- The hand-over of arguments to a helper. -/
def delegateActions (names : Recognizers) (call : Expr) : List Action :=
  if names.isCallbackHelper call then [.delegate (call.callArgs.filterMap Expr.asIdent)] else []

def abortActions (names : Recognizers) (call : Expr) : List Action :=
  match names.abortKind call with
  | some kind => [.exit (.byAbort kind)]
  | none => []

/-- The variable a deferred call is given, directly or by its address. -/
def deferredArg : Expr → Option String
  | .unary "&" (.ident name _) _ => some name
  | .ident name _ => some name
  | _ => none

/-- What a deferred call takes care of: the receiver of a method call, else every variable among
the arguments. -/
def deferActions (names : Recognizers) (call : Expr) : List Action :=
  match call.methodCall with
  | some (.ident name _, method) => [.deferCall name (names.isCommit method)]
  | some _ => []
  | none => (call.callArgs.filterMap deferredArg).map (.deferCall · false)

end Recognizers

/-- Stores of variables into fields by an assignment that ends at `stop`. -/
def storeActions (left right : List Expr) (stop : Nat) : List Action :=
  (left.zip right).filterMap fun
    | (.selector _ _ _, .ident name _) => some (.storeField name stop)
    | _ => none

/-- Variables among the arguments of a launched call. -/
def captureActions (args : List Expr) (span : Span) : List Action :=
  (args.filterMap Expr.asIdent).map (.capture · span)

mutual

def Expr.actions (names : Recognizers) : Expr → List Action
  | .ident name span => [.mention name span]
  | .call func args span =>
    names.finalizeActions (.call func args span) ++ names.delegateActions (.call func args span)
      ++ func.actions names
      ++ .openArgs :: exprsActions names args ++ .closeArgs
      :: names.abortActions (.call func args span)
  | .selector operand _ _ => operand.actions names
  | .funcLit params ⟨stmts, _⟩ _ =>
    .openBody .closure :: paramActions params ++ stmtsActions names stmts ++ [.closeBody]
  | .composite elements _ => exprsActions names elements
  | .keyValue key value _ =>
    (if key.asIdent.isSome then [] else key.actions names) ++ value.actions names
  | .unary _ operand _ => operand.actions names
  | .literal _ => []
  | .other _ children _ => exprsActions names children

/-- Reading expressions one after the other. -/
def exprsActions (names : Recognizers) : List Expr → List Action
  | [] => []
  | e :: es => e.actions names ++ exprsActions names es

/-- Reading the targets of an assignment: a bare name is no mention. -/
def targetsActions (names : Recognizers) : List Expr → List Action
  | [] => []
  | e :: es =>
    (if e.asIdent.isSome then [] else e.actions names) ++ targetsActions names es

def Stmt.actions (names : Recognizers) : Stmt → List Action
  | .shortVarDecl left right span =>
    .count :: .setSpan span :: exprsActions names right
      ++ names.declarationActions left right span
  | .varDecl declared values span =>
    .count :: .setSpan span :: exprsActions names values
      ++ names.declarationActions (declared.map (.ident · span)) values span
  | .assign left right span =>
    .count :: .setSpan span :: .beginAssign (match left with | [e] => e.isBlank | _ => false)
      :: exprsActions names right ++ .endAssign :: storeActions left right span.stop
      ++ match names.acquisitionOf right with
        | some kind => Recognizers.acquireActions left kind span false
        | none => targetsActions names left
  | .exprStmt e span => .count :: .setSpan span :: e.actions names
  | .returnStmt values span =>
    .count :: .setSpan span :: .handOut (Expr.handedOutBy values)
      :: exprsActions names values ++ [.exit .byReturn]
  | .deferStmt call span =>
    .count :: .setSpan span :: .addDefer :: match call with
      | .call (.funcLit params ⟨stmts, _⟩ _) args _ =>
        exprsActions names args
          ++ .openBody .deferred :: paramActions params ++ stmtsActions names stmts
          ++ [.closeBody]
      | .call func args callSpan =>
        names.deferActions (.call func args callSpan) ++ func.actions names
          ++ exprsActions names args
      | e => e.actions names
  | .goStmt call span =>
    .count :: .setSpan span :: match call with
      | .call (.funcLit params ⟨stmts, _⟩ _) args _ =>
        captureActions args span ++ exprsActions names args
          ++ .openBody (.goroutine span) :: paramActions params ++ stmtsActions names stmts
          ++ [.closeBody]
      | .call func args callSpan =>
        captureActions args span ++ exprsActions names args
          ++ .openBody (.goroutine span) :: names.finalizeActions (.call func args callSpan)
          ++ func.actions names ++ [.closeBody]
      | e => e.actions names
  | .ifStmt stmt => .count :: .setSpan stmt.span :: .holdGuards false :: stmt.actions names
  | .forStmt init cond post ⟨stmts, _⟩ span =>
    .count :: .setSpan span
      :: (match init with | some s => s.actions names | none => [])
      ++ (match cond with | some e => e.actions names | none => [])
      ++ .enter .loopBody :: stmtsActions names stmts
      ++ (match post with | some s => s.actions names | none => [])
      ++ [.leave]
  | .rangeStmt left declares right ⟨stmts, _⟩ span =>
    .count :: .setSpan span :: right.actions names
      ++ .enter .loopBody
      :: (if declares then declareActions left else exprsActions names left)
      ++ stmtsActions names stmts ++ [.leave]
  | .switchStmt init tag cases span =>
    .count :: .setSpan span
      :: (match init with | some s => s.actions names | none => [])
      ++ (match tag with | some e => e.actions names | none => [])
      ++ .openConstruct .switch (cases.any (·.isDefault)) span
      :: casesActions names .switch cases ++ [.closeConstruct]
  | .selectStmt cases span =>
    .count :: .setSpan span :: .openConstruct .select (cases.any (·.isDefault)) span
      :: casesActions names .select cases ++ [.closeConstruct]
  | .block ⟨stmts, span⟩ =>
    .count :: .setSpan span :: .enter .block :: stmtsActions names stmts ++ [.leave]
  | .seq stmts span => .count :: .setSpan span :: stmtsActions names stmts
  | .labeled _ stmt span => .count :: .setSpan span :: stmt.actions names
  | .incDec operand span => .count :: .setSpan span :: operand.actions names
  | .send channel value span =>
    .count :: .setSpan span :: channel.actions names ++ value.actions names
  | .branch span => [.count, .setSpan span]
  | .empty span => [.count, .setSpan span]
  | .unsupported _ span => [.count, .setSpan span]

/-- Reading a statement list. An `if` statement takes the error checks that wait; any other
statement lets them lapse. -/
def stmtsActions (names : Recognizers) : List Stmt → List Action
  | [] => []
  | .ifStmt stmt :: rest =>
    .holdGuards true :: .count :: .setSpan stmt.span :: stmt.actions names
      ++ stmtsActions names rest
  | stmt :: rest => .dropGuards :: stmt.actions names ++ stmtsActions names rest

/-- Reading an `if` statement that has been counted and holds its waiting error checks. -/
def IfStmt.actions (names : Recognizers) : IfStmt → List Action
  | ⟨init, cond, ⟨stmts, _⟩, otherwise, span⟩ =>
    (match init with | some s => s.actions names ++ [.collectGuards] | none => [])
      ++ .setSpan span :: cond.actions names
      ++ .openGuard cond.mentioned
      :: .openConstruct .conditional otherwise.isSome span
      :: .enterArm .ifBranch :: stmtsActions names stmts
      ++ .leave :: .closeGuard
      :: (match otherwise with
        | none => []
        | some (.block ⟨alternative, _⟩) =>
          .enterArm .elseBranch :: stmtsActions names alternative ++ [.leave]
        | some (.elseIf stmt) =>
          .enterArm .elseBranch :: .count :: .holdGuards false :: stmt.actions names ++ [.leave])
      ++ [.closeConstruct]

/-- Reading the clauses of a switch or select. -/
def casesActions (names : Recognizers) (kind : ConstructKind) : List CaseClause → List Action
  | [] => []
  | ⟨_, values, comm, body, span⟩ :: rest =>
    .enterArm kind.clauseKind :: .setSpan span :: exprsActions names values
      ++ (match comm with | some s => s.actions names | none => [])
      ++ stmtsActions names body
      ++ .leave :: casesActions names kind rest

end

/-- Reading a whole function: receiver, parameters, body. -/
def FunctionUnit.actions (names : Recognizers) (unit : FunctionUnit) : List Action :=
  paramActions unit.receiver.toList ++ paramActions unit.params
    ++ stmtsActions names unit.body.stmts

end TxLifecycle
