import TxLifecycle.Proofs.Flow

/-!
# The parts of a function

What a function does with a variable is said by its statements and calls, wherever they stand. This
file lists them and connects the lists with the actions of reading the function.

* `FunctionUnit.parts`: all statements and expressions, function literals included;
* `Part.handling`: what each of them does to variables;
* `FunctionUnit.statements`: the statements outside function literals;
* `FunctionUnit.infix_of_mem_statements`: each of them is read.
-/

namespace TxLifecycle

/-- A statement or an expression. -/
inductive Part where
  | expr (e : Expr)
  | stmt (s : Stmt)

mutual

/-- An expression and all parts of it, function literals included. -/
def Expr.parts : Expr → List Part
  | .ident name span => [.expr (.ident name span)]
  | .call func args span => .expr (.call func args span) :: (func.parts ++ exprsParts args)
  | .selector operand field span => .expr (.selector operand field span) :: operand.parts
  | .funcLit params ⟨stmts, place⟩ span =>
    .expr (.funcLit params ⟨stmts, place⟩ span) :: stmtsParts stmts
  | .composite elements span => .expr (.composite elements span) :: exprsParts elements
  | .keyValue key value span => .expr (.keyValue key value span) :: (key.parts ++ value.parts)
  | .unary op operand span => .expr (.unary op operand span) :: operand.parts
  | .literal span => [.expr (.literal span)]
  | .other kind children span => .expr (.other kind children span) :: exprsParts children

/-- The parts of expressions. -/
def exprsParts : List Expr → List Part
  | [] => []
  | e :: es => e.parts ++ exprsParts es

/-- The parts of an expression that may be absent. -/
def exprParts? : Option Expr → List Part
  | some e => e.parts
  | none => []

/-- The parts of a statement that may be absent. -/
def stmtParts? : Option Stmt → List Part
  | some s => s.parts
  | none => []

/-- A statement and all parts of it, function literals included. -/
def Stmt.parts : Stmt → List Part
  | .shortVarDecl left right span =>
    .stmt (.shortVarDecl left right span) :: (exprsParts left ++ exprsParts right)
  | .varDecl declared values span => .stmt (.varDecl declared values span) :: exprsParts values
  | .assign left right span =>
    .stmt (.assign left right span) :: (exprsParts left ++ exprsParts right)
  | .exprStmt e span => .stmt (.exprStmt e span) :: e.parts
  | .returnStmt values span => .stmt (.returnStmt values span) :: exprsParts values
  | .deferStmt call span => .stmt (.deferStmt call span) :: call.parts
  | .goStmt call span => .stmt (.goStmt call span) :: call.parts
  | .ifStmt stmt => .stmt (.ifStmt stmt) :: stmt.parts
  | .forStmt init cond post ⟨stmts, place⟩ span =>
    .stmt (.forStmt init cond post ⟨stmts, place⟩ span)
      :: (stmtParts? init ++ exprParts? cond ++ stmtParts? post ++ stmtsParts stmts)
  | .rangeStmt left declares right ⟨stmts, place⟩ span =>
    .stmt (.rangeStmt left declares right ⟨stmts, place⟩ span)
      :: (exprsParts left ++ right.parts ++ stmtsParts stmts)
  | .switchStmt init tag cases span =>
    .stmt (.switchStmt init tag cases span)
      :: (stmtParts? init ++ exprParts? tag ++ casesParts cases)
  | .selectStmt cases span => .stmt (.selectStmt cases span) :: casesParts cases
  | .block ⟨stmts, span⟩ => .stmt (.block ⟨stmts, span⟩) :: stmtsParts stmts
  | .seq stmts span => .stmt (.seq stmts span) :: stmtsParts stmts
  | .labeled label stmt span => .stmt (.labeled label stmt span) :: stmt.parts
  | .incDec operand span => .stmt (.incDec operand span) :: operand.parts
  | .send channel value span => .stmt (.send channel value span) :: (channel.parts ++ value.parts)
  | .branch span => [.stmt (.branch span)]
  | .empty span => [.stmt (.empty span)]
  | .unsupported kind span => [.stmt (.unsupported kind span)]

/-- The parts of a statement list. -/
def stmtsParts : List Stmt → List Part
  | [] => []
  | stmt :: rest => stmt.parts ++ stmtsParts rest

/-- The parts of an `if` statement. -/
def IfStmt.parts : IfStmt → List Part
  | ⟨init, cond, ⟨stmts, _⟩, otherwise, _⟩ =>
    stmtParts? init ++ cond.parts ++ stmtsParts stmts ++ elseParts? otherwise

/-- The parts of an alternative that may be absent. -/
def elseParts? : Option Else → List Part
  | none => []
  | some (.block ⟨stmts, _⟩) => stmtsParts stmts
  | some (.elseIf stmt) => stmt.parts

/-- The parts of the clauses of a switch or select. -/
def casesParts : List CaseClause → List Part
  | [] => []
  | ⟨_, values, comm, body, _⟩ :: rest =>
    exprsParts values ++ stmtParts? comm ++ stmtsParts body ++ casesParts rest

end

/-- The parts of a function. -/
def FunctionUnit.parts (unit : FunctionUnit) : List Part :=
  stmtsParts unit.body.stmts

/-! ## Where actions come from -/

/-- The action acquires, finalizes or hands over a variable, or lets something else take care of
it. -/
def Action.isHandling : Action → Bool
  | .acquire _ _ _ _ | .storeField _ _ | .finalize _ _ | .deferCall _ _ | .capture _ _
  | .delegate _ | .handOut _ => true
  | _ => false

/-- How a part handles variables, less what the parts of it do. -/
def Part.handling (names : Recognizers) : Part → List Action
  | .expr (.call func args span) =>
    names.finalizeActions (.call func args span) ++ names.delegateActions (.call func args span)
  | .stmt (.shortVarDecl left right span) => names.declarationActions left right span
  | .stmt (.varDecl declared values span) =>
    names.declarationActions (declared.map (.ident · span)) values span
  | .stmt (.assign left right span) =>
    storeActions left right span.stop ++ match names.acquisitionOf right with
      | some kind => Recognizers.acquireActions left kind span false
      | none => []
  | .stmt (.returnStmt values _) => [.handOut (Expr.handedOutBy values)]
  | .stmt (.deferStmt call _) => names.deferActions call
  | .stmt (.goStmt call span) => captureActions call.callArgs span
  | _ => []

/-- The action changes whether the value being read is thrown away. -/
def Action.setsDiscard : Action → Bool
  | .beginAssign _ | .endAssign | .openArgs | .closeArgs => true
  | _ => false

/-- The action takes note of variables, as statements do for themselves. -/
def Action.isNote : Action → Bool
  | .acquire _ _ _ _ | .storeField _ _ | .deferCall _ _ | .capture _ _ | .delegate _ | .handOut _
  | .declare _ => true
  | _ => false

/-- What a part does to variables are notes, but for the commit or rollback that a call is. -/
theorem Part.isNote_of_mem_handling {names : Recognizers} {part : Part} {action : Action}
    (h : action ∈ part.handling names) :
    action.isNote = true ∨ ∃ e, part = .expr e ∧ action.isFinalize = true := by
  have hacquire : ∀ {left : List Expr} {kind : AcquisitionKind} {span : Span} {declares : Bool},
      action ∈ Recognizers.acquireActions left kind span declares → action.isNote = true := by
    intro left kind span declares h
    obtain ⟨name, errVar, rfl⟩ := Recognizers.eq_acquire_of_mem_acquireActions h
    rfl
  have hdeclaration : ∀ {left right : List Expr} {span : Span},
      action ∈ names.declarationActions left right span → action.isNote = true := by
    intro left right span h
    rcases Recognizers.cases_of_mem_declarationActions h with ⟨kind, -, h⟩ | ⟨name, rfl⟩
    · exact hacquire h
    · rfl
  unfold handling at h
  split at h
  · rcases List.mem_append.mp h with h | h
    · exact Or.inr ⟨_, rfl, names.finalizeActions_isFinalize _ action h⟩
    · unfold Recognizers.delegateActions at h
      split at h
      · exact Or.inl (List.mem_singleton.mp h ▸ rfl)
      · cases h
  · exact Or.inl (hdeclaration h)
  · exact Or.inl (hdeclaration h)
  · rcases List.mem_append.mp h with h | h
    · obtain ⟨⟨target, value⟩, -, hstore⟩ := List.mem_filterMap.mp h
      split at hstore <;> cases hstore
      exact Or.inl rfl
    · split at h
      · exact Or.inl (hacquire h)
      · cases h
  · exact Or.inl (List.mem_singleton.mp h ▸ rfl)
  · have hdefer := names.deferActions_isDeferCall _ action h
    cases action <;> first | exact Or.inl rfl | cases hdefer
  · obtain ⟨name, -, rfl⟩ := List.mem_map.mp h
    exact Or.inl rfl
  · cases h

/-! ## Statements outside function literals -/

mutual

/-- A statement and the statements in it, function literals left out. -/
def Stmt.statements : Stmt → List Stmt
  | .ifStmt stmt => .ifStmt stmt :: stmt.statements
  | .forStmt init cond post ⟨stmts, place⟩ span =>
    .forStmt init cond post ⟨stmts, place⟩ span
      :: (stmtStatements? init ++ stmtStatements? post ++ stmtsStatements stmts)
  | .rangeStmt left declares right ⟨stmts, place⟩ span =>
    .rangeStmt left declares right ⟨stmts, place⟩ span :: stmtsStatements stmts
  | .switchStmt init tag cases span =>
    .switchStmt init tag cases span :: (stmtStatements? init ++ casesStatements cases)
  | .selectStmt cases span => .selectStmt cases span :: casesStatements cases
  | .block ⟨stmts, span⟩ => .block ⟨stmts, span⟩ :: stmtsStatements stmts
  | .seq stmts span => .seq stmts span :: stmtsStatements stmts
  | .labeled label stmt span => .labeled label stmt span :: stmt.statements
  | s => [s]

/-- The statements in one that may be absent. -/
def stmtStatements? : Option Stmt → List Stmt
  | some s => s.statements
  | none => []

/-- The statements in a statement list. -/
def stmtsStatements : List Stmt → List Stmt
  | [] => []
  | stmt :: rest => stmt.statements ++ stmtsStatements rest

/-- The statements in an `if` statement. -/
def IfStmt.statements : IfStmt → List Stmt
  | ⟨init, _, ⟨stmts, _⟩, otherwise, _⟩ =>
    stmtStatements? init ++ stmtsStatements stmts ++ elseStatements? otherwise

/-- The statements in an alternative that may be absent. -/
def elseStatements? : Option Else → List Stmt
  | none => []
  | some (.block ⟨stmts, _⟩) => stmtsStatements stmts
  | some (.elseIf stmt) => stmt.statements

/-- The statements in the clauses of a switch or select. -/
def casesStatements : List CaseClause → List Stmt
  | [] => []
  | ⟨_, _, comm, body, _⟩ :: rest =>
    stmtStatements? comm ++ stmtsStatements body ++ casesStatements rest

end

/-- The statements of a function, function literals left out. -/
def FunctionUnit.statements (unit : FunctionUnit) : List Stmt :=
  stmtsStatements unit.body.stmts

/-- The actions of a statement. How an `if` statement begins depends on where it stands; that is
left out. -/
def Stmt.core (names : Recognizers) : Stmt → List Action
  | .ifStmt stmt => stmt.actions names
  | s => s.actions names

/-- Each of the statements is read among the actions. -/
def Read (names : Recognizers) (stmts : List Stmt) (actions : List Action) : Prop :=
  ∀ s ∈ stmts, s.core names <:+: actions

namespace Read

variable {names : Recognizers} {stmts stmts' : List Stmt} {actions actions' : List Action}

/-- No statement. -/
theorem nil : Read names [] actions := by
  intro s hs
  cases hs

/-- One statement more. -/
theorem cons {s : Stmt} (hs : s.core names <:+: actions) (h : Read names stmts actions) :
    Read names (s :: stmts) actions := by
  intro t ht
  rcases List.mem_cons.mp ht with rfl | ht
  · exact hs
  · exact h t ht

theorem append (h : Read names stmts actions) (h' : Read names stmts' actions) :
    Read names (stmts ++ stmts') actions := by
  intro s hs
  rcases List.mem_append.mp hs with hs | hs
  · exact h s hs
  · exact h' s hs

/-- Actions behind. -/
theorem left (h : Read names stmts actions) : Read names stmts (actions ++ actions') :=
  fun s hs => (h s hs).trans (List.prefix_append actions actions').isInfix

/-- Actions in front. -/
theorem right (h : Read names stmts actions') : Read names stmts (actions ++ actions') :=
  fun s hs => (h s hs).trans (List.suffix_append actions actions').isInfix

/-- An action in front. -/
theorem later {action : Action} (h : Read names stmts actions) :
    Read names stmts (action :: actions) :=
  fun s hs => (h s hs).trans (List.suffix_cons action actions).isInfix

/-- The actions at the start of an `if` statement in front. -/
theorem of_core {s : Stmt} (h : Read names stmts (s.core names)) :
    Read names stmts (s.actions names) := by
  cases s with
  | ifStmt stmt => exact h.later.later.later
  | _ => exact h

end Read

variable (names : Recognizers)

mutual

/-- The statements in a statement are read with it. -/
theorem Stmt.read : ∀ s : Stmt, Read names s.statements (s.core names)
  | .ifStmt stmt => .cons (List.infix_refl _) (stmt.read)
  | .forStmt init cond post ⟨stmts, place⟩ span => by
    refine .cons (List.infix_refl _) ?_
    show Read names _ (Stmt.actions names _)
    rw [Stmt.actions_forStmt]
    exact ((read_stmt? init).later.later.left.left.left.left.append
      (read_stmt? post).right.left).append (read_stmts stmts).later.right.left.left
  | .rangeStmt left declares right ⟨stmts, place⟩ span =>
    .cons (List.infix_refl _) (read_stmts stmts).right.left
  | .switchStmt init tag arms span => by
    refine .cons (List.infix_refl _) ?_
    show Read names _ (Stmt.actions names _)
    rw [Stmt.actions_switchStmt]
    exact (read_stmt? init).later.later.left.left.left.append
      (read_cases .switch arms).later.right.left
  | .selectStmt cases span =>
    .cons (List.infix_refl _) (read_cases .select cases).later.later.later.left
  | .block ⟨stmts, span⟩ =>
    .cons (List.infix_refl _) (read_stmts stmts).later.later.later.left
  | .seq stmts span => .cons (List.infix_refl _) (read_stmts stmts).later.later
  | .labeled label stmt span => .cons (List.infix_refl _) (stmt.read).of_core.later.later
  | .shortVarDecl _ _ _ | .varDecl _ _ _ | .assign _ _ _ | .exprStmt _ _ | .returnStmt _ _
  | .deferStmt _ _ | .goStmt _ _ | .incDec _ _ | .send _ _ _ | .branch _ | .empty _
  | .unsupported _ _ => .cons (List.infix_refl _) .nil

/-- The statements in one that may be absent are read with it. -/
theorem read_stmt? :
    ∀ s? : Option Stmt, Read names (stmtStatements? s?)
      (s?.elim [] (Stmt.actions names))
  | none => .nil
  | some s => (s.read).of_core

/-- The statements in a statement list are read with it. -/
theorem read_stmts :
    ∀ stmts : List Stmt, Read names (stmtsStatements stmts) (stmtsActions names stmts)
  | [] => .nil
  | stmt :: rest => by
    have hrest := read_stmts rest
    have hstmt := stmt.read
    cases stmt with
    | ifStmt stmt => exact hstmt.later.later.later.left.append hrest.right
    | _ => exact hstmt.later.left.append hrest.right

/-- The statements in an `if` statement are read with it. -/
theorem IfStmt.read : ∀ stmt : IfStmt, Read names stmt.statements (stmt.actions names)
  | ⟨init, cond, ⟨stmts, place⟩, otherwise, span⟩ => by
    have hinit : Read names (stmtStatements? init)
        (init.elim [] fun s => s.actions names ++ [.collectGuards]) := by
      cases init with
      | none => exact .nil
      | some s => exact (s.read).of_core.left
    rw [IfStmt.actions_mk]
    exact (hinit.left.left.left.left.append
      (read_stmts stmts).later.later.later.right.left.left).append
      (read_else? otherwise).later.later.right.left

/-- The statements in an alternative that may be absent are read with it. -/
theorem read_else? :
    ∀ otherwise : Option Else, Read names (elseStatements? otherwise)
      (otherwise.elim [] (Else.actions names))
  | none => .nil
  | some (.block ⟨alternative, _⟩) => (read_stmts alternative).later.left
  | some (.elseIf stmt) => (stmt.read).later.later.later.left

/-- The statements in the clauses of a switch or select are read with them. -/
theorem read_cases (kind : ConstructKind) :
    ∀ cases : List CaseClause, Read names (casesStatements cases) (casesActions names kind cases)
  | [] => .nil
  | ⟨_, values, comm, body, span⟩ :: rest => by
    rw [casesActions_cons]
    exact ((read_stmt? comm).right.left.left.append (read_stmts body).right.left).append
      (read_cases kind rest).later.right

end

/-- Every statement outside function literals is read with the function. -/
theorem FunctionUnit.infix_of_mem_statements {names : Recognizers} {unit : FunctionUnit} {s : Stmt}
    (h : s ∈ unit.statements) : s.core names <:+: unit.actions names :=
  (read_stmts names unit.body.stmts).right s h

end TxLifecycle
