import TxLifecycle.Proofs.AlikeTrees

/-!
# Chains of `else if`

An `else if` may be given a block of its own: `else if c { … }` becomes `else { if c { … } }`. A
plan says at which places of a function this is done. Both ways of writing are read into nearly the
same actions: in a block the nested `if` takes the error checks that wait, and the statement that
events point at is set once more.

* `Expr.unchain`, `Stmt.unchain` and the others: the tree with blocks at the planned places;
* `Unchained`: how the actions of the two ways of writing differ;
* `FunctionUnit.actions_unchain`: the actions of a function differ in this way only.
-/

namespace TxLifecycle

/-! ## Trees -/

/-- Which `else if`s get a block of their own: for the place of one in the tree and the `if` that
follows, where its block lies, or nothing if it stays. -/
abbrev UnchainPlan := List Nat → IfStmt → Option Span

/-- The plan for one part of a tree. -/
def UnchainPlan.under (plan : UnchainPlan) (part : Nat) : UnchainPlan :=
  fun place => plan (part :: place)

mutual

/-- Give the planned `else if`s of an expression a block of their own. -/
def Expr.unchain : UnchainPlan → Expr → Expr
  | _, .ident name span => .ident name span
  | plan, .call func args span =>
    .call (func.unchain (plan.under 0)) (unchainExprs (plan.under 1) args) span
  | plan, .selector operand field span => .selector (operand.unchain plan) field span
  | plan, .funcLit params body span => .funcLit params (body.unchain plan) span
  | plan, .composite elements span => .composite (unchainExprs plan elements) span
  | plan, .keyValue key value span =>
    .keyValue (key.unchain (plan.under 0)) (value.unchain (plan.under 1)) span
  | plan, .unary op operand span => .unary op (operand.unchain plan) span
  | _, .literal span => .literal span
  | plan, .other kind children span => .other kind (unchainExprs plan children) span

/-- Give the planned `else if`s of expressions a block of their own. -/
def unchainExprs : UnchainPlan → List Expr → List Expr
  | _, [] => []
  | plan, e :: es => e.unchain (plan.under 0) :: unchainExprs (plan.under 1) es

/-- Give the planned `else if`s of an expression that may be absent a block of their own. -/
def unchainExpr? : UnchainPlan → Option Expr → Option Expr
  | _, none => none
  | plan, some e => some (e.unchain plan)

/-- Give the planned `else if`s of a statement that may be absent a block of their own. -/
def unchainStmt? : UnchainPlan → Option Stmt → Option Stmt
  | _, none => none
  | plan, some s => some (s.unchain plan)

/-- Give the planned `else if`s of a block a block of their own. -/
def Block.unchain : UnchainPlan → Block → Block
  | plan, ⟨stmts, span⟩ => ⟨unchainStmts plan stmts, span⟩

/-- Give the planned `else if`s of a statement a block of their own. -/
def Stmt.unchain : UnchainPlan → Stmt → Stmt
  | plan, .shortVarDecl left right span =>
    .shortVarDecl (unchainExprs (plan.under 0) left) (unchainExprs (plan.under 1) right) span
  | plan, .varDecl declared values span => .varDecl declared (unchainExprs plan values) span
  | plan, .assign left right span =>
    .assign (unchainExprs (plan.under 0) left) (unchainExprs (plan.under 1) right) span
  | plan, .exprStmt e span => .exprStmt (e.unchain plan) span
  | plan, .returnStmt values span => .returnStmt (unchainExprs plan values) span
  | plan, .deferStmt call span => .deferStmt (call.unchain plan) span
  | plan, .goStmt call span => .goStmt (call.unchain plan) span
  | plan, .ifStmt stmt => .ifStmt (stmt.unchain plan)
  | plan, .forStmt init cond post body span =>
    .forStmt (unchainStmt? (plan.under 0) init) (unchainExpr? (plan.under 1) cond)
      (unchainStmt? (plan.under 2) post) (body.unchain (plan.under 3)) span
  | plan, .rangeStmt left declares right body span =>
    .rangeStmt (unchainExprs (plan.under 0) left) declares (right.unchain (plan.under 1))
      (body.unchain (plan.under 2)) span
  | plan, .switchStmt init tag cases span =>
    .switchStmt (unchainStmt? (plan.under 0) init) (unchainExpr? (plan.under 1) tag)
      (unchainCases (plan.under 2) cases) span
  | plan, .selectStmt cases span => .selectStmt (unchainCases plan cases) span
  | plan, .block block => .block (block.unchain plan)
  | plan, .seq stmts span => .seq (unchainStmts plan stmts) span
  | plan, .labeled label stmt span => .labeled label (stmt.unchain plan) span
  | plan, .incDec operand span => .incDec (operand.unchain plan) span
  | plan, .send channel value span =>
    .send (channel.unchain (plan.under 0)) (value.unchain (plan.under 1)) span
  | _, .branch span => .branch span
  | _, .empty span => .empty span
  | _, .unsupported kind span => .unsupported kind span

/-- Give the planned `else if`s of a statement list a block of their own. -/
def unchainStmts : UnchainPlan → List Stmt → List Stmt
  | _, [] => []
  | plan, s :: rest => s.unchain (plan.under 0) :: unchainStmts (plan.under 1) rest

/-- Give the planned `else if`s of an `if` statement a block of their own. -/
def IfStmt.unchain : UnchainPlan → IfStmt → IfStmt
  | plan, ⟨init, cond, consequence, otherwise, span⟩ =>
    ⟨unchainStmt? (plan.under 0) init, cond.unchain (plan.under 1),
      consequence.unchain (plan.under 2), unchainElse? (plan.under 3) otherwise, span⟩

/-- Give an `else if` that is planned to a block of its own, and those below it. -/
def unchainElse? : UnchainPlan → Option Else → Option Else
  | _, none => none
  | plan, some (.block block) => some (.block (block.unchain plan))
  | plan, some (.elseIf stmt) =>
    match plan [] stmt with
    | none => some (.elseIf (stmt.unchain (plan.under 0)))
    | some place => some (.block ⟨[.ifStmt (stmt.unchain (plan.under 0))], place⟩)

/-- Give the planned `else if`s of the clauses of a switch or select a block of their own. -/
def unchainCases : UnchainPlan → List CaseClause → List CaseClause
  | _, [] => []
  | plan, ⟨isDefault, values, comm, body, span⟩ :: rest =>
    ⟨isDefault, unchainExprs (plan.under 0) values, unchainStmt? (plan.under 1) comm,
      unchainStmts (plan.under 2) body, span⟩ :: unchainCases (plan.under 3) rest

end

/-- Give the planned `else if`s of a function a block of their own. -/
def FunctionUnit.unchain (plan : UnchainPlan) (unit : FunctionUnit) : FunctionUnit :=
  { unit with body := unit.body.unchain plan }

/-! ## Reading -/

/-- The statement that events point at is set before anything else but counting is done. -/
inductive Respans : List Action → Prop
  | now (span : Span) (rest : List Action) : Respans (.setSpan span :: rest)
  /-- It is set by the first statement, which is counted before. -/
  | counted (span : Span) (rest : List Action) : Respans (.count :: .setSpan span :: rest)

/-- The second list differs from the first one in that the nested `if`s of some alternatives take
the error checks that wait, and set the statement that events point at before they do so again. Of
those alternatives `spot` holds. -/
inductive Unchained (spot : List Action → Prop) : List Action → List Action → Prop
  | nil : Unchained spot [] []
  | cons (action : Action) {a a' : List Action} (h : Unchained spot a a') :
    Unchained spot (action :: a) (action :: a')
  /-- An alternative stands in a block of its own. -/
  | alternative (span : Span) {nested rest a' : List Action} (hspot : spot nested)
    (hrespans : Respans a') (h : Unchained spot (nested ++ rest) a') :
    Unchained spot (.enterArm .elseBranch :: .count :: .holdGuards false :: (nested ++ rest))
      (.enterArm .elseBranch :: .holdGuards true :: .count :: .setSpan span :: a')

theorem Respans.append {a : List Action} (h : Respans a) (b : List Action) : Respans (a ++ b) := by
  cases h with
  | now span rest => exact .now span (rest ++ b)
  | counted span rest => exact .counted span (rest ++ b)

namespace Unchained

variable {spot : List Action → Prop} {a a' b b' : List Action}

theorem refl (spot : List Action → Prop) (a : List Action) : Unchained spot a a := by
  induction a with
  | nil => exact .nil
  | cons action a ih => exact .cons action ih

theorem of_eq (h : a' = a) : Unchained spot a a' :=
  h ▸ refl spot a'

theorem append (ha : Unchained spot a a') (hb : Unchained spot b b') :
    Unchained spot (a ++ b) (a' ++ b') := by
  induction ha with
  | nil => exact hb
  | cons action _ ih => exact .cons action ih
  | @alternative span nested rest a' hspot hrespans _ ih =>
    rw [List.append_assoc] at ih
    simpa only [List.cons_append, List.append_assoc] using
      alternative span hspot (hrespans.append b') ih

theorem close (action : Action) (ha : Unchained spot a a') :
    Unchained spot (a ++ [action]) (a' ++ [action]) :=
  ha.append (refl spot [action])

end Unchained

/-- Of all planned alternatives `spot` holds. -/
def UnchainPlan.Marks (plan : UnchainPlan) (names : Recognizers) (spot : List Action → Prop) :
    Prop :=
  ∀ (place : List Nat) (stmt : IfStmt) (span : Span),
    plan place stmt = some span → spot (stmt.actions names)

variable {spot : List Action → Prop} {names : Recognizers} {plan : UnchainPlan}

/-- What holds of all planned alternatives of a tree holds of those in its parts. -/
theorem UnchainPlan.Marks.under (h : plan.Marks names spot) (part : Nat) :
    (plan.under part).Marks names spot :=
  fun place => h (part :: place)

/-- A statement is counted, and then events point at it. -/
theorem Stmt.respans_actions (names : Recognizers) (s : Stmt) : Respans (s.actions names) := by
  -- reading does not unfold before it is known which parts are there and what is called
  cases s with
  | forStmt init cond post body span =>
    cases body
    rw [Stmt.actions_forStmt]
    exact .counted span _
  | rangeStmt left declares right body span =>
    cases body
    exact .counted span _
  | switchStmt init tag cases span =>
    rw [Stmt.actions_switchStmt]
    exact .counted span _
  | deferStmt call span | goStmt call span =>
    cases call with
    | call func args place =>
      cases func with
      | funcLit params body place' =>
        cases body
        exact .counted span _
      | _ => exact .counted span _
    | _ => exact .counted span _
  | block block =>
    cases block
    exact .counted _ _
  | _ => exact .counted _ _

/-- Events point at an `if` or at its initial statement before anything else is read of it. -/
theorem IfStmt.respans_actions (names : Recognizers) (stmt : IfStmt) :
    Respans (stmt.actions names) := by
  obtain ⟨init, cond, ⟨stmts, _⟩, otherwise, span⟩ := stmt
  rw [IfStmt.actions_mk]
  cases init with
  | none => exact .now span _
  | some s => exact (((((s.respans_actions names).append _).append _).append _).append _).append _

/-- An `else if` at a marked place gets a block, and nothing else changes. -/
def Likeness.unchained (names : Recognizers) (spot : List Action → Prop) : Likeness :=
  ⟨id, fun _ _ _ => False, fun stmt => spot (stmt.actions names)⟩

theorem Likeness.reads_unchained (names : Recognizers) (spot : List Action → Prop) :
    (unchained names spot).Reads names (Unchained spot) where
  spares := names.spares_id
  nil := .nil
  single action := .of_eq (congrArg ([·]) action.rename_id)
  append := .append
  method hm := hm.elim
  split hspot h := .alternative _ hspot ((IfStmt.respans_actions names _).append [.leave])
    (h.close .leave)

section Alike

variable {names : Recognizers} {spot : List Action → Prop}

mutual

theorem Expr.alike_unchain : ∀ {plan : UnchainPlan} (_ : plan.Marks names spot) (e : Expr),
    e.Alike (.unchained names spot) (e.unchain plan)
  | _, _, .ident _ _ => .ident
  | _, h, .call func args _ => .call (func.alike_unchain (h.under 0))
    (alike_unchainExprs (h.under 1) args)
  | _, h, .selector operand _ _ => .selector (operand.alike_unchain h)
  | _, h, .funcLit _ ⟨stmts, _⟩ _ => .funcLit_id rfl (alike_unchainStmts h stmts)
  | _, h, .composite elements _ => .composite (alike_unchainExprs h elements)
  | _, h, .keyValue key value _ => .keyValue (key.alike_unchain (h.under 0))
    (value.alike_unchain (h.under 1))
  | _, h, .unary _ operand _ => .unary (operand.alike_unchain h)
  | _, _, .literal _ => .literal
  | _, h, .other _ children _ => .other (alike_unchainExprs h children)

theorem alike_unchainExprs : ∀ {plan : UnchainPlan} (_ : plan.Marks names spot) (es : List Expr),
    ExprsAlike (.unchained names spot) es (unchainExprs plan es)
  | _, _, [] => .nil
  | _, h, e :: es => .cons (e.alike_unchain (h.under 0)) (alike_unchainExprs (h.under 1) es)

theorem alike_unchainExpr? : ∀ {plan : UnchainPlan} (_ : plan.Marks names spot)
    (e? : Option Expr), ExprAlike? (.unchained names spot) e? (unchainExpr? plan e?)
  | _, _, none => .none
  | _, h, some e => .some (e.alike_unchain h)

theorem alike_unchainStmt? : ∀ {plan : UnchainPlan} (_ : plan.Marks names spot)
    (s? : Option Stmt), StmtAlike? (.unchained names spot) s? (unchainStmt? plan s?)
  | _, _, none => .none
  | _, h, some s => .some (s.alike_unchain h)

theorem Stmt.alike_unchain : ∀ {plan : UnchainPlan} (_ : plan.Marks names spot) (s : Stmt),
    s.Alike (.unchained names spot) (s.unchain plan)
  | _, h, .shortVarDecl left right _ => .shortVarDecl (alike_unchainExprs (h.under 0) left)
    (alike_unchainExprs (h.under 1) right)
  | _, h, .varDecl _ values _ => .varDecl_id rfl (alike_unchainExprs h values)
  | _, h, .assign left right _ => .assign (alike_unchainExprs (h.under 0) left)
    (alike_unchainExprs (h.under 1) right)
  | _, h, .exprStmt e _ => .exprStmt (e.alike_unchain h)
  | _, h, .returnStmt values _ => .returnStmt (alike_unchainExprs h values)
  | _, h, .deferStmt call _ => .deferStmt (call.alike_unchain h)
  | _, h, .goStmt call _ => .goStmt (call.alike_unchain h)
  | _, h, .ifStmt stmt => .ifStmt (stmt.alike_unchain h)
  | _, h, .forStmt init cond post ⟨stmts, _⟩ _ => .forStmt (alike_unchainStmt? (h.under 0) init)
    (alike_unchainExpr? (h.under 1) cond) (alike_unchainStmt? (h.under 2) post)
    (alike_unchainStmts (h.under 3) stmts)
  | _, h, .rangeStmt left _ right ⟨stmts, _⟩ _ => .rangeStmt (alike_unchainExprs (h.under 0) left)
    (right.alike_unchain (h.under 1)) (alike_unchainStmts (h.under 2) stmts)
  | _, h, .switchStmt init tag cases _ => .switchStmt (alike_unchainStmt? (h.under 0) init)
    (alike_unchainExpr? (h.under 1) tag) (alike_unchainCases (h.under 2) cases)
  | _, h, .selectStmt cases _ => .selectStmt (alike_unchainCases h cases)
  | _, h, .block ⟨stmts, _⟩ => .block (alike_unchainStmts h stmts)
  | _, h, .seq stmts _ => .seq (alike_unchainStmts h stmts)
  | _, h, .labeled _ stmt _ => .labeled (stmt.alike_unchain h)
  | _, h, .incDec operand _ => .incDec (operand.alike_unchain h)
  | _, h, .send channel value _ => .send (channel.alike_unchain (h.under 0))
    (value.alike_unchain (h.under 1))
  | _, _, .branch _ => .branch
  | _, _, .empty _ => .empty
  | _, _, .unsupported _ _ => .unsupported

theorem alike_unchainStmts : ∀ {plan : UnchainPlan} (_ : plan.Marks names spot)
    (stmts : List Stmt), StmtsAlike (.unchained names spot) stmts (unchainStmts plan stmts)
  | _, _, [] => .nil
  | _, h, s :: rest => .cons (s.alike_unchain (h.under 0)) (alike_unchainStmts (h.under 1) rest)

theorem IfStmt.alike_unchain : ∀ {plan : UnchainPlan} (_ : plan.Marks names spot)
    (stmt : IfStmt), stmt.Alike (.unchained names spot) (stmt.unchain plan)
  | _, h, ⟨init, cond, ⟨stmts, _⟩, otherwise, _⟩ =>
    .mk (alike_unchainStmt? (h.under 0) init) (cond.alike_unchain (h.under 1))
      (alike_unchainStmts (h.under 2) stmts) (alike_unchainElse? (h.under 3) otherwise)

theorem alike_unchainElse? : ∀ {plan : UnchainPlan} (_ : plan.Marks names spot)
    (otherwise : Option Else),
    ElseAlike? (.unchained names spot) otherwise (unchainElse? plan otherwise)
  | _, _, none => .none
  | _, h, some (.block ⟨stmts, _⟩) => .block (alike_unchainStmts h stmts)
  | plan, h, some (.elseIf stmt) => by
    have hif := stmt.alike_unchain (h.under 0)
    rw [unchainElse?]
    cases hplan : plan [] stmt with
    | none => exact .elseIf hif
    | some place => exact .split (h [] stmt place hplan) hif

theorem alike_unchainCases : ∀ {plan : UnchainPlan} (_ : plan.Marks names spot)
    (cases : List CaseClause),
    CasesAlike (.unchained names spot) cases (unchainCases plan cases)
  | _, _, [] => .nil
  | _, h, ⟨_, values, comm, body, _⟩ :: rest =>
    .cons (alike_unchainExprs (h.under 0) values) (alike_unchainStmt? (h.under 1) comm)
      (alike_unchainStmts (h.under 2) body) (alike_unchainCases (h.under 3) rest)

end

end Alike

theorem FunctionUnit.actions_unchain (h : plan.Marks names spot) (unit : FunctionUnit) :
    Unchained spot (unit.actions names) ((unit.unchain plan).actions names) := by
  have hbody : (unit.unchain plan).body.stmts = unchainStmts plan unit.body.stmts := by
    obtain ⟨_, _, _, ⟨_, _⟩⟩ := unit
    rfl
  exact reads_of_alike_id (Likeness.reads_unchained names spot) rfl rfl rfl
    (hbody ▸ alike_unchainStmts h _)

end TxLifecycle
