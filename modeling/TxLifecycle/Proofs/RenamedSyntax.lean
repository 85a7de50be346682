import TxLifecycle.Proofs.AlikeTrees

/-!
# Renaming the variables of a function

A function `f` on names renames every name of a syntax tree, every declared name and every named
parameter. Fields, labels, types and places stay as they are. Renaming a tree and reading it is the
same as reading it and renaming the actions, provided that `f` spares the names that the settings
give a meaning to (`Recognizers.Spares`).

The main statement is `FunctionUnit.actions_rename`: a renamed tree is alike the tree.
-/

namespace TxLifecycle

/-! ## Trees -/

mutual

/-- Rename the variables of an expression. -/
def Expr.rename (f : String → String) : Expr → Expr
  | .ident name span => .ident (f name) span
  | .call func args span => .call (func.rename f) (renameExprs f args) span
  | .selector operand field span => .selector (operand.rename f) field span
  | .funcLit params body span => .funcLit (params.map (·.rename f)) (body.rename f) span
  | .composite elements span => .composite (renameExprs f elements) span
  | .keyValue key value span => .keyValue (key.rename f) (value.rename f) span
  | .unary op operand span => .unary op (operand.rename f) span
  | .literal span => .literal span
  | .other kind children span => .other kind (renameExprs f children) span

/-- Rename the variables of expressions. -/
def renameExprs (f : String → String) : List Expr → List Expr
  | [] => []
  | e :: es => e.rename f :: renameExprs f es

/-- Rename the variables of an expression that may be absent. -/
def renameExpr? (f : String → String) : Option Expr → Option Expr
  | none => none
  | some e => some (e.rename f)

/-- Rename the variables of a statement that may be absent. -/
def renameStmt? (f : String → String) : Option Stmt → Option Stmt
  | none => none
  | some s => some (s.rename f)

/-- Rename the variables of a block. -/
def Block.rename (f : String → String) : Block → Block
  | ⟨stmts, span⟩ => ⟨renameStmts f stmts, span⟩

/-- Rename the variables of a statement. -/
def Stmt.rename (f : String → String) : Stmt → Stmt
  | .shortVarDecl left right span => .shortVarDecl (renameExprs f left) (renameExprs f right) span
  | .varDecl declared values span => .varDecl (declared.map f) (renameExprs f values) span
  | .assign left right span => .assign (renameExprs f left) (renameExprs f right) span
  | .exprStmt e span => .exprStmt (e.rename f) span
  | .returnStmt values span => .returnStmt (renameExprs f values) span
  | .deferStmt call span => .deferStmt (call.rename f) span
  | .goStmt call span => .goStmt (call.rename f) span
  | .ifStmt stmt => .ifStmt (stmt.rename f)
  | .forStmt init cond post body span =>
    .forStmt (renameStmt? f init) (renameExpr? f cond) (renameStmt? f post) (body.rename f) span
  | .rangeStmt left declares right body span =>
    .rangeStmt (renameExprs f left) declares (right.rename f) (body.rename f) span
  | .switchStmt init tag cases span =>
    .switchStmt (renameStmt? f init) (renameExpr? f tag) (renameCases f cases) span
  | .selectStmt cases span => .selectStmt (renameCases f cases) span
  | .block block => .block (block.rename f)
  | .seq stmts span => .seq (renameStmts f stmts) span
  | .labeled label stmt span => .labeled label (stmt.rename f) span
  | .incDec operand span => .incDec (operand.rename f) span
  | .send channel value span => .send (channel.rename f) (value.rename f) span
  | .branch span => .branch span
  | .empty span => .empty span
  | .unsupported kind span => .unsupported kind span

/-- Rename the variables of a statement list. -/
def renameStmts (f : String → String) : List Stmt → List Stmt
  | [] => []
  | s :: rest => s.rename f :: renameStmts f rest

/-- Rename the variables of an `if` statement. -/
def IfStmt.rename (f : String → String) : IfStmt → IfStmt
  | ⟨init, cond, consequence, otherwise, span⟩ =>
    ⟨renameStmt? f init, cond.rename f, consequence.rename f, renameElse? f otherwise, span⟩

/-- Rename the variables of what follows `else`, if anything does. -/
def renameElse? (f : String → String) : Option Else → Option Else
  | none => none
  | some (.block block) => some (.block (block.rename f))
  | some (.elseIf stmt) => some (.elseIf (stmt.rename f))

/-- Rename the variables of a clause of a switch or select. -/
def CaseClause.rename (f : String → String) : CaseClause → CaseClause
  | ⟨isDefault, values, comm, body, span⟩ =>
    ⟨isDefault, renameExprs f values, renameStmt? f comm, renameStmts f body, span⟩

/-- Rename the variables of the clauses of a switch or select. -/
def renameCases (f : String → String) : List CaseClause → List CaseClause
  | [] => []
  | clause :: rest => clause.rename f :: renameCases f rest

end

/-- Rename the variables of a function. Its own name is none of them. -/
def FunctionUnit.rename (f : String → String) (unit : FunctionUnit) : FunctionUnit :=
  { unit with
    receiver := unit.receiver.map (·.rename f)
    params := unit.params.map (·.rename f)
    body := unit.body.rename f }

/-! ## Reading -/

/-- Variables get other names, and nothing else changes. -/
def Likeness.renamed (f : String → String) : Likeness :=
  ⟨f, fun _ _ _ => False, fun _ => False⟩

variable {names : Recognizers} {f : String → String}

theorem Likeness.reads_renamed (h : names.Spares f) :
    (renamed f).Reads names (fun a a' => a' = a.map (Action.rename f)) where
  spares := h
  nil := rfl
  single _ := rfl
  append ha hb := by rw [ha, hb, List.map_append]
  method hm := hm.elim
  split hsplit := hsplit.elim

section Alike

variable (f : String → String)

mutual

theorem Expr.alike_rename : ∀ e : Expr, e.Alike (.renamed f) (e.rename f)
  | .ident _ _ => .ident
  | .call func args _ => .call func.alike_rename (alike_renameExprs args)
  | .selector operand _ _ => .selector operand.alike_rename
  | .funcLit _ ⟨stmts, _⟩ _ => .funcLit (alike_renameStmts stmts)
  | .composite elements _ => .composite (alike_renameExprs elements)
  | .keyValue key value _ => .keyValue key.alike_rename value.alike_rename
  | .unary _ operand _ => .unary operand.alike_rename
  | .literal _ => .literal
  | .other _ children _ => .other (alike_renameExprs children)

theorem alike_renameExprs : ∀ es : List Expr, ExprsAlike (.renamed f) es (renameExprs f es)
  | [] => .nil
  | e :: es => .cons e.alike_rename (alike_renameExprs es)

theorem alike_renameExpr? : ∀ e? : Option Expr, ExprAlike? (.renamed f) e? (renameExpr? f e?)
  | none => .none
  | some e => .some e.alike_rename

theorem alike_renameStmt? : ∀ s? : Option Stmt, StmtAlike? (.renamed f) s? (renameStmt? f s?)
  | none => .none
  | some s => .some s.alike_rename

theorem Stmt.alike_rename : ∀ s : Stmt, s.Alike (.renamed f) (s.rename f)
  | .shortVarDecl left right _ => .shortVarDecl (alike_renameExprs left) (alike_renameExprs right)
  | .varDecl _ values _ => .varDecl (alike_renameExprs values)
  | .assign left right _ => .assign (alike_renameExprs left) (alike_renameExprs right)
  | .exprStmt e _ => .exprStmt e.alike_rename
  | .returnStmt values _ => .returnStmt (alike_renameExprs values)
  | .deferStmt call _ => .deferStmt call.alike_rename
  | .goStmt call _ => .goStmt call.alike_rename
  | .ifStmt stmt => .ifStmt stmt.alike_rename
  | .forStmt init cond post ⟨stmts, _⟩ _ =>
    .forStmt (alike_renameStmt? init) (alike_renameExpr? cond) (alike_renameStmt? post)
      (alike_renameStmts stmts)
  | .rangeStmt left _ right ⟨stmts, _⟩ _ =>
    .rangeStmt (alike_renameExprs left) right.alike_rename (alike_renameStmts stmts)
  | .switchStmt init tag cases _ =>
    .switchStmt (alike_renameStmt? init) (alike_renameExpr? tag) (alike_renameCases cases)
  | .selectStmt cases _ => .selectStmt (alike_renameCases cases)
  | .block ⟨stmts, _⟩ => .block (alike_renameStmts stmts)
  | .seq stmts _ => .seq (alike_renameStmts stmts)
  | .labeled _ stmt _ => .labeled stmt.alike_rename
  | .incDec operand _ => .incDec operand.alike_rename
  | .send channel value _ => .send channel.alike_rename value.alike_rename
  | .branch _ => .branch
  | .empty _ => .empty
  | .unsupported _ _ => .unsupported

theorem alike_renameStmts : ∀ stmts : List Stmt,
    StmtsAlike (.renamed f) stmts (renameStmts f stmts)
  | [] => .nil
  | s :: rest => .cons s.alike_rename (alike_renameStmts rest)

theorem IfStmt.alike_rename : ∀ stmt : IfStmt, stmt.Alike (.renamed f) (stmt.rename f)
  | ⟨init, cond, ⟨stmts, _⟩, otherwise, _⟩ =>
    .mk (alike_renameStmt? init) cond.alike_rename (alike_renameStmts stmts)
      (alike_renameElse? otherwise)

theorem alike_renameElse? : ∀ otherwise : Option Else,
    ElseAlike? (.renamed f) otherwise (renameElse? f otherwise)
  | none => .none
  | some (.block ⟨stmts, _⟩) => .block (alike_renameStmts stmts)
  | some (.elseIf stmt) => .elseIf stmt.alike_rename

theorem alike_renameCases : ∀ cases : List CaseClause,
    CasesAlike (.renamed f) cases (renameCases f cases)
  | [] => .nil
  | ⟨_, values, comm, body, _⟩ :: rest =>
    .cons (alike_renameExprs values) (alike_renameStmt? comm) (alike_renameStmts body)
      (alike_renameCases rest)

end

end Alike

/-- Reading a renamed function gives the renamed actions. -/
theorem FunctionUnit.actions_rename (h : names.Spares f) (unit : FunctionUnit) :
    (unit.rename f).actions names = (unit.actions names).map (Action.rename f) := by
  have hbody : (unit.rename f).body.stmts = renameStmts f unit.body.stmts := by
    obtain ⟨_, _, _, ⟨_, _⟩⟩ := unit
    rfl
  exact reads_of_alike (Likeness.reads_renamed h) rfl rfl (hbody ▸ alike_renameStmts f _)

end TxLifecycle
