import TxLifecycle.Source.Span

/-!
# Syntax trees

What the analysis reads of a Go source file: its functions, their statements and the parts of
expressions that can hold a call, a name or a function literal. Everything else is kept as a
generic node, so that the names below it stay visible.
-/

namespace TxLifecycle

/-- One parameter of a function: its name, if it has one, and the text of its type. -/
structure Param where
  /-- Declared name; absent for an unnamed parameter. -/
  name : Option String
  type : String
deriving DecidableEq, Repr, Inhabited

mutual

inductive Expr where
  | ident (name : String) (span : Span)
  | call (func : Expr) (args : List Expr) (span : Span)
  | selector (operand : Expr) (field : String) (span : Span)
  | funcLit (params : List Param) (body : Block) (span : Span)
  /-- A composite literal, of which only the elements are kept. -/
  | composite (elements : List Expr) (span : Span)
  /-- A keyed element `key: value` of a composite literal. -/
  | keyValue (key value : Expr) (span : Span)
  | unary (op : String) (operand : Expr) (span : Span)
  | literal (span : Span)
  /-- Any other expression or type, with the kind of its node and its parts. -/
  | other (kind : String) (children : List Expr) (span : Span)

structure Block where
  stmts : List Stmt
  span : Span

inductive Stmt where
  /-- A short declaration `left := right`. -/
  | shortVarDecl (left right : List Expr) (span : Span)
  /-- One specification of a `var` declaration. -/
  | varDecl (names : List String) (values : List Expr) (span : Span)
  /-- An assignment, compound ones included. -/
  | assign (left right : List Expr) (span : Span)
  | exprStmt (expr : Expr) (span : Span)
  | returnStmt (values : List Expr) (span : Span)
  | deferStmt (call : Expr) (span : Span)
  | goStmt (call : Expr) (span : Span)
  | ifStmt (stmt : IfStmt)
  /-- A `for` loop with a condition or three clauses. -/
  | forStmt (init : Option Stmt) (cond : Option Expr) (post : Option Stmt) (body : Block)
      (span : Span)
  /-- A `for` loop over `range right`; `declares` tells `:=` from `=`. -/
  | rangeStmt (left : List Expr) (declares : Bool) (right : Expr) (body : Block) (span : Span)
  | switchStmt (init : Option Stmt) (tag : Option Expr) (cases : List CaseClause) (span : Span)
  | selectStmt (cases : List CaseClause) (span : Span)
  | block (block : Block)
  /-- Statements grouped without a scope of their own. -/
  | seq (stmts : List Stmt) (span : Span)
  | labeled (label : String) (stmt : Stmt) (span : Span)
  | incDec (operand : Expr) (span : Span)
  | send (channel value : Expr) (span : Span)
  /-- `break`, `continue`, `goto` or `fallthrough`. -/
  | branch (span : Span)
  /-- A statement without effect on the analysis. -/
  | empty (span : Span)
  /-- A statement that was not read, with the kind of its node. -/
  | unsupported (kind : String) (span : Span)

/-- An `if` statement with its initial statement and its alternative. -/
structure IfStmt where
  init : Option Stmt
  cond : Expr
  consequence : Block
  /-- What follows `else`, if anything does. -/
  otherwise : Option Else
  span : Span

inductive Else where
  | block (block : Block)
  | elseIf (stmt : IfStmt)

/-- A `case` or `default` clause of a switch or select. -/
structure CaseClause where
  isDefault : Bool
  /-- Values of an expression switch's case. -/
  values : List Expr
  /-- The send or receive of a select's case. -/
  comm : Option Stmt
  body : List Stmt
  span : Span

end

instance : Inhabited Expr := ⟨.literal {}⟩

instance : Inhabited Block := ⟨⟨[], {}⟩⟩

instance : Inhabited Stmt := ⟨.empty {}⟩

instance : Inhabited IfStmt := ⟨⟨none, default, default, none, {}⟩⟩

instance : Inhabited CaseClause := ⟨⟨false, [], none, [], {}⟩⟩

/-- A function or method declaration. -/
structure FuncDecl where
  name : String
  receiver : Option Param := none
  /-- The parameters, one for each declared name. -/
  params : List Param := []
  /-- The body; absent for a declaration without one. -/
  body : Option Block := none
  span : Span := {}
  /-- The body holds a place nested too deeply to be read. -/
  nestingExceeded : Bool := false
deriving Inhabited

/-- A declaration with a receiver is a method. -/
def FuncDecl.isMethod (decl : FuncDecl) : Bool :=
  decl.receiver.isSome

/-- What is kept of one source file. -/
structure SourceFile where
  /-- Name of the package, if the file gives one. -/
  package : Option String := none
  /-- Functions and methods in source order. -/
  functions : List FuncDecl := []
deriving Inhabited

/-- Levels of nested statements and expressions that are read unless a setting says otherwise. -/
def defaultMaxNesting : Nat := 128

namespace Stmt

def span : Stmt → Span
  | .shortVarDecl _ _ s | .varDecl _ _ s | .assign _ _ s | .exprStmt _ s | .returnStmt _ s
  | .deferStmt _ s | .goStmt _ s | .forStmt _ _ _ _ s | .rangeStmt _ _ _ _ s
  | .switchStmt _ _ _ s | .selectStmt _ s | .seq _ s | .labeled _ _ s | .incDec _ s
  | .send _ _ s | .branch s | .empty s | .unsupported _ s => s
  | .ifStmt stmt => stmt.span
  | .block b => b.span

end Stmt

namespace Expr

def span : Expr → Span
  | .ident _ s | .call _ _ s | .selector _ _ s | .funcLit _ _ s | .composite _ s
  | .keyValue _ _ s | .unary _ _ s | .literal s | .other _ _ s => s

/-- The name, if the expression is one. -/
def asIdent : Expr → Option String
  | .ident name _ => some name
  | _ => none

/-- The expression is the blank identifier. -/
def isBlank (e : Expr) : Bool :=
  e.asIdent == some "_"

/-- The dotted text of a name or a chain of selections that starts at one. -/
def qualifiedName : Expr → Option String
  | .ident name _ => some name
  | .selector operand field _ => operand.qualifiedName.map (· ++ "." ++ field)
  | _ => none

/-- Receiver and method name of a call `receiver.method(…)`. -/
def methodCall : Expr → Option (Expr × String)
  | .call (.selector operand field _) _ _ => some (operand, field)
  | _ => none

/-- The arguments of a call; none for any other expression. -/
def callArgs : Expr → List Expr
  | .call _ args _ => args
  | _ => []

mutual

/-- The names an expression mentions, function literals left out. -/
def mentioned : Expr → List String
  | .ident name _ => [name]
  | .call func args _ => func.mentioned ++ mentionedIn args
  | .selector operand _ _ => operand.mentioned
  | .composite elements _ => mentionedIn elements
  | .keyValue key value _ => key.mentioned ++ value.mentioned
  | .unary _ operand _ => operand.mentioned
  | .other _ children _ => mentionedIn children
  | .funcLit _ _ _ | .literal _ => []

/-- The names a list of expressions mentions. -/
def mentionedIn : List Expr → List String
  | [] => []
  | e :: es => e.mentioned ++ mentionedIn es

end

mutual

/-- The names whose value a returned expression hands out: the name itself, also under `&`, in a
composite literal or as the value of a keyed element. -/
def handedOut : Expr → List String
  | .ident name _ => [name]
  | .unary op operand _ => if op == "&" then operand.handedOut else []
  | .composite elements _ => handedOutBy elements
  | .keyValue _ value _ => value.handedOut
  | _ => []

/-- The names whose values a list of returned expressions hands out. -/
def handedOutBy : List Expr → List String
  | [] => []
  | e :: es => e.handedOut ++ handedOutBy es

end

end Expr

end TxLifecycle
