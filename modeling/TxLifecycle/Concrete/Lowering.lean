import TxLifecycle.Concrete.Grammar.File
import TxLifecycle.Error
import TxLifecycle.Syntax.Basic

/-!
# From concrete to abstract syntax

The syntax tree of the analysis, taken from the concrete tree of a source text. Every statement
and expression, and every `if` after an `else`, takes one level of nesting. Where no level is left
the node is cut off, and its function is marked.

The levels that are entered and the mark are `Cells` that the readers of a file share. A `Levels`
value holds the readers for parts one level further in, and `Levels.counting` ties them together.
-/

namespace TxLifecycle.Concrete

/-- What the readers of one file share. -/
structure Cells where
  /-- The levels of nesting that are entered. -/
  depth : Nat := 0
  /-- Something in the current function was nested too deeply to be read. -/
  exceeded : Bool := false
deriving Repr

/-- Reading while the cells of a file count the levels. -/
abbrev Counted := StateM Cells

namespace Counted

/-- Enter one level of nesting. Where `maxDepth` levels are entered the function is marked instead,
and the answer is `false`. -/
def descend (maxDepth : Nat) : Counted Bool := do
  if maxDepth ≤ (← get).depth then
    modify fun cells => { cells with exceeded := true }
    return false
  else
    modify fun cells => { cells with depth := cells.depth + 1 }
    return true

/-- Leave a level of nesting. -/
def ascend : Counted Unit :=
  modify fun cells => { cells with depth := cells.depth - 1 }

/-- Read a part one level further in. Where no level is left, `cut` stands for it. -/
def nested {α : Type} (maxDepth : Nat) (cut : α) (read : Counted α) : Counted α := do
  if ← descend maxDepth then
    let a ← read
    ascend
    return a
  else return cut

end Counted

/-- The readers for parts one level further in. What they do while reading is left to `m`. -/
structure Levels (m : Type → Type) where
  expression : Node → m Expr
  statement : Node → m Stmt
  /-- An `if` statement that follows an `else`. -/
  elseIf : Node → m (Option IfStmt)

/-- The bytes of a source text, from which nodes take their texts. -/
structure Source where
  bytes : ByteArray

def Source.text (source : Source) (node : Node) : String :=
  (String.fromUTF8? (source.bytes.extract node.span.start node.span.stop)).getD ""

namespace Node

/-- A generic expression for a node that is not read further. -/
def cutExpr (node : Node) : Expr :=
  .other node.kind.text [] node.span

/-- A statement for a node that is not read further. -/
def unreadStmt (node : Node) : Stmt :=
  .unsupported node.kind.text node.span

/-- The named children that are no comments. -/
def parts (node : Node) : List Node :=
  node.namedChildren.filter (·.kind != .comment)

/-- The first named child, comments included. -/
def firstNamed? (node : Node) : Option Node :=
  node.namedChildren.head?

end Node

/-- The parameters of a declaration, one for each name. -/
def paramsOf (source : Source) (decl : Node) : List Param :=
  let type := ((decl.child? .type).map source.text).getD ""
  let type := if decl.kind == .variadicParameterDeclaration then "..." ++ type else type
  match decl.childrenIn .name with
  | [] => [⟨none, type⟩]
  | names => names.map fun name => ⟨some (source.text name), type⟩

def parametersOf (source : Source) (list : Node) : List Param :=
  let decls := list.namedChildren.filter fun node =>
    node.kind == .parameterDeclaration || node.kind == .variadicParameterDeclaration
  decls.flatMap (paramsOf source)

/-- The specifications of a `var` declaration, also between parentheses. -/
def varSpecsOf : Node → List Node
  | ⟨_, _, _, children⟩ => specsAmong children
where
  /-- The specifications among the children of a declaration or of parentheses in it. -/
  specsAmong : List Node → List Node
    | [] => []
    | child :: rest =>
      match child.kind with
      | .varSpec => child :: specsAmong rest
      | .varSpecList => varSpecsOf child ++ specsAmong rest
      | _ => specsAmong rest

/-- The right operands along the left spine of a binary expression, the outermost first, and the
operand at its end. -/
def leftSpine : Node → List Node × Node
  | ⟨kind, role, span, children⟩ =>
    if kind == .binaryExpression then spineOf children ⟨kind, role, span, children⟩
    else ([], ⟨kind, role, span, children⟩)
where
  /-- The spine below the first left operand among the children of `node`. -/
  spineOf : List Node → Node → List Node × Node
    | [], node => ([], node)
    | child :: rest, node =>
      if child.role == some .left then
        match node.child? .right with
        | some right =>
          let (rights, first) := leftSpine child
          (right :: rights, first)
        | none => ([], node)
      else spineOf rest node

namespace Levels

variable {m : Type → Type} [Monad m]

/-- The expressions of a list, or a single one that stands in its place. -/
def expressionList (levels : Levels m) : Option Node → m (List Expr)
  | none => pure []
  | some node =>
    if node.kind == .expressionList then node.parts.mapM levels.expression
    else (fun e => [e]) <$> levels.expression node

/-- Any node, with its parts read as expressions. -/
def other (levels : Levels m) (node : Node) : m Expr := do
  return .other node.kind.text (← node.parts.mapM levels.expression) node.span

/-- One `VarDecl` for each specification of a `var` declaration. -/
def varSpecs (levels : Levels m) (source : Source) (decl : Node) : m (List Stmt) :=
  (varSpecsOf decl).mapM fun spec => do
    let values ← levels.expressionList (spec.child? .value)
    return .varDecl ((spec.childrenIn .name).map source.text) values spec.span

/-- A `var` declaration that stands for one statement: several specifications are kept together. -/
def varDeclaration (levels : Levels m) (source : Source) (decl : Node) : m Stmt := do
  match ← levels.varSpecs source decl with
  | [spec] => return spec
  | specs => return .seq specs decl.span

/-- The statements that a node of a block's statement list stands for. -/
def listed (levels : Levels m) (source : Source) (node : Node) : m (List Stmt) :=
  if node.kind == .varDeclaration then levels.varSpecs source node
  else (fun s => [s]) <$> levels.statement node

/-- The nodes of the statements in a block. -/
def statementNodes (block : Node) : List Node :=
  block.parts.flatMap fun child =>
    if child.kind == .statementList then child.parts else [child]

def block (levels : Levels m) (source : Source) (node : Node) : m Block := do
  return ⟨(← (statementNodes node).mapM (levels.listed source)).flatten, node.span⟩

/-- A keyed element of a literal value. It takes no level of its own. Where key or value have no
role, the first and the last of several parts stand for them. -/
def keyedElement (levels : Levels m) (node : Node) : m Expr :=
  let parts := node.namedChildren
  let last? := if 2 ≤ parts.length then parts.getLast? else .none
  match (node.child? .key).or parts.head?, (node.child? .value).or last? with
  | some key, some value => do
    return .keyValue (← levels.expression key) (← levels.expression value) node.span
  | _, _ => levels.other node

/-- The elements of a literal value. -/
def elements (levels : Levels m) (body : Node) : m (List Expr) :=
  body.parts.mapM fun element =>
    if element.kind == .keyedElement then levels.keyedElement element
    else levels.expression element

/-- A binary expression with the operands of its left spine in source order. -/
def binaryChain (levels : Levels m) (node : Node) : m Expr := do
  let (rights, first) := leftSpine node
  let first ← if first.kind == .binaryExpression then levels.other first
    else levels.expression first
  let rights ← rights.reverse.mapM levels.expression
  return .other node.kind.text (first :: rights) node.span

/-- An expression for which a level is left. -/
def lowerExpression (levels : Levels m) (source : Source) (node : Node) : m Expr :=
  match node.kind with
  | .identifier => pure (.ident (source.text node) node.span)
  | .callExpression =>
    match node.child? .function with
    | none => levels.other node
    | some func => do
      let func ← levels.expression func
      let args ← (((node.child? .arguments).map Node.parts).getD []).mapM levels.expression
      return .call func args node.span
  | .selectorExpression =>
    match node.child? .operand, node.child? .field with
    | some operand, some field => do
      return .selector (← levels.expression operand) (source.text field) node.span
    | _, _ => levels.other node
  | .funcLiteral =>
    match node.child? .body with
    | none => levels.other node
    | some body => do
      let params := ((node.child? .parameters).map (parametersOf source)).getD []
      return .funcLit params (← levels.block source body) node.span
  | .compositeLiteral =>
    match node.child? .body with
    | none => pure (.composite [] node.span)
    | some body => do return .composite (← levels.elements body) node.span
  | .literalValue => do return .composite (← levels.elements node) node.span
  | .unaryExpression =>
    match node.child? .operand with
    | none => levels.other node
    | some operand => do
      let op := ((node.child? .operator).map source.text).getD ""
      return .unary op (← levels.expression operand) node.span
  | .binaryExpression => levels.binaryChain node
  | .parenthesizedExpression | .literalElement =>
    match node.firstNamed? with
    | none => levels.other node
    | some inner => levels.expression inner
  | .interpretedStringLiteral | .rawStringLiteral | .intLiteral | .floatLiteral
  | .imaginaryLiteral | .runeLiteral | .trueLiteral | .falseLiteral | .nilLiteral
  | .iotaLiteral => pure (.literal node.span)
  | _ => levels.other node

/-- What follows `else`. Another `if` that is cut off is left out. -/
def alternative (levels : Levels m) (source : Source) (node : Node) : m (Option Else) :=
  match node.kind with
  | .block => do return some (.block (← levels.block source node))
  | .ifStatement => do return (← levels.elseIf node).map .elseIf
  | _ => pure none

/-- An `if` statement for which a level is left. -/
def lowerIf (levels : Levels m) (source : Source) (node : Node) : m (Option IfStmt) :=
  match node.child? .condition, node.child? .consequence with
  | some cond, some consequence => do
    let otherwise ← (node.child? .alternative).mapM (levels.alternative source)
    let init ← (node.child? .initializer).mapM levels.statement
    let cond ← levels.expression cond
    let consequence ← levels.block source consequence
    return some { init, cond, consequence, otherwise := otherwise.join, span := node.span }
  | _, _ => pure none

/-- A loop for which a level is left. -/
def lowerFor (levels : Levels m) (source : Source) (node : Node) : m Stmt :=
  match node.child? .body with
  | none => pure node.unreadStmt
  | some body => do
    let body ← levels.block source body
    match node.parts.find? (·.kind != .block) with
    | none => return .forStmt none none none body node.span
    | some clause =>
      match clause.kind with
      | .forClause => do
        let init ← (clause.child? .initializer).mapM levels.statement
        let cond ← (clause.child? .condition).mapM levels.expression
        let post ← (clause.child? .update).mapM levels.statement
        return .forStmt init cond post body node.span
      | .rangeClause => do
        let right ← match clause.child? .right with
          | some right => levels.expression right
          | none => pure (.literal clause.span)
        let left ← levels.expressionList (clause.child? .left)
        return .rangeStmt left (clause.hasToken ":=") right body node.span
      | _ => do
        let cond ← levels.expression clause
        return .forStmt none (some cond) none body node.span

/-- The nodes of the statements in a clause: those after its colon. -/
def clauseNodes (clause : Node) : List Node :=
  let after := (clause.children.dropWhile (·.kind != .token ":")).drop 1
  (after.filter fun node => node.isNamed && node.kind != .comment).flatMap fun node =>
    if node.kind == .statementList then node.parts else [node]

/-- One clause of a switch or select. -/
def clause (levels : Levels m) (node : Node) : m CaseClause := do
  let values ← if node.kind == .expressionCase then levels.expressionList (node.child? .value)
    else pure []
  let comm ← (node.child? .communication).mapM levels.statement
  let body ← (clauseNodes node).mapM levels.statement
  return { isDefault := node.kind == .defaultCase, values, comm, body, span := node.span }

/-- The clauses of a switch or select. -/
def clauses (levels : Levels m) (node : Node) : m (List CaseClause) :=
  (node.namedChildren.filter fun child =>
    [.expressionCase, .typeCase, .communicationCase, .defaultCase].contains child.kind).mapM
    levels.clause

/-- A switch for which a level is left. -/
def lowerSwitch (levels : Levels m) (node : Node) : m Stmt := do
  let init ← (node.child? .initializer).mapM levels.statement
  let tag ← (node.child? .value).mapM levels.expression
  let cases ← levels.clauses node
  return .switchStmt init tag cases node.span

/-- A receive in a clause of a select. -/
def lowerReceive (levels : Levels m) (node : Node) : m Stmt := do
  let right ← (node.child? .right).mapM levels.expression
  let left ← levels.expressionList (node.child? .left)
  if left.isEmpty then
    match right with
    | some e => return .exprStmt e node.span
    | none => return .empty node.span
  else if node.hasToken ":=" then return .shortVarDecl left right.toList node.span
  else return .assign left right.toList node.span

/-- A labelled statement for which a level is left. -/
def lowerLabeled (levels : Levels m) (source : Source) (node : Node) : m Stmt :=
  match node.parts.find? (·.kind != .labelName) with
  | none => pure (.empty node.span)
  | some inner => do
    let label := ((node.child? .label).map source.text).getD ""
    return .labeled label (← levels.statement inner) node.span

/-- A statement for which a level is left. -/
def lowerStatement (levels : Levels m) (source : Source) (node : Node) : m Stmt :=
  match node.kind with
  | .block => do return .block (← levels.block source node)
  | .shortVarDeclaration => do
    let left ← levels.expressionList (node.child? .left)
    let right ← levels.expressionList (node.child? .right)
    return .shortVarDecl left right node.span
  | .assignmentStatement => do
    let left ← levels.expressionList (node.child? .left)
    let right ← levels.expressionList (node.child? .right)
    return .assign left right node.span
  | .varDeclaration => levels.varDeclaration source node
  | .expressionStatement =>
    match node.firstNamed? with
    | some e => do return .exprStmt (← levels.expression e) node.span
    | none => pure (.empty node.span)
  | .returnStatement => do
    return .returnStmt (← levels.expressionList node.firstNamed?) node.span
  | .deferStatement =>
    match node.firstNamed? with
    | some call => do return .deferStmt (← levels.expression call) node.span
    | none => pure node.unreadStmt
  | .goStatement =>
    match node.firstNamed? with
    | some call => do return .goStmt (← levels.expression call) node.span
    | none => pure node.unreadStmt
  | .ifStatement => do
    match ← levels.lowerIf source node with
    | some stmt => return .ifStmt stmt
    | none => return node.unreadStmt
  | .forStatement => levels.lowerFor source node
  | .expressionSwitchStatement | .typeSwitchStatement => levels.lowerSwitch node
  | .selectStatement => do return .selectStmt (← levels.clauses node) node.span
  | .labeledStatement => levels.lowerLabeled source node
  | .incStatement | .decStatement =>
    match node.firstNamed? with
    | some operand => do return .incDec (← levels.expression operand) node.span
    | none => pure (.empty node.span)
  | .sendStatement =>
    match node.child? .channel, node.child? .value with
    | some channel, some value => do
      return .send (← levels.expression channel) (← levels.expression value) node.span
    | _, _ => pure node.unreadStmt
  | .receiveStatement => levels.lowerReceive node
  | .breakStatement | .continueStatement | .gotoStatement | .fallthroughStatement =>
    pure (.branch node.span)
  | .constDeclaration | .typeDeclaration | .emptyStatement => pure (.empty node.span)
  | _ => pure node.unreadStmt

/-- The readers of a file, on top of each other. Each one enters a level, so with more of them than
`maxDepth` the last one is never asked. -/
def counting (source : Source) (maxDepth : Nat) : Nat → Levels Counted
  | 0 =>
    { expression := fun node => pure node.cutExpr
      statement := fun node => pure node.unreadStmt
      elseIf := fun _ => pure none }
  | readers + 1 =>
    { expression := fun node => Counted.nested maxDepth node.cutExpr
        ((counting source maxDepth readers).lowerExpression source node)
      statement := fun node => Counted.nested maxDepth node.unreadStmt
        ((counting source maxDepth readers).lowerStatement source node)
      elseIf := fun node => Counted.nested maxDepth none
        ((counting source maxDepth readers).lowerIf source node) }

end Levels

/-- The declaration of a function or method. It is marked if something in it is cut off. -/
def functionOf? (source : Source) (maxDepth : Nat) (node : Node) : Counted (Option FuncDecl) :=
  (node.child? .name).mapM fun name => do
    modify fun cells => { cells with exceeded := false }
    let levels := Levels.counting source maxDepth (maxDepth + 1)
    let body ← (node.child? .body).mapM (levels.block source)
    return {
      name := source.text name
      receiver := ((node.child? .receiver).map (parametersOf source)).bind List.head?
      params := ((node.child? .parameters).map (parametersOf source)).getD []
      body
      span := node.span
      nestingExceeded := (← get).exceeded }

/-- The nodes of the functions and methods of a file. -/
def functionNodes (root : Node) : List Node :=
  root.namedChildren.filter fun node =>
    node.kind == .functionDeclaration || node.kind == .methodDeclaration

/-- The package and the functions of a concrete tree. The last package clause counts, and the
functions are read in one go, with the same cells. -/
def fileOf (source : Source) (maxDepth : Nat) (root : Node) : SourceFile :=
  let package := (root.namedChildren.filter (·.kind == .packageClause)).getLast?.bind
    fun clause => clause.firstNamed?.map source.text
  let (functions, _) := ((functionNodes root).mapM (functionOf? source maxDepth)).run {}
  { package, functions := functions.filterMap id }

end TxLifecycle.Concrete

namespace TxLifecycle.SourceFile

/-- Read a source text, with at most `maxDepth` levels of nesting. -/
def ofText (maxDepth : Nat) (text : String) : SourceFile :=
  Concrete.fileOf ⟨text.toUTF8⟩ maxDepth (Concrete.Node.ofText text)

/-- Read a source text given by its bytes. -/
def ofBytes (maxDepth : Nat) (bytes : ByteArray) : Except ParseError SourceFile :=
  match String.fromUTF8? bytes with
  | some text => .ok (ofText maxDepth text)
  | none => .error .invalidUtf8

end TxLifecycle.SourceFile
