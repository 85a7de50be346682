import TxLifecycle.Concrete.Grammar.Expr

/-!
# Statements

Simple and control statements, blocks, and the clauses of switches and selects. A statement that
cannot be read becomes an error node that reaches to the end of its line.
-/

namespace TxLifecycle.Concrete.Grammar

open TxLifecycle.Concrete.Parser

def assignmentOperators : List String :=
  ["=", "+=", "-=", "*=", "/=", "%=", "<<=", ">>=", "&=", "&^=", "|=", "^="]

def soleExpression (list : Node) : Parser Node :=
  match list.children with
  | [e] => pure e
  | _ => failure

/-- A statement without braces of its own: a declaration by `:=`, an assignment, `++`, `--`, a
send, or an expression. -/
def simpleStatement (rules : Rules) (inHeader : Bool) : Parser Node := do
  let start ← start
  let left ← expressionList rules inHeader
  let text ← peekText
  if text == ":=" then
    let operator ← next
    let right ← expressionList rules inHeader
    finish .shortVarDeclaration start [left.as .left, mark operator, right.as .right]
  else if assignmentOperators.contains text then
    let operator ← next
    let right ← expressionList rules inHeader
    finish .assignmentStatement start
      [left.as .left, (mark operator).as .operator, right.as .right]
  else
    let operand ← soleExpression left
    match text with
    | "++" =>
      let _ ← next
      finish .incStatement start [operand]
    | "--" =>
      let _ ← next
      finish .decStatement start [operand]
    | "<-" =>
      let _ ← next
      let value ← expression rules inHeader
      finish .sendStatement start [operand.as .channel, value.as .value]
    | _ => finish .expressionStatement start [operand]

/-- The expression of a statement that is nothing else. -/
def expressionOf (statement : Node) : Parser Node :=
  match statement.kind, statement.children with
  | .expressionStatement, [e] => pure e
  | _, _ => failure

/-- How many brackets are open after a token. -/
def bracketDepth (depth : Nat) (token : Token) : Nat :=
  if token.kind == .symbol then
    if ["(", "[", "\x7b"].contains token.text then depth + 1
    else if [")", "]", "\x7d"].contains token.text then depth - 1
    else depth
  else depth

/-- Tokens up to the end of a statement, where the newlines and semicolons between brackets do not
end it. A closing brace that was not opened before ends it too. -/
def cutStatement (depth : Nat) : List Token → List Token
  | [] => []
  | token :: rest =>
    let closes := token.kind == .symbol && token.text == "\x7d"
    let ends := token.kind == .newline || (token.kind == .symbol && token.text == ";")
    if depth == 0 && (closes || ends) then []
    else token :: cutStatement (bracketDepth depth token) rest

/-- Pass over the rest of a statement. -/
def skipStatement : Parser Unit :=
  skipFront (cutStatement 0)

/-- One specification of a `var` declaration. -/
def varSpec (rules : Rules) : Parser Node := do
  let start ← start
  let names ← commaSep name
  let type ← if ← at? "=" then pure none else some <$> rules.type
  let values ← if ← accept "=" then some <$> expressionList rules false else pure none
  finish .varSpec start
    (names.map (fun name => (leaf .identifier name).as .name)
      ++ (type.map (·.as .type)).toList ++ (values.map (·.as .value)).toList)

def varDeclaration (rules : Rules) : Parser Node := do
  let opening ← expect "var"
  if ← at? "(" then
    let paren ← next
    let specs ← many do
      let spec ← varSpec rules
      if !(← accept ";") then skipNewline
      return spec
    let _ ← close ")"
    let list ← finish .varSpecList paren.span.start specs
    finish .varDeclaration opening.span.start [list]
  else
    let spec ← varSpec rules
    finish .varDeclaration opening.span.start [spec]

/-- The end of a statement follows. -/
def atStatementEnd : Parser Bool := do
  match ← peek with
  | none => return true
  | some token =>
    return token.kind == .newline || [";", "\x7d", "case", "default"].contains (← peekText)

def returnStatement (rules : Rules) : Parser Node := do
  let opening ← expect "return"
  if ← atStatementEnd then finish .returnStatement opening.span.start []
  else
    let values ← expressionList rules false
    finish .returnStatement opening.span.start [values]

/-- `break`, `continue` or `goto` with its label. -/
def branchStatement (kind : NodeKind) : Parser Node := do
  let opening ← next
  let label ← optionally name
  finish kind opening.span.start (label.map (leaf .labelName)).toList

/-- The header of an `if` statement: an initial statement, if there is one, and the condition. -/
def ifHeader (rules : Rules) : Parser (List Node) := do
  let first ← simpleStatement rules true
  if ← accept ";" then
    let condition ← expression rules true
    return [first.as .initializer, condition.as .condition]
  else
    let condition ← expressionOf first
    return [condition.as .condition]

def ifStatement (rules : Rules) : Parser Node := do
  let opening ← expect "if"
  let header ← ifHeader rules
  let consequence ← rules.block
  let alternative ← if ← accept "else" then
      some <$> if ← at? "if" then rules.ifStatement else rules.block
    else pure none
  finish .ifStatement opening.span.start
    (header ++ consequence.as .consequence :: (alternative.map (·.as .alternative)).toList)

/-- The header of a loop over a range. -/
def rangeClause (rules : Rules) : Parser Node := do
  let start ← start
  let left ← if ← at? "range" then pure []
    else do
      let left ← expressionList rules true
      let operator ← expect ":=" <|> expect "="
      pure [left.as .left, mark operator]
  let _ ← expect "range"
  let right ← expression rules true
  finish .rangeClause start (left ++ [right.as .right])

/-- The header of a loop with three clauses. -/
def forClause (rules : Rules) : Parser Node := do
  let start ← start
  let initializer ← if ← at? ";" then pure none else some <$> simpleStatement rules true
  let _ ← expect ";"
  let condition ← if ← at? ";" then pure none else some <$> expression rules true
  let _ ← expect ";"
  let update ← if ← at? "\x7b" then pure none else some <$> simpleStatement rules true
  finish .forClause start
    ((initializer.map (·.as .initializer)).toList ++ (condition.map (·.as .condition)).toList
      ++ (update.map (·.as .update)).toList)

def forStatement (rules : Rules) : Parser Node := do
  let opening ← expect "for"
  let header ← if ← at? "\x7b" then pure []
    else (do return [← rangeClause rules]) <|> (do return [← forClause rules])
      <|> (do return [← expression rules true])
  let body ← rules.block
  finish .forStatement opening.span.start (header ++ [body.as .body])

/-- The end of a statement in a list: a newline or a semicolon. -/
def terminator : Parser Bool := do
  if (← peekKind) == some .newline then
    let _ ← next
    return true
  else accept ";"

/-- A statement that cannot be read. -/
def brokenStatement : Parser Node := do
  let start ← start
  let before := (← get).left
  skipStatement
  if (← get).left == before then
    if ← at? "\x7d" then failure
    let _ ← next
  finish .error start []

/-- A label at the end of a statement list. -/
def bareLabel : Parser Node := do
  let label ← name
  let _ ← expect ":"
  match ← peek with
  | none => pure ()
  | some _ => if !(["\x7d", "case", "default"] : List String).contains (← peekText) then failure
  finish .labeledStatement label.span.start [(leaf .labelName label).as .label]

/-- One statement of a list with what ends it. -/
def listedStatement (rules : Rules) : Parser Node := do
  if (← peek).isNone || ["\x7d", "case", "default"].contains (← peekText) then failure
  bareLabel <|>
    (do
      let statement ← rules.statement
      if statement.kind == .emptyStatement then
        let _ ← terminator
        return statement
      if (← terminator) || (← atStatementEnd) then return statement else failure)
    <|> (do
      let statement ← brokenStatement
      let _ ← terminator
      return statement)

/-- The statements of a block or a clause. -/
def statementList (rules : Rules) : Parser (List Node) := do
  let start ← start
  let statements ← many (listedStatement rules)
  if statements.isEmpty then return []
  return [← finish .statementList start statements]

def block (rules : Rules) : Parser Node := do
  let opening ← expect "\x7b"
  let statements ← statementList rules
  let _ ← expect "\x7d"
  finish .block opening.span.start statements

/-- A clause: its head, a colon, and its statements. -/
def clause (rules : Rules) (kind : NodeKind) (start : Nat) (head : List Node) : Parser Node := do
  let colon ← expect ":"
  let statements ← statementList rules
  finish kind start (head ++ mark colon :: statements)

def defaultClause (rules : Rules) : Parser Node := do
  let opening ← expect "default"
  clause rules .defaultCase opening.span.start []

/-- A clause of an expression switch. -/
def expressionClause (rules : Rules) : Parser Node := do
  let opening ← expect "case"
  let values ← expressionList rules false
  clause rules .expressionCase opening.span.start [values.as .value]

def typeClause (rules : Rules) : Parser Node := do
  let opening ← expect "case"
  let types ← commaSep rules.type
  clause rules .typeCase opening.span.start (types.map (·.as .type))

/-- The send or receive of a select's clause. -/
def communication (rules : Rules) : Parser Node := do
  let start ← start
  let left ← expressionList rules false
  if (← at? ":=") || (← at? "=") then
    let operator ← next
    let right ← expression rules false
    finish .receiveStatement start [left.as .left, mark operator, right.as .right]
  else
    let operand ← soleExpression left
    if ← accept "<-" then
      let value ← expression rules false
      finish .sendStatement start [operand.as .channel, value.as .value]
    else finish .receiveStatement start [operand.as .right]

def communicationClause (rules : Rules) : Parser Node := do
  let opening ← expect "case"
  let communication ← communication rules
  clause rules .communicationCase opening.span.start [communication.as .communication]

def clauses (one : Parser Node) : Parser (List Node) := do
  let _ ← expect "\x7b"
  let found ← many one
  let _ ← expect "\x7d"
  return found

def typeMark : Parser Unit := do
  let _ ← expect "."
  let _ ← expect "("
  let _ ← expect "type"
  let _ ← close ")"

/-- The switched expression of a type switch. The name that `:=` gives it is left out. -/
def typeSwitchValue (rules : Rules) : Parser Node := do
  let value ← (do
      let given ← expressionList rules true
      let _ ← soleExpression given
      let _ ← expect ":="
      expression rules true)
    <|> expression rules true
  typeMark
  return value

/-- An initial statement with the semicolon after it. -/
def initializer (rules : Rules) : Parser Node := do
  let statement ← simpleStatement rules true
  let _ ← expect ";"
  return statement.as .initializer

def typeSwitch (rules : Rules) : Parser Node := do
  let opening ← expect "switch"
  let initial ← optionally (initializer rules)
  let value ← typeSwitchValue rules
  let cases ← clauses (typeClause rules <|> defaultClause rules)
  finish .typeSwitchStatement opening.span.start
    (initial.toList ++ value.as .value :: cases)

def expressionSwitch (rules : Rules) : Parser Node := do
  let opening ← expect "switch"
  let initial ← optionally (initializer rules)
  let _ ← accept ";"
  let value ← if ← at? "\x7b" then pure none else some <$> expression rules true
  let cases ← clauses (expressionClause rules <|> defaultClause rules)
  finish .expressionSwitchStatement opening.span.start
    (initial.toList ++ (value.map (·.as .value)).toList ++ cases)

def selectStatement (rules : Rules) : Parser Node := do
  let opening ← expect "select"
  let cases ← clauses (communicationClause rules <|> defaultClause rules)
  finish .selectStatement opening.span.start cases

/-- A declaration of constants or types, of which only the extent is kept. -/
def skippedDeclaration (kind : NodeKind) : Parser Node := do
  let opening ← next
  skipStatement
  finish kind opening.span.start []

/-- A call that is deferred or launched. -/
def launchedCall (rules : Rules) (kind : NodeKind) : Parser Node := do
  let opening ← next
  let call ← expression rules false
  finish kind opening.span.start [call]

def labeledStatement (rules : Rules) : Parser Node := do
  let label ← name
  let _ ← expect ":"
  let statement ← rules.statement
  finish .labeledStatement label.span.start [(leaf .labelName label).as .label, statement]

def statement (rules : Rules) : Parser Node := do
  match ← peekText with
  | "\x7b" => block rules
  | ";" => return leaf .emptyStatement (← next)
  | "var" => varDeclaration rules
  | "const" => skippedDeclaration .constDeclaration
  | "type" => skippedDeclaration .typeDeclaration
  | "return" => returnStatement rules
  | "defer" => launchedCall rules .deferStatement
  | "go" => launchedCall rules .goStatement
  | "if" => ifStatement rules
  | "for" => forStatement rules
  | "switch" => typeSwitch rules <|> expressionSwitch rules
  | "select" => selectStatement rules
  | "break" => branchStatement .breakStatement
  | "continue" => branchStatement .continueStatement
  | "goto" => branchStatement .gotoStatement
  | "fallthrough" => return leaf .fallthroughStatement (← next)
  | _ =>
    if (← peekKind) == some .identifier && (← secondIs ":") then labeledStatement rules
    else simpleStatement rules false

end TxLifecycle.Concrete.Grammar
