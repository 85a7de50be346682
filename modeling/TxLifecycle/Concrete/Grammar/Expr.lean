import TxLifecycle.Concrete.Grammar.Type

/-!
# Expressions

Operands, the selections, calls and brackets that follow them, and the operators between them.
Where names could be read as an expression or as a type, the rules of `bracketed` decide.
-/

namespace TxLifecycle.Concrete.Grammar

open TxLifecycle.Concrete.Parser

/-- An expression read as a type: names, qualified names, pointers, parentheses, and names with
brackets that hold types. -/
def asType? : Node → Option Node
  | ⟨.identifier, role, span, _⟩ => some ⟨.typeIdentifier, role, span, []⟩
  | ⟨.selectorExpression, role, span,
      [⟨.identifier, _, base, _⟩, ⟨.fieldIdentifier, _, field, _⟩]⟩ =>
    some ⟨.qualifiedType, role, span,
      [⟨.packageIdentifier, none, base, []⟩, ⟨.typeIdentifier, none, field, []⟩]⟩
  | ⟨.unaryExpression, role, span, [⟨.token "*", _, _, _⟩, operand]⟩ =>
    (asType? operand).map fun target => ⟨.pointerType, role, span, [{ target with role := none }]⟩
  | ⟨.parenthesizedExpression, role, span, [inner]⟩ =>
    (asType? inner).map fun inner => ⟨.parenthesizedType, role, span, [inner]⟩
  | ⟨.indexExpression, role, span, [⟨kind, baseRole, base, parts⟩, index]⟩ =>
    if kind == .identifier || kind == .selectorExpression then
      match asType? ⟨kind, baseRole, base, parts⟩, asType? index with
      | some base, some argument =>
        let arguments : Node :=
          { kind := .typeArguments, span := ⟨base.span.stop, span.stop⟩
            children := [{ kind := .typeElem, span := argument.span, children := [argument] }] }
        some ⟨.genericType, role, span, [base, arguments]⟩
      | _, _ => none
    else none
  | ⟨.typeInstantiationExpression, role, span, base :: arguments⟩ =>
    let list : Node :=
      { kind := .typeArguments, span := ⟨base.span.stop, span.stop⟩
        children := arguments.map fun t => { kind := .typeElem, span := t.span, children := [t] } }
    some ⟨.genericType, role, span, [base, list]⟩
  | _ => none

/-- The expression is a name or a name qualified by another one. -/
def isTypeName (node : Node) : Bool :=
  match node.kind with
  | .identifier | .selectorExpression => (asType? node).isSome
  | _ => false

/-- One element of a literal value: an expression or a literal value without a type. -/
def literalElement (rules : Rules) : Parser Node := do
  let inner ← if ← at? "\x7b" then rules.literalValue else rules.expression false
  return { kind := .literalElement, span := inner.span, children := [inner] }

/-- An element of a literal value, with or without a key. -/
def element (rules : Rules) : Parser Node := do
  let first ← literalElement rules
  if ← accept ":" then
    let value ← literalElement rules
    finish .keyedElement first.span.start [first.as .key, value.as .value]
  else return first

/-- A literal value between braces. -/
def literalValue (rules : Rules) : Parser Node := do
  let opening ← expect "\x7b"
  let elements ← commaList (element rules) "\x7d"
  finish .literalValue opening.span.start elements

/-- A composite literal after its type. -/
def compositeLiteral (rules : Rules) (type : Node) : Parser Node := do
  let body ← literalValue rules
  finish .compositeLiteral type.span.start [type.as .type, body.as .body]

def conversion (rules : Rules) (type : Node) : Parser Node := do
  let _ ← expect "("
  let operand ← rules.expression false
  let _ ← accept ","
  let _ ← close ")"
  finish .typeConversionExpression type.span.start [type.as .type, operand.as .operand]

/-- What a type that is no expression can start: a composite literal or a conversion. -/
def typedOperand (rules : Rules) (type : Node) : Parser Node := do
  if ← at? "\x7b" then compositeLiteral rules type else conversion rules type

/-- One argument of a call, possibly spread. -/
def argument (rules : Rules) : Parser Node := do
  let value ← rules.expression false
  if ← accept "..." then finish .variadicArgument value.span.start [value] else return value

/-- The arguments of a call between parentheses. -/
def argumentList (rules : Rules) : Parser Node := do
  let opening ← expect "("
  let arguments ← commaList (argument rules) ")"
  finish .argumentList opening.span.start arguments

/-- The arguments of `new` and `make`: a type, then expressions. -/
def allocationArguments (rules : Rules) : Parser Node := do
  let opening ← expect "("
  let first ← rules.type
  let others ← many (do let _ ← expect ","; rules.expression false)
  let _ ← accept ","
  let _ ← close ")"
  finish .argumentList opening.span.start (first :: others)

def allocation (rules : Rules) : Parser Node := do
  let callee ← name
  if callee.text == "new" || callee.text == "make" then
    let arguments ← allocationArguments rules
    finish .callExpression callee.span.start
      [(leaf .identifier callee).as .function, arguments.as .arguments]
  else failure

/-- The kind of node for a name that stands alone. -/
def nameKind : String → NodeKind
  | "nil" => .nilLiteral
  | "true" => .trueLiteral
  | "false" => .falseLiteral
  | "iota" => .iotaLiteral
  | _ => .identifier

def funcLiteral (rules : Rules) : Parser Node := do
  let opening ← expect "func"
  let parameters ← parameterList rules
  let result ← result rules
  let body ← rules.block
  finish .funcLiteral opening.span.start
    (parameters.as .parameters :: result ++ [body.as .body])

/-- An expression between parentheses. -/
def parenthesized (rules : Rules) : Parser Node := do
  let opening ← expect "("
  let inner ← rules.expression false
  let _ ← close ")"
  finish .parenthesizedExpression opening.span.start [inner]

def operand (rules : Rules) : Parser Node := do
  match ← peekKind with
  | some .identifier =>
    allocation rules <|> (do let token ← next; return leaf (nameKind token.text) token)
  | some .int => return leaf .intLiteral (← next)
  | some .float => return leaf .floatLiteral (← next)
  | some .imaginary => return leaf .imaginaryLiteral (← next)
  | some .rune => return leaf .runeLiteral (← next)
  | some .string => return leaf .interpretedStringLiteral (← next)
  | some .rawString => return leaf .rawStringLiteral (← next)
  | some .symbol =>
    if ← at? "(" then parenthesized rules <|> (do typedOperand rules (← type rules))
    else if ← at? "[" then typedOperand rules (← type rules)
    else failure
  | some .keyword =>
    if ← at? "func" then funcLiteral rules <|> (do typedOperand rules (← type rules))
    else if ["struct", "map", "chan", "interface"].contains (← peekText) then
      typedOperand rules (← type rules)
    else failure
  | _ => failure

/-- One item between brackets: what it reads as as an expression, and as a type. -/
structure BracketItem where
  expression : Option Node
  type : Option Node

/-- The end of an item between brackets. -/
def endsItem : Parser Unit := do
  let text ← peekText
  if text == "," || text == "]" || text == ":" || (← peekKind) == some .newline then return
  else failure

def bracketItem (rules : Rules) : Parser BracketItem :=
  (do
    let value ← rules.expression false
    endsItem
    return ⟨some value, asType? value⟩)
  <|> (do
    let type ← rules.type
    endsItem
    return ⟨none, some type⟩)

/-- A slice expression after its operand, its opening bracket and its lower bound. -/
def slice (rules : Rules) (base : Node) (lower : Option Node) : Parser Node := do
  let _ ← expect ":"
  let upper ← optionally (rules.expression false)
  let capacity ← if ← accept ":" then optionally (rules.expression false) else pure none
  let _ ← close "]"
  finish .sliceExpression base.span.start
    (base.as .operand :: lower.toList ++ upper.toList ++ capacity.toList)

/-- The one argument of a list that could be the operand of a conversion. -/
def soleArgument? (arguments : Node) : Option Node :=
  match arguments.children with
  | [argument] => if argument.kind == .variadicArgument then none else some argument
  | _ => none

/-- What the items between brackets after an expression mean.

If the expression is a type name and all items read as types, then a brace starts a composite
literal of that generic type and a call with one argument is a conversion to it. Otherwise one
item that reads as an expression is an index. Several items, or one that is only a type, are type
arguments: of the call that follows, or of an instantiation where none does. -/
def bracketed (rules : Rules) (inHeader : Bool) (base : Node) (opening : Token)
    (items : List BracketItem) : Parser Node := do
  let stop := (← get).last
  let types := items.filterMap (·.type)
  let allTypes := types.length == items.length
  let elems := types.map fun t => ({ kind := .typeElem, span := t.span, children := [t] } : Node)
  let arguments : Node :=
    { kind := .typeArguments, span := ⟨opening.span.start, stop⟩, children := elems }
  let generic := if isTypeName base && allTypes then
    (asType? base).map fun base => ({
      kind := .genericType, span := ⟨base.span.start, stop⟩
      children := [base.as .type, arguments] } : Node)
    else none
  let index := match items with
    | [⟨some item, _⟩] => some ({
      kind := .indexExpression, span := ⟨base.span.start, stop⟩
      children := [base.as .operand, item] } : Node)
    | _ => none
  if (← at? "\x7b") && !inHeader then
    match generic with
    | some type => return ← compositeLiteral rules type
    | none => pure ()
  if ← at? "(" then
    let before ← get
    let called ← argumentList rules
    match generic, soleArgument? called, index with
    | some type, some operand, _ =>
      finish .typeConversionExpression base.span.start [type.as .type, operand.as .operand]
    | _, _, some index =>
      set before
      return index
    | _, _, none =>
      finish .callExpression base.span.start
        [base.as .function, arguments, called.as .arguments]
  else
    match index, asType? base with
    | some index, _ => return index
    | none, some base =>
      finish .typeInstantiationExpression base.span.start (base.as .type :: types)
    | none, none => failure

/-- What brackets after an expression mean: a slice, or the meaning of their items. -/
def brackets (rules : Rules) (inHeader : Bool) (base : Node) : Parser Node := do
  let opening ← expect "["
  if ← at? ":" then slice rules base none
  else
    let first ← bracketItem rules
    if ← at? ":" then slice rules base first.expression
    else
      let others ← many (do let _ ← expect ","; bracketItem rules)
      let _ ← accept ","
      let _ ← close "]"
      bracketed rules inHeader base opening (first :: others)

/-- A selection or a type assertion after an expression. The header of a type switch ends before
its `.(type)`. -/
def dotted (rules : Rules) (base : Node) : Parser Node := do
  let _ ← expect "."
  if ← accept "(" then
    let type ← rules.type
    let _ ← close ")"
    finish .typeAssertionExpression base.span.start [base.as .operand, type.as .type]
  else
    let field ← name
    finish .selectorExpression base.span.start
      [base.as .operand, (leaf .fieldIdentifier field).as .field]

/-- What can follow an operand: a selection, an assertion, brackets, a call, or the braces of a
composite literal. -/
def suffix (rules : Rules) (inHeader : Bool) (base : Node) : Parser Node := do
  match ← peekText with
  | "." => dotted rules base
  | "(" =>
    let arguments ← argumentList rules
    finish .callExpression base.span.start [base.as .function, arguments.as .arguments]
  | "[" => brackets rules inHeader base
  | "\x7b" =>
    if inHeader || !isTypeName base then failure
    else
      match asType? base with
      | some type => compositeLiteral rules type
      | none => failure
  | _ => failure

def unaryOperators : List String := ["+", "-", "!", "^", "*", "&", "<-"]

/-- An expression without binary operators. -/
def unary (rules : Rules) (inHeader : Bool) : Parser Node := do
  if unaryOperators.contains (← peekText) then
    (do
      let operator ← next
      let operand ← rules.unary inHeader
      finish .unaryExpression operator.span.start
        [(mark operator).as .operator, operand.as .operand])
    <|> (do extend (suffix rules inHeader) (← typedOperand rules (← channelType rules)))
  else extend (suffix rules inHeader) (← operand rules)

/-- How tightly a binary operator binds. -/
def precedence : String → Option Nat
  | "*" | "/" | "%" | "<<" | ">>" | "&" | "&^" => some 5
  | "+" | "-" | "|" | "^" => some 4
  | "==" | "!=" | "<" | "<=" | ">" | ">=" => some 3
  | "&&" => some 2
  | "||" => some 1
  | _ => none

def binaryNode (left : Node) (operator : Token) (right : Node) : Node :=
  { kind := .binaryExpression, span := ⟨left.span.start, right.span.stop⟩
    children := [left.as .left, (mark operator).as .operator, right.as .right] }

/-- Join the operands between which an operator of the given level stands, from left to right. -/
def joinLevel (level : Nat) (first : Node) : List (Token × Node) → Node × List (Token × Node)
  | [] => (first, [])
  | (operator, operand) :: rest =>
    if precedence operator.text == some level then
      joinLevel level (binaryNode first operator operand) rest
    else
      let (next, rest) := joinLevel level operand rest
      (first, (operator, next) :: rest)

/-- The tree of operands with operators between them: the tightest operators first. -/
def joinOperands (first : Node) (rest : List (Token × Node)) : Node :=
  ([5, 4, 3, 2, 1].foldl (fun (first, rest) level => joinLevel level first rest) (first, rest)).1

def expression (rules : Rules) (inHeader : Bool) : Parser Node := do
  let first ← unary rules inHeader
  let rest ← many do
    if (precedence (← peekText)).isSome then
      let operator ← next
      return (operator, ← unary rules inHeader)
    else failure
  return joinOperands first rest

/-- Expressions with commas between them. -/
def expressionList (rules : Rules) (inHeader : Bool) : Parser Node := do
  let start ← start
  let values ← commaSep (expression rules inHeader)
  finish .expressionList start values

end TxLifecycle.Concrete.Grammar
