import TxLifecycle.Concrete.Grammar.Parser

/-!
# Types

Type expressions, parameter lists, and the bodies of struct and interface types.
-/

namespace TxLifecycle.Concrete.Grammar

open TxLifecycle.Concrete.Parser

/-- A name of a type, possibly qualified by a package. -/
def typeName : Parser Node := do
  let first ← name
  if (← at? ".") then
    let _ ← next
    let second ← name
    finish .qualifiedType first.span.start
      [leaf .packageIdentifier first, leaf .typeIdentifier second]
  else return leaf .typeIdentifier first

def typeElem (rules : Rules) : Parser Node := do
  let start ← start
  let first ← rules.type
  let others ← many (do let _ ← expect "|"; rules.type)
  finish .typeElem start (first :: others)

/-- Type arguments between brackets. -/
def typeArguments (rules : Rules) : Parser Node := do
  let opening ← expect "["
  let elems ← commaSep (typeElem rules)
  let _ ← accept ","
  let _ ← close "]"
  finish .typeArguments opening.span.start elems

/-- A name of a type with type arguments, if any follow. -/
def namedType (rules : Rules) : Parser Node := do
  let start ← start
  let base ← typeName
  match ← optionally (typeArguments rules) with
  | some arguments => finish .genericType start [base.as .type, arguments]
  | none => return base

/-- The next token can start a type. -/
def startsType : Parser Bool := do
  if (← peekKind) == some .identifier then return true
  return ["*", "[", "struct", "interface", "map", "chan", "func", "<-", "~"].contains (← peekText)

/-- One entry of a parameter list before names and types are told apart. -/
inductive ParamEntry where
  | typed (name : Token) (type : Node)
  /-- A variadic parameter, with or without a name. -/
  | variadic (name : Option Token) (type : Node) (start : Nat)
  /-- A type, or a name whose type follows with a later entry. -/
  | lone (type : Node)

/-- A list or its closing bracket goes on after an entry. -/
def endsEntry : Parser Unit := do
  let text ← peekText
  if text == "," || text == ")" || (← peekKind) == some .newline then return else failure

def paramEntry (rules : Rules) : Parser ParamEntry :=
  (do
    let start ← start
    let _ ← expect "..."
    return .variadic none (← rules.type) start)
  <|> (do
    let name ← name
    let _ ← expect "..."
    return .variadic (some name) (← rules.type) name.span.start)
  <|> (do
    let name ← name
    let type ← rules.type
    endsEntry
    return .typed name type)
  <|> .lone <$> rules.type

def unnamedParam (type : Node) : Node :=
  { kind := .parameterDeclaration, span := type.span, children := [type.as .type] }

/-- The declarations of a parameter list. Lone names directly before a name with a type share that
type; `waiting` holds those seen so far, the last first. -/
def groupParams (waiting : List Node) : List ParamEntry → List Node
  | [] => waiting.reverse.map unnamedParam
  | .lone type :: rest =>
    if type.kind == .typeIdentifier then groupParams (type :: waiting) rest
    else waiting.reverse.map unnamedParam ++ unnamedParam type :: groupParams [] rest
  | .typed name type :: rest =>
    let names := (waiting.reverse.map fun node => { node with kind := .identifier })
      ++ [leaf .identifier name]
    let start := (names.head?.map (·.span.start)).getD name.span.start
    { kind := .parameterDeclaration, span := ⟨start, type.span.stop⟩
      children := names.map (·.as .name) ++ [type.as .type] } :: groupParams [] rest
  | .variadic name type start :: rest =>
    waiting.reverse.map unnamedParam
      ++ { kind := .variadicParameterDeclaration, span := ⟨start, type.span.stop⟩
           children := (name.map fun name => (leaf .identifier name).as .name).toList
             ++ [type.as .type] }
      :: groupParams [] rest

/-- Parameters between parentheses. -/
def parameterList (rules : Rules) : Parser Node := do
  let opening ← expect "("
  let entries ← commaList (paramEntry rules) ")"
  finish .parameterList opening.span.start (groupParams [] entries)

/-- The result of a function: a parameter list, a single type, or nothing. -/
def result (rules : Rules) : Parser (List Node) := do
  if ← at? "(" then return [(← parameterList rules).as .result]
  else if ← startsType then return [(← rules.type).as .result]
  else return []

def functionType (rules : Rules) : Parser Node := do
  let opening ← expect "func"
  let parameters ← parameterList rules
  let result ← result rules
  finish .functionType opening.span.start (parameters.as .parameters :: result)

def stringLiteral : Parser Node := do
  let token ← next
  match token.kind with
  | .string => return leaf .interpretedStringLiteral token
  | .rawString => return leaf .rawStringLiteral token
  | _ => failure

/-- The end of an entry between braces. -/
def entryEnd : Parser Unit := do
  if (← peekKind) == some .newline then let _ ← next
  else if !(← accept ";") && !(← at? "\x7d") then failure

/-- A field of a struct, or an embedded type. -/
def fieldDeclaration (rules : Rules) : Parser Node := do
  let start ← start
  let parts ←
    (do
      let names ← commaSep name
      let type ← rules.type
      return names.map (fun name => (leaf .fieldIdentifier name).as .name) ++ [type.as .type])
    <|> (do
      let _ ← accept "*"
      return [(← namedType rules).as .type])
  let tag ← optionally stringLiteral
  let node ← finish .fieldDeclaration start (parts ++ tag.toList)
  entryEnd
  return node

def structType (rules : Rules) : Parser Node := do
  let opening ← expect "struct"
  let brace ← expect "\x7b"
  let fields ← many (fieldDeclaration rules)
  let _ ← close "\x7d"
  let list ← finish .fieldDeclarationList brace.span.start fields
  finish .structType opening.span.start [list]

def methodElem (rules : Rules) : Parser Node := do
  let name ← name
  let parameters ← parameterList rules
  let result ← result rules
  finish .methodElem name.span.start
    ((leaf .fieldIdentifier name).as .name :: parameters.as .parameters :: result)

def interfaceType (rules : Rules) : Parser Node := do
  let opening ← expect "interface"
  let _ ← expect "\x7b"
  let elems ← many do
    let elem ← methodElem rules <|> typeElem rules
    entryEnd
    return elem
  let _ ← close "\x7d"
  finish .interfaceType opening.span.start elems

/-- A type that starts with a bracket: a slice, or an array with its length. -/
def bracketType (rules : Rules) : Parser Node := do
  let opening ← expect "["
  if ← accept "]" then
    let element ← rules.type
    finish .sliceType opening.span.start [element]
  else if ← accept "..." then
    let _ ← expect "]"
    let element ← rules.type
    finish .implicitLengthArrayType opening.span.start [element]
  else
    let length ← rules.expression false
    let _ ← close "]"
    let element ← rules.type
    finish .arrayType opening.span.start [length, element]

def mapType (rules : Rules) : Parser Node := do
  let opening ← expect "map"
  let _ ← expect "["
  let key ← rules.type
  let _ ← close "]"
  let value ← rules.type
  finish .mapType opening.span.start [key, value]

/-- A channel type, with or without a direction. -/
def channelType (rules : Rules) : Parser Node := do
  let start ← start
  if ← accept "<-" then
    let _ ← expect "chan"
  else
    let _ ← expect "chan"
    let _ ← accept "<-"
  let value ← rules.type
  finish .channelType start [value]

def type (rules : Rules) : Parser Node := do
  if (← peekKind) == some .identifier then namedType rules
  else
    let start ← start
    match ← peekText with
    | "*" =>
      let _ ← next
      let target ← rules.type
      finish .pointerType start [target]
    | "~" =>
      let _ ← next
      let target ← rules.type
      finish .negatedType start [target]
    | "(" =>
      let _ ← next
      let inner ← rules.type
      let _ ← close ")"
      finish .parenthesizedType start [inner]
    | "[" => bracketType rules
    | "struct" => structType rules
    | "interface" => interfaceType rules
    | "map" => mapType rules
    | "chan" | "<-" => channelType rules
    | "func" => functionType rules
    | _ => failure

end TxLifecycle.Concrete.Grammar
