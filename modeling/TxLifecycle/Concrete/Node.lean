import TxLifecycle.Concrete.Token

/-!
# Concrete syntax trees

A node of the concrete tree knows its kind, its place, the role that it plays in its parent and
its children in source order. Comments are nodes too: each of them is a child of the innermost
node that starts before it and ends after it.
-/

namespace TxLifecycle.Concrete

inductive NodeKind where
  -- files and declarations
  | sourceFile | packageClause | packageIdentifier | functionDeclaration | methodDeclaration
  | parameterList | parameterDeclaration | variadicParameterDeclaration | typeParameterList
  | constDeclaration | typeDeclaration | varDeclaration | varSpecList | varSpec
  -- statements
  | block | statementList | shortVarDeclaration | assignmentStatement | expressionStatement
  | returnStatement | deferStatement | goStatement | ifStatement | forStatement | forClause
  | rangeClause | expressionSwitchStatement | typeSwitchStatement | selectStatement
  | expressionCase | typeCase | communicationCase | defaultCase | labeledStatement | labelName
  | incStatement | decStatement | sendStatement | receiveStatement | breakStatement
  | continueStatement | gotoStatement | fallthroughStatement | emptyStatement
  -- expressions
  | expressionList | identifier | fieldIdentifier | callExpression | argumentList
  | variadicArgument | selectorExpression | indexExpression | sliceExpression
  | typeAssertionExpression | typeConversionExpression | typeInstantiationExpression
  | funcLiteral | compositeLiteral | literalValue | literalElement | keyedElement
  | unaryExpression | binaryExpression | parenthesizedExpression | intLiteral | floatLiteral
  | imaginaryLiteral | runeLiteral | interpretedStringLiteral | rawStringLiteral | trueLiteral
  | falseLiteral | nilLiteral | iotaLiteral
  -- types
  | typeIdentifier | qualifiedType | pointerType | sliceType | arrayType
  | implicitLengthArrayType | mapType | channelType | parenthesizedType | genericType
  | typeArguments | typeElem | negatedType | functionType | interfaceType | methodElem
  | structType | fieldDeclarationList | fieldDeclaration
  -- the rest
  | comment | error
  | token (text : String)
deriving DecidableEq, Repr, Inhabited

namespace NodeKind

def text : NodeKind → String
  | .sourceFile => "source_file"
  | .packageClause => "package_clause"
  | .packageIdentifier => "package_identifier"
  | .functionDeclaration => "function_declaration"
  | .methodDeclaration => "method_declaration"
  | .parameterList => "parameter_list"
  | .parameterDeclaration => "parameter_declaration"
  | .variadicParameterDeclaration => "variadic_parameter_declaration"
  | .typeParameterList => "type_parameter_list"
  | .constDeclaration => "const_declaration"
  | .typeDeclaration => "type_declaration"
  | .varDeclaration => "var_declaration"
  | .varSpecList => "var_spec_list"
  | .varSpec => "var_spec"
  | .block => "block"
  | .statementList => "statement_list"
  | .shortVarDeclaration => "short_var_declaration"
  | .assignmentStatement => "assignment_statement"
  | .expressionStatement => "expression_statement"
  | .returnStatement => "return_statement"
  | .deferStatement => "defer_statement"
  | .goStatement => "go_statement"
  | .ifStatement => "if_statement"
  | .forStatement => "for_statement"
  | .forClause => "for_clause"
  | .rangeClause => "range_clause"
  | .expressionSwitchStatement => "expression_switch_statement"
  | .typeSwitchStatement => "type_switch_statement"
  | .selectStatement => "select_statement"
  | .expressionCase => "expression_case"
  | .typeCase => "type_case"
  | .communicationCase => "communication_case"
  | .defaultCase => "default_case"
  | .labeledStatement => "labeled_statement"
  | .labelName => "label_name"
  | .incStatement => "inc_statement"
  | .decStatement => "dec_statement"
  | .sendStatement => "send_statement"
  | .receiveStatement => "receive_statement"
  | .breakStatement => "break_statement"
  | .continueStatement => "continue_statement"
  | .gotoStatement => "goto_statement"
  | .fallthroughStatement => "fallthrough_statement"
  | .emptyStatement => "empty_statement"
  | .expressionList => "expression_list"
  | .identifier => "identifier"
  | .fieldIdentifier => "field_identifier"
  | .callExpression => "call_expression"
  | .argumentList => "argument_list"
  | .variadicArgument => "variadic_argument"
  | .selectorExpression => "selector_expression"
  | .indexExpression => "index_expression"
  | .sliceExpression => "slice_expression"
  | .typeAssertionExpression => "type_assertion_expression"
  | .typeConversionExpression => "type_conversion_expression"
  | .typeInstantiationExpression => "type_instantiation_expression"
  | .funcLiteral => "func_literal"
  | .compositeLiteral => "composite_literal"
  | .literalValue => "literal_value"
  | .literalElement => "literal_element"
  | .keyedElement => "keyed_element"
  | .unaryExpression => "unary_expression"
  | .binaryExpression => "binary_expression"
  | .parenthesizedExpression => "parenthesized_expression"
  | .intLiteral => "int_literal"
  | .floatLiteral => "float_literal"
  | .imaginaryLiteral => "imaginary_literal"
  | .runeLiteral => "rune_literal"
  | .interpretedStringLiteral => "interpreted_string_literal"
  | .rawStringLiteral => "raw_string_literal"
  | .trueLiteral => "true"
  | .falseLiteral => "false"
  | .nilLiteral => "nil"
  | .iotaLiteral => "iota"
  | .typeIdentifier => "type_identifier"
  | .qualifiedType => "qualified_type"
  | .pointerType => "pointer_type"
  | .sliceType => "slice_type"
  | .arrayType => "array_type"
  | .implicitLengthArrayType => "implicit_length_array_type"
  | .mapType => "map_type"
  | .channelType => "channel_type"
  | .parenthesizedType => "parenthesized_type"
  | .genericType => "generic_type"
  | .typeArguments => "type_arguments"
  | .typeElem => "type_elem"
  | .negatedType => "negated_type"
  | .functionType => "function_type"
  | .interfaceType => "interface_type"
  | .methodElem => "method_elem"
  | .structType => "struct_type"
  | .fieldDeclarationList => "field_declaration_list"
  | .fieldDeclaration => "field_declaration"
  | .comment => "comment"
  | .error => "ERROR"
  | .token text => text

/-- Every kind but that of operators and punctuation marks has a name. -/
def isNamed : NodeKind → Bool
  | .token _ => false
  | _ => true

end NodeKind

/-- The roles that a node can play in its parent. -/
inductive Role where
  | alternative | arguments | body | channel | communication | condition | consequence | field
  | function | initializer | key | label | left | name | operand | operator | parameters
  | receiver | result | right | type | update | value
deriving DecidableEq, Repr

/-- A node of a concrete syntax tree. -/
structure Node where
  kind : NodeKind
  role : Option Role := none
  span : Span
  children : List Node := []
deriving Inhabited

namespace Node

def as (node : Node) (role : Role) : Node :=
  { node with role := some role }

/-- The node has a name, as opposed to operators and punctuation marks. -/
def isNamed (node : Node) : Bool :=
  node.kind.isNamed

def namedChildren (node : Node) : List Node :=
  node.children.filter (·.isNamed)

def child? (node : Node) (role : Role) : Option Node :=
  node.children.find? (·.role == some role)

def childrenIn (node : Node) (role : Role) : List Node :=
  node.children.filter (·.role == some role)

/-- A child is the given operator or punctuation mark. -/
def hasToken (node : Node) (text : String) : Bool :=
  node.children.any (·.kind == .token text)

def ofComment (token : Token) : Node :=
  { kind := .comment, span := token.span }

mutual

/-- Put comments, given in source order, into a node that contains them. -/
def withComments : Node → List Node → Node
  | ⟨kind, role, span, children⟩, comments => ⟨kind, role, span, mergeComments children comments⟩

/-- Put comments among and into children: those that end before a child go in front of it, those
that lie inside it go into it. -/
def mergeComments : List Node → List Node → List Node
  | [], comments => comments
  | child :: rest, comments =>
    let before := comments.takeWhile (·.span.start < child.span.start)
    let others := comments.drop before.length
    let inside := others.takeWhile (·.span.stop ≤ child.span.stop)
    let after := others.drop inside.length
    before ++ (if inside.isEmpty then child else child.withComments inside)
      :: mergeComments rest after

end

end Node

end TxLifecycle.Concrete
