import TxLifecycle.Concrete.Grammar.Stmt

/-!
# Source files

The concrete tree of a whole source text. Only package clauses and declarations of functions and
methods become nodes; everything else at the top level is passed over.
-/

namespace TxLifecycle.Concrete

namespace Rules

def none : Rules where
  expression _ := failure
  unary _ := failure
  type := failure
  literalValue := failure
  statement := failure
  ifStatement := failure
  block := failure

/-- Rules that read parts nested up to `depth` levels. -/
def upTo : Nat → Rules
  | 0 => none
  | depth + 1 =>
    { expression := fun inHeader => Grammar.expression (upTo depth) inHeader
      unary := fun inHeader => Grammar.unary (upTo depth) inHeader
      type := fun cursor => Grammar.type (upTo depth) cursor
      literalValue := fun cursor => Grammar.literalValue (upTo depth) cursor
      statement := fun cursor => Grammar.statement (upTo depth) cursor
      ifStatement := fun cursor => Grammar.ifStatement (upTo depth) cursor
      block := fun cursor => Grammar.block (upTo depth) cursor }

end Rules

namespace Grammar

open TxLifecycle.Concrete.Parser

def packageClause : Parser Node := do
  let opening ← expect "package"
  let name ← name
  finish .packageClause opening.span.start [leaf .packageIdentifier name]

/-- The tokens up to the one that closes the outermost bracket. -/
def cutBrackets (depth : Nat) : List Token → List Token
  | [] => []
  | token :: rest =>
    let depth := bracketDepth depth token
    if depth == 0 then [token] else token :: cutBrackets depth rest

/-- Type parameters between brackets, of which only the extent is kept. -/
def typeParameters : Parser Node := do
  let opening ← expect "["
  skipFront (cutBrackets 1)
  finish .typeParameterList opening.span.start []

/-- The part of a declaration after its name: parameters, result, and the body if there is one. -/
def signatureAndBody (rules : Rules) : Parser (List Node) := do
  let parameters ← parameterList rules
  let result ← result rules
  let body ← if ← at? "\x7b" then some <$> rules.block else pure none
  return parameters.as .parameters :: result ++ (body.map (·.as .body)).toList

def functionDeclaration (rules : Rules) : Parser Node := do
  let opening ← expect "func"
  let name ← name
  let types ← optionally typeParameters
  let parts ← signatureAndBody rules
  finish .functionDeclaration opening.span.start
    ((leaf .identifier name).as .name :: types.toList ++ parts)

def methodDeclaration (rules : Rules) : Parser Node := do
  let opening ← expect "func"
  let receiver ← parameterList rules
  let name ← name
  let parts ← signatureAndBody rules
  finish .methodDeclaration opening.span.start
    (receiver.as .receiver :: (leaf .fieldIdentifier name).as .name :: parts)

/-- Pass over anything else at the top level: the rest of a statement, or a single token where
there is no statement. -/
def passOver : Parser (List Node) := do
  let before := (← get).left
  if !(← at? "func") then skipStatement
  if (← get).left == before then
    let _ ← next
  return []

def topLevel (rules : Rules) : Parser (List Node) :=
  (do return [← packageClause])
  <|> (do return [← functionDeclaration rules])
  <|> (do return [← methodDeclaration rules])
  <|> passOver

end Grammar

namespace Node

/-- The concrete tree of a source text. -/
def ofText (text : String) : Node :=
  let lexemes := Lexemes.ofText text
  let rules := Rules.upTo (lexemes.tokens.length + 1)
  let items := (Parser.manyFrom (Grammar.topLevel rules) { rest := lexemes.tokens }).1
  let root : Node :=
    { kind := .sourceFile, span := ⟨0, text.utf8ByteSize⟩, children := items.flatten }
  root.withComments (lexemes.comments.map ofComment)

end Node

end TxLifecycle.Concrete
