import TxLifecycle.Concrete.Node

/-!
# Parsers over tokens

A parser consumes tokens from the front of a list and fails where they do not fit. Failing
consumes nothing, so another parser can be tried in its place.
-/

namespace TxLifecycle.Concrete

/-- The tokens that are still to be read, and where the last token that was read ends. -/
structure Cursor where
  rest : List Token
  /-- End of the last token that was read. -/
  last : Nat := 0
  left : Nat := rest.length
  left_eq : left = rest.length := by rfl

/-- A parser: it fails, or gives a value and the place after it. -/
abbrev Parser (α : Type) := StateT Cursor Option α

namespace Parser

/-- The next token, which stays where it is. -/
def peek : Parser (Option Token) := do
  return (← get).rest.head?

/-- The text of the next operator, punctuation mark or reserved word; empty for anything else. -/
def peekText : Parser String := do
  match ← peek with
  | some token => return if token.kind == .symbol || token.kind == .keyword then token.text else ""
  | none => return ""

/-- The token after the next one has this text. -/
def secondIs (text : String) : Parser Bool := do
  match (← get).rest with
  | _ :: token :: _ => return token.text == text
  | _ => return false

def peekKind : Parser (Option TokenKind) := do
  return (← peek).map (·.kind)

/-- The next token is this operator, punctuation mark or reserved word. -/
def at? (text : String) : Parser Bool := do
  return (← peekText) == text

def next : Parser Token := fun cursor =>
  match h : cursor.rest with
  | [] => none
  | token :: rest =>
    some (token,
      { rest
        last := token.span.stop
        left := cursor.left - 1
        left_eq := by simp [cursor.left_eq, h] })

/-- Pass over the tokens that a function picks from the front. -/
def skipFront (front : List Token → List Token) : Parser Unit := fun cursor =>
  let passed := front cursor.rest
  some ((),
    { rest := cursor.rest.drop passed.length
      last := (passed.getLast?.map (·.span.stop)).getD cursor.last
      left := cursor.left - passed.length
      left_eq := by simp [cursor.left_eq] })

/-- Take the next token if it is this operator, punctuation mark or reserved word. -/
def expect (text : String) : Parser Token := do
  if ← at? text then next else failure

/-- Take the next token if it is a name. -/
def name : Parser Token := do
  if (← peekKind) == some .identifier then next else failure

/-- Take the next token if it is this operator, punctuation mark or reserved word, and tell
whether it was. -/
def accept (text : String) : Parser Bool := do
  if ← at? text then
    let _ ← next
    return true
  else return false

def skipNewline : Parser Unit := do
  if (← peekKind) == some .newline then let _ ← next

/-- Take a closing bracket, also on a line of its own. -/
def close (text : String) : Parser Token := do
  skipNewline
  expect text

def start : Parser Nat := do
  match ← peek with
  | some token => return token.span.start
  | none => return (← get).last

/-- A node from a given start to the last token that was read. -/
def finish (kind : NodeKind) (start : Nat) (children : List Node) : Parser Node := do
  return { kind, span := ⟨start, (← get).last⟩, children }

/-- A node without parts made from one token. -/
def leaf (kind : NodeKind) (token : Token) : Node :=
  { kind, span := token.span }

/-- The node of an operator or a punctuation mark. -/
def mark (token : Token) : Node :=
  leaf (.token token.text) token

/-- Try a parser, and give nothing where it fails. -/
def optionally {α : Type} (p : Parser α) : Parser (Option α) :=
  (some <$> p) <|> pure none

/-- Run a parser as long as it succeeds and consumes tokens, and collect its values. -/
def manyFrom {α : Type} (p : Parser α) (cursor : Cursor) : List α × Cursor :=
  match p cursor with
  | none => ([], cursor)
  | some (a, after) =>
    if after.left < cursor.left then
      let (as, final) := manyFrom p after
      (a :: as, final)
    else ([], cursor)
termination_by cursor.left

/-- The values of a parser that is run as long as it succeeds and consumes tokens. -/
def many {α : Type} (p : Parser α) : Parser (List α) :=
  fun cursor => some (manyFrom p cursor)

/-- Extend a value by a parser as long as it succeeds and consumes tokens. -/
def extendFrom {α : Type} (p : α → Parser α) (a : α) (cursor : Cursor) : α × Cursor :=
  match p a cursor with
  | none => (a, cursor)
  | some (a', after) =>
    if after.left < cursor.left then extendFrom p a' after else (a, cursor)
termination_by cursor.left

/-- Extend a value by a parser as long as it succeeds and consumes tokens. -/
def extend {α : Type} (p : α → Parser α) (a : α) : Parser α :=
  fun cursor => some (extendFrom p a cursor)

/-- One or more values with commas between them. -/
def commaSep {α : Type} (p : Parser α) : Parser (List α) := do
  let first ← p
  let others ← many (do let _ ← expect ","; p)
  return first :: others

/-- Values with commas between them and possibly after them, up to a closing bracket. -/
def commaList {α : Type} (p : Parser α) (closing : String) : Parser (List α) := do
  skipNewline
  if ← accept closing then return []
  let values ← commaSep p
  let _ ← accept ","
  let _ ← close closing
  return values

end Parser

/-- The parsers for parts that nest inside each other. Each of them reads one level less deep than
the parser that uses it. -/
structure Rules where
  /-- An expression. `inHeader` holds directly in the header of a control statement, where a brace
  after a name starts a block and not a literal. -/
  expression : (inHeader : Bool) → Parser Node
  /-- An expression without binary operators. -/
  unary : (inHeader : Bool) → Parser Node
  type : Parser Node
  literalValue : Parser Node
  statement : Parser Node
  ifStatement : Parser Node
  block : Parser Node

end TxLifecycle.Concrete
