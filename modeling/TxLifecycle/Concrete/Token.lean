import TxLifecycle.Source.Span

/-!
# Tokens of Go source

A source text is cut into tokens and comments. Blanks separate tokens and are dropped. A newline
is kept as a token of its own where it ends a statement, that is, after a token with which a
statement can end.
-/

namespace TxLifecycle.Concrete

inductive TokenKind where
  | identifier
  | keyword
  | symbol
  | int
  /-- A number with a fraction or an exponent. -/
  | float
  | imaginary
  | rune
  | string
  | rawString
  /-- Newlines that follow each other directly. -/
  | newline
  | comment
deriving DecidableEq, Repr, Inhabited

/-- One token with its text and its place. -/
structure Token where
  kind : TokenKind
  text : String
  span : Span
deriving DecidableEq, Repr, Inhabited

namespace Token

def keywords : List String :=
  ["break", "case", "chan", "const", "continue", "default", "defer", "else", "fallthrough", "for",
   "func", "go", "goto", "if", "import", "interface", "map", "package", "range", "return",
   "select", "struct", "switch", "type", "var"]

/-- The operators and punctuation marks of more than one character, the longest first. -/
def longSymbols : List String :=
  ["<<=", ">>=", "&^=", "...", "&&", "||", "<-", "++", "--", "==", "!=", "<=", ">=", ":=", "+=",
   "-=", "*=", "/=", "%=", "&=", "|=", "^=", "<<", ">>", "&^"]

/-- A character with which a name starts. Outside strings and comments, source text has no other
characters beyond ASCII. -/
def isNameStart (c : Char) : Bool :=
  c.isAlpha || c == '_' || 128 ≤ c.toNat

/-- A character that continues a name. -/
def isNameRest (c : Char) : Bool :=
  isNameStart c || c.isDigit

def byteLength (cs : List Char) : Nat :=
  cs.foldr (fun c size => c.utf8Size + size) 0

/-- A part cut off the front of a text, and what follows it. -/
abbrev Cut := List Char × List Char

/-- Cut off characters up to and including a closing quote. A backslash keeps the next character
from closing; a newline ends the text where it does not belong to it. -/
def cutQuoted (quote : Char) : List Char → Cut
  | [] => ([], [])
  | '\\' :: c :: rest => let (text, rest) := cutQuoted quote rest; ('\\' :: c :: text, rest)
  | c :: rest =>
    if c == quote then ([c], rest)
    else if c == '\n' then ([], c :: rest)
    else let (text, rest) := cutQuoted quote rest; (c :: text, rest)

def backQuote : Char := Char.ofNat 96

/-- Cut off characters up to and including the closing back quote. -/
def cutRaw : List Char → Cut
  | [] => ([], [])
  | c :: rest =>
    if c == backQuote then ([c], rest) else let (text, rest) := cutRaw rest; (c :: text, rest)

/-- Cut off characters up to and including the end of a bracketed comment. -/
def cutComment : List Char → Cut
  | [] => ([], [])
  | '*' :: '/' :: rest => (['*', '/'], rest)
  | c :: rest => let (text, rest) := cutComment rest; (c :: text, rest)

/-- Digits of a number, with the underscores between them. -/
def cutDigits (isDigit : Char → Bool) (cs : List Char) : Cut :=
  cs.span fun c => isDigit c || c == '_'

def isHexDigit (c : Char) : Bool :=
  c.isDigit || ('a' ≤ c && c ≤ 'f') || ('A' ≤ c && c ≤ 'F')

/-- An exponent that starts with one of the marks, if there is one. -/
def cutExponent (marks : List Char) : List Char → Cut
  | [] => ([], [])
  | c :: rest =>
    if marks.contains c then
      match rest with
      | '+' :: rest => let (digits, rest) := cutDigits Char.isDigit rest; (c :: '+' :: digits, rest)
      | '-' :: rest => let (digits, rest) := cutDigits Char.isDigit rest; (c :: '-' :: digits, rest)
      | rest => let (digits, rest) := cutDigits Char.isDigit rest; (c :: digits, rest)
    else ([], c :: rest)

/-- A point and the digits after it, if there is one. -/
def cutFraction (isDigit : Char → Bool) : List Char → Cut
  | '.' :: rest => let (digits, rest) := cutDigits isDigit rest; ('.' :: digits, rest)
  | rest => ([], rest)

/-- Cut off a number: digits in its base, a fraction, an exponent, and the mark of imaginary
numbers. -/
def cutNumber (cs : List Char) : TokenKind × Cut :=
  let (start, isDigit, marks, rest) := match cs with
    | '0' :: 'x' :: rest => (['0', 'x'], isHexDigit, ['p', 'P'], rest)
    | '0' :: 'X' :: rest => (['0', 'X'], isHexDigit, ['p', 'P'], rest)
    | '0' :: 'b' :: rest => (['0', 'b'], Char.isDigit, [], rest)
    | '0' :: 'B' :: rest => (['0', 'B'], Char.isDigit, [], rest)
    | '0' :: 'o' :: rest => (['0', 'o'], Char.isDigit, [], rest)
    | '0' :: 'O' :: rest => (['0', 'O'], Char.isDigit, [], rest)
    | _ => ([], Char.isDigit, ['e', 'E'], cs)
  let (whole, rest) := cutDigits isDigit rest
  let (fraction, rest) := cutFraction isDigit rest
  let (exponent, rest) := cutExponent marks rest
  let text := start ++ whole ++ fraction ++ exponent
  match rest with
  | 'i' :: rest => (.imaginary, text ++ ['i'], rest)
  | _ => (if fraction.isEmpty && exponent.isEmpty then .int else .float, text, rest)

/-- Cut off a symbol: the longest one that fits. -/
def cutSymbol (cs : List Char) : Cut :=
  match longSymbols.find? (·.toList.isPrefixOf cs) with
  | some symbol => (symbol.toList, cs.drop symbol.length)
  | none => (cs.take 1, cs.drop 1)

/-- The first token of a text that does not start with a blank. -/
def cutToken (cs : List Char) : TokenKind × Cut :=
  match cs with
  | '\n' :: _ => (.newline, cs.span (· == '\n'))
  | '/' :: '/' :: _ => (.comment, cs.span (· != '\n'))
  | '/' :: '*' :: rest => let (text, rest) := cutComment rest; (.comment, '/' :: '*' :: text, rest)
  | '"' :: rest => let (text, rest) := cutQuoted '"' rest; (.string, '"' :: text, rest)
  | '\'' :: rest => let (text, rest) := cutQuoted '\'' rest; (.rune, '\'' :: text, rest)
  | c :: rest =>
    if c == backQuote then
      let (text, rest) := cutRaw rest
      (.rawString, c :: text, rest)
    else if isNameStart c then
      let (text, rest) := cs.span isNameRest
      (if keywords.contains (String.ofList text) then .keyword else .identifier, text, rest)
    else if c.isDigit || (c == '.' && (rest.head?.any Char.isDigit)) then cutNumber cs
    else (.symbol, cutSymbol cs)
  | [] => (.newline, [], [])

def isBlank (c : Char) : Bool :=
  c == ' ' || c == '\t' || c == '\r' || c == '\x0b' || c == '\x0c'

/-- The tokens of at most `fuel` characters that start at `offset`. -/
def scan : Nat → Nat → List Char → List Token
  | 0, _, _ => []
  | _, _, [] => []
  | fuel + 1, offset, c :: rest =>
    if isBlank c then scan fuel (offset + 1) rest
    else
      let (kind, text, rest) := cutToken (c :: rest)
      let stop := offset + byteLength text
      ⟨kind, String.ofList text, ⟨offset, stop⟩⟩ :: scan fuel stop rest

/-- A statement can end with the token. -/
def endsStatement (token : Token) : Bool :=
  match token.kind with
  | .identifier | .int | .float | .imaginary | .rune | .string | .rawString => true
  | .keyword => ["break", "continue", "fallthrough", "return"].contains token.text
  | .symbol => ["++", "--", ")", "]", "\x7d"].contains token.text
  | .newline | .comment => false

/-- Keep a newline only where it ends a statement, and let the end of the text end one too. `ended`
tells whether the token before can end a statement, and `stop` is the end of the text. -/
def endStatements (stop : Nat) : Bool → List Token → List Token
  | true, [] => [⟨.newline, "", ⟨stop, stop⟩⟩]
  | false, [] => []
  | ended, token :: rest =>
    match token.kind with
    | .newline =>
      if ended then token :: endStatements stop false rest else endStatements stop false rest
    | _ => token :: endStatements stop token.endsStatement rest

end Token

structure Lexemes where
  /-- Tokens, with a newline token wherever a newline ends a statement. -/
  tokens : List Token
  comments : List Token
deriving Repr, Inhabited

/-- The mark that a text may start with to show its encoding. -/
def byteOrderMark : Char := Char.ofNat 0xfeff

/-- Cut a source text into tokens and comments. -/
def Lexemes.ofText (text : String) : Lexemes :=
  let all := text.toList
  let (offset, cs) := match all with
    | c :: rest => if c == byteOrderMark then (c.utf8Size, rest) else (0, all)
    | [] => (0, [])
  let tokens := Token.scan all.length offset cs
  { tokens := Token.endStatements text.utf8ByteSize false (tokens.filter (·.kind != .comment))
    comments := tokens.filter (·.kind == .comment) }

end TxLifecycle.Concrete
