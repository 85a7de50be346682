import TxLifecycle.Text.Decimal
import TxLifecycle.Text.Reader
import TxLifecycle.Toml.Value

/-!
# TOML documents

A document is a list of lines: an assignment, a header of a table, a header of an element of an
array of tables, or nothing but a comment. Reading gives its tables, or nothing where a line is
malformed or contradicts an earlier one.
-/

namespace TxLifecycle.Toml

open Reader

def isSpace (c : Char) : Bool := c == ' ' || c == '\t'

def space : Reader Unit := skipWhile isSpace

def newline : Reader Unit := char '\n' <|> word "\r\n"

/-- The character may stand in a comment or in a literal text. -/
def isPlain (c : Char) : Bool :=
  c == '\t' || (0x20 ≤ c.toNat && c.toNat != 0x7f)

/-- A comment up to the end of its line. -/
def comment : Reader Unit := do
  char '#'
  skipWhile isPlain

/-- Blanks, newlines and comments between the items of an array. -/
def gap : Reader Unit := do
  let _ ← many (do space; let _ ← accept comment; newline)
  space
  let _ ← accept comment

/-! ## Texts -/

/-- A character of a text between double quotes. -/
def basicChar : Reader Char := do
  let c ← satisfy fun c => isPlain c && c != '"'
  if c == '\\' then escape else return c

def basicText : Reader String := do
  char '"'
  let cs ← many basicChar
  char '"'
  return String.ofList cs

/-- A text between single quotes, without escapes. -/
def literalText : Reader String := do
  char '\''
  let cs ← takeWhile fun c => isPlain c && c != '\''
  char '\''
  return String.ofList cs

/-- The quotes at the end of a text of several lines: three that close it and up to two before
them that belong to it. -/
def closingQuotes (quote : Char) : Reader (List Char) := fun rest =>
  let n := (rest.takeWhile (· == quote)).length
  if 3 ≤ n then some (List.replicate (min n 5 - 3) quote, rest.drop (min n 5)) else none

/-- One or two quotes inside a text of several lines. -/
def innerQuotes (quote : Char) : Reader (List Char) := do
  let rest ← get
  if ((rest.takeWhile (· == quote)).length) < 3 then takeSome (· == quote) else failure

/-- A backslash at the end of a line, which drops the blanks and newlines up to the next text. -/
def lineJoin : Reader (List Char) := do
  char '\\'
  space
  newline
  let _ ← many (newline <|> (do let _ ← satisfy isSpace))
  return []

/-- A piece of a text of several lines between double quotes. -/
def basicPiece : Reader (List Char) :=
  innerQuotes '"' <|> lineJoin <|> (do newline; return ['\n']) <|> (do return [← basicChar])

/-- A piece of a text of several lines between single quotes. -/
def literalPiece : Reader (List Char) :=
  innerQuotes '\'' <|> (do newline; return ['\n'])
    <|> (do return [← satisfy fun c => isPlain c && c != '\''])

/-- A text of several lines between three quotes on each side. A newline right after the opening
quotes does not belong to it. -/
def longText (quote : Char) (piece : Reader (List Char)) : Reader String := do
  exactly [quote, quote, quote]
  let _ ← accept newline
  let pieces ← many piece
  let last ← closingQuotes quote
  return String.ofList (pieces.flatten ++ last)

def anyText : Reader String :=
  longText '"' basicPiece <|> longText '\'' literalPiece <|> basicText <|> literalText

/-! ## Numbers -/

/-- Digits of a base, with an underscore between two of them now and then. -/
def digits (base : Nat) : Reader (List Char) := do
  let first ← satisfy (Text.isDigitOf base)
  let others ← many do
    let _ ← accept (char '_')
    satisfy (Text.isDigitOf base)
  return first :: others

/-- Decimal digits without a zero in front. -/
def wholeDigits : Reader (List Char) := do
  let cs ← digits 10
  if cs.head? == some '0' && 1 < cs.length then failure else return cs

def sign : Reader Bool :=
  (do char '-'; return true) <|> (do char '+'; return false) <|> pure false

def integer : Reader Value := do
  let n : Int ← based "0x" 16 <|> based "0o" 8 <|> based "0b" 2 <|> decimal
  if Int64.minValue.toInt ≤ n && n ≤ Int64.maxValue.toInt then return .integer n else failure
where
  /-- An integer with a mark for its base. -/
  based (mark : String) (base : Nat) : Reader Int := do
    word mark
    return Text.ofDigits base (← digits base)
  decimal : Reader Int := do
    let negative ← sign
    let n := Text.ofDigits 10 (← wholeDigits)
    return if negative then -(n : Int) else n

/-- The power of ten after a number. -/
def exponent : Reader Int := do
  let _ ← satisfy fun c => c == 'e' || c == 'E'
  let negative ← sign
  let n := Text.ofDigits 10 (← digits 10)
  return if negative then -(n : Int) else n

/-- A number with a fraction, an exponent or both. It fails if it is too large. -/
def fractional : Reader Value := do
  let negative ← sign
  let whole ← wholeDigits
  let fraction ← (do char '.'; digits 10) <|> pure []
  let power ← exponent <|> (if fraction.isEmpty then failure else pure 0)
  let x := Decimal.toFloat (Text.ofDigits 10 (whole ++ fraction)) (power - fraction.length)
  if !negative && x.isInf then failure
  return .float (if negative then -x else x)

/-- The numbers that are written as words. -/
def wordNumber : Reader Value := do
  let negative ← sign
  let x : Float ← (do word "inf"; return 1 / 0) <|> (do word "nan"; return 0 / 0)
  return .float (if negative then -x else x)

/-! ## Dates and times -/

/-- A number of a fixed count of decimal digits. -/
def fixed (n : Nat) : Reader Nat := do
  return Text.ofDigits 10 (← count n Char.isDigit)

def daysIn (year month : Nat) : Nat :=
  if month == 2 then
    if year % 4 == 0 && (year % 100 != 0 || year % 400 == 0) then 29 else 28
  else if [4, 6, 9, 11].contains month then 30
  else 31

def date : Reader Unit := do
  let year ← fixed 4
  char '-'
  let month ← fixed 2
  char '-'
  let day ← fixed 2
  if 1 ≤ month && month ≤ 12 && 1 ≤ day && day ≤ daysIn year month then return () else failure

def time : Reader Unit := do
  let hour ← fixed 2
  char ':'
  let minute ← fixed 2
  char ':'
  let second ← fixed 2
  let _ ← accept do
    char '.'
    let _ ← takeSome Char.isDigit
  if hour ≤ 23 && minute ≤ 59 && second ≤ 60 then return () else failure

def zone : Reader Unit :=
  char 'Z' <|> char 'z' <|> do
    let _ ← satisfy fun c => c == '+' || c == '-'
    let hour ← fixed 2
    char ':'
    let minute ← fixed 2
    if hour ≤ 23 && minute ≤ 59 then return () else failure

/-- A date, a time, or a date with a time and possibly a zone. -/
def moment : Reader Value := do
  let before ← get
  let dated : Reader Unit := do
    date
    let _ ← accept do
      let _ ← satisfy fun c => c == 'T' || c == 't' || c == ' '
      time
      let _ ← accept zone
  dated <|> time
  let after ← get
  return .moment (String.ofList (before.take (before.length - after.length)))

/-! ## Keys and values -/

def simpleKey : Reader String :=
  (do return String.ofList (← takeSome fun c => c.isAlphanum || c == '_' || c == '-'))
    <|> basicText <|> literalText

/-- The most levels of nesting in a document. -/
def nestingLimit : Nat := 80

/-- A key: names with dots between them. -/
def key : Reader (List String) := do
  let first ← simpleKey
  let others ← many do
    space
    char '.'
    space
    simpleKey
  if others.length + 1 < nestingLimit then return first :: others else failure

def assignment (value : Reader Value) : Reader (List String × Value) := do
  let path ← key
  space
  char '='
  space
  return (path, ← value)

/-- Items with commas between them; a comma after the last one is taken as well. -/
def separated (item : Reader Value) : Reader (List Value) :=
  (do
    let first ← item
    let others ← many do
      gap
      char ','
      gap
      item
    gap
    let _ ← accept (char ',')
    return first :: others) <|> pure []

def inlineTable (value : Reader Value) : Reader Value := do
  char '\x7b'
  space
  let pairs ← (do
    let first ← assignment value
    let others ← many do
      space
      char ','
      space
      assignment value
    return first :: others) <|> pure []
  space
  char '\x7d'
  match pairs.foldlM (fun (entries : Entries) (path, v) => entries.insertDotted v path) [] with
  | some entries => return .table .inline entries
  | none => failure

/-- A value with at most `depth` levels of arrays and tables in it. -/
def value : (depth : Nat) → Reader Value
  | 0 => failure
  | depth + 1 =>
    (do return .text (← anyText))
      <|> (do
        char '['
        gap
        let items ← separated (value depth)
        gap
        char ']'
        return .array items)
      <|> inlineTable (value depth)
      <|> (do word "true"; return .bool true)
      <|> (do word "false"; return .bool false)
      <|> moment <|> fractional <|> integer <|> wordNumber

/-! ## Lines -/

inductive Line where
  | assign (path : List String) (value : Value)
  | table (path : List String)
  /-- The header of an element of an array of tables. -/
  | element (path : List String)

/-- A header: a key between brackets. -/
def header (opening closing : String) : Reader (List String) := do
  word opening
  space
  let path ← key
  space
  word closing
  return path

def line : Reader (Option Line) := do
  space
  let found ← (do return some (Line.element (← header "[[" "]]")))
    <|> (do return some (Line.table (← header "[" "]")))
    <|> (do
      let (path, v) ← assignment (value nestingLimit)
      return some (Line.assign path v))
    <|> pure none
  space
  let _ ← accept comment
  return found

def lines : Reader (List Line) := do
  let _ ← accept (char (Char.ofNat 0xfeff))
  let first ← line
  let others ← many do newline; line
  return (first :: others).filterMap id

/-- What has been read of a document, and the table that assignments go to. -/
structure Progress where
  root : Entries := []
  current : List String := []

def Progress.add (state : Progress) : Line → Option Progress
  | .assign path v => do
    let root ← state.root.modifyAt (·.insertDotted v path) state.current
    return { state with root }
  | .table path => do
    let root ← state.root.modifyAt (Entries.openTable (path.getLast?.getD "")) path.dropLast
    return { root, current := path }
  | .element path => do
    let root ← state.root.modifyAt (Entries.openElement (path.getLast?.getD "")) path.dropLast
    return { root, current := path }

/-- The tables of a document; nothing if it is malformed or contradicts itself. -/
def parse? (text : String) : Option Entries := do
  let found ← lines.whole text
  let final ← found.foldlM Progress.add {}
  return final.root

end TxLifecycle.Toml
