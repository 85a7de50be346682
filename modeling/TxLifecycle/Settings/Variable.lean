import TxLifecycle.Settings.Layer

/-!
# Environment variables

A variable with the right name sets the value under the rest of its name, where two underscores
stand for a dot. Its text can be a truth value, a number, a quoted text, a list in brackets or a
table in braces; any other text stands for itself.
-/

namespace TxLifecycle.Variable

open Reader

/-- A blank between the parts of a value. -/
def isSpace (c : Char) : Bool :=
  c == ' ' || c == '\t' || c == '\n' || c == '\r' || c.toNat == 12

/-- The character ends a plain value inside a list or a table. -/
def isSeparator (c : Char) : Bool :=
  c == ',' || c == '\x7b' || c == '\x7d' || c == '[' || c == ']'

def quotedChar : Reader Char := do
  let c ← satisfy fun c => c != '"' && (c == '\t' || (0x20 ≤ c.toNat && c.toNat != 0x7f))
  if c == '\\' then escape else return c

def quoted : Reader String := do
  char '"'
  let cs ← many quotedChar
  char '"'
  return String.ofList cs

/-- The floating-point number of a text with a point. -/
def float? (text : String) : Option Float :=
  if text.contains '.' then number.whole text else none
where
  sign : Reader Bool :=
    (do char '-'; return true) <|> (do char '+'; return false) <|> pure false
  power : Reader Int := do
    let _ ← satisfy fun c => c == 'e' || c == 'E'
    let negative ← sign
    let n := Text.ofDigits 10 (← takeSome Char.isDigit)
    return if negative then -(n : Int) else n
  number : Reader Float := do
    let negative ← sign
    let whole ← takeWhile Char.isDigit
    char '.'
    let fraction ← takeWhile Char.isDigit
    if whole.isEmpty && fraction.isEmpty then failure
    let exponent ← power <|> pure 0
    let x := Decimal.toFloat (Text.ofDigits 10 (whole ++ fraction)) (exponent - fraction.length)
    return if negative then -x else x

/-- The digits of a text, if it has nothing else. -/
def digits? (cs : List Char) : Option Nat :=
  if !cs.isEmpty && cs.all Char.isDigit then some (Text.ofDigits 10 cs) else none

/-- The number of 64 bits that a text stands for. A plus counts for nothing; with a minus the number
has a sign. -/
def integer? (text : String) : Option Setting :=
  match text.toList with
  | '-' :: cs =>
    (digits? cs).bind fun n =>
      if Int64.minValue.toInt ≤ -(n : Int) then some (.signed .environment (-(n : Int))) else none
  | cs =>
    let cs := if cs.head? == some '+' then cs.tail else cs
    (digits? cs).bind fun n => if n < UInt64.size then some (.unsigned .environment n) else none

def plain (text : String) : Setting :=
  match float? text with
  | some x => .float .environment x
  | none => (integer? text).getD (.text .environment text)

/-- Items with commas between them, up to a closing bracket; a comma may stand after the last. -/
def items {α : Type} (item : Reader α) (closing : Char) : Reader (List α) := do
  let firsts ← many do
    let closed ← accept (char closing)
    if closed then failure
    let a ← item
    char ','
    return a
  let closed ← accept (char closing)
  if closed then return firsts
  let last ← item
  char closing
  return firsts ++ [last]

def key : Reader String :=
  quoted <|> (do
    return String.ofList (← takeSome fun c => c.isAlphanum || c == '_' || c == '-'))

def entry (value : Reader Setting) : Reader (String × Setting) := do
  skipWhile isSpace
  let k ← key
  skipWhile isSpace
  char '='
  skipWhile isSpace
  let v ← value
  skipWhile isSpace
  return (k, v)

/-- A table from its entries; of two with one key the later counts. -/
def tableOf (entries : List (String × Setting)) : Setting :=
  .table .environment (entries.foldl (fun acc e => acc.filter (·.1 != e.1) ++ [e]) [])

/-- A value with at most `depth` levels of lists and tables in it. -/
def value : (depth : Nat) → Reader Setting
  | 0 => failure
  | depth + 1 => do
    skipWhile isSpace
    let v ← match ← peek with
      | some '"' => do return Setting.text .environment (← quoted)
      | some '[' => do
        char '['
        return .list .environment (← items (value depth) ']')
      | some '\x7b' => do
        char '\x7b'
        return tableOf (← items (entry (value depth)) '\x7d')
      | some '\'' => do
        char '\''
        let c ← next
        char '\''
        return .text .environment (String.singleton c)
      | _ =>
        (do word "true"; return .bool .environment true)
          <|> (do word "false"; return .bool .environment false)
          <|> (do
            let cs ← takeWhile (!isSeparator ·)
            return plain (Text.trim (String.ofList cs)))
    skipWhile isSpace
    return v

/-- The value of the text of a variable. A text without a proper form stands for itself. -/
def parse (text : String) : Setting :=
  let text := Text.trim text
  ((value (text.length + 1)).whole text).getD (.text .environment text)

/-- What the names of all variables start with. -/
def namePrefix : String := "txguard_"

/-- The path of keys that a variable sets, if it sets any. Capitals and small letters are alike. -/
def path? (name : String) : Option (List String) :=
  let name := (Text.trim name).toLower
  if namePrefix.toList.isPrefixOf name.toList then
    let rest := String.ofList (name.toList.drop namePrefix.length)
    let keys := (Text.trim (".".intercalate (rest.splitOn "__"))).splitOn "."
    if keys.any (· == "") then none else some keys
  else none

/-- The layer of all variables; a later variable lies on an earlier one. -/
def layer (environment : List (String × String)) : Setting :=
  environment.foldl (fun below (name, text) =>
    match path? name with
    | some keys => (Setting.nested .environment (parse text) keys).laidOn below
    | none => below) (.table .environment [])

end TxLifecycle.Variable
