/-!
# Structured values

Values of the structured output and their text: fields in the order given, two blanks of
indentation for every level, empty lists and objects on one line.
-/

namespace TxLifecycle

inductive JsonValue where
  | null
  | bool (value : Bool)
  | int (value : Int)
  | text (value : String)
  | list (values : List JsonValue)
  | object (fields : List (String × JsonValue))
deriving Inhabited

namespace JsonValue

def nat (n : Nat) : JsonValue := .int n

def hexDigit (n : Nat) : Char :=
  if n < 10 then Char.ofNat (48 + n) else Char.ofNat (87 + n)

/-- A character inside a quoted text. Quotes, backslashes and control characters are escaped; all
else stands for itself. -/
def escape (c : Char) : List Char :=
  if c == '"' then ['\\', '"']
  else if c == '\\' then ['\\', '\\']
  else if c == '\n' then ['\\', 'n']
  else if c == '\r' then ['\\', 'r']
  else if c == '\t' then ['\\', 't']
  else if c.toNat == 8 then ['\\', 'b']
  else if c.toNat == 12 then ['\\', 'f']
  else if c.toNat < 32 then
    ['\\', 'u', '0', '0', hexDigit (c.toNat / 16), hexDigit (c.toNat % 16)]
  else [c]

def quote (text : String) : String :=
  "\"" ++ String.ofList (text.toList.flatMap escape) ++ "\""

def indentation (level : Nat) : String :=
  String.ofList (List.replicate (2 * level) ' ')

/-- Lines between brackets, the closing one on the level of the opening one. -/
def enclosed (level : Nat) (opening closing : String) (items : List String) : String :=
  if items.isEmpty then opening ++ closing
  else
    let lines := items.map (indentation (level + 1) ++ ·)
    opening ++ "\n" ++ ",\n".intercalate lines ++ "\n" ++ indentation level ++ closing

mutual

/-- The text of a value whose first line stands on the given level. -/
def renderAt (level : Nat) : JsonValue → String
  | .null => "null"
  | .bool b => if b then "true" else "false"
  | .int n => toString n
  | .text s => quote s
  | .list values => enclosed level "[" "]" (renderItems (level + 1) values)
  | .object fields => enclosed level "\x7b" "\x7d" (renderFields (level + 1) fields)

/-- The texts of the members of a list. -/
def renderItems (level : Nat) : List JsonValue → List String
  | [] => []
  | v :: vs => v.renderAt level :: renderItems level vs

/-- The texts of the fields of an object. -/
def renderFields (level : Nat) : List (String × JsonValue) → List String
  | [] => []
  | (key, v) :: rest => (quote key ++ ": " ++ v.renderAt level) :: renderFields level rest

end

def render (value : JsonValue) : String :=
  value.renderAt 0

end JsonValue

end TxLifecycle
