/-!
# TOML text

Texts and arrays of texts as they are written in a settings file: a text between double quotes if
it needs no escape there, else between single quotes, else over several lines, and an array of
several items with one item on each line.
-/

namespace TxLifecycle.Toml

/-- The longest run of a character. -/
def longestRun (c : Char) (cs : List Char) : Nat :=
  (cs.foldl (fun (best, run) d =>
    if d == c then (max best (run + 1), run + 1) else (best, 0)) (0, 0)).1

/-- The character has to be escaped wherever it stands. -/
def needsCode (c : Char) : Bool :=
  (c.toNat < 0x20 && c != '\t' && c != '\n') || c.toNat == 0x7f

/-- The escape of a character between double quotes. -/
def escapeOf (c : Char) : List Char :=
  if c == '\t' then ['\\', 't']
  else if c == '\r' then ['\\', 'r']
  else if c == '\\' then ['\\', '\\']
  else if c.toNat == 8 then ['\\', 'b']
  else if c.toNat == 12 then ['\\', 'f']
  else if needsCode c then
    let hex := (Nat.toDigits 16 c.toNat).map Char.toUpper
    ['\\', 'u'] ++ List.replicate (4 - hex.length) '0' ++ hex
  else [c]

/-- The characters of a text between double quotes. Newlines and up to two quotes in a row stand
for themselves in a text of several lines; `run` counts the quotes just before. -/
def escaped (long : Bool) : (run : Nat) → List Char → List Char
  | _, [] => []
  | run, c :: cs =>
    if c == '"' then
      if long && run < 2 then c :: escaped long (run + 1) cs else ['\\', '"'] ++ escaped long 0 cs
    else if c == '\n' then
      (if long then ['\n'] else ['\\', 'n']) ++ escaped long 0 cs
    else escapeOf c ++ escaped long 0 cs

def writeText (text : String) : String :=
  let cs := text.toList
  let codes := cs.any needsCode
  let backslash := cs.contains '\\'
  let newline := cs.contains '\n'
  let double := longestRun '"' cs
  let single := longestRun '\'' cs
  let basic := "\"" ++ String.ofList (escaped false 0 cs) ++ "\""
  let start := if newline then "\n" else ""
  let long := "\"\"\"" ++ start ++ String.ofList (escaped true 0 cs) ++ "\"\"\""
  if !codes && !backslash && double == 0 && !newline then basic
  else if !codes && single == 0 && !newline then "'" ++ text ++ "'"
  else if !codes && !backslash && double ≤ 2 then long
  else if !codes && single ≤ 2 then "'''" ++ start ++ text ++ "'''"
  else if newline then long
  else basic

/-- An array of texts as it is written. -/
def writeTexts (texts : List String) : String :=
  match texts with
  | [] => "[]"
  | [text] => "[" ++ writeText text ++ "]"
  | _ => "[\n" ++ String.join (texts.map fun text => "    " ++ writeText text ++ ",\n") ++ "]"

/-- A truth value as it is written. -/
def writeBool (b : Bool) : String :=
  if b then "true" else "false"

end TxLifecycle.Toml
