/-!
# Readers

A reader consumes characters from the front of a text and fails where they do not fit. Failing
consumes nothing, so another reader can be tried in its place with `<|>`.
-/

namespace TxLifecycle

/-- A reader: it fails, or gives a value and the characters after it. -/
abbrev Reader (α : Type) := StateT (List Char) Option α

namespace Reader

/-- The next character, which stays where it is. -/
def peek : Reader (Option Char) := do
  return (← get).head?

def next : Reader Char
  | [] => none
  | c :: rest => some (c, rest)

/-- Take the next character if it has a property. -/
def satisfy (p : Char → Bool) : Reader Char := do
  let c ← next
  if p c then return c else failure

def char (c : Char) : Reader Unit := do
  let _ ← satisfy (· == c)

def exactly (cs : List Char) : Reader Unit := fun rest =>
  if cs.isPrefixOf rest then some ((), rest.drop cs.length) else none

def word (text : String) : Reader Unit :=
  exactly text.toList

/-- Take all characters up to the first one without a property. -/
def takeWhile (p : Char → Bool) : Reader (List Char) := fun rest =>
  some (rest.takeWhile p, rest.dropWhile p)

/-- Take all characters up to the first one without a property, and at least one. -/
def takeSome (p : Char → Bool) : Reader (List Char) := do
  let cs ← takeWhile p
  if cs.isEmpty then failure else return cs

/-- Pass over all characters up to the first one without a property. -/
def skipWhile (p : Char → Bool) : Reader Unit := do
  let _ ← takeWhile p

def atEnd : Reader Bool := do
  return (← get).isEmpty

/-- Run a reader if it succeeds, and tell whether it did. -/
def accept (p : Reader Unit) : Reader Bool :=
  (do p; return true) <|> pure false

/-- Run a reader as long as it succeeds and consumes characters, and collect its values. -/
def manyFrom {α : Type} (p : Reader α) (rest : List Char) : List α × List Char :=
  match p rest with
  | none => ([], rest)
  | some (a, after) =>
    if after.length < rest.length then
      let (as, final) := manyFrom p after
      (a :: as, final)
    else ([], rest)
termination_by rest.length

/-- The values of a reader that is run as long as it succeeds and consumes characters. -/
def many {α : Type} (p : Reader α) : Reader (List α) :=
  fun rest => some (manyFrom p rest)

/-- Exactly this many characters with a property. -/
def count (n : Nat) (p : Char → Bool) : Reader (List Char) := fun rest =>
  let cs := rest.take n
  if cs.length == n && cs.all p then some (cs, rest.drop n) else none

/-- What a reader gives for a whole text. -/
def whole {α : Type} (p : Reader α) (text : String) : Option α :=
  match p text.toList with
  | some (a, []) => some a
  | _ => none

end Reader

namespace Text

/-- The value of a digit of any base up to sixteen. -/
def digitValue (c : Char) : Nat :=
  if c.isDigit then c.toNat - 48
  else if 'a' ≤ c && c ≤ 'f' then c.toNat - 87
  else if 'A' ≤ c && c ≤ 'F' then c.toNat - 55
  else 16

/-- The character is a digit of the base. -/
def isDigitOf (base : Nat) (c : Char) : Bool :=
  digitValue c < base

/-- The number that digits of a base stand for. -/
def ofDigits (base : Nat) (cs : List Char) : Nat :=
  cs.foldl (fun n c => n * base + digitValue c) 0

/-- The character with the given number, if there is one. -/
def scalar? (n : Nat) : Option Char :=
  if n < 0xd800 || (0xdfff < n && n < 0x110000) then some (Char.ofNat n) else none

end Text

/-- The character that an escape stands for, its backslash already read: a letter for a control
character, a quote or a backslash for itself, or the number of a character in four or eight
hexadecimal digits. -/
def Reader.escape : Reader Char := do
  match ← next with
  | '"' => return '"'
  | '\\' => return '\\'
  | 'b' => return Char.ofNat 8
  | 't' => return '\t'
  | 'n' => return '\n'
  | 'f' => return Char.ofNat 12
  | 'r' => return '\r'
  | 'u' => numbered 4
  | 'U' => numbered 8
  | _ => failure
where
  numbered (digits : Nat) : Reader Char := do
    let cs ← count digits (Text.isDigitOf 16)
    match Text.scalar? (Text.ofDigits 16 cs) with
    | some c => return c
    | none => failure

end TxLifecycle
