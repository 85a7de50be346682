import TxLifecycle.Files.Glob
import TxLifecycle.Text.Blank

/-!
# Ignore rules

The lines of an ignore file. A line ignores the paths that fit its pattern; with an exclamation mark
it keeps them. The last line that fits a path decides about it.
-/

namespace TxLifecycle

inductive Ruling where
  | ignored
  | kept
deriving DecidableEq, Repr

structure IgnoreRule where
  /-- The paths it is about, relative to the directory of the rule. -/
  pattern : Glob
  ruling : Ruling
  directoriesOnly : Bool

namespace IgnoreRule

/-- A line without the blanks at its end, unless the last of them is escaped. -/
def trimmed (line : List Char) : List Char :=
  if [' ', '\\'].isPrefixOf line.reverse then line else Text.trimEnd line

/-- A pattern of one component fits in every directory below, so it goes with any number of
components in front of it. -/
def anywhere (pattern : List Char) : List Char :=
  if ['*', '*', '/'].isPrefixOf pattern || pattern == ['*', '*'] then pattern
  else ['*', '*', '/'] ++ pattern

/-- A pattern that ends in `**` is about what is inside the directory and not about the directory.
-/
def inside (pattern : List Char) : List Char :=
  if ['*', '*', '/'].isPrefixOf pattern.reverse then pattern ++ ['/', '*'] else pattern

/-- The rule of a pattern with its mark for directories still at its end. `anchored` patterns start
at the directory of the rule. -/
def ofPattern? (lenient : Bool) (ruling : Ruling) (anchored : Bool) (pattern : List Char) :
    Option IgnoreRule := do
  let directoriesOnly := pattern.getLast? == some '/'
  let bare :=
    if directoriesOnly then
      let bare := pattern.dropLast
      if bare.getLast? == some '\\' then bare.dropLast else bare
    else pattern
  let full := if anchored || bare.contains '/' then bare else anywhere bare
  let glob ← Glob.parse? lenient (inside full)
  return { pattern := glob, ruling, directoriesOnly }

/-- The rule of a line. A line that is blank, a comment or malformed gives none. -/
def parse? (lenient : Bool) (line : List Char) : Option IgnoreRule :=
  if line.head? == some '#' then none
  else
    match trimmed line with
    | [] => none
    | '\\' :: '!' :: rest => ofPattern? lenient .ignored false ('!' :: rest)
    | '\\' :: '#' :: rest => ofPattern? lenient .ignored false ('#' :: rest)
    | '!' :: '/' :: rest => ofPattern? lenient .kept true rest
    | '!' :: rest => ofPattern? lenient .kept false rest
    | '/' :: rest => ofPattern? lenient .ignored true rest
    | rest => ofPattern? lenient .ignored false rest

def applies (rule : IgnoreRule) (path : List UInt8) (isDirectory : Bool) : Bool :=
  (!rule.directoriesOnly || isDirectory) && rule.pattern.fits path

end IgnoreRule

/-- Rules in the order of their lines. -/
abbrev RuleSet := List IgnoreRule

namespace RuleSet

/-- What the rules say about a path, if they say anything: the last one that is about it decides. -/
def ruling (rules : RuleSet) (path : List UInt8) (isDirectory : Bool) : Option Ruling :=
  (rules.reverse.find? (·.applies path isDirectory)).map (·.ruling)

def cutLines : List UInt8 → List (List UInt8)
  | [] => [[]]
  | b :: rest =>
    if b == 10 then [] :: cutLines rest
    else match cutLines rest with
      | [] => [[b]]
      | line :: lines => (b :: line) :: lines

/-- The characters of the first lines, up to one that is not UTF-8. -/
def decodeLines : List (List UInt8) → List (List Char)
  | [] => []
  | line :: lines =>
    match String.fromUTF8? ⟨line.toArray⟩ with
    | none => []
    | some text =>
      let cs := text.toList
      (if cs.getLast? == some '\r' then cs.dropLast else cs) :: decodeLines lines

/-- The rules of an ignore file. A mark of byte order in front of the first line is passed over. -/
def ofFile (content : ByteArray) : RuleSet :=
  match decodeLines (cutLines content.toList) with
  | [] => []
  | first :: lines =>
    (first.dropWhile (·.toNat == 0xfeff) :: lines).filterMap (IgnoreRule.parse? true)

/-- The rules that leave out what fits one of the configured patterns. A malformed pattern counts
for nothing. -/
def ofPatterns (patterns : List String) : RuleSet :=
  patterns.filterMap fun pattern =>
    (IgnoreRule.parse? false ('!' :: pattern.toList)).map fun rule =>
      { rule with ruling := .ignored }

end RuleSet

end TxLifecycle
