/-!
# TOML values

Values of a TOML document. A table remembers how it came about, because that decides whether later
lines may add to it.
-/

namespace TxLifecycle.Toml

inductive TableForm where
  /-- On the way to a table below it, in a header. -/
  | implied
  | headed
  | dotted
  | inline
deriving DecidableEq, Repr

inductive Value where
  | text (value : String)
  | integer (value : Int)
  | float (value : Float)
  | bool (value : Bool)
  /-- A date, a time or both, as it is written. -/
  | moment (value : String)
  | array (items : List Value)
  /-- An array of tables that headers build up. -/
  | tables (elements : List (List (String × Value)))
  | table (form : TableForm) (entries : List (String × Value))
deriving Inhabited

/-- Entries of a table, in the order of the document. -/
abbrev Entries := List (String × Value)

namespace Entries

def find? (entries : Entries) (key : String) : Option Value :=
  entries.lookup key

/-- Give a key a value, in its place if it is there and at the end if it is not. -/
def set (entries : Entries) (key : String) (value : Value) : Entries :=
  if entries.any (·.1 == key) then
    entries.map fun entry => if entry.1 == key then (key, value) else entry
  else entries ++ [(key, value)]

/-- Add a value under a key with dots. It fails if the key has a value, or if it leads through
something other than a table that may still grow by such keys. -/
def insertDotted (entries : Entries) (value : Value) : List String → Option Entries
  | [] => none
  | [key] => if entries.any (·.1 == key) then none else some (entries ++ [(key, value)])
  | key :: second :: rest => do
    let child ← match entries.find? key with
      | none => some (TableForm.dotted, [])
      | some (.table .dotted inner) => some (.dotted, inner)
      | some (.table .implied inner) => if rest.isEmpty then none else some (.implied, inner)
      | some _ => none
    let inner ← insertDotted child.2 value (second :: rest)
    return entries.set key (.table child.1 inner)

/-- Change the entries of the table at a path, counting from the entries of a table. Missing tables
on the way are made, and of an array of tables the last one is meant. -/
def modifyAt (change : Entries → Option Entries) : List String → Entries → Option Entries
  | [], entries => change entries
  | key :: rest, entries =>
    match entries.find? key with
    | none => do
      let inner ← modifyAt change rest []
      return entries.set key (.table .implied inner)
    | some (.table .inline _) => none
    | some (.table form inner) => do
      let inner ← modifyAt change rest inner
      return entries.set key (.table form inner)
    | some (.tables elements) => do
      let inner ← modifyAt change rest (elements.getLast?.getD [])
      return entries.set key (.tables (elements.dropLast ++ [inner]))
    | some _ => none

/-- Open the table of a header: it may have been implied before, but not been made. -/
def openTable (key : String) (entries : Entries) : Option Entries :=
  match entries.find? key with
  | none => some (entries ++ [(key, .table .headed [])])
  | some (.table .implied inner) => some (entries.set key (.table .headed inner))
  | some _ => none

/-- Open the next table of an array of tables. -/
def openElement (key : String) (entries : Entries) : Option Entries :=
  match entries.find? key with
  | none => some (entries ++ [(key, .tables [[]])])
  | some (.tables elements) => some (entries.set key (.tables (elements ++ [[]])))
  | some _ => none

end Entries

end TxLifecycle.Toml
