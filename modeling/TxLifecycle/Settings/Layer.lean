import TxLifecycle.Text.Blank
import TxLifecycle.Text.Decimal
import TxLifecycle.Text.Quoted
import TxLifecycle.Text.Reader
import TxLifecycle.Toml.Value

/-!
# Layers of settings

Settings come from a file and from environment variables. Both are trees of values; laid on each
other, tables are joined entry by entry and of anything else the upper layer wins. Every value
remembers its layer, because errors name it.
-/

namespace TxLifecycle

/-- The layer that a value comes from. -/
inductive Origin where
  | file
  | environment
deriving DecidableEq, Repr, Inhabited

inductive Setting where
  | text (origin : Origin) (value : String)
  | bool (origin : Origin) (value : Bool)
  | unsigned (origin : Origin) (value : Nat)
  | signed (origin : Origin) (value : Int)
  | float (origin : Origin) (value : Float)
  | list (origin : Origin) (items : List Setting)
  | table (origin : Origin) (entries : List (String × Setting))
deriving Inhabited

namespace Setting

def origin : Setting → Origin
  | .text o _ | .bool o _ | .unsigned o _ | .signed o _ | .float o _ | .list o _ | .table o _ => o

def describe : Setting → String
  | .text _ s => "string " ++ Text.quoted s
  | .bool _ b => if b then "bool true" else "bool false"
  | .unsigned _ n => s!"unsigned int `{n}`"
  | .signed _ n => s!"signed int `{n}`"
  | .float _ x => s!"float `{Decimal.ofFloat x}`"
  | .list _ _ => "sequence"
  | .table _ _ => "map"

/-- The entries of a lower table whose keys the upper table does not have. -/
def remaining (entries below : List (String × Setting)) : List (String × Setting) :=
  below.filter fun entry => !entries.any (·.1 == entry.1)

mutual

def laidOn : (upper lower : Setting) → Setting
  | .table origin entries, .table _ below =>
    .table origin (allLaidOn below entries ++ remaining entries below)
  | upper, _ => upper

/-- Lay entries on those of another table. -/
def allLaidOn (below : List (String × Setting)) : List (String × Setting) → List (String × Setting)
  | [] => []
  | (key, value) :: rest =>
    (key, match below.lookup key with
      | some lower => value.laidOn lower
      | none => value) :: allLaidOn below rest

end

/-- A dotted path of keys around a value. -/
def nested (origin : Origin) (value : Setting) : List String → Setting
  | [] => value
  | key :: rest => .table origin [(key, nested origin value rest)]

/-- The key under which a date stands in a table of its own. -/
def momentKey : String := "$__toml_private_datetime"

mutual

def ofToml : Toml.Value → Setting
  | .text s => .text .file s
  | .integer n => .signed .file n
  | .float x => .float .file x
  | .bool b => .bool .file b
  | .moment s => .table .file [(momentKey, .text .file s)]
  | .array items => .list .file (ofItems items)
  | .tables elements => .list .file (ofElements elements)
  | .table _ entries => .table .file (ofEntries entries)

def ofItems : List Toml.Value → List Setting
  | [] => []
  | v :: vs => ofToml v :: ofItems vs

/-- The values of an array of tables. -/
def ofElements : List (List (String × Toml.Value)) → List Setting
  | [] => []
  | e :: es => .table .file (ofEntries e) :: ofElements es

def ofEntries : List (String × Toml.Value) → List (String × Setting)
  | [] => []
  | (key, v) :: rest => (key, ofToml v) :: ofEntries rest

end

end Setting

end TxLifecycle
