/-!
# Paths

A path is a text with slashes between its components. Two paths name the same place when their
components agree: repeated slashes, a slash at the end and a dot that is not the first component
count for nothing.
-/

namespace TxLifecycle.Path

inductive Component where
  /-- The slash at the front of an absolute path. -/
  | root
  /-- A dot at the front of a relative path. -/
  | here
  | parent
  | name (text : String)
deriving DecidableEq, Repr, Inhabited

/-- The order of components: the kinds in the order above, then names by their characters. -/
def Component.compare : Component → Component → Ordering
  | .root, .root => .eq
  | .root, _ => .lt
  | _, .root => .gt
  | .here, .here => .eq
  | .here, _ => .lt
  | _, .here => .gt
  | .parent, .parent => .eq
  | .parent, .name _ => .lt
  | .name _, .parent => .gt
  | .name a, .name b => Ord.compare a b

/-- The parts of a text between slashes. -/
def split (path : String) : List String :=
  path.splitOn "/"

def isAbsolute (path : String) : Bool :=
  path.toList.head? == some '/'

/-- A part of a path that is not its first one. -/
def componentOf? (part : String) : Option Component :=
  if part == "" || part == "." then none
  else if part == ".." then some .parent
  else some (.name part)

def components (path : String) : List Component :=
  let start :=
    if isAbsolute path then [.root]
    else if (split path).head? == some "." then [.here]
    else []
  start ++ (split path).filterMap componentOf?

/-- The order of lists of components: the first difference decides, and a list comes before its
extensions. -/
def compareComponents : List Component → List Component → Ordering
  | [], [] => .eq
  | [], _ :: _ => .lt
  | _ :: _, [] => .gt
  | a :: as, b :: bs => (a.compare b).then (compareComponents as bs)

def compare (a b : String) : Ordering :=
  compareComponents (components a) (components b)

def same (a b : String) : Bool :=
  components a == components b

/-- A path inside another one; an absolute path stays as it is. -/
def join (base path : String) : String :=
  if path == "" then if base.endsWith "/" then base else base ++ "/"
  else if isAbsolute path || base == "" then path
  else if base.endsWith "/" then base ++ path
  else base ++ "/" ++ path

end TxLifecycle.Path
