import TxLifecycle.Files.Path

/-!
# File trees

Files and directories as a value, and the way from a path to what it names. A path is followed part
by part, so it fails like the system does where a part is missing or is no directory.
-/

namespace TxLifecycle

/-- A file or a directory with all below it. -/
inductive FileTree where
  | file (content : ByteArray)
  | unreadable (reason : String)
  | directory (members : List (String × FileTree))
deriving Inhabited

inductive FileError where
  | notFound
  | exists
  | notDirectory
  | isDirectory
  | other (reason : String)
deriving DecidableEq, Repr

def FileError.message : FileError → String
  | .notFound => "No such file or directory (os error 2)"
  | .exists => "File exists (os error 17)"
  | .notDirectory => "Not a directory (os error 20)"
  | .isDirectory => "Is a directory (os error 21)"
  | .other reason => reason

namespace FileTree

def isDirectory : FileTree → Bool
  | .directory _ => true
  | _ => false

def members : FileTree → List (String × FileTree)
  | .directory members => members
  | _ => []

/-- What stands below a directory under a list of names. -/
def at? (tree : FileTree) : List String → Option FileTree
  | [] => some tree
  | name :: rest => (tree.members.lookup name).bind (·.at? rest)

def content : FileTree → Except FileError ByteArray
  | .file content => .ok content
  | .unreadable reason => .error (.other reason)
  | .directory _ => .error .isDirectory

/-- Put a tree under a name among members. -/
def setMember (members : List (String × FileTree)) (name : String) (tree : FileTree) :
    List (String × FileTree) :=
  if members.any (·.1 == name) then
    members.map fun member => if member.1 == name then (name, tree) else member
  else members ++ [(name, tree)]

/-- Put a tree below a directory under a list of names and make the directories that are missing.
Nothing changes where a name on the way is no directory. -/
def insert (tree : FileTree) (new : FileTree) : List String → FileTree
  | [] => new
  | name :: rest =>
    match tree with
    | .directory members =>
      let old := (members.lookup name).getD (.directory [])
      .directory (setMember members name (old.insert new rest))
    | other => other

/-- Follow the parts of a path from a directory: an empty part and a dot stay, two dots go up, and
a name goes down. Each of them needs a directory to start from. -/
def follow (tree : FileTree) (here : List String) : List String → Except FileError (List String)
  | [] => .ok here
  | part :: rest =>
    match tree.at? here with
    | some (.directory members) =>
      if part == "" || part == "." then tree.follow here rest
      else if part == ".." then tree.follow here.dropLast rest
      else if members.any (·.1 == part) then tree.follow (here ++ [part]) rest
      else .error .notFound
    | some _ => .error .notDirectory
    | none => .error .notFound

/-- The names from the root of a tree to what a path names, seen from a working directory. -/
def locate (tree : FileTree) (cwd : List String) (path : String) :
    Except FileError (List String) :=
  if path == "" then .error .notFound
  else tree.follow (if Path.isAbsolute path then [] else cwd) (Path.split path)

/-- What a path names, seen from a working directory. -/
def find (tree : FileTree) (cwd : List String) (path : String) : Except FileError FileTree := do
  let names ← tree.locate cwd path
  match tree.at? names with
  | some found => return found
  | none => .error .notFound

/-- The content of the file that a path names. -/
def read (tree : FileTree) (cwd : List String) (path : String) : Except FileError ByteArray := do
  (← tree.find cwd path).content

def contains (tree : FileTree) (cwd : List String) (path : String) : Bool :=
  (tree.find cwd path).toOption.isSome

end FileTree

end TxLifecycle
