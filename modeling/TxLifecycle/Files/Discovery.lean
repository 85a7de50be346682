import TxLifecycle.Files.Ignore
import TxLifecycle.Files.Tree

/-!
# Finding sources

The Go files below a path. Ignore files of a directory and of the directories above it leave out
what is below them, configured patterns win over all of them, and a directory that is left out is
not entered. The path itself is never left out.
-/

namespace TxLifecycle

structure SourceFilter where
  skipTests : Bool := false
  /-- The configured patterns, relative to the directory that is searched. -/
  patterns : RuleSet := []

/-- The name is one of a source file: its extension is `go` and it is not hidden. -/
def SourceFilter.accepts (filter : SourceFilter) (name : String) : Bool :=
  name.endsWith ".go" && name.front != '.' && !(filter.skipTests && name.endsWith "_test.go")

/-- The ignore files of a directory, the most important first. -/
def ignoreFiles : List (List String) :=
  [[".txguardignore"], [".ignore"], [".gitignore"], [".git", "info", "exclude"]]

/-- The rules of each ignore file of a directory; a file that is missing has none. -/
def FileTree.ruleSets (directory : FileTree) : List RuleSet :=
  ignoreFiles.map fun names =>
    match directory.at? names with
    | some (.file content) => RuleSet.ofFile content
    | _ => []

/-- A directory on the way to a file. -/
structure Ancestor where
  ruleSets : List RuleSet
  /-- The names from there to the directory that is looked at. -/
  below : List String

def pathBytes (names : List String) : List UInt8 :=
  ("/".intercalate names).toUTF8.toList

/-- What the ignore files say about a member of the directory that is looked at. The kind of ignore
file comes before the nearness of its directory. -/
def rulingOf (ancestors : List Ancestor) (name : String) (isDirectory : Bool) : Option Ruling :=
  (List.range ignoreFiles.length).findSome? fun kind =>
    ancestors.findSome? fun ancestor =>
      ancestor.ruleSets[kind]?.bind fun rules =>
        RuleSet.ruling rules (pathBytes (ancestor.below ++ [name])) isDirectory

/-- A directory in the course of a search. -/
structure Visit where
  filter : SourceFilter
  path : String
  /-- The names from the start of the search to it. -/
  names : List String := []
  /-- The directory and those above it, the nearest first. -/
  ancestors : List Ancestor

namespace Visit

def leavesOut (visit : Visit) (name : String) (isDirectory : Bool) : Bool :=
  match visit.filter.patterns.ruling (pathBytes (visit.names ++ [name])) isDirectory with
  | some ruling => ruling == .ignored
  | none => rulingOf visit.ancestors name isDirectory == some .ignored

/-- The visit of a member that is a directory. -/
def enter (visit : Visit) (name : String) (directory : FileTree) : Visit :=
  { filter := visit.filter
    path := Path.join visit.path name
    names := visit.names ++ [name]
    ancestors := ⟨directory.ruleSets, []⟩
      :: visit.ancestors.map fun a => { a with below := a.below ++ [name] } }

mutual

/-- The sources that a member is or holds. -/
def sourcesAt (visit : Visit) (name : String) : FileTree → List String
  | .directory members =>
    if visit.leavesOut name true then []
    else sourcesIn (visit.enter name (.directory members)) members
  | .file _ | .unreadable _ =>
    if visit.leavesOut name false || !visit.filter.accepts name then []
    else [Path.join visit.path name]

/-- The sources among the members of a directory. -/
def sourcesIn (visit : Visit) : List (String × FileTree) → List String
  | [] => []
  | (name, tree) :: rest => sourcesAt visit name tree ++ sourcesIn visit rest

end

end Visit

/-- A directory and those above it, the nearest first. -/
def FileTree.ancestors (tree : FileTree) (names : List String) : List Ancestor :=
  (List.range (names.length + 1)).reverse.map fun n =>
    ⟨((tree.at? (names.take n)).getD default).ruleSets, names.drop n⟩

/-- The sources below a path, in no particular order. A single dash stands for the standard input
and not for a file. -/
def FileTree.sources (tree : FileTree) (cwd : List String) (filter : SourceFilter)
    (path : String) : List String :=
  match tree.locate cwd path with
  | .error _ => []
  | .ok names =>
    if path == "-" then []
    else match tree.at? names with
      | some (.directory members) =>
        let start : Visit := { filter, path, ancestors := tree.ancestors names }
        start.sourcesIn members
      | some _ => if filter.accepts (names.getLast?.getD "") then [path] else []
      | none => []

end TxLifecycle
