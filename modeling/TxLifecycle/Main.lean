import TxLifecycle.Command.Run
import TxLifecycle.Report.Timestamp

/-!
# The command line

The outer layer of the program. It looks at the machine, runs the command on what it has seen, and
writes what the run gives.
-/

namespace TxLifecycle

/-- The content of a file, or why it cannot be had. -/
def readLeaf (path : String) : IO FileTree := do
  try
    return .file (← IO.FS.readBinFile path)
  catch e =>
    return .unreadable (toString e)

/-- The files and directories from a path on. Contents are read only of files that can matter. -/
partial def snapshot (path : String) (wanted : String → Bool) : IO FileTree := do
  let here ← IO.currentDir
  let place := here / path
  if ← place.isDir then
    let entries ← try place.readDir catch _ => pure #[]
    let members ← entries.toList.mapM fun entry => do
      return (entry.fileName, ← snapshot (Path.join path entry.fileName) wanted)
    return .directory members
  else if wanted path then readLeaf path
  else return .file .empty

/-- The names of a path after dots are resolved. -/
def resolvedNames (cwd : List String) (path : String) : List String :=
  let start := if Path.isAbsolute path then [] else cwd
  (Path.split path).foldl (fun names part =>
    if part == "" || part == "." then names
    else if part == ".." then names.dropLast
    else names ++ [part]) start

/-- Add what a path names to what has been seen, and the directories on the way to it. -/
def lookAt (cwd : List String) (wanted : String → Bool) (tree : FileTree) (path : String) :
    IO FileTree := do
  let parts := Path.split path
  let front := (List.range parts.length).map fun n => "/".intercalate (parts.take n)
  let tree := front.foldl (fun tree path =>
    let names := resolvedNames cwd path
    if (tree.at? names).isSome then tree else tree.insert (.directory []) names) tree
  let here ← IO.currentDir
  let names := resolvedNames cwd path
  if ← (here / path).pathExists then
    return tree.insert (← snapshot (absolutePath names) wanted) names
  else return tree

/-- The variables of the environment. -/
def environmentVariables : IO (List (String × String)) := do
  let bytes ← try IO.FS.readBinFile "/proc/self/environ" catch _ => pure .empty
  let text := (String.fromUTF8? bytes).getD ""
  return (text.splitOn (String.singleton (Char.ofNat 0))).filterMap fun entry =>
    match entry.splitOn "=" with
    | name :: first :: rest => some (name, "=".intercalate (first :: rest))
    | _ => none

/-- The lines of a file of the system, none if it cannot be read. -/
def systemLines (path : String) : IO (List String) := do
  let text ← try IO.FS.readFile path catch _ => pure ""
  return text.splitOn "\n"

def processorCount : IO Nat := do
  let found := (← systemLines "/proc/cpuinfo").countP (·.startsWith "processor")
  return max found 1

/-- The time now, in seconds since the start of 1970. -/
def secondsNow : IO Nat := do
  let boot := (← systemLines "/proc/stat").findSome? fun line =>
    match line.splitOn " " with
    | ["btime", seconds] => seconds.toNat?
    | _ => none
  let up := ((← systemLines "/proc/uptime").headD "").splitOn "."
  return boot.getD 0 + ((up.headD "").toNat?.getD 0)

/-- What a run can need to see: the paths of the request, the settings, and the ignore files of the
directories above. -/
def observe (arguments : List String) : IO Host := do
  let cwd := resolvedNames [] (toString (← IO.currentDir))
  let (paths, config) := match Request.read arguments with
    | .ok request => (request.after.paths, request.config)
    | .error _ => ([], none)
  let wanted (path : String) : Bool :=
    path.endsWith ".go" || path.endsWith ".toml"
      || ignoreFiles.any (fun names => path.endsWith ("/".intercalate names))
      || config.any (fun c => path.endsWith c)
  let start := FileTree.insert (.directory []) (.directory []) cwd
  let starts := cwd :: paths.map (resolvedNames cwd)
  let above := starts.flatMap fun names =>
    (List.range (names.length + 1)).map fun n => absolutePath (names.take n)
  let extras := ignoreFiles.map ("/".intercalate ·) ++ [settingsDirectory, ".txguardignore"]
    ++ config.toList
  let shallow := above.flatMap fun directory => extras.map (Path.join directory)
  let tree ← (shallow ++ paths).foldlM (lookAt cwd wanted) start
  return {
    files := tree, cwd
    environment := ← environmentVariables
    processors := ← processorCount }

/-- Write a file and make the directories that are missing. -/
def perform (write : FileWrite) : IO Unit := do
  IO.FS.createDirAll (absolutePath write.names.dropLast)
  IO.FS.writeFile (absolutePath write.names) write.content

end TxLifecycle

/-- Run the program on the arguments of the process. -/
def main (arguments : List String) : IO UInt32 := do
  let host ← TxLifecycle.observe arguments
  let timestamp := TxLifecycle.Timestamp.render (← TxLifecycle.secondsNow)
  let run := host.run timestamp arguments
  run.writes.forM TxLifecycle.perform
  IO.print run.stdout
  IO.eprint run.stderr
  return run.exit.toUInt32
