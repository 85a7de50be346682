import TxLifecycle.Files.Tree

/-!
# The host

What a run sees of the machine it runs on, and what it wants to be written there.
-/

namespace TxLifecycle

/-- What a run sees of its machine. -/
structure Host where
  files : FileTree
  /-- Names from the root directory to the working directory. -/
  cwd : List String := []
  /-- Environment variables in their order. -/
  environment : List (String × String) := []
  processors : Nat := 1

structure FileWrite where
  /-- Names from the root directory to the file. -/
  names : List String
  content : String
deriving DecidableEq, Repr

/-- The path from the root directory. -/
def absolutePath (names : List String) : String :=
  "/" ++ "/".intercalate names

namespace Host

def apply (host : Host) (write : FileWrite) : Host :=
  { host with files := host.files.insert (.file write.content.toUTF8) write.names }

def pathExists (host : Host) (path : String) : Bool :=
  host.files.contains host.cwd path

def hasFile (host : Host) (names : List String) : Bool :=
  match host.files.at? names with
  | some tree => !tree.isDirectory
  | none => false

/-- The working directory and those above it, the nearest first. -/
def directories (host : Host) : List (List String) :=
  (List.range (host.cwd.length + 1)).reverse.map host.cwd.take

/-- Directories can be made up to these names, if anything on the way is one already. -/
def checkDirectories (host : Host) (names : List String) : Except FileError Unit :=
  (List.range names.length).forM fun n =>
    match host.files.at? (names.take (n + 1)) with
    | some tree =>
      if tree.isDirectory then .ok ()
      else .error (if n + 1 = names.length then .exists else .notDirectory)
    | none => .ok ()

/-- A file can be written at these names. -/
def checkWrite (host : Host) (names : List String) : Except FileError Unit :=
  match host.files.at? names with
  | some (.directory _) => .error .isDirectory
  | _ => .ok ()

end Host

end TxLifecycle
