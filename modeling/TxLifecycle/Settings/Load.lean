import TxLifecycle.Host
import TxLifecycle.Settings.Decode
import TxLifecycle.Settings.Variable
import TxLifecycle.Toml.Document

/-!
# Loading settings

Settings are read from a settings file and from the environment, the environment on top. The file is
the one that is named, or that of the workspace: the nearest directory, from the working directory
up, that has a directory for settings.
-/

namespace TxLifecycle

/-- The directory that makes its parent a workspace. -/
def settingsDirectory : String := ".txguard"

/-- The name of the settings file in that directory. -/
def settingsFile : String := "settings.toml"

/-- Settings that cannot be loaded. -/
structure LoadError where
  error : SettingsError
  /-- The path by which messages name the settings file. -/
  shownFile : String := ""
deriving DecidableEq, Repr

namespace LoadError

/-- The text of a loading error: the fault, the key and the layer. -/
def message (e : LoadError) : String :=
  let path := e.error.path
  let key := match e.error.origin with
    | .file => ".".intercalate ("default" :: path)
    | .environment => ".".intercalate (path.map String.toUpper)
  let place := if path.isEmpty then "" else " for key " ++ Text.quoted key
  let source := match e.error.origin with
    | .file => s!"{e.shownFile} TOML file"
    | .environment => "`TXGUARD_` environment variable(s)"
  e.error.fault.message ++ place ++ " in " ++ source

end LoadError

namespace Path

/-- The way from one list of components to another: up to where they part, then down. -/
def between : (base target : List Component) → List Component
  | base, [] => base.map fun _ => .parent
  | [], target => target
  | b :: bs, t :: ts =>
    if b = t then between bs ts else .parent :: (bs.map fun _ => .parent) ++ t :: ts

def ofComponents (components : List Component) : String :=
  let text : Component → String
    | .root => ""
    | .here => "."
    | .parent => ".."
    | .name text => text
  "/".intercalate (components.map text)

/-- A path as seen from a directory, if that is shorter. -/
def shortened (base path : String) : String :=
  let way := between (components base) (components path)
  if way.length < (components path).length then ofComponents way else path

end Path

namespace Host

/-- The workspace around the working directory. -/
def workspace? (host : Host) : Option (List String) :=
  host.directories.find? fun names =>
    match host.files.at? (names ++ [settingsDirectory]) with
    | some (.directory _) => true
    | _ => false

/-- A settings file: where it is, and the path under which it was found. -/
structure FoundFile where
  tree : FileTree
  path : String

/-- The file that a path names. A relative path is tried from the working directory and, if that
fails, from each directory above it. -/
def findUpward (host : Host) (path : String) : Option FoundFile :=
  host.directories.findSome? fun names =>
    match host.files.find names path with
    | .ok (.directory _) | .error _ => none
    | .ok tree =>
      some ⟨tree, if Path.isAbsolute path then path else Path.join (absolutePath names) path⟩

def settingsFile? (host : Host) : (config : Option String) → Option FoundFile
  | some path => host.findUpward path
  | none => host.workspace?.bind fun names =>
    host.findUpward (absolutePath (names ++ [settingsDirectory, settingsFile]))

/-- The layer of a settings file; nothing if it is malformed. -/
def fileLayer (tree : FileTree) : Option Setting := do
  let content ← tree.content.toOption
  let text ← String.fromUTF8? content
  let entries ← Toml.parse? text
  return .table .file (Setting.ofEntries entries)

/-- The settings of a run, from the file that `config` names or from that of the workspace. Without
`config`, the workspace is among the settings. -/
def loadSettings (host : Host) (config : Option String) : Except LoadError Settings := do
  let found := host.settingsFile? config
  let fail (error : SettingsError) : LoadError :=
    match found with
    | some file => { error, shownFile := Path.shortened (absolutePath host.cwd) file.path }
    | none => { error }
  let below ← match found with
    | none => pure (Setting.table .file [])
    | some file =>
      match fileLayer file.tree with
      | some layer => pure layer
      | none => .error (fail { fault := .malformed })
  let value := (Variable.layer host.environment).laidOn below
  let settings ← (Settings.decode { threads := host.processors } value).mapError fail
  if config.isNone && settings.workspaceRoot.isNone then
    return { settings with workspaceRoot := host.workspace?.map absolutePath }
  return settings

end Host

end TxLifecycle
