import TxLifecycle.Command.Arguments
import TxLifecycle.Project
import TxLifecycle.Report.Output
import TxLifecycle.Settings.Template

/-!
# Running a command

What the program writes and how it ends, for every list of arguments on every host.
-/

namespace TxLifecycle

structure Run where
  stdout : String := ""
  stderr : String := ""
  /-- The number that the process ends with. -/
  exit : Nat := 0
  writes : List FileWrite := []
deriving DecidableEq, Repr

/-- A run that only shows an output. -/
def Run.ofOutput (output : Output) : Run :=
  { stdout := output.stdout, stderr := output.stderr, exit := output.code.value }

def programName : String := "txguard"

/-- The help on the program or on one of its commands. -/
def helpText : Option CommandName → String
  | none => linesOf
    ["Find leaked and mishandled database transactions in Go code", "",
     "Usage: txguard [OPTIONS] <COMMAND>", "", "Commands:",
     "  check   Report transaction lifecycle violations",
     "  init    Set up .txguard directory with default configuration",
     "  config  Show the effective configuration as TOML",
     "  help    Print this message or the help of the given subcommand(s)", "", "Options:",
     "  -c, --config <CONFIG>  Path to custom settings.toml file",
     "  -v, --verbose          Enable debug logging",
     "  -h, --help             Print help (see more with '--help')",
     "  -V, --version          Print version"]
  | some .check => linesOf
    ["Report transaction lifecycle violations", "",
     "Usage: txguard check [OPTIONS] <PATHS>...", "", "Arguments:",
     "  <PATHS>...  Files or directories to check", "", "Options:",
     "  -c, --config <CONFIG>     Path to custom settings.toml file",
     "      --json                Output JSON instead of text",
     "  -v, --verbose             Enable debug logging",
     "  -t, --threads <THREADS>   Number of threads to use (overrides config)",
     "      --fail-on <SEVERITY>  Lowest severity that fails the run (overrides config)",
     "  -h, --help                Print help"]
  | some .init => linesOf
    ["Set up .txguard directory with default configuration", "",
     "Usage: txguard init [OPTIONS]", "", "Options:",
     "  -f, --force            Force overwrite existing configuration",
     "  -c, --config <CONFIG>  Path to custom settings.toml file",
     "  -v, --verbose          Enable debug logging",
     "  -h, --help             Print help"]
  | some .config => linesOf
    ["Show the effective configuration as TOML", "",
     "Usage: txguard config [OPTIONS]", "", "Options:",
     "  -c, --config <CONFIG>  Path to custom settings.toml file",
     "  -v, --verbose          Enable debug logging",
     "  -h, --help             Print help"]

/-- The run of arguments that ask for no command. -/
def Run.ofHalt : Halt → Run
  | .help command => { stdout := helpText command }
  | .version => { stdout := linesOf [s!"{programName} {programVersion}"] }
  | .bare => { stderr := helpText none, exit := 2 }
  | .error e =>
    { stderr := s!"error: {e.message}\n\nFor more information, try '--help'.\n", exit := 2 }

namespace Host

def runCheck (host : Host) (timestamp : String) (settings : Settings) (given : Given) : Run :=
  let failOn := given.failOn.getD settings.failOn
  let format := OutputFormat.resolve (given.flags.contains .json) settings.format
  Run.ofOutput <|
    match host.checkPaths settings given.paths with
    | .ok report => Output.ofReport format timestamp failOn report
    | .error e => Output.ofError format e

/-- Set up a workspace in the working directory. -/
def runInit (host : Host) (force : Bool) : Run :=
  let setup := host.setUp host.cwd force
  let run : Run := match setup.result with
    | .ok path =>
      { stdout := linesOf [successLine s!"Created configuration file at: {path}",
          "Edit this file to customize your settings."] }
    | .error reason => Run.ofOutput (Output.ofError .text (.config reason))
  { run with writes := setup.writes }

def runConfig (settings : Settings) : Run :=
  { stdout := linesOf ["Current Configuration:", String.ofList (List.replicate 50 '='),
      settings.toToml] }

/-- Run the program. The settings are loaded before the command is looked at. -/
def run (host : Host) (timestamp : String) (arguments : List String) : Run :=
  match Request.read arguments with
  | .error halt => Run.ofHalt halt
  | .ok request =>
    match host.loadSettings request.config with
    | .error e =>
      let format := OutputFormat.resolve
        (request.command = .check && request.after.flags.contains .json) "text"
      Run.ofOutput (Output.ofError format (.config e.message))
    | .ok settings =>
      match request.command with
      | .check => host.runCheck timestamp settings request.after
      | .init => host.runInit (request.after.flags.contains .force)
      | .config => runConfig settings

end Host

end TxLifecycle
