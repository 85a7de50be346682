import TxLifecycle.Violation

/-!
# Arguments

The arguments of the command line: a command with its flags, and flags that may stand before or
after the command. The values of a flag are looked at when the next flag or the end shows that they
are complete, so the first problem in that order is the one that is reported.
-/

namespace TxLifecycle

inductive Flag where
  | config
  | verbose
  | json
  | threads
  | failOn
  | force
  | help
  | version
deriving DecidableEq, Repr

namespace Flag

def long : Flag → String
  | .config => "config"
  | .verbose => "verbose"
  | .json => "json"
  | .threads => "threads"
  | .failOn => "fail-on"
  | .force => "force"
  | .help => "help"
  | .version => "version"

def short : Flag → Option Char
  | .config => some 'c'
  | .verbose => some 'v'
  | .threads => some 't'
  | .force => some 'f'
  | .help => some 'h'
  | .version => some 'V'
  | .json | .failOn => none

/-- The name of the value, for a flag that has one. -/
def valueName : Flag → Option String
  | .config => some "CONFIG"
  | .threads => some "THREADS"
  | .failOn => some "SEVERITY"
  | _ => none

def shown (flag : Flag) : String :=
  match flag.valueName with
  | some name => s!"--{flag.long} <{name}>"
  | none => s!"--{flag.long}"

end Flag

inductive CommandName where
  | check
  | init
  | config
deriving DecidableEq, Repr

namespace CommandName

def all : List CommandName := [.check, .init, .config]

def text : CommandName → String
  | .check => "check"
  | .init => "init"
  | .config => "config"

def ofText? (name : String) : Option CommandName :=
  all.find? (·.text == name)

end CommandName

/-- The flags that can be given before a command, or after it. -/
def flagsOf : Option CommandName → List Flag
  | none => [.config, .verbose, .help, .version]
  | some .check => [.json, .threads, .failOn, .config, .verbose, .help]
  | some .init => [.force, .config, .verbose, .help]
  | some .config => [.config, .verbose, .help]

/-- What is wrong with the arguments. -/
inductive ArgumentError where
  | unknownCommand (name : String)
  /-- Nothing like this can be given here. -/
  | unexpected (argument : String)
  | missingPaths
  | missingCommand
  /-- A flag or the list of paths lacks a value. -/
  | missingValue (shown : String)
  | repeated (shown : String)
  /-- A flag that has no value is given one. -/
  | unexpectedValue (value shown : String)
  | invalidValue (value shown reason : String)
deriving DecidableEq, Repr

def ArgumentError.message : ArgumentError → String
  | .unknownCommand name => s!"unrecognized subcommand '{name}'"
  | .unexpected argument => s!"unexpected argument '{argument}' found"
  | .missingPaths => "the following required arguments were not provided:\n  <PATHS>..."
  | .missingCommand => "'txguard' requires a subcommand but one was not provided"
  | .missingValue shown => s!"a value is required for '{shown}' but none was supplied"
  | .repeated shown => s!"the argument '{shown}' cannot be used multiple times"
  | .unexpectedValue value shown =>
    s!"unexpected value '{value}' for '{shown}' found; no more were expected"
  | .invalidValue value shown reason => s!"invalid value '{value}' for '{shown}': {reason}"

/-- What ends the reading of arguments early. -/
inductive Halt where
  | error (e : ArgumentError)
  /-- Help is asked for, for all commands or for one of them. -/
  | help (command : Option CommandName)
  | bare
  | version
deriving DecidableEq, Repr

/-- Flags with their values, and paths. -/
structure Given where
  flags : List Flag := []
  config : Option String := none
  threads : Option Nat := none
  /-- The least severity that fails a run. -/
  failOn : Option Severity := none
  paths : List String := []
deriving DecidableEq, Repr

/-- The number of 64 bits that a text stands for. -/
def wordOfText (text : String) : Except String Nat :=
  let cs := text.toList
  let digits := if cs.head? == some '+' && 1 < cs.length then cs.tail else cs
  if digits.isEmpty then .error "cannot parse integer from empty string"
  else if digits.all Char.isDigit then
    let n := digits.foldl (fun n c => n * 10 + (c.toNat - 48)) 0
    if n < UInt64.size then .ok n else .error "number too large to fit in target type"
  else .error "invalid digit found in string"

namespace Given

def add (given : Given) (flag : Flag) (value : String) : Except ArgumentError Given := do
  if given.flags.contains flag then throw (.repeated flag.shown)
  let given := { given with flags := flag :: given.flags }
  let fits {α : Type} (e : Except String α) : Except ArgumentError α :=
    e.mapError (.invalidValue value flag.shown)
  match flag with
  | .config =>
    if value == "" then throw (.missingValue flag.shown)
    return { given with config := some value }
  | .threads => return { given with threads := some (← fits (wordOfText value)) }
  | .failOn => return { given with failOn := some (← fits (Severity.ofText value)) }
  | _ => return given

def addPaths (given : Given) (paths : List String) : Except ArgumentError Given :=
  if paths.contains "" then .error (.missingValue "<PATHS>...")
  else .ok { given with paths := given.paths ++ paths }

end Given

inductive Pending where
  | nothing
  | flag (flag : Flag) (value : Option String)
  | paths (paths : List String)
deriving DecidableEq, Repr

structure Arguments where
  given : Given := {}
  pending : Pending := .nothing
  pathsOnly : Bool := false
deriving DecidableEq, Repr

namespace Arguments

def settle (state : Arguments) : Except Halt Arguments :=
  let finish (result : Except ArgumentError Given) : Except Halt Arguments :=
    match result with
    | .ok given => .ok { state with given, pending := .nothing }
    | .error e => .error (.error e)
  match state.pending with
  | .nothing => .ok state
  | .flag flag none => .error (.error (.missingValue flag.shown))
  | .flag flag (some value) => finish (state.given.add flag value)
  | .paths paths => finish (state.given.addPaths paths)

/-- Take in a flag without a value. -/
def addFlag (command : Option CommandName) (state : Arguments) (flag : Flag) :
    Except Halt Arguments := do
  let state ← state.settle
  match flag with
  | .help => throw (.help command)
  | .version => throw .version
  | flag =>
    match state.given.add flag "" with
    | .ok given => return { state with given }
    | .error e => throw (.error e)

/-- Take in a flag whose value, if it has one, is part of the same argument. -/
def addValued (state : Arguments) (flag : Flag) (value : Option String) :
    Except Halt Arguments := do
  let state ← state.settle
  match value with
  | some value => settle { state with pending := .flag flag (some value) }
  | none => return { state with pending := .flag flag none }

def readLong (command : Option CommandName) (state : Arguments) (body : List Char) :
    Except Halt Arguments :=
  let name := String.ofList (body.takeWhile (· != '='))
  let value := match body.dropWhile (· != '=') with
    | [] => none
    | _ :: cs => some (String.ofList cs)
  match (flagsOf command).find? (·.long == name) with
  | none => .error (.error (.unexpected ("--" ++ name)))
  | some flag =>
    if flag.valueName.isSome then state.addValued flag value
    else match value with
      | some value => .error (.error (.unexpectedValue value flag.shown))
      | none => state.addFlag command flag

/-- Read flags of one letter each. The first one that has a value takes the other letters as its
value. -/
def readShort (command : Option CommandName) (state : Arguments) :
    List Char → Except Halt Arguments
  | [] => .ok state
  | c :: cs =>
    match (flagsOf command).find? (·.short == some c) with
    | none => .error (.error (.unexpected (String.ofList ['-', c])))
    | some flag =>
      if flag.valueName.isSome then
        let value := match cs with
          | [] => none
          | '=' :: cs => some (String.ofList cs)
          | cs => some (String.ofList cs)
        state.addValued flag value
      else do
        let state ← state.addFlag command flag
        readShort command state cs

/-- Read an argument that is no flag. Only `check` takes such arguments. -/
def readPlain (command : Option CommandName) (state : Arguments) (argument : String) :
    Except Halt Arguments :=
  match command with
  | some .check =>
    match state.pending with
    | .paths paths => .ok { state with pending := .paths (paths ++ [argument]) }
    | _ => do
      let state ← state.settle
      return { state with pending := .paths [argument] }
  | some _ => .error (.error (.unexpected argument))
  | none =>
    if state.pathsOnly && (argument == "help" || (CommandName.ofText? argument).isSome) then
      .error (.error (.unexpected argument))
    else .error (.error (.unknownCommand argument))

def read (command : Option CommandName) (state : Arguments) (argument : String) :
    Except Halt Arguments :=
  if state.pathsOnly then state.readPlain command argument
  else
    match argument.toList with
    | ['-', '-'] => .ok { state with pathsOnly := true }
    | '-' :: '-' :: body => state.readLong command body
    | '-' :: c :: cs => state.readShort command (c :: cs)
    | _ =>
      match state.pending with
      | .flag flag none => .ok { state with pending := .flag flag (some argument) }
      | _ => state.readPlain command argument

/-- The next argument is the value of a flag. -/
def awaitsValue (state : Arguments) : Bool :=
  match state.pending with
  | .flag _ none => true
  | _ => false

end Arguments

/-- What the command line asks for. -/
structure Request where
  command : CommandName
  before : Given := {}
  after : Given := {}
deriving DecidableEq, Repr

namespace Request

/-- The settings file that is named; the one after the command counts. -/
def config (request : Request) : Option String :=
  match request.after.config with
  | some path => some path
  | none => request.before.config

/-- Read what comes after a command. -/
def readCommand (command : CommandName) (arguments : List String) : Except Halt Given := do
  let state ← arguments.foldlM (Arguments.read (some command)) {}
  let state ← state.settle
  if command = .check && state.given.paths.isEmpty then throw (.error .missingPaths)
  return state.given

/-- Read what comes after `help`: the names of commands below each other, of which there is only one
level. -/
def readHelp : List String → Halt
  | [] | ["help"] => .help none
  | name :: rest =>
    match CommandName.ofText? name, rest with
    | some command, [] => .help (some command)
    | some _, other :: _ => .error (.unknownCommand other)
    | none, _ => .error (.unknownCommand name)

def readFrom (state : Arguments) : List String → Except Halt Request
  | [] => do
    let state ← state.settle
    throw (if state.given.flags.isEmpty then .bare else .error .missingCommand)
  | argument :: rest =>
    let isName := !state.awaitsValue && !state.pathsOnly
    match CommandName.ofText? argument with
    | some command =>
      if isName then do
        let after ← readCommand command rest
        let state ← state.settle
        return { command, before := state.given, after }
      else do
        let state ← state.read none argument
        readFrom state rest
    | none =>
      if isName && argument == "help" then throw (readHelp rest)
      else do
        let state ← state.read none argument
        readFrom state rest

/-- Read the arguments of the command line. -/
def read (arguments : List String) : Except Halt Request :=
  readFrom {} arguments

end Request

end TxLifecycle
