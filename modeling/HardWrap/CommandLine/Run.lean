import HardWrap.CommandLine.Parse
import HardWrap.CommandLine.Workspace
import HardWrap.CommandLine.Wrap

/-!
The whole program: its arguments, the command, the settings, and how the run ends.
-/

namespace HardWrap.CommandLine

structure Surroundings where
  limits : Limits
  /-- The settings file at home, if there is one. -/
  home : Option Bytes := none
  /-- The time of the run, for reports. -/
  timestamp : Text

structure Ending where
  files : Tree
  out : String
  err : String
  code : Nat
  escape : Option Escape := none

def ProgramOptions.verbosity (options : ProgramOptions) : Verbosity :=
  if options.quiet then .quiet else if options.verbose then .verbose else .normal

/-- The bytes of the user's settings file. A folder counts as no file. -/
def userFile (around : Surroundings) (tree : Tree) (config : Option Text) : Option Bytes :=
  match config with
  | none => around.home
  | some path =>
    match tree.find? path with
    | some (.file bytes) => some bytes
    | _ => none

def userTable (limits : Limits) (file : Option Bytes) : Except LoadFault Table :=
  match file with
  | none => .ok []
  | some bytes => do
    let t ← (Utf8.decode bytes).mapError LoadFault.encoding
    (Toml.parse limits.nesting t).mapError LoadFault.document

def loadSettings (limits : Limits) (user : Table) (overrides : List Override) :
    Except LoadFault Settings :=
  (Settings.load limits user overrides).mapError LoadFault.settings

def settingsValue (settings : Settings) : Except Halt Value :=
  match settings.tracked.items?, settings.extensions.items? with
  | some tracked, some extensions =>
    .ok (.table [
      Report.field "general" (.table [Report.field "log_level" settings.logLevel]),
      Report.field "wrap" (.table [
        Report.field "max_width" settings.maxWidth,
        Report.field "tab_width" settings.tabWidth,
        Report.field "tracked_environments" (.list tracked),
        Report.field "incremental" settings.incremental,
        Report.field "file_extensions" (.list extensions)])])
  | _, _ => .error (.escaped (.failure .wrongType))

def columns : Nat := 80

def cropped (t : Text) : Text :=
  let crop := fun (line : Text) =>
    ((line.take columns).reverse.dropWhile (· == ' ')).reverse
  ['\n'].intercalate ((t.partsAt '\n').map crop)

def configCommand (limits : Limits) (verbosity : Verbosity) (user : Table) (settings : Settings)
    (args : List Text) (ws : Workspace) : Workspace × Except Halt Bool :=
  let shown : Except Halt String := do
    let overrides ← parseConfig args
    let settings ←
      if overrides.isEmpty then pure settings
      else (loadSettings limits user overrides).mapError Halt.ofLoad
    let document ← (Json.document (← settingsValue settings)).mapError fun
      | .moment => .escaped (.failure .wrongType)
      | .tooManyDigits => .escaped (.failure .hugeNumber)
    return String.ofList (cropped document.toList) ++ "\n"
  match shown with
  | .error halt => (ws, .error halt)
  | .ok text =>
    (if verbosity == .quiet then ws else (Workspace.say text ws).2, .ok false)

inductive Command where
  | wrap
  | config
  deriving DecidableEq, Repr

def commandNames : List (Text × Command) :=
  [("wrap".toList, .wrap), ("config".toList, .config)]

/-- The command that the arguments name. After two dashes an option may stand in its place, which is
read all the same. -/
def commandOf (tree : Tree) (rest : List Text) : Except Halt (Command × List Text) :=
  match rest with
  | [] => .error (.usage .program .missingCommand)
  | name :: args =>
    match commandNames.lookup name with
    | some command => .ok (command, args)
    | none => do
      if name.head? = some '-' then
        let _ ← ProgramOptions.parse tree rest
      throw (.usage .program (.unknownCommand name (nearNames (commandNames.map Prod.fst) name)))

/-- Runs a command. The settings are loaded before the command's own arguments are read. -/
def runCommand (around : Surroundings) (options : ProgramOptions) (ws : Workspace) :
    Workspace × Except Halt Bool :=
  let loaded : Except Halt (Command × List Text × Table × Settings) := do
    let (command, args) ← commandOf ws.files options.rest
    let file := userFile around ws.files options.config
    let user ← (userTable around.limits file).mapError Halt.ofLoad
    let settings ← (loadSettings around.limits user []).mapError Halt.ofLoad
    return (command, args, user, settings)
  let verbosity := options.verbosity
  match loaded with
  | .error halt => (ws, .error halt)
  | .ok (.config, args, user, settings) =>
    configCommand around.limits verbosity user settings args ws
  | .ok (.wrap, args, user, settings) =>
    match WrapOptions.parse ws.files args with
    | .error halt => (ws, .error halt)
    | .ok wrap =>
      let host := Workspace.host verbosity user around.timestamp
      let (result, ws) := wrapCommand ⟨around.limits, verbosity, settings⟩ host wrap ws
      (ws, result.mapError .ofStop)

def conclude (ws : Workspace) : Except Halt Bool → Ending
  | .ok found => ⟨ws.files, ws.out, ws.err, if found then 1 else 0, none⟩
  | .error halt =>
    let last := (Workspace.tell halt.message (Workspace.say halt.output ws).2).2
    let escape := match halt with
      | .escaped e => some e
      | _ => none
    ⟨last.files, last.out, last.err, halt.exitCode, escape⟩

def run (around : Surroundings) (tree : Tree) (args : List Text) : Ending :=
  let ws : Workspace := { files := tree }
  if args.isEmpty then conclude ws (.error .noArguments)
  else match ProgramOptions.parse tree args with
    | .error halt => conclude ws (.error halt)
    | .ok options =>
      let (ws, result) := runCommand around options ws
      conclude ws result

end HardWrap.CommandLine
