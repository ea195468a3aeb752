import HardWrap.CommandLine.Arguments
import HardWrap.CommandLine.Failure
import HardWrap.CommandLine.Page
import HardWrap.Report
import HardWrap.Text.Utf8
import HardWrap.Toml.Document

/-!
Why a run of the command line ends early, and what it says then. Only a notice may have been asked
for. Of the failures some are shown with the usage of the command, some without it. Others escape:
nothing on the command line answers for them.
-/

namespace HardWrap.CommandLine

inductive ValueFault where
  | notInteger (t : Text)
  | below (n least : Int)
  | notChoice (t : Text) (choices : List Text)
  | noPath (t : Text)
  deriving DecidableEq, Repr

def shown (t : Text) : String :=
  String.ofList t.quoted

def ValueFault.message : ValueFault → String
  | notInteger t => s!"{shown t} is not a valid integer range."
  | below n least => s!"{n} is not in the range x>={least}."
  | notChoice t choices =>
    let listed := ", ".intercalate (choices.map shown)
    s!"{shown t} is not one of {listed}."
  | noPath t => s!"Path {shown t} does not exist."

inductive UsageFault where
  | unknownOption (name : Text) (near : List Text)
  | unknownCommand (name : Text) (near : List Text)
  | missingCommand
  | missingPath
  | extraArguments (args : List Text)
  | invalidValue (names : List Text) (fault : ValueFault)
  | misuse (cause : Misuse)
  deriving DecidableEq, Repr

def offer : List Text → String
  | [] => ""
  | [name] => s!" Did you mean {shown name}?"
  | names =>
    let listed := ", ".intercalate (names.map shown)
    s!" (Did you mean one of: {listed}?)"

def UsageFault.message : UsageFault → String
  | unknownOption name near => s!"No such option {shown name}.{offer near}"
  | unknownCommand name near => s!"No such command {shown name}.{offer near}"
  | missingCommand => "Missing command."
  | missingPath => "Missing argument 'INPUT_PATH'."
  | extraArguments args =>
    let noun := if args.length = 1 then "argument" else "arguments"
    s!"Got unexpected extra {noun} ({String.ofList (Text.joinWords args)})"
  | invalidValue names fault =>
    let label := " / ".intercalate (names.map shown)
    s!"Invalid value for {label}: {fault.message}"
  | misuse cause => cause.message

inductive LoadFault where
  | encoding (fault : Utf8.Fault)
  | document (refusal : Toml.Refusal)
  | settings (fault : SettingsFault)
  deriving DecidableEq, Repr

def LoadFault.isTooDeep : LoadFault → Bool
  | encoding _ => false
  | document refusal => refusal.fault.cause == .tooDeep
  | settings fault => fault == .tooDeep

def LoadFault.message : LoadFault → String
  | encoding fault => fault.message
  | document refusal => refusal.message
  | settings fault => fault.message

inductive Escape where
  | failure (failure : Failure)
  | load (fault : LoadFault)
  deriving DecidableEq, Repr

inductive Notice where
  | version
  | help (page : Page)
  deriving DecidableEq, Repr

inductive Halt where
  | notice (notice : Notice)
  /-- There are no arguments at all. -/
  | noArguments
  | usage (page : Page) (fault : UsageFault)
  | arguments (fault : ArgumentFault)
  /-- The run itself failed and says why. -/
  | reported (message : String)
  | escaped (escape : Escape)
  deriving DecidableEq, Repr

namespace Halt

/-- Arguments that cannot be read. Only for an unknown option the usage is shown. -/
def ofArguments (page : Page) : ArgumentFault → Halt
  | .unknown name near => .usage page (.unknownOption name near)
  | fault => .arguments fault

/-- Settings that could not be loaded. Those that are nested too deep escape. -/
def ofLoad (fault : LoadFault) : Halt :=
  if fault.isTooDeep then .escaped (.load fault)
  else .reported s!"Invalid configuration: {fault.message}"

def ofStop : Stop → Halt
  | .refused misuse => .usage .wrap (.misuse misuse)
  | .reported message => .reported message
  | .failed failure => .escaped (.failure failure)

def argumentMessage : ArgumentFault → String
  | .unknown name near => (UsageFault.unknownOption name near).message
  | .missingValues name arity =>
    if arity = 1 then s!"Option {shown name} requires an argument."
    else s!"Option {shown name} requires {arity} arguments."
  | .unwantedValue name => s!"Option {shown name} does not take a value."

def output : Halt → String
  | notice .version => s!"texreflow, version {Report.version}\n"
  | notice (.help page) => page.help
  | _ => ""

def message : Halt → String
  | notice _ | escaped _ => ""
  | noArguments => Page.program.help
  | usage page fault => page.usage ++ s!"Error: {fault.message}\n"
  | arguments fault => s!"Error: {argumentMessage fault}\n"
  | reported message => s!"Error: {message}\n"

def exitCode : Halt → Nat
  | notice _ => 0
  | noArguments | usage .. | arguments _ => 2
  | reported _ | escaped _ => 1

end Halt

end HardWrap.CommandLine
