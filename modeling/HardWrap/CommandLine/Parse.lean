import HardWrap.CommandLine.Halt
import HardWrap.CommandLine.Options
import HardWrap.Decimal.Numeral
import HardWrap.Tree.Basic

/-!
How the options of the program and of its commands are read. Values are checked in the order in
which the options were given, the path after them, and superfluous arguments last.
-/

namespace HardWrap.CommandLine

/-! ### The program itself -/

inductive ProgramOption where
  | help
  | version
  | config
  | verbose
  | quiet
  deriving DecidableEq, Repr

def programSpecs : List (OptionSpec ProgramOption) := [
  { id := .version, names := ["--version".toList] },
  { id := .config, names := ["--config".toList], arity := 1 },
  { id := .verbose, names := ["-v".toList, "--verbose".toList] },
  { id := .quiet, names := ["-q".toList, "--quiet".toList] },
  { id := .help, names := ["--help".toList] }]

structure ProgramOptions where
  /-- The user's settings file, if not the one at home. -/
  config : Option Text
  verbose : Bool
  quiet : Bool
  /-- The command and its arguments. -/
  rest : List Text

def specNames {ι : Type} [DecidableEq ι] (specs : List (OptionSpec ι)) (id : ι) : List Text :=
  ((specs.find? fun spec => spec.id = id).map OptionSpec.names).getD []

def ProgramOption.notice? : ProgramOption → Option Notice
  | help => some (.help .program)
  | version => some .version
  | _ => none

def checkPath (path : Text) : Except Halt Unit :=
  if path.contains '\x00' then .error (.escaped (.failure (.other "ValueError"))) else .ok ()

def checkFound (tree : Tree) (page : Page) (names : List Text) (path : Text) :
    Except Halt Unit := do
  checkPath path
  if (tree.find? path).isNone then throw (.usage page (.invalidValue names (.noPath path)))

/-- Reads the program's own options. A notice that is asked for comes before the check of values. -/
def ProgramOptions.parse (tree : Tree) (args : List Text) : Except Halt ProgramOptions := do
  let parsed ← (Arguments.parse programSpecs false args).mapError (Halt.ofArguments .program)
  if let some notice := parsed.order.findSome? ProgramOption.notice? then throw (.notice notice)
  let config := parsed.value? .config
  config.forM (checkFound tree .program (specNames programSpecs .config))
  return {
    config := config
    verbose := parsed.has .verbose
    quiet := parsed.has .quiet
    rest := parsed.rest }

/-! ### Wrapping files -/

inductive WrapOption where
  | width
  | tabWidth
  | environment
  | line
  | output
  | inPlace
  | check
  | report
  | format
  | verify
  | help
  deriving DecidableEq, Repr

def wrapSpecs : List (OptionSpec WrapOption) := [
  { id := .width, names := ["-w".toList, "--width".toList], arity := 1 },
  { id := .tabWidth, names := ["--tab-width".toList], arity := 1 },
  { id := .environment, names := ["-e".toList, "--env".toList], arity := 1 },
  { id := .line, names := ["--line".toList], arity := 1 },
  { id := .output, names := ["-o".toList, "--output".toList], arity := 1 },
  { id := .inPlace, names := ["--in-place".toList] },
  { id := .check, names := ["--check".toList] },
  { id := .report, names := ["--report".toList], arity := 1 },
  { id := .format, names := ["--output-format".toList], arity := 1 },
  { id := .verify, names := ["--verify".toList] },
  { id := .help, names := ["--help".toList] }]

def integerFrom (least : Int) (t : Text) : Except ValueFault Int :=
  match Numeral.integer? t with
  | none => .error (.notInteger t)
  | some n => if n < least then .error (.below n least) else .ok n

def formatNames : List (Text × ReportFormat) :=
  [("json".toList, .json), ("text".toList, .text)]

def readFormat (t : Text) : Except ValueFault ReportFormat :=
  match formatNames.lookup t with
  | some format => .ok format
  | none => .error (.notChoice t (formatNames.map Prod.fst))

def leastOf : WrapOption → Int
  | .tabWidth => 0
  | _ => 1

def integerOption (args : Arguments WrapOption) (id : WrapOption) :
    Except ValueFault (Option Int) :=
  match args.value? id with
  | none => .ok none
  | some t => some <$> integerFrom (leastOf id) t

def checkOption (args : Arguments WrapOption) (id : WrapOption) : Except Halt Unit :=
  let invalid := fun fault => Halt.usage .wrap (.invalidValue (specNames wrapSpecs id) fault)
  match id with
  | .width | .tabWidth | .line => ((integerOption args id).map fun _ => ()).mapError invalid
  | .format => ((args.value? .format).forM fun t => (readFormat t).map fun _ => ()).mapError invalid
  | .output | .report => (args.value? id).forM checkPath
  | _ => .ok ()

def inputPath (tree : Tree) (rest : List Text) : Except Halt Path :=
  match rest with
  | [] => .error (.usage .wrap .missingPath)
  | path :: _ => do
    checkFound tree .wrap ["INPUT_PATH".toList] path
    return .ofText path

def checkedInteger (args : Arguments WrapOption) (id : WrapOption) : Option Int :=
  (integerOption args id).toOption.join

def WrapOptions.parse (tree : Tree) (args : List Text) : Except Halt WrapOptions := do
  let parsed ← (Arguments.parse wrapSpecs true args).mapError (Halt.ofArguments .wrap)
  if parsed.has .help then throw (.notice (.help .wrap))
  parsed.order.forM (checkOption parsed)
  let input ← inputPath tree parsed.rest
  if 1 < parsed.rest.length then throw (.usage .wrap (.extraArguments (parsed.rest.drop 1)))
  return {
    input := input
    width := checkedInteger parsed .width
    tabWidth := checkedInteger parsed .tabWidth
    environments := (parsed.all .environment).flatten
    line := checkedInteger parsed .line
    output := (parsed.value? .output).map .ofText
    inPlace := parsed.has .inPlace
    check := parsed.has .check
    report := (parsed.value? .report).map .ofText
    format := ((parsed.value? .format).bind fun t => formatNames.lookup t).getD .text
    verify := parsed.has .verify }

/-! ### Showing settings -/

inductive ConfigOption where
  | set
  | help
  deriving DecidableEq, Repr

def configSpecs : List (OptionSpec ConfigOption) :=
  [{ id := .set, names := ["--set".toList], arity := 2 },
   { id := .help, names := ["--help".toList] }]

def parseConfig (args : List Text) : Except Halt (List Override) := do
  let parsed ← (Arguments.parse configSpecs true args).mapError (Halt.ofArguments .config)
  if parsed.has .help then throw (.notice (.help .config))
  if !parsed.rest.isEmpty then throw (.usage .config (.extraArguments parsed.rest))
  return Override.distinct ((parsed.all .set).filterMap fun
    | [key, t] => some ⟨key, t⟩
    | _ => none)

end HardWrap.CommandLine
