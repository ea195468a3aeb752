import HardWrap.CommandLine.Files
import HardWrap.CommandLine.Progress

/-!
The command that wraps files: a file to the output, or a file or a folder of files in place or only
for a check. Each file is finished before the next one is read.
-/

namespace HardWrap.CommandLine

variable {σ : Type}

/-! ### What to run over, and with which settings -/

def joinNames (tracked : List Value) (environments : List Text) : Except Failure (List Text) :=
  let isNew := fun (seen : List Text) (name : Text) =>
    !seen.contains name && !(Settings.namesOf tracked).contains name
  let added := environments.foldl
    (fun seen name => if isNew seen name then seen ++ [name] else seen) []
  if tracked.all fun | .text _ => true | _ => false then .ok (Settings.namesOf tracked ++ added)
  else .error .wrongType

def optionOverrides (settings : Settings) (options : WrapOptions) :
    Except Failure (List Override) := do
  let number := fun (key : String) (n : Option Int) =>
    n.toList.map fun n => (⟨key.toList, (toString n).toList⟩ : Override)
  let names ←
    if options.environments.isEmpty then pure []
    else match settings.tracked.items? with
      | none => .error .wrongType
      | some tracked => do
        let names ← joinNames tracked options.environments
        pure [(⟨"wrap.tracked_environments".toList, [','].intercalate names⟩ : Override)]
  return number "wrap.max_width" options.width ++ number "wrap.tab_width" options.tabWidth ++ names

/-- The settings with the options of the command laid over them. The user's layer is read again if
there are such options. -/
def effectiveSettings (limits : Limits) (user : Except Failure Table) (settings : Settings)
    (options : WrapOptions) : Except Failure Settings := do
  let overrides ← optionOverrides settings options
  if overrides.isEmpty then return settings
  else
    let table ← user
    (Settings.load limits table overrides).mapError .settings

def checkModes (options : WrapOptions) : Except Misuse Unit :=
  if options.inPlace && options.check then .error .inPlaceAndCheck
  else if options.output.isSome && options.isBatch then .error .outputOfBatch
  else .ok ()

def checkFolder (options : WrapOptions) : Except Misuse Unit :=
  if !options.isBatch then .error .folderAlone
  else if options.line.isSome then .error .lineOfFolder
  else .ok ()

def suffixOf : Value → Except Failure Text
  | .text t => .ok (Text.lower t)
  | _ => .error .notText

def suffixesOf (settings : Settings) : Except Failure (List Text) :=
  match settings.extensions.items? with
  | none => .error .wrongType
  | some items => items.mapM suffixOf

def matching (suffixes : List Text) (below : List Path) : List Path :=
  (below.filter fun path => suffixes.contains (Text.lower path.suffix)).mergeSort Path.le

/-- The files to run over: the path itself, or all files of a folder with a known suffix. -/
def inputFiles (host : Host σ) (settings : Settings) (input : Path) (s : σ) :
    Except Stop (List Path) := do
  if ← (host.isFolder s input).mapError .failed then
    let suffixes ← (suffixesOf settings).mapError .failed
    let below ← (host.below s input).mapError .failed
    if (matching suffixes below).isEmpty then .error (.refused (.noFiles input))
    else return matching suffixes below
  else return [input]

/-! ### The run -/

structure Job where
  limits : Limits
  options : WrapOptions
  verbosity : Verbosity
  settings : Settings

namespace Job

def reporter (job : Job) : Reporter :=
  { verbose := job.verbosity = .verbose
    quiet := job.verbosity = .quiet || !job.options.isBatch }

/-- Lays a file out. It is written back if it changed and the run is in place. -/
def layFile (job : Job) (host : Host σ) (path : Path) : Act σ (FileOutcome × Text) :=
  match job.options.line with
  | none => reflowFile job.limits host job.settings job.options.inPlace job.options.verify path
  | some line => do
    let (outcome, reflowed) ←
      reflowFileAt job.limits host job.settings job.options.verify path (line - 1)
    if outcome.changed && job.options.inPlace then host.writeText path reflowed
    return (outcome, reflowed)

def deliver (job : Job) (host : Host σ) (t : Text) : Act σ Unit :=
  if job.options.isBatch then pure ()
  else match job.options.output with
    | some path => host.writeText path t
    | none => host.say (String.ofList t)

def issueNotes (path : Path) (outcome : FileOutcome) : List Note :=
  outcome.issues.map fun issue =>
    ⟨.warning, "texreflow", s!"{String.ofList path.shown}: {String.ofList issue}"⟩

def closeFile (job : Job) (host : Host σ) (done : Nat) (path : Path) (outcome : FileOutcome)
    (t : Text) : Act σ Unit := do
  job.reporter.advance host done outcome
  job.deliver host t
  host.note (issueNotes path outcome)

/-- Wraps files one after the other. The first failure ends the run; a file that was laid out
counts even if what is left to do for it fails. -/
def wrapFiles (job : Job) (host : Host σ) (done : List FileOutcome) :
    List Path → σ → (List FileOutcome × Except Failure Unit) × σ
  | [], s => ((done, .ok ()), s)
  | path :: rest, s =>
    match job.layFile host path s with
    | (.error failure, s) => ((done, .error failure), s)
    | (.ok (outcome, t), s) =>
      let counted := done ++ [outcome]
      match job.closeFile host counted.length path outcome t s with
      | (.error failure, s) => ((counted, .error failure), s)
      | (.ok (), s) => job.wrapFiles host counted rest s

def render (job : Job) (host : Host σ) (outcomes : List FileOutcome) : Act σ String :=
  .look fun s =>
    (Report.render job.options.format (host.clock s) job.settings outcomes).mapError fun
      | .setting .tooManyDigits => .hugeNumber
      | _ => .wrongType

def report (job : Job) (host : Host σ) (outcomes : List FileOutcome) : Act σ Unit :=
  match job.options.report with
  | some path => do
    let text ← job.render host outcomes
    host.writeText path text.toList
    if job.verbosity != .quiet then host.tell s!"Report: {String.ofList path.shown}\n"
  | none =>
    if job.options.isBatch then do
      let text ← job.render host outcomes
      host.say (text ++ "\n")
    else pure ()

/-- Runs over files and reports. Tells whether a check found files that would change. The summary
comes at the end whether or not a file failed. -/
def run (job : Job) (host : Host σ) (paths : List Path) (s : σ) : Except Stop Bool × σ :=
  match job.reporter.start host paths.length s with
  | (.error failure, s) => (.error (.failed failure), s)
  | (.ok (), s) =>
    match job.wrapFiles host [] paths s with
    | ((outcomes, ended), s) =>
      match job.reporter.finish host outcomes s with
      | (.error failure, s) => (.error (.failed failure), s)
      | (.ok (), s) =>
        match ended with
        | .error failure => (.error (.ofFailure failure), s)
        | .ok () =>
          match job.report host outcomes s with
          | (.error failure, s) => (.error (.failed failure), s)
          | (.ok (), s) => (.ok (job.options.check && outcomes.any (·.changed)), s)

end Job

/-! ### The command -/

structure Call where
  limits : Limits
  verbosity : Verbosity
  settings : Settings

def prepare (call : Call) (host : Host σ) (options : WrapOptions) (s : σ) :
    Except Stop (Job × List Path) := do
  let settings ← (effectiveSettings call.limits (host.userTable s) call.settings options).mapError
    .failed
  (checkModes options).mapError .refused
  if ← (host.isFolder s options.input).mapError .failed then
    (checkFolder options).mapError .refused
  let paths ← inputFiles host settings options.input s
  return (⟨call.limits, options, call.verbosity, settings⟩, paths)

def wrapCommand (call : Call) (host : Host σ) (options : WrapOptions) (s : σ) :
    Except Stop Bool × σ :=
  match prepare call host options s with
  | .error stop => (.error stop, s)
  | .ok (job, paths) => job.run host paths s

/-- The exit code: one if a check found files that would change, two for misuse, one for any other
early end. -/
def exitCode : Except Stop Bool → Nat
  | .ok found => if found then 1 else 0
  | .error (.refused _) => 2
  | .error (.reported _) | .error (.failed _) => 1

end HardWrap.CommandLine
