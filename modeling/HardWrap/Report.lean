import HardWrap.Json
import HardWrap.Settings.Basic

/-!
Reports on a run over files, for people and for programs.
-/

namespace HardWrap

structure FileOutcome where
  path : Text
  changed : Bool
  linesBefore : Nat := 0
  linesAfter : Nat := 0
  issues : List Text := []
  deriving DecidableEq, Repr

inductive OutcomeFault where
  | negativeCount
  deriving DecidableEq, Repr

def OutcomeFault.message : OutcomeFault → String
  | negativeCount => "line counts must be >= 0"

def FileOutcome.make (path : Text) (changed : Bool) (before after : Int) (issues : List Text) :
    Except OutcomeFault FileOutcome :=
  if before < 0 || after < 0 then .error .negativeCount
  else .ok ⟨path, changed, before.toNat, after.toNat, issues⟩

structure Summary where
  files : Nat
  changed : Nat
  unchanged : Nat
  withIssues : Nat
  deriving DecidableEq, Repr

def Summary.of (outcomes : List FileOutcome) : Summary :=
  let changed := outcomes.countP (·.changed)
  { files := outcomes.length
    changed := changed
    unchanged := outcomes.length - changed
    withIssues := outcomes.countP fun o => !o.issues.isEmpty }

inductive ReportFormat where
  | json
  | text
  deriving DecidableEq, Repr

inductive ReportFault where
  /-- The settings are part of a report in JSON. -/
  | settingsMissing
  | unknownFormat (name : Text)
  /-- The tracked environments are no list. -/
  | notIterable
  /-- A setting has no form in JSON. -/
  | setting (fault : Json.Fault)
  deriving DecidableEq, Repr

def ReportFault.message : ReportFault → String
  | settingsMissing => "config is required for JSON output format"
  | unknownFormat name => s!"Unknown output format: {String.ofList name.quoted}"
  | notIterable | setting _ => ""

namespace Value

/-- The items of a value that can be run through: of a list, the characters of a text, the keys of
a table. -/
def items? : Value → Option (List Value)
  | list vs | tuple vs => some vs
  | text t => some (t.map fun c => .text [c])
  | table fields => some (fields.map fun field => .text field.1)
  | _ => none

end Value

namespace Report

def version : String := "0.3.0"

/-! ### For people -/

def fileLines (o : FileOutcome) : List String :=
  let status := if o.changed then "CHANGED " else "ok      "
  s!"  {status} {String.ofList o.path} ({o.linesBefore} -> {o.linesAfter} lines)" ::
    o.issues.map fun issue => s!"           ! {String.ofList issue}"

def asText (outcomes : List FileOutcome) : String :=
  let s := Summary.of outcomes
  let files := if outcomes.isEmpty then [] else
    ["Files", String.ofList (List.replicate 30 '-')] ++ outcomes.flatMap fileLines ++ [""]
  "\n".intercalate ([
    "texreflow Report",
    String.ofList (List.replicate 50 '='),
    s!"  Files:            {s.files}",
    s!"  Changed:          {s.changed}",
    s!"  Unchanged:        {s.unchanged}",
    s!"  With issues:      {s.withIssues}",
    ""] ++ files)

/-! ### For programs -/

def field (key : String) (value : Value) : Text × Value :=
  (key.toList, value)

def fileValue (o : FileOutcome) : Value :=
  .table [
    field "path" (.text o.path),
    field "changed" (.bool o.changed),
    field "lines_before" (.int o.linesBefore),
    field "lines_after" (.int o.linesAfter),
    field "issues" (.list (o.issues.map .text))]

def summaryValue (s : Summary) : Value :=
  .table [
    field "files" (.int s.files),
    field "changed" (.int s.changed),
    field "unchanged" (.int s.unchanged),
    field "with_issues" (.int s.withIssues)]

def asJson (timestamp : Text) (settings : Settings) (outcomes : List FileOutcome) :
    Except ReportFault String :=
  match settings.tracked.items? with
  | none => .error .notIterable
  | some tracked =>
    (Json.document (.table [
      field "texreflow_version" (.text version.toList),
      field "timestamp" (.text timestamp),
      field "max_width" settings.maxWidth,
      field "tab_width" settings.tabWidth,
      field "tracked_environments" (.list tracked),
      field "summary" (summaryValue (Summary.of outcomes)),
      field "files" (.list (outcomes.map fileValue))])).mapError .setting

def render (format : ReportFormat) (timestamp : Text) (settings : Settings)
    (outcomes : List FileOutcome) : Except ReportFault String :=
  match format with
  | .json => asJson timestamp settings outcomes
  | .text => .ok (asText outcomes)

/-- The report in a format given by its name. Only JSON needs the settings. -/
def renderNamed (name : Text) (timestamp : Text) (settings : Option Settings)
    (outcomes : List FileOutcome) : Except ReportFault String :=
  if name = "json".toList then
    match settings with
    | none => .error .settingsMissing
    | some s => asJson timestamp s outcomes
  else if name = "text".toList then .ok (asText outcomes)
  else .error (.unknownFormat name)

end Report

end HardWrap
