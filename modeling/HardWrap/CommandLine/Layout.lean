import HardWrap.Audit
import HardWrap.CommandLine.Failure
import HardWrap.Document.Request
import HardWrap.Report
import HardWrap.Settings.Basic

/-!
From settings to paragraphs. Settings of a plain type give a layout. Others are used as far as they
can be: a fractional width is as good as its integral part, and a tab width that is no integer, or
too large a one, matters only once a tab has to be expanded.
-/

namespace HardWrap

namespace Settings

/-- The widest line that a width allows. The bound that stands for no limit is out of reach. -/
def widthOf : Value → Int
  | .bool b => if b then 1 else 0
  | .int n => n
  | .real (.infinite false) => 0x10000000000000000
  | .real x => x.floor?.getD (-1)
  | _ => -1

def tabOf (limits : Limits) : Value → Except TabFault Int
  | .bool b => .ok (if b then 1 else 0)
  | .int n => checkTab limits n
  | _ => .error .notInteger

def isPlain : Value → Bool
  | .list _ | .tuple _ | .table _ => false
  | _ => true

/-- The environments that values name. Numbers name none. -/
def namesOf (values : List Value) : List Text :=
  values.filterMap fun
    | .text t => some t
    | _ => none

def trackedOf (value : Value) : Option (List Text) :=
  (value.items?.filter fun items => items.all isPlain).map namesOf

def layout (limits : Limits) (settings : Settings) (tracked : List Text) : Layout :=
  ⟨widthOf settings.maxWidth, tabOf limits settings.tabWidth, tracked⟩

end Settings

namespace CommandLine

def Failure.ofLookup : LookupFault → Failure
  | .range fault => .range fault
  | .tab fault => .tab fault
  | .line _ | .edit _ => .other "ValueError"

def reflowWhole (limits : Limits) (settings : Settings) (content : Text) : Noted Failure Text :=
  match Settings.trackedOf settings.tracked with
  | none => .fail .wrongType
  | some tracked => ((settings.layout limits tracked).reflow content).mapError .tab

/-- Reflows the paragraph around a row of a text. Environments that make no set do not matter for a
row that is a boundary. -/
def reflowParagraph (limits : Limits) (settings : Settings) (content : Text) (index : Int) :
    Noted Failure Text :=
  let view := (Buffer.ofText content .writable).view
  match Settings.trackedOf settings.tracked with
  | some tracked => do
    let edit ← (view.reflowAroundChecked (settings.layout limits tracked) index).mapError .ofLookup
    match edit with
    | some edit => Noted.ofExcept ((edit.apply content).mapError fun _ => .other "ValueError")
    | none => return content
  | none => do
    let row ← Noted.ofExcept ((view.row index).mapError .range)
    if View.isBoundary row then
      Noted.note (View.pipelineNote .debug s!"No paragraph at line {index}")
      return content
    else Noted.fail .wrongType

def outcomeOf (settings : Settings) (verify : Bool) (path : Path) (before after : Text) :
    FileOutcome :=
  { path := path.shown
    changed := decide (after ≠ before)
    linesBefore := before.lines.length
    linesAfter := after.lines.length
    issues := if verify then
        (audit (Settings.widthOf settings.maxWidth) before after).map fun f =>
          (f.message settings.maxWidth.numberText).toList
      else [] }

end CommandLine

end HardWrap
