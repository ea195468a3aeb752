import HardWrap.CommandLine.Host
import HardWrap.CommandLine.Layout

/-!
Single files: read, laid out, and given back with what became of them.
-/

namespace HardWrap.CommandLine

variable {σ : Type}

def rewroteNote (path : Path) : Note :=
  View.pipelineNote .info s!"Rewrote {String.ofList path.shown}"

def reflowFile (limits : Limits) (host : Host σ) (settings : Settings) (inPlace verify : Bool)
    (path : Path) : Act σ (FileOutcome × Text) := do
  let content ← host.readText path
  let reflowed ← host.noted (reflowWhole limits settings content)
  let outcome := outcomeOf settings verify path content reflowed
  if outcome.changed && inPlace then
    host.writeText path reflowed
    host.note [rewroteNote path]
  return (outcome, reflowed)

/-- Reflows the paragraph around a row of a file. Nothing is written. -/
def reflowFileAt (limits : Limits) (host : Host σ) (settings : Settings) (verify : Bool)
    (path : Path) (index : Int) : Act σ (FileOutcome × Text) := do
  let content ← host.readText path
  let reflowed ← host.noted (reflowParagraph limits settings content index)
  return (outcomeOf settings verify path content reflowed, reflowed)

end HardWrap.CommandLine
