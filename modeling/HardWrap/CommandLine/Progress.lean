import HardWrap.CommandLine.Host
import HardWrap.CommandLine.Options

/-!
The progress of a run. A terminal shows a bar and, if much is to be said, a line for each file;
anything else gets notes. A table closes the run.
-/

namespace HardWrap.CommandLine

structure Reporter where
  verbose : Bool
  quiet : Bool
  deriving DecidableEq, Repr

namespace Reporter

variable {σ : Type}

def progressNote (message : String) : Note :=
  ⟨.info, "texreflow.progress", message⟩

def start (reporter : Reporter) (host : Host σ) (total : Nat) : Act σ Unit :=
  if reporter.quiet then pure ()
  else if host.screen.isTerminal then host.screen.openBar total
  else host.note [progressNote s!"Reflow started -- {total} files"]

def detail (outcome : FileOutcome) : String :=
  let state := if outcome.changed then "changed" else "unchanged"
  s!"{String.ofList outcome.path}: {state}"

/-- Records a finished file, the `done`-th of the run. -/
def advance (reporter : Reporter) (host : Host σ) (done : Nat) (outcome : FileOutcome) :
    Act σ Unit :=
  if reporter.quiet then pure ()
  else if host.screen.isTerminal then do
    host.screen.moveBar done
    if reporter.verbose then host.screen.dimmed (detail outcome).toList
  else host.note [progressNote s!"[{done}] {detail outcome}"]

def summaryRows (summary : Summary) : List (String × String) :=
  [("Files", toString summary.files),
   ("Changed", toString summary.changed),
   ("Unchanged", toString summary.unchanged),
   ("With issues", toString summary.withIssues)]

def finish (reporter : Reporter) (host : Host σ) (outcomes : List FileOutcome) : Act σ Unit :=
  if reporter.quiet then pure ()
  else do
    if host.screen.isTerminal then host.screen.closeBar
    host.screen.table "Reflow Summary" ("Metric", "Value") (summaryRows (.of outcomes))

end Reporter

end HardWrap.CommandLine
