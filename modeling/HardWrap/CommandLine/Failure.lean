import HardWrap.Document.View
import HardWrap.Line.Margin
import HardWrap.Settings.Fault
import HardWrap.Tree.Fault

/-!
What can go wrong while files are wrapped, and how the command ends then. Two kinds of failures are
answered while files are under way: lines that a file does not have, and what the file system
refuses. Nothing answers for the others.
-/

namespace HardWrap.CommandLine

inductive Failure where
  /-- A file does not have the line. -/
  | range (fault : RangeFault)
  | file (fault : FileFault)
  /-- A file is not UTF-8. -/
  | undecodable
  /-- A setting has a type that cannot be used. -/
  | wrongType
  /-- A file suffix in the settings is not a text. -/
  | notText
  /-- A number in the settings has too many digits to be shown. -/
  | hugeNumber
  | tab (fault : TabFault)
  | settings (fault : SettingsFault)
  /-- A failure of another kind, by its name. -/
  | other (name : String)
  deriving DecidableEq, Repr

namespace Failure

/-- The message of a failure that is answered. -/
def answer? : Failure → Option String
  | range fault => some fault.message
  | file fault => some fault.message
  | _ => none

end Failure

inductive Misuse where
  | inPlaceAndCheck
  | outputOfBatch
  | folderAlone
  | lineOfFolder
  | noFiles (folder : Path)
  deriving DecidableEq, Repr

def Misuse.message : Misuse → String
  | inPlaceAndCheck => "--in-place and --check are mutually exclusive"
  | outputOfBatch => "--output cannot be combined with --in-place or --check"
  | folderAlone => "a directory needs --in-place or --check"
  | lineOfFolder => "--line needs a single input file"
  | noFiles folder =>
    s!"Invalid value for INPUT_PATH: No supported files found in {String.ofList folder.shown}"

inductive Stop where
  | refused (misuse : Misuse)
  /-- The command failed and says why. -/
  | reported (message : String)
  | failed (failure : Failure)
  deriving DecidableEq, Repr

def Stop.ofFailure (failure : Failure) : Stop :=
  match failure.answer? with
  | some message => .reported message
  | none => .failed failure

end HardWrap.CommandLine
