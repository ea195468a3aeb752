import HardWrap.Note
import HardWrap.Report
import HardWrap.Tree.Path

/-!
The options of the command that wraps files, once they have been read.
-/

namespace HardWrap.CommandLine

structure WrapOptions where
  input : Path
  width : Option Int := none
  tabWidth : Option Int := none
  /-- Environments to track besides those of the settings. -/
  environments : List Text := []
  /-- Only the paragraph around this line, counted from one. -/
  line : Option Int := none
  output : Option Path := none
  inPlace : Bool := false
  check : Bool := false
  report : Option Path := none
  format : ReportFormat := .text
  verify : Bool := false
  deriving DecidableEq, Repr

/-- Whether files are changed in place or only checked, rather than written to the output. -/
def WrapOptions.isBatch (options : WrapOptions) : Bool :=
  options.inPlace || options.check

inductive Verbosity where
  | quiet
  | normal
  | verbose
  deriving DecidableEq, Repr

def Verbosity.shows : Verbosity → Level → Bool
  | quiet, _ => false
  | normal, level => level == .warning
  | verbose, _ => true

end HardWrap.CommandLine
