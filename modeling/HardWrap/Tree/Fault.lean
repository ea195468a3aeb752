import HardWrap.Text.Quoted
import HardWrap.Tree.Path

/-!
What the file system refuses.
-/

namespace HardWrap

inductive FileCause where
  | missing
  | isFolder
  | notFolder
  | nameTooLong
  /-- Any other refusal, in the words of the system. -/
  | other (message : String)
  deriving DecidableEq, Repr

def FileCause.message : FileCause → String
  | missing => "[Errno 2] No such file or directory"
  | isFolder => "[Errno 21] Is a directory"
  | notFolder => "[Errno 20] Not a directory"
  | nameTooLong => "[Errno 36] File name too long"
  | other message => message

structure FileFault where
  cause : FileCause
  /-- The path that was refused, where the system names it. -/
  path : Option Path
  deriving DecidableEq, Repr

def FileFault.message (fault : FileFault) : String :=
  match fault.path with
  | some path => s!"{fault.cause.message}: {String.ofList (Text.quoted path.shown)}"
  | none => fault.cause.message

end HardWrap
