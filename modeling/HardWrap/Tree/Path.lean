import HardWrap.Settings.Override
import HardWrap.Text.Case
import HardWrap.Text.Order

/-!
Paths as the command line shows them: names between slashes, with empty names and single dots left
out. Two dots are kept, because they may lead through any folder. A path that starts with a slash
starts from the root of all folders, which counts as a name of its own. Two slashes at the start,
but not three, are another name of the root.
-/

namespace HardWrap

abbrev Path := List Text

namespace Path

def root : Text := ['/']

def isRoot (name : Text) : Bool :=
  name.head? == some '/'

def steps (t : Text) : List Text :=
  match t with
  | '/' :: '/' :: '/' :: rest => root :: Text.partsAt '/' rest
  | '/' :: '/' :: rest => ['/', '/'] :: Text.partsAt '/' rest
  | '/' :: rest => root :: Text.partsAt '/' rest
  | _ => t.partsAt '/'

def ofText (t : Text) : Path :=
  (steps t).filter fun name => !name.isEmpty && name != ['.']

/-- The path in messages. The working folder itself is a dot. -/
def shown (path : Path) : Text :=
  match path with
  | [] => ['.']
  | first :: rest =>
    if isRoot first then first ++ ['/'].intercalate rest else ['/'].intercalate path

/-- The last dot of a name and what follows it. A dot at the start or the end of the name does not
count. -/
def suffixOf (name : Text) : Text :=
  let after := (name.reverse.takeWhile (· != '.')).reverse
  if after.length + 1 < name.length && !after.isEmpty then '.' :: after else []

def suffix (path : Path) : Text :=
  suffixOf (path.getLast?.getD [])

def le : Path → Path → Bool
  | [], _ => true
  | _ :: _, [] => false
  | a :: as, b :: bs => if a = b then le as bs else Text.le a b

end Path

end HardWrap
