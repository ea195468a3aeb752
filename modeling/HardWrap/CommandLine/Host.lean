import HardWrap.CommandLine.Failure
import HardWrap.Note
import HardWrap.Report
import HardWrap.Settings.Value
import HardWrap.Text.Utf8

/-!
What the command finds around it: files, outputs and a screen. All of this can fail, and what it
does otherwise is not said here. A host has a state of its own, which its acts may change whether
they succeed or not; looking at files changes nothing. How names that are not UTF-8 are written as
texts is up to the host.
-/

namespace HardWrap.CommandLine

/-- Something done in a state: a result or a failure, and the state after it. -/
def Act (σ α : Type) : Type :=
  σ → Except Failure α × σ

namespace Act

variable {σ α β : Type}

def andThen (x : Act σ α) (f : α → Act σ β) : Act σ β := fun s =>
  match x s with
  | (.ok a, next) => f a next
  | (.error failure, next) => (.error failure, next)

instance : Monad (Act σ) where
  pure a := fun s => (.ok a, s)
  bind := andThen

def look (f : σ → Except Failure α) : Act σ α := fun s =>
  (f s, s)

end Act

/-- A screen on the error output: a bar that shows progress, lines of dimmed text, in which brackets
mark up, and tables. -/
structure Screen (σ : Type) where
  isTerminal : Bool
  openBar : (total : Nat) → Act σ Unit
  moveBar : (done : Nat) → Act σ Unit
  closeBar : Act σ Unit
  dimmed : Text → Act σ Unit
  table : (title : String) → (head : String × String) → (rows : List (String × String)) →
    Act σ Unit

structure Host (σ : Type) where
  /-- The user's layer of the settings. -/
  userTable : σ → Except Failure Table
  isFolder : σ → Path → Except Failure Bool
  /-- Everything below a folder, in any order. -/
  below : σ → Path → Except Failure (List Path)
  read : σ → Path → Except Failure Bytes
  write : Path → Bytes → Act σ Unit
  /-- Writes to the output. -/
  say : String → Act σ Unit
  /-- Writes to the error output. -/
  tell : String → Act σ Unit
  /-- Takes a note, which never fails. -/
  take : Note → σ → σ
  /-- The time, as reports show it. -/
  clock : σ → Text
  screen : Screen σ

namespace Host

variable {σ α : Type}

def takeAll (host : Host σ) (notes : List Note) (s : σ) : σ :=
  notes.foldl (fun s n => host.take n s) s

def note (host : Host σ) (notes : List Note) : Act σ Unit := fun s =>
  (.ok (), host.takeAll notes s)

def noted (host : Host σ) (x : Noted Failure α) : Act σ α := fun s =>
  (x.result, host.takeAll x.notes s)

def readText (host : Host σ) (path : Path) : Act σ Text :=
  .look fun s => do
    let bytes ← host.read s path
    (Utf8.decode bytes).mapError fun _ => .undecodable

def writeText (host : Host σ) (path : Path) (t : Text) : Act σ Unit :=
  host.write path (Utf8.encode t)

end Host

end HardWrap.CommandLine
