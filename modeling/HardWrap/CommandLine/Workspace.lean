import HardWrap.CommandLine.Host
import HardWrap.CommandLine.Options
import HardWrap.Text.Control
import HardWrap.Tree.Basic

/-!
A host that keeps its files in a tree and its outputs in texts. Its error output is no terminal.
-/

namespace HardWrap.CommandLine

structure Workspace where
  files : Tree
  out : String := ""
  err : String := ""

def plainText (s : String) : String :=
  String.ofList (Text.plain s.toList)

namespace Workspace

def write (path : Path) (bytes : Bytes) : Act Workspace Unit := fun ws =>
  match ws.files.write path bytes with
  | .ok files => (.ok (), { ws with files := files })
  | .error fault => (.error (.file fault), ws)

def say (s : String) : Act Workspace Unit := fun ws =>
  (.ok (), { ws with out := ws.out ++ plainText s })

def tell (s : String) : Act Workspace Unit := fun ws =>
  (.ok (), { ws with err := ws.err ++ plainText s })

def warn (s : String) : Act Workspace Unit := fun ws =>
  (.ok (), { ws with err := ws.err ++ s })

def take (verbosity : Verbosity) (n : Note) (ws : Workspace) : Workspace :=
  if verbosity.shows n.level then { ws with err := ws.err ++ s!"{n.source}: {n.message}\n" } else ws

def pad (width : Nat) (s : String) : String :=
  s ++ String.ofList (List.replicate (width - s.length) ' ')

def rule (c : Char) (width : Nat) : String :=
  String.ofList (List.replicate width c)

def table (title : String) (head : String × String) (rows : List (String × String)) : String :=
  let widest := fun (cells : List String) => (cells.map String.length).foldl max 0
  let left := widest (head.1 :: rows.map Prod.fst)
  let right := widest (head.2 :: rows.map Prod.snd)
  let total := left + right + 7
  let indent := (total - title.length) / 2
  "\n".intercalate ([
    pad total (rule ' ' indent ++ title),
    "┏" ++ rule '━' (left + 2) ++ "┳" ++ rule '━' (right + 2) ++ "┓",
    "┃ " ++ pad left head.1 ++ " ┃ " ++ pad right head.2 ++ " ┃",
    "┡" ++ rule '━' (left + 2) ++ "╇" ++ rule '━' (right + 2) ++ "┩"] ++
    rows.map (fun (name, value) => "│ " ++ pad left name ++ " │ " ++ pad right value ++ " │") ++ [
    "└" ++ rule '─' (left + 2) ++ "┴" ++ rule '─' (right + 2) ++ "┘",
    ""])

/-- A screen that shows tables and nothing else. -/
def screen : Screen Workspace where
  isTerminal := false
  openBar _ := pure ()
  moveBar _ := pure ()
  closeBar := pure ()
  dimmed _ := pure ()
  table title head rows := warn (table title head rows)

def host (verbosity : Verbosity) (user : Table) (timestamp : Text) : Host Workspace where
  userTable _ := .ok user
  isFolder ws path := .ok (ws.files.isFolder path)
  below ws folder := .ok (ws.files.pathsBelow folder)
  read ws path := (ws.files.read path).mapError .file
  write := write
  say := say
  tell := tell
  take := take verbosity
  clock _ := timestamp
  screen := screen

end Workspace

end HardWrap.CommandLine
