import HardWrap.Text.Utf8
import HardWrap.Tree.Fault

/-!
Folders and files. A tree lists its files with their bytes; a folder exists if it is listed or if
something below it is. Paths are followed step by step, so that a path may lead through a folder
and out of it again.
-/

namespace HardWrap

inductive Entry where
  | file (bytes : Bytes)
  | folder
  deriving DecidableEq

/-- Entries by the names that lead to them from the working folder. -/
structure Tree where
  entries : List (List Text × Entry) := []

namespace Tree

/-- Whether a place always is a folder: the working folder, what lies around it, and the root. -/
def isGiven (place : List Text) : Bool :=
  place.all (· == ['.', '.']) || place == [Path.root]

def at? (tree : Tree) (place : List Text) : Option Entry :=
  match tree.entries.lookup place with
  | some entry => some entry
  | none =>
    if isGiven place || tree.entries.any fun e => place.isPrefixOf e.1 then some .folder
    else none

/-- The place one step from a folder. Two dots lead out of a folder, but not beyond the root. -/
def stepFrom (here : List Text) (step : Text) : List Text :=
  if step.isEmpty || step = ['.'] then here
  else if Path.isRoot step then [Path.root]
  else if step = ['.', '.'] then
    match here.getLast? with
    | none => [step]
    | some last =>
      if last = step then here ++ [step]
      else if last = Path.root then here
      else here.dropLast
  else here ++ [step]

def maxName : Nat := 255

def maxPath : Nat := 4095

/-- Follows steps from a place. Every step starts from a folder, and no name may be too long. -/
def follow (tree : Tree) (here : List Text) : List Text → Except FileCause (List Text)
  | [] => .ok here
  | step :: rest =>
    match tree.at? here with
    | none => .error .missing
    | some (.file _) => .error .notFolder
    | some .folder =>
      if maxName < (Utf8.encode step).length then .error .nameTooLong
      else tree.follow (stepFrom here step) rest

def resolveText (tree : Tree) (written : Text) : Except FileCause (List Text) :=
  if maxPath < (Utf8.encode written).length then .error .nameTooLong
  else tree.follow [] (Path.steps written)

def resolve (tree : Tree) (path : Path) : Except FileCause (List Text) :=
  if maxPath < (Utf8.encode path.shown).length then .error .nameTooLong
  else tree.follow [] path

/-- What a path, as written, leads to. The empty path leads nowhere. -/
def find? (tree : Tree) (written : Text) : Option Entry :=
  match written with
  | [] => none
  | _ =>
    match tree.resolveText written with
    | .ok place => tree.at? place
    | .error _ => none

def isFolder (tree : Tree) (path : Path) : Bool :=
  match tree.resolve path with
  | .ok place => tree.at? place = some .folder
  | .error _ => false

def read (tree : Tree) (path : Path) : Except FileFault Bytes :=
  match tree.resolve path with
  | .error cause => .error ⟨cause, some path⟩
  | .ok place =>
    match tree.at? place with
    | none => .error ⟨.missing, some path⟩
    | some .folder => .error ⟨.isFolder, some path⟩
    | some (.file bytes) => .ok bytes

def put (entries : List (List Text × Entry)) (place : List Text) (entry : Entry) :
    List (List Text × Entry) :=
  match entries with
  | [] => [(place, entry)]
  | (p, e) :: rest => if p = place then (p, entry) :: rest else (p, e) :: put rest place entry

def write (tree : Tree) (path : Path) (bytes : Bytes) : Except FileFault Tree :=
  match tree.resolve path with
  | .error cause => .error ⟨cause, some path⟩
  | .ok place =>
    match tree.at? place, tree.at? place.dropLast with
    | some .folder, _ => .error ⟨.isFolder, some path⟩
    | none, none => .error ⟨.missing, some path⟩
    | none, some (.file _) => .error ⟨.notFolder, some path⟩
    | some (.file _), _ | none, some .folder => .ok ⟨put tree.entries place (.file bytes)⟩

def placesBetween (place deep : List Text) : List (List Text) :=
  if place.isPrefixOf deep then
    (List.range (deep.length - place.length)).map fun i => deep.take (place.length + i + 1)
  else []

def below (tree : Tree) (place : List Text) : List (List Text) :=
  (tree.entries.flatMap fun e => placesBetween place e.1).eraseDups

def pathsBelow (tree : Tree) (folder : Path) : List Path :=
  match tree.resolve folder with
  | .error _ => []
  | .ok place => (tree.below place).map fun deep => folder ++ deep.drop place.length

end Tree

end HardWrap
