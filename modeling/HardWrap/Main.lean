import HardWrap.CommandLine.Run
import HardWrap.CommandLine.Timestamp
import Std.Time.DateTime.Timestamp

/-!
The program. It reads the files that its arguments name, runs, and writes back what changed.
-/

namespace HardWrap.CommandLine

def namesAt (place : List Text) : IO (Option (List Text)) := do
  let here : IO.FS.DirEntry := { root := ".", fileName := String.ofList (Path.shown place) }
  match ← here.path.readDir.toBaseIO with
  | .ok children => return some (children.toList.map fun child => child.fileName.toList)
  | .error _ => return none

partial def loadBelow (search : Bool) (place : List Text) : IO (List (List Text × Entry)) := do
  match ← namesAt place with
  | some names =>
    let searched := if search then names else []
    let below ← searched.mapM fun name => loadBelow search (place ++ [name])
    return (place, .folder) :: below.flatten
  | none =>
    match ← (IO.FS.readBinFile (String.ofList (Path.shown place))).toBaseIO with
    | .ok bytes => return [(place, .file bytes.toList)]
    | .error _ => return []

def loadPath (search : Bool) (written : Text) : IO (List (List Text × Entry)) := do
  let mut place : List Text := []
  let mut entries := []
  for step in Path.steps written do
    place := Tree.stepFrom place step
    if (← namesAt place).isSome then entries := entries ++ [(place, Entry.folder)]
  return (← loadBelow search place) ++ entries

/-- The paths that an argument may name, alone or after the name of an option. -/
def namedPaths (arg : Text) : List Text :=
  [arg, (splitLong arg).2.getD [], arg.drop 2].filter fun t =>
    !t.isEmpty && t.head? != some '-' && !(Path.ofText t).isEmpty

def searchesFolders (args : List Text) : Bool :=
  args.contains "--check".toList || args.contains "--in-place".toList

def loadTree (args : List Text) : IO Tree := do
  let search := searchesFolders args
  let loaded ← (args.flatMap namedPaths).mapM (loadPath search)
  let namesHere := args.any fun arg => arg != [] && (Path.ofText arg).isEmpty
  let here ← if namesHere then loadBelow search [] else pure []
  return ⟨here ++ loaded.flatten⟩

def storeTree (before after : Tree) : IO Unit := do
  for (place, entry) in after.entries do
    if let .file bytes := entry then
      if before.entries.lookup place != some entry then
        IO.FS.writeBinFile (String.ofList (Path.shown place)) bytes.toByteArray

def homeSettings : IO (Option Bytes) := do
  match ← IO.getEnv "HOME" with
  | none => return none
  | some home =>
    match ← (IO.FS.readBinFile s!"{home}/.config/texreflow/config.toml").toBaseIO with
    | .ok bytes => return some bytes.toList
    | .error _ => return none

/-- The bounds of the usual machine. -/
def usualLimits : Limits :=
  { longest := 0x7fffffffffffffff, memory := 0x10000000000, depth := 984, nesting := 978 }

end HardWrap.CommandLine

open HardWrap HardWrap.CommandLine in
def main (args : List String) : IO UInt32 := do
  let words := args.map String.toList
  let tree ← loadTree words
  let now ← Std.Time.Timestamp.now
  let micros := now.toNanosecondsSinceUnixEpoch.val / 1000
  let around : Surroundings :=
    { limits := usualLimits, home := ← homeSettings, timestamp := timestampText micros.toNat }
  let ending := CommandLine.run around tree words
  storeTree tree ending.files
  IO.print ending.out
  IO.eprint ending.err
  return ending.code.toUInt32
