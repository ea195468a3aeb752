import HardWrap.Toml.Scalar

/-!
Keys, arrays and inline tables of TOML documents.
-/

namespace HardWrap.Toml

def isBareKeyChar (c : Char) : Bool :=
  ('a' ≤ c && c ≤ 'z') || ('A' ≤ c && c ≤ 'Z') || isDecimalDigit c || c == '-' || c == '_'

def readKeyPart : Reader Text := fun rest =>
  match rest with
  | '\x27' :: after => readLiteral after
  | '"' :: after => readBasic after
  | c :: _ =>
    if isBareKeyChar c then .ok (rest.takeWhile isBareKeyChar, rest.dropWhile isBareKeyChar)
    else fail .keyStart rest
  | [] => fail .keyStart []

def readKeyParts : (fuel : Nat) → Reader Key
  | 0, rest => fail .keyStart rest
  | fuel + 1, rest => do
    let (part, after) ← readKeyPart rest
    match skipSpace after with
    | '.' :: more => do
      let (parts, last) ← readKeyParts fuel (skipSpace more)
      return (part :: parts, last)
    | last => return ([part], last)

def readKey : Reader Key := fun rest =>
  readKeyParts (rest.length + 1) rest

def readAssigned : Reader Key := fun rest => do
  let (key, after) ← readKey rest
  match after with
  | '=' :: more => return (key, skipSpace more)
  | _ => fail .equalsSign after

def isCompound : Value → Bool
  | .list _ | .table _ => true
  | _ => false

/-- Changes the table at a path, creating tables on the way. A path leads through the last table of
an array if `lists` says so, and never through another value. -/
def updateAt (lists : Bool) (change : Table → Option Table) : Key → Table → Option Table
  | [], table => change table
  | name :: rest, table =>
    match table.get? name with
    | none => do
      let inner ← updateAt lists change rest []
      return table.set name (.table inner)
    | some (.table old) => do
      let inner ← updateAt lists change rest old
      return table.set name (.table inner)
    | some (.list vs) =>
      match lists, vs.getLast? with
      | true, some (.table old) => do
        let inner ← updateAt lists change rest old
        return table.set name (.list (vs.dropLast ++ [.table inner]))
      | _, _ => none
    | some _ => none

structure Inline where
  table : Table := []
  closed : List Key := []

def Inline.add (inline : Inline) (key : Key) (value : Value) (rest : Text) :
    Except Fault Inline :=
  let parent := key.dropLast
  let name := key.getLast?.getD []
  if inline.closed.any fun k => k.isPrefixOf key then fail (.immutable key) rest
  else if (updateAt false some parent inline.table).isNone then fail .overwritten rest
  else
    let insert := fun (t : Table) => if (t.get? name).isSome then none else some (t.set name value)
    match updateAt false insert parent inline.table with
    | none => fail (.duplicate name) rest
    | some table => .ok ⟨table, if isCompound value then key :: inline.closed else inline.closed⟩

mutual

/-- Reads a value. `room` is what is left for nesting: each array takes two of it and each inline
table three. -/
def readValue (room : Nat) : (fuel : Nat) → Reader Value
  | 0, rest => fail .value rest
  | fuel + 1, rest =>
    match rest with
    | '[' :: after =>
      if room < 2 then fail .tooDeep rest
      else do
        let (vs, last) ← readItems (room - 2) fuel (← skipBetween after)
        return (.list vs, last)
    | '{' :: after =>
      if room < 3 then fail .tooDeep rest
      else match skipSpace after with
        | '}' :: last => .ok (.table [], last)
        | more => do
          let (table, last) ← readPairs (room - 3) fuel {} more
          return (.table table, last)
    | _ => readScalar rest

/-- Reads the items of an array and its closing bracket. A comma may follow the last item. -/
def readItems (room : Nat) : (fuel : Nat) → Reader (List Value)
  | 0, rest => fail .openArray rest
  | fuel + 1, rest =>
    match rest with
    | ']' :: after => .ok ([], after)
    | _ => do
      let (v, after) ← readValue room fuel rest
      match ← skipBetween after with
      | ']' :: last => return ([v], last)
      | ',' :: more => do
        let (vs, last) ← readItems room fuel (← skipBetween more)
        return (v :: vs, last)
      | other => fail .openArray other

def readPairs (room : Nat) : (fuel : Nat) → Inline → Reader Table
  | 0, _, rest => fail .openTable rest
  | fuel + 1, inline, rest => do
    let (key, after) ← readAssigned rest
    let (value, after) ← readValue room fuel after
    let inline ← inline.add key value after
    match skipSpace after with
    | '}' :: last => return (inline.table, last)
    | ',' :: more => readPairs room fuel inline (skipSpace more)
    | other => fail .openTable other

end

def readPair (room : Nat) : Reader (Key × Value) := fun rest => do
  let (key, after) ← readAssigned rest
  let (value, last) ← readValue room (3 * after.length + 3) after
  return ((key, value), last)

end HardWrap.Toml
