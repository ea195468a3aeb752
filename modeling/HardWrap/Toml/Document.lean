import HardWrap.Toml.Compound

/-!
TOML documents: statements one after the other, each a pair, the header of a table, or the header of
a table in an array. A name may be given a value once, a table may be declared once, and values
written in brackets or braces are closed.
-/

namespace HardWrap.Toml

structure Draft where
  table : Table := []
  /-- The table that pairs go to. -/
  header : Key := []
  /-- Tables that no header may declare again. -/
  declared : List Key := []
  /-- Tables that dotted keys have opened since the last header. -/
  pending : List Key := []
  /-- Arrays and inline tables. -/
  closed : List Key := []

namespace Draft

def isClosed (draft : Draft) (key : Key) : Bool :=
  draft.closed.any fun k => k.isPrefixOf key

def opened (draft : Draft) (key : Key) : List Key :=
  (List.range (key.length - 1)).map fun i => draft.header ++ key.take (i + 1)

def addPair (draft : Draft) (key : Key) (value : Value) (rest : Text) : Except Fault Draft :=
  let parent := draft.header ++ key.dropLast
  let name := key.getLast?.getD []
  match (draft.opened key).find? fun k => draft.declared.contains k with
  | some k => fail (.redefined k) rest
  | none =>
    if draft.isClosed parent then fail (.immutable parent) rest
    else
      let insert := fun (t : Table) =>
        if (t.get? name).isSome then none else some (t.set name value)
      match updateAt true insert parent draft.table with
      | none => fail .overwritten rest
      | some table =>
        let closing := if isCompound value then [draft.header ++ key] else []
        .ok { draft with
          table := table
          pending := draft.pending ++ draft.opened key
          closed := closing ++ draft.closed }

def endSection (draft : Draft) : Draft :=
  { draft with declared := draft.declared ++ draft.pending, pending := [] }

def openTable (draft : Draft) (key : Key) (rest : Text) : Except Fault Draft :=
  if draft.declared.contains key || draft.isClosed key then fail (.declaredTwice key) rest
  else
    match updateAt true some key draft.table with
    | none => fail .overwritten rest
    | some table =>
      .ok { draft with table := table, header := key, declared := key :: draft.declared }

/-- Appends a table to the array that a header names. What was declared below the array before
belongs to its earlier tables. -/
def openArray (draft : Draft) (key : Key) (rest : Text) : Except Fault Draft :=
  if draft.isClosed key then fail (.immutable key) rest
  else
    let name := key.getLast?.getD []
    let grow := fun (t : Table) =>
      match t.get? name with
      | none => some (t.set name (.list [.table []]))
      | some (.list vs) => some (t.set name (.list (vs ++ [.table []])))
      | some _ => none
    match updateAt true grow key.dropLast draft.table with
    | none => fail .overwritten rest
    | some table =>
      .ok { draft with
        table := table
        header := key
        declared := key :: draft.declared.filter fun k => !key.isPrefixOf k
        closed := draft.closed.filter fun k => !key.isPrefixOf k }

def readHeader (draft : Draft) : Reader Draft := fun rest =>
  match rest with
  | '[' :: '[' :: after => do
    let (key, last) ← readKey (skipSpace after)
    let draft ← draft.endSection.openArray key last
    match last with
    | ']' :: ']' :: more => return (draft, more)
    | _ => fail .arrayEnd last
  | _ => do
    let (key, last) ← readKey (skipSpace (rest.drop 1))
    let draft ← draft.endSection.openTable key last
    match last with
    | ']' :: more => return (draft, more)
    | _ => fail .tableEnd last

def readStatement (room : Nat) (draft : Draft) (c : Char) : Reader Draft := fun rest =>
  if isBareKeyChar c || c == '"' || c == '\x27' then do
    let ((key, value), after) ← readPair room rest
    return (← draft.addPair key value after, skipSpace after)
  else if c = '[' then do
    let (draft, after) ← draft.readHeader rest
    return (draft, skipSpace after)
  else if c = '#' then .ok (draft, rest)
  else fail .statement rest

def readAll (room : Nat) : (fuel : Nat) → Draft → Text → Except Fault Draft
  | 0, draft, _ => .ok draft
  | fuel + 1, draft, rest =>
    match skipSpace rest with
    | [] => .ok draft
    | '\n' :: after => readAll room fuel draft after
    | c :: more => do
      let (draft, after) ← draft.readStatement room c (c :: more)
      match ← skipComment after with
      | [] => return draft
      | '\n' :: next => readAll room fuel draft next
      | other => fail .statementEnd other

end Draft

def unifyNewlines : Text → Text
  | [] => []
  | '\r' :: '\n' :: rest => '\n' :: unifyNewlines rest
  | c :: rest => c :: unifyNewlines rest

structure Refusal where
  source : Text
  fault : Fault
  deriving DecidableEq, Repr

def Refusal.message (r : Refusal) : String :=
  r.fault.message r.source

/-- The table that a document describes. `room` is how deep its values may be nested. -/
def parse (room : Nat) (t : Text) : Except Refusal Table :=
  let source := unifyNewlines t
  match Draft.readAll room (source.length + 1) {} source with
  | .ok draft => .ok draft.table
  | .error fault => .error ⟨source, fault⟩

end HardWrap.Toml
