import HardWrap.Decimal.Numeral
import HardWrap.Settings.Fault
import HardWrap.Settings.Value

/-!
Overrides: a dotted key and a text. The key names a place in nested tables, which are created on the
way. The text is read as a truth value, an integer or a number if it looks like one, and as a list
of names where the setting is a list.
-/

namespace HardWrap

/-- The parts of a text between separators. There is one more part than separators. -/
def Text.partsAt (separator : Char) : Text → List Text
  | [] => [[]]
  | c :: rest =>
    if c = separator then [] :: partsAt separator rest
    else match partsAt separator rest with
      | [] => [[c]]
      | part :: more => (c :: part) :: more

def listKeys : List Text :=
  ["tracked_environments".toList, "file_extensions".toList]

def namesIn (t : Text) : List Text :=
  ((t.partsAt ',').map Text.strip).filter fun name => !name.isEmpty

def Value.ofText (t : Text) : Value :=
  let word := String.ofList (t.map Char.toLower)
  if word = "true" then .bool true
  else if word = "false" then .bool false
  else match Numeral.integer? t with
    | some n => .int n
    | none =>
      match Numeral.real? t with
      | some x => .real x
      | none => .text t

def Value.forKey (key t : Text) : Value :=
  if listKeys.contains key then .list ((namesIn t).map .text) else .ofText t

/-- Why nothing can be assigned below a value that is not a table. `leads` tells whether the path
goes on below the next key. -/
def Value.assignFault (value : Value) (key : Text) (leads : Bool) : SettingsFault :=
  match value with
  | .list _ | .tuple _ => .listIndexed
  | .text t =>
    if leads && (List.range (t.length + 1)).any fun i => key.isPrefixOf (t.drop i) then .textIndexed
    else .notAssignable value.typeName
  | _ => if leads then .notSearchable value.typeName else .notAssignable value.typeName

def Table.assign (table : Table) (value : Value) : List Text → Except SettingsFault Table
  | [] => .ok table
  | [key] => .ok (table.set key value)
  | key :: next :: rest =>
    match table.get? key with
    | none => do return table.set key (.table (← Table.assign [] value (next :: rest)))
    | some (.table inner) => do
      return table.set key (.table (← Table.assign inner value (next :: rest)))
    | some other => .error (other.assignFault next (!rest.isEmpty))

structure Override where
  key : Text
  text : Text
  deriving DecidableEq, Repr

def Override.path (o : Override) : List Text :=
  o.key.partsAt '.'

/-- The value that an override assigns. The last part of its key decides how the text is read. -/
def Override.value (o : Override) : Value :=
  .forKey (o.path.getLast?.getD []) o.text

def Table.override (table : Table) (o : Override) : Except SettingsFault Table :=
  table.assign o.value o.path

def Override.put (o : Override) : List Override → List Override
  | [] => [o]
  | p :: rest => if p.key = o.key then o :: rest else p :: o.put rest

/-- For each key the last override, in the order in which the keys came. -/
def Override.distinct (overrides : List Override) : List Override :=
  overrides.foldl (fun seen o => o.put seen) []

def Table.overrideAll (table : Table) (overrides : List Override) : Except SettingsFault Table :=
  overrides.foldlM Table.override table

end HardWrap
