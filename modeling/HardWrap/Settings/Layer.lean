import HardWrap.Settings.Value

/-!
Layers of settings. A later layer is laid over an earlier one: tables are joined key by key, and
every other value, lists included, replaces what was there.
-/

namespace HardWrap

mutual

def Value.over (old : Option Value) (new : Value) : Value :=
  match old, new with
  | some (.table below), .table above => .table (Table.over below above)
  | _, value => value

def Table.over (below : Table) : List (Text × Value) → Table
  | [] => below
  | (key, value) :: rest => Table.over (below.set key (Value.over (below.get? key) value)) rest

end

mutual

/-- Makes the lists of a table final, at every depth of tables but not inside other lists. -/
def Value.settle : Value → Value
  | .table fields => .table (Table.settle fields)
  | .list vs => .tuple vs
  | value => value

def Table.settle : List (Text × Value) → Table
  | [] => []
  | (key, value) :: rest => (key, Value.settle value) :: Table.settle rest

end

mutual

/-- How many tables lie in each other, counted from a value on. Lists are not looked into. -/
def Value.depth : Value → Nat
  | .table fields => Table.depth fields + 1
  | _ => 0

def Table.depth : List (Text × Value) → Nat
  | [] => 0
  | (_, value) :: rest => max (Value.depth value) (Table.depth rest)

end

end HardWrap
