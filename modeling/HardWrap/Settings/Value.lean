import HardWrap.Calendar
import HardWrap.Decimal.Shortest

/-!
Values of settings. Settings files and overrides may hold anything, so the type of a value is only
looked at where it is used.
-/

namespace HardWrap

inductive Value where
  | bool (b : Bool)
  | int (n : Int)
  | real (x : Binary64)
  | text (t : Text)
  | moment (m : Moment)
  | list (vs : List Value)
  /-- A list that is final: the settings in force hold no others. -/
  | tuple (vs : List Value)
  | table (fields : List (Text × Value))
  deriving Repr

/-- A table: keys with their values, in the order in which the keys came. -/
abbrev Table := List (Text × Value)

namespace Table

def get? (table : Table) (key : Text) : Option Value :=
  List.lookup key table

def set (table : Table) (key : Text) (value : Value) : Table :=
  match table with
  | [] => [(key, value)]
  | (k, v) :: rest => if k = key then (k, value) :: rest else (k, v) :: set rest key value

end Table

namespace Value

def typeName : Value → String
  | bool _ => "bool"
  | int _ => "int"
  | real _ => "float"
  | text _ => "str"
  | moment (.date _) => "datetime.date"
  | moment (.time _) => "datetime.time"
  | moment (.dateTime ..) => "datetime.datetime"
  | list _ => "list"
  | tuple _ => "tuple"
  | table _ => "dict"

def realFormat : RealFormat :=
  { nan := "nan", infinity := "inf" }

/-- A number as messages show it. Other values are not shown in messages. -/
def numberText : Value → String
  | bool b => if b then "True" else "False"
  | int n => toString n
  | real x => String.ofList (realFormat.write x)
  | _ => ""

/-- Whether a number is less than an integer. Truth values count as one and zero; other values
cannot be compared. -/
def isLess? : Value → Int → Option Bool
  | bool b, n => some (decide ((if b then 1 else 0) < n))
  | int m, n => some (decide (m < n))
  | real x, n => some (x.isLess n)
  | _, _ => none

end Value

end HardWrap
