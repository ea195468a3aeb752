import HardWrap.Decimal.Numeral
import HardWrap.Settings.Value
import HardWrap.Text.Quoted

/-!
Values as JSON. Every item of an array or object stands on a line of its own, indented by two spaces
for each level; empty ones stay closed up. Only printable ASCII is written as it is. Dates and times
have no form in JSON, and an integer may not have too many digits.
-/

namespace HardWrap.Json

def realFormat : RealFormat :=
  { nan := "NaN", infinity := "Infinity" }

def unit (n : Nat) : Text :=
  '\\' :: 'u' :: Quoted.hex 4 n

/-- A code point beyond 16 bits is written as two units. -/
def escapeCode (n : Nat) : Text :=
  if n < 0x10000 then unit n
  else unit (0xd800 + (n - 0x10000) / 0x400) ++ unit (0xdc00 + (n - 0x10000) % 0x400)

def escape (c : Char) : Text :=
  if c = '"' || c = '\\' then ['\\', c]
  else if c = '\n' then ['\\', 'n']
  else if c = '\r' then ['\\', 'r']
  else if c = '\t' then ['\\', 't']
  else if c.toNat = 0x0c then ['\\', 'f']
  else if c.toNat = 0x08 then ['\\', 'b']
  else if ' ' ≤ c && c ≤ '~' then [c]
  else escapeCode c.toNat

def text (t : Text) : Text :=
  '"' :: t.flatMap escape ++ ['"']

def newline (depth : Nat) : Text :=
  '\n' :: List.replicate (2 * depth) ' '

def bracketed (opening closing : Char) (depth : Nat) : List Text → Text
  | [] => [opening, closing]
  | items =>
    opening :: newline (depth + 1) ++ (',' :: newline (depth + 1)).intercalate items ++
      newline depth ++ [closing]

mutual

def write (depth : Nat) : Value → Text
  | .bool b => (if b then "true" else "false").toList
  | .int n => (toString n).toList
  | .real x => realFormat.write x
  | .text t => text t
  | .moment _ => []
  | .list vs => bracketed '[' ']' depth (writeItems (depth + 1) vs)
  | .tuple vs => bracketed '[' ']' depth (writeItems (depth + 1) vs)
  | .table fields => bracketed '{' '}' depth (writeFields (depth + 1) fields)

def writeItems (depth : Nat) : List Value → List Text
  | [] => []
  | v :: vs => write depth v :: writeItems depth vs

def writeFields (depth : Nat) : List (Text × Value) → List Text
  | [] => []
  | (key, v) :: rest => (text key ++ ':' :: ' ' :: write depth v) :: writeFields depth rest

end

inductive Fault where
  | moment
  | tooManyDigits
  deriving DecidableEq, Repr

mutual

def fault? : Value → Option Fault
  | .bool _ | .real _ | .text _ => none
  | .int n => if n.natAbs < tenTo Numeral.maxDigits then none else some .tooManyDigits
  | .moment _ => some .moment
  | .list vs => faultOfItems? vs
  | .tuple vs => faultOfItems? vs
  | .table fields => faultOfFields? fields

def faultOfItems? : List Value → Option Fault
  | [] => none
  | v :: vs => (fault? v).or (faultOfItems? vs)

def faultOfFields? : List (Text × Value) → Option Fault
  | [] => none
  | (_, v) :: rest => (fault? v).or (faultOfFields? rest)

end

def document (v : Value) : Except Fault String :=
  match fault? v with
  | some fault => .error fault
  | none => .ok (String.ofList (write 0 v))

end HardWrap.Json
