import HardWrap.Calendar
import HardWrap.Decimal.Numeral
import HardWrap.Toml.Reader

/-!
Dates and times in TOML documents: all digits are written, the fraction of a second may have any
number of them, and its first six count.
-/

namespace HardWrap.Toml

def isDecimalDigit (c : Char) : Bool :=
  '0' ≤ c && c ≤ '9'

def fixedDigits? (size least greatest : Nat) (t : Text) : Option (Nat × Text) :=
  let digits := t.take size
  let n := Numeral.valueOf digits
  if digits.length = size && digits.all isDecimalDigit && least ≤ n && n ≤ greatest then
    some (n, t.drop size)
  else none

def after? (mark : Char) : Text → Option Text
  | [] => none
  | c :: rest => if c = mark then some rest else none

/-- Digits after a point as millionths, and what follows them. No fraction is zero. -/
def micros : Text → Nat × Text
  | '.' :: rest =>
    let digits := rest.takeWhile isDecimalDigit
    let counted := (digits ++ List.replicate 6 '0').take 6
    if digits.isEmpty then (0, '.' :: rest)
    else (Numeral.valueOf counted, rest.drop digits.length)
  | rest => (0, rest)

def time? (t : Text) : Option (ClockTime × Text) := do
  let (hour, t) ← fixedDigits? 2 0 23 t
  let (minute, t) ← fixedDigits? 2 0 59 (← after? ':' t)
  let (second, t) ← fixedDigits? 2 0 59 (← after? ':' t)
  let (micros, t) := micros t
  return ({ hour := hour, minute := minute, second := second, micros := micros }, t)

/-- A date by its digits. The calendar may not have it. -/
def date? (t : Text) : Option (CivilDate × Text) := do
  let (year, t) ← fixedDigits? 4 0 9999 t
  let (month, t) ← fixedDigits? 2 1 12 (← after? '-' t)
  let (day, t) ← fixedDigits? 2 1 31 (← after? '-' t)
  return ({ year := year, month := month, day := day }, t)

def minutes? (t : Text) : Option (Int × Text) := do
  let (hours, t) ← fixedDigits? 2 0 23 t
  let (minutes, t) ← fixedDigits? 2 0 59 (← after? ':' t)
  return ((60 * hours + minutes : Nat), t)

def offset? : Text → Option (Int × Text)
  | 'Z' :: rest | 'z' :: rest => some (0, rest)
  | '+' :: rest => minutes? rest
  | '-' :: rest => (minutes? rest).map fun (offset, after) => (-offset, after)
  | _ => none

def timeAfterDate? : Text → Option (ClockTime × Text)
  | 'T' :: rest | 't' :: rest | ' ' :: rest => time? rest
  | _ => none

def moment? (t : Text) : Option (Moment × Text) :=
  match date? t with
  | none => (time? t).map fun (time, rest) => (.time time, rest)
  | some (date, rest) =>
    match timeAfterDate? rest with
    | none => some (.date date, rest)
    | some (time, rest) =>
      match offset? rest with
      | none => some (.dateTime date time none, rest)
      | some (offset, rest) => some (.dateTime date time (some offset), rest)

def hasMoment : Moment → Bool
  | .date date | .dateTime date _ _ => date.isOnCalendar
  | .time _ => true

end HardWrap.Toml
