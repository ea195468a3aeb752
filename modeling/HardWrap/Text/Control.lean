import HardWrap.Text.Blank

/-!
Control sequences, by which a text colours or moves what a terminal shows. Text that goes to the
outputs of the program is freed from them.
-/

namespace HardWrap

def isControlParameter (c : Char) : Bool :=
  '0' ≤ c && c ≤ '?'

def isControlIntermediate (c : Char) : Bool :=
  ' ' ≤ c && c ≤ '/'

def isControlFinal (c : Char) : Bool :=
  '@' ≤ c && c ≤ '~'

/-- The length of the control sequence at the start of a text: the escape character, a bracket,
parameters, intermediate characters and a final one. Zero if there is none. -/
def controlLength : Text → Nat
  | '\x1b' :: '[' :: rest =>
    let parameters := rest.takeWhile isControlParameter
    let later := rest.drop parameters.length
    let intermediates := later.takeWhile isControlIntermediate
    match later.drop intermediates.length with
    | c :: _ => if isControlFinal c then parameters.length + intermediates.length + 3 else 0
    | [] => 0
  | _ => 0

def plainAfter : (skip : Nat) → Text → Text
  | _, [] => []
  | skip + 1, _ :: rest => plainAfter skip rest
  | 0, c :: rest =>
    match controlLength (c :: rest) with
    | 0 => c :: plainAfter 0 rest
    | more + 1 => plainAfter more rest

def Text.plain (t : Text) : Text :=
  plainAfter 0 t

end HardWrap
