import HardWrap.Text.Blank

/-!
Physical lines. A text is cut after every CR LF, CR or LF, and each line keeps its own ending, so
that joining the lines gives the text back. A text that ends with a line ending has no further,
empty line after it.
-/

namespace HardWrap

structure Line where
  text : Text
  number : Nat
  ending : Text
  deriving DecidableEq, Repr

def Line.source (line : Line) : Text :=
  line.text ++ line.ending

inductive LineFault where
  /-- Lines are numbered from zero. -/
  | negativeNumber (number : Int)
  deriving DecidableEq, Repr

def LineFault.message : LineFault → String
  | negativeNumber k => s!"index must be >= 0, got {k}"

def Line.numbered (text : Text) (number : Int) (ending : Text) : Except LineFault Line :=
  if number < 0 then .error (.negativeNumber number)
  else .ok ⟨text, number.toNat, ending⟩

namespace Text

def extendLine (c : Char) : List (Text × Text) → List (Text × Text)
  | [] => [([c], [])]
  | (t, e) :: more => (c :: t, e) :: more

def cut : Text → List (Text × Text)
  | [] => []
  | '\r' :: '\n' :: rest => ([], ['\r', '\n']) :: cut rest
  | c :: rest =>
    if c = '\r' || c = '\n' then ([], [c]) :: cut rest
    else extendLine c (cut rest)

def number (start : Nat) : List (Text × Text) → List Line
  | [] => []
  | (t, e) :: more => ⟨t, start, e⟩ :: number (start + 1) more

def linesFrom (start : Nat) (t : Text) : List Line :=
  number start (cut t)

def lines (t : Text) : List Line :=
  linesFrom 0 t

/-- Lines numbered from a number that may be negative, which matters only if there is a line. -/
def linesFrom? (start : Int) (t : Text) : Except LineFault (List Line) :=
  if start < 0 && !t.isEmpty then .error (.negativeNumber start)
  else .ok (linesFrom start.toNat t)

def firstEnding? : Text → Option Text
  | [] => none
  | '\r' :: '\n' :: _ => some ['\r', '\n']
  | c :: rest => if c = '\r' || c = '\n' then some [c] else firstEnding? rest

/-- The ending that new lines of a text get: its first one, or LF. -/
def newEnding (t : Text) : Text :=
  (firstEnding? t).getD ['\n']

end Text

end HardWrap
