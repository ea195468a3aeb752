import HardWrap.Text.Blank

/-!
Greedy filling. Words go onto a line, one space apart, as long as they fit; the first word that
does not fit starts the next line. A word that is too wide for any line stands alone and overflows.
Words are never split.
-/

namespace HardWrap

structure Frame where
  first : Text
  later : Text
  deriving DecidableEq, Repr

def Frame.even (margin : Text) : Frame :=
  ⟨margin, margin⟩

def extraWidth : List Text → Nat
  | [] => 0
  | w :: ws => w.length + 1 + extraWidth ws

/-- Continues a line that is `length` wide. Gives the words that still go onto it and the lines
after it. -/
def continueLine (later : Nat) (width : Int) : (length : Nat) → List Text →
    List Text × List (List Text)
  | _, [] => ([], [])
  | length, w :: ws =>
    if (length + 1 + w.length : Int) ≤ width then
      let (line, more) := continueLine later width (length + 1 + w.length) ws
      (w :: line, more)
    else
      let (line, more) := continueLine later width (later + w.length) ws
      ([], (w :: line) :: more)

def packWords (frame : Frame) (width : Int) : List Text → List (List Text)
  | [] => []
  | w :: ws =>
    let (line, more) := continueLine frame.later.length width (frame.first.length + w.length) ws
    (w :: line) :: more

/-- Groups words into lines at most `width` wide, margins included. Empty words do not count. -/
def pack (frame : Frame) (width : Int) (words : List Text) : List (List Text) :=
  packWords frame width (words.filter fun w => !w.isEmpty)

def writeLine (margin ending : Text) (line : List Text) : Text :=
  margin ++ Text.joinWords line ++ ending

/-- Writes grouped words. Every line, the last included, gets the ending. -/
def writeLines (frame : Frame) (ending : Text) : List (List Text) → Text
  | [] => []
  | line :: more => writeLine frame.first ending line ++ more.flatMap (writeLine frame.later ending)

def fill (frame : Frame) (width : Int) (ending : Text) (words : List Text) : Text :=
  writeLines frame ending (pack frame width words)

end HardWrap
