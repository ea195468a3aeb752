import HardWrap.Note
import HardWrap.Segment
import HardWrap.Text.Quoted

/-!
Reflow: the blocks of a text written out at a width. Copied lines keep their own endings; filled
lines get a common one.
-/

namespace HardWrap

/-- What stands before the common ending of the last filled line. An empty ending leaves nothing. -/
def dropEnding (ending t : Text) : Text :=
  if ending.isEmpty then [] else t.take (t.length - ending.length)

namespace Block

def write (width : Int) (ending : Text) : Block → Text
  | copied line _ => line.source
  | paragraph p => fill p.frame width ending p.words
  | commented line =>
    dropEnding ending (fill line.frame width ending line.words) ++ line.tail ++
      (if line.ending.isEmpty then ending else line.ending)

def isFilled : Block → Bool
  | copied .. => false
  | paragraph _ | commented _ => true

def note (message : String) : Note :=
  ⟨.debug, "texreflow.wrap.engine", message⟩

def crossingNotes (number : Nat) : Crossing → List Note
  | .none => []
  | .enters name =>
    [note s!"Entering passthrough environment {String.ofList name} at line {number}"]
  | .leaves name =>
    [note s!"Leaving passthrough environment {String.ofList name} at line {number}"]
  | .unmatched name =>
    [note ("Unmatched \\end\x7b" ++ String.ofList name ++ "\x7d at line " ++ toString number ++
      " copied verbatim")]

def fillNote (words : List Text) (margin : Text) : Note :=
  note s!"Flushing {words.length} words at indentation {String.ofList margin.quoted}"

def notes : Block → List Note
  | copied line crossing => crossingNotes line.number crossing
  | paragraph p => [fillNote p.words p.frame.first]
  | commented _ => []

end Block

def endsOpen (lines : List Line) : Bool :=
  lines.getLast?.any fun line => line.ending.isEmpty

/-- Blocks written one after the other. If the source is open at its end and the last block was
filled, the text is open at its end too. -/
def writeBlocks (width : Int) (ending : Text) (isOpen : Bool) (blocks : List Block) : Text :=
  let t := blocks.flatMap (Block.write width ending)
  if isOpen && blocks.getLast?.any Block.isFilled && ending.isSuffixOf t then dropEnding ending t
  else t

def reflowLines (style : Style) (ending : Text) (lines : List Line) : Text :=
  writeBlocks style.maxWidth ending (endsOpen lines) (blocksOf style lines)

def reflow (style : Style) (t : Text) : Text :=
  reflowLines style t.newEnding t.lines

def reflowNotes (style : Style) (lines : List Line) : List Note :=
  (blocksOf style lines).flatMap Block.notes

end HardWrap
