import HardWrap.Line.Basic
import HardWrap.Line.Kind
import HardWrap.Text.Agreement

/-!
An audit of a reflowed text against its source. It only reports: words lost, added or reordered,
a changed number of blank lines, and lines that are too wide though they could have been broken.
-/

namespace HardWrap

inductive Finding where
  /-- The texts part at the word with the given index. -/
  | wordsDiffer (index before after : Nat) (excerpt : Text)
  | blankLines (before after : Nat)
  | tooWide (line : Nat) (text : Text)
  deriving DecidableEq, Repr

namespace Finding

def message (width : String) : Finding → String
  | wordsDiffer index before after _ =>
    s!"Word sequence differs at word {index + 1} ({before} words before, {after} after)"
  | blankLines before after => s!"Blank line count changed from {before} to {after}"
  | tooWide .. => s!"Line exceeds {width} characters"

/-- The line of the reflowed text, counted from one. Zero stands for the whole text. -/
def line : Finding → Nat
  | tooWide line _ => line
  | _ => 0

def context : Finding → Text
  | wordsDiffer _ _ _ excerpt => excerpt
  | blankLines .. => []
  | tooWide _ text => text

end Finding

namespace Audit

def body (line : Text) : Text :=
  if isCommentLine line then commentBody line else line

def wordsOf (t : Text) : List Text :=
  t.lines.flatMap fun line => Text.words (body line.text)

def blankCount (t : Text) : Nat :=
  t.lines.countP fun line => isBlankLine line.text

def words (source result : Text) : List Finding :=
  let before := wordsOf source
  let after := wordsOf result
  if before = after then []
  else
    let index := agreement before after
    [.wordsDiffer index before.length after.length
      (Text.joinWords ((after.drop index).take 5))]

def blanks (source result : Text) : List Finding :=
  if blankCount source = blankCount result then []
  else [.blankLines (blankCount source) (blankCount result)]

/-- Why a line may be too wide: it is one of the lines of the source, it holds a single word, or it
carries an in-line comment. -/
def isExcused (sources : List Text) (line : Text) : Bool :=
  sources.contains line || (Text.words (body line)).length ≤ 1 || (kindOf line).commentAt.isSome

def width (most : Int) (sources : List Text) (line : Line) : Option Finding :=
  if (Text.stripRight line.text).length ≤ most || isExcused sources line.text then none
  else some (.tooWide (line.number + 1) line.text)

def widths (most : Int) (source result : Text) : List Finding :=
  let sources := source.lines.map Line.text
  result.lines.filterMap (width most sources)

end Audit

def audit (width : Int) (source result : Text) : List Finding :=
  Audit.words source result ++ Audit.blanks source result ++ Audit.widths width source result

end HardWrap
