import HardWrap.Fill
import HardWrap.Line.Basic
import HardWrap.Line.Margin
import HardWrap.Style

/-!
Lines are segmented into blocks: paragraphs to be filled, lines with an in-line comment, and lines
copied as they are. A reader walks the lines from top to bottom and is either between paragraphs,
gathering the words of one, or inside an environment that is copied. Which lines form a paragraph
does not depend on the width to which it is filled later.
-/

namespace HardWrap

inductive ParagraphKind where
  | prose
  | item
  | comment
  deriving DecidableEq, Repr

structure Paragraph where
  kind : ParagraphKind
  frame : Frame
  words : List Text
  deriving DecidableEq, Repr

inductive Crossing where
  | none
  /-- The line opens an environment that is copied. -/
  | enters (environment : Text)
  /-- The line closes the environment that was copied. -/
  | leaves (environment : Text)
  /-- The line closes an environment that is not tracked and that nothing opened. -/
  | unmatched (environment : Text)
  deriving DecidableEq, Repr

/-- A line whose text is filled and whose comment stays on the last filled line. -/
structure CommentedLine where
  frame : Frame
  words : List Text
  /-- The comment, with the blanks between the text and the comment. -/
  tail : Text
  ending : Text
  deriving DecidableEq, Repr

inductive Block where
  | copied (line : Line) (crossing : Crossing)
  | paragraph (p : Paragraph)
  | commented (line : CommentedLine)
  deriving DecidableEq, Repr

inductive Stage where
  /-- Between paragraphs. -/
  | idle
  | gathering (p : Paragraph)
  /-- Inside an environment that is copied, until a line closes it. -/
  | copying (environment : Text)
  deriving DecidableEq, Repr

namespace Paragraph

def admits (p : Paragraph) (margin : Text) : Bool :=
  margin == p.frame.first || margin == p.frame.later

def continuedByProse (p : Paragraph) (margin : Text) : Bool :=
  p.kind != .comment && p.admits margin

def continuedByComment (p : Paragraph) (margin : Text) : Bool :=
  p.kind == .comment && p.admits margin

def append (p : Paragraph) (words : List Text) : Paragraph :=
  { p with words := p.words ++ words }

/-- A paragraph that the next line may continue, or a finished block after a forced break. -/
def settle (p : Paragraph) (line : Text) : Stage × List Block :=
  if endsWithBreak line then (.idle, [.paragraph p]) else (.gathering p, [])

end Paragraph

namespace Stage

def flush : Stage → List Block
  | gathering p => [.paragraph p]
  | idle | copying _ => []

end Stage

def proseParagraph (style : Style) (line : Text) : Paragraph :=
  ⟨.prose, .even (margin style.tabWidth line), Text.words line⟩

def itemParagraph (style : Style) (line : Text) : Paragraph :=
  ⟨.item, ⟨margin style.tabWidth line, hangingMargin style.tabWidth line⟩, Text.words line⟩

def commentParagraph (style : Style) (line : Text) : Paragraph :=
  ⟨.comment, .even (commentMargin style.tabWidth line), Text.words (commentBody line)⟩

/-- A line whose comment starts at `pos` of the stripped line. If nothing but commands stands
before the comment the line is copied. -/
def commentedBlock (style : Style) (line : Line) (pos : Nat) : Block :=
  let stripped := Text.strip line.text
  let body := Text.stripRight (stripped.take pos)
  if isCommandLine body then .copied line .none
  else .commented {
    frame := ⟨margin style.tabWidth line.text, hangingMargin style.tabWidth line.text⟩
    words := Text.words body
    tail := stripped.drop body.length
    ending := line.ending }

namespace Stage

def copy (stage : Stage) (line : Line) (crossing : Crossing) : Stage × List Block :=
  (.idle, stage.flush ++ [.copied line crossing])

/-- A border of an environment. Only an opening border of an environment that is not tracked
changes how the lines after it are read. -/
def readBegin (style : Style) (stage : Stage) (line : Line) (name : Text) : Stage × List Block :=
  if style.tracked.contains name then stage.copy line .none
  else (.copying name, stage.flush ++ [.copied line (.enters name)])

def readEnd (style : Style) (stage : Stage) (line : Line) (name : Text) : Stage × List Block :=
  stage.copy line (if style.tracked.contains name then .none else .unmatched name)

def readProse (style : Style) (stage : Stage) (line : Text) : Stage × List Block :=
  let fresh := proseParagraph style line
  match stage with
  | gathering p =>
    if p.continuedByProse fresh.frame.first && !opensParagraph line then
      (p.append fresh.words).settle line
    else
      let (next, blocks) := fresh.settle line
      (next, .paragraph p :: blocks)
  | idle | copying _ => fresh.settle line

def readItem (style : Style) (stage : Stage) (line : Text) : Stage × List Block :=
  let (next, blocks) := (itemParagraph style line).settle line
  (next, stage.flush ++ blocks)

/-- A comment never ends in a forced break: its body is text of the comment. -/
def readComment (style : Style) (stage : Stage) (line : Line) : Stage × List Block :=
  if !isMergeableComment line.text then stage.copy line .none
  else
    let fresh := commentParagraph style line.text
    match stage with
    | gathering p =>
      if p.continuedByComment fresh.frame.first then (.gathering (p.append fresh.words), [])
      else (.gathering fresh, [.paragraph p])
    | idle | copying _ => (.gathering fresh, [])

def readCommented (style : Style) (stage : Stage) (line : Line) (pos : Nat) : Stage × List Block :=
  (.idle, stage.flush ++ [commentedBlock style line pos])

def readOutside (style : Style) (stage : Stage) (line : Line) : Stage × List Block :=
  match kindOf line.text with
  | .begins name => stage.readBegin style line name
  | .ends name => stage.readEnd style line name
  | .blank | .command => stage.copy line .none
  | .comment => stage.readComment style line
  | .item (some pos) | .prose (some pos) => stage.readCommented style line pos
  | .item none => stage.readItem style line.text
  | .prose none => stage.readProse style line.text

def readInside (name : Text) (line : Line) : Stage × List Block :=
  if closesEnvironment line.text name then (.idle, [.copied line (.leaves name)])
  else (.copying name, [.copied line .none])

def read (style : Style) (stage : Stage) (line : Line) : Stage × List Block :=
  match stage with
  | copying name => readInside name line
  | idle => readOutside style .idle line
  | gathering p => readOutside style (.gathering p) line

def after (style : Style) (stage : Stage) (lines : List Line) : Stage :=
  lines.foldl (fun s line => (s.read style line).1) stage

def segment (style : Style) : Stage → List Line → List Block
  | stage, [] => stage.flush
  | stage, line :: rest =>
    let (next, blocks) := stage.read style line
    blocks ++ segment style next rest

end Stage

def blocksOf (style : Style) (lines : List Line) : List Block :=
  Stage.idle.segment style lines

end HardWrap
