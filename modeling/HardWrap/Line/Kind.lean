import HardWrap.Line.Command
import HardWrap.Line.Environment

/-!
What a single line is, decided from syntactic cues alone. Every line has a kind; malformed input
such as an unclosed brace is prose.
-/

namespace HardWrap

def isBlankLine (line : Text) : Bool :=
  (Text.strip line).isEmpty

def isCommentLine (line : Text) : Bool :=
  Text.startsWith "%" (Text.strip line)

/-- Whether a text begins with a command whose name no ASCII letter continues. -/
def opensWith (command : String) (t : Text) : Bool :=
  Text.startsWith command t &&
    match t.drop command.length with
    | [] => true
    | c :: _ => !isAsciiLetter c

def isItemLine (line : Text) : Bool :=
  opensWith "\\item" (Text.strip line)

def opensParagraph (line : Text) : Bool :=
  opensWith "\\par" (Text.strip line)

def endsWithBreak (line : Text) : Bool :=
  ['\\', '\\'].isSuffixOf (Text.stripRight line)

def standsAlone (line : Text) : Bool :=
  isCommentLine line || isCommandLine line || isItemLine line || isBlankLine line

def itemLabel (t : Text) : Text :=
  let blanks := t.takeWhile isBlank
  match t.drop blanks.length with
  | '[' :: inside =>
    let label := inside.takeWhile (· != ']')
    if label.length < inside.length then blanks ++ '[' :: label ++ [']'] else []
  | _ => []

def itemMarker (line : Text) : Text :=
  let stripped := Text.strip line
  if opensWith "\\item" stripped then
    stripped.take 5 ++ itemLabel (stripped.drop 5)
  else []

/-- Looks for a percent sign that no backslash precedes, in a text that `before` precedes and whose
first character stands at `pos`. -/
def commentAfter (before : Char) (pos : Nat) : Text → Option Nat
  | [] => none
  | c :: rest => if c = '%' && before != '\\' then some pos else commentAfter c (pos + 1) rest

/-- Where an in-line comment starts. The first character never starts one: a line that opens with
a percent sign is a comment line. -/
def commentAt? : Text → Option Nat
  | [] => none
  | c :: rest => commentAfter c 1 rest

def dropOne (c : Char) : Text → Text
  | [] => []
  | d :: rest => if d = c then rest else d :: rest

def commentBody (line : Text) : Text :=
  dropOne ' ' (dropOne '%' (Text.stripLeft line))

/-- A comment line whose body may join a paragraph of comments. Empty comments, rules of percent
signs and commented-out commands or items stay on their own. -/
def isMergeableComment (line : Text) : Bool :=
  isCommentLine line && !standsAlone (commentBody line)

inductive LineRole where
  | blank
  | comment
  | begins
  | ends
  | item
  | command
  | prose
  deriving DecidableEq, Repr

/-- The role of a line with what else is known of it. Items and prose carry the place of their
in-line comment within the stripped line. -/
inductive LineKind where
  | blank
  | comment
  | begins (environment : Text)
  | ends (environment : Text)
  | item (commentAt : Option Nat)
  | command
  | prose (commentAt : Option Nat)
  deriving DecidableEq, Repr

/-- The border that a stripped line marks. Within other text a token does not count. -/
def borderToken? (stripped : Text) : Option EnvironmentToken :=
  if Text.startsWith "\\begin" stripped || Text.startsWith "\\end" stripped
      || isCommandLine stripped then
    firstToken? stripped
  else none

def contentKind (stripped : Text) : LineKind :=
  if isItemLine stripped then .item (commentAt? stripped)
  else if isCommandLine stripped then .command
  else .prose (commentAt? stripped)

def kindOf (line : Text) : LineKind :=
  let stripped := Text.strip line
  if stripped.isEmpty then .blank
  else if Text.startsWith "%" stripped then .comment
  else match borderToken? stripped with
    | some ⟨.opening, name⟩ => .begins name
    | some ⟨.closing, name⟩ => .ends name
    | none => contentKind stripped

namespace LineKind

def commentAt : LineKind → Option Nat
  | item at? | prose at? => at?
  | _ => none

def role : LineKind → LineRole
  | blank => .blank
  | comment => .comment
  | begins _ => .begins
  | ends _ => .ends
  | item _ => .item
  | command => .command
  | prose _ => .prose

end LineKind

end HardWrap
