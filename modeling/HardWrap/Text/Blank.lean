import HardWrap.Text.Range

/-!
Texts, blanks and words. A text is the list of its characters, so every position, length and width
counts code points. A word is a longest run of characters that are not blank.
-/

namespace HardWrap

abbrev Text := List Char

/-- White space of every script, the line endings and the four information separators included.
The zero-width space and the byte order mark are not blank. -/
def blankRanges : List CodeRange := [
  (0x9, 0xd), (0x1c, 0x20), (0x85, 0x85), (0xa0, 0xa0), (0x1680, 0x1680), (0x2000, 0x200a),
  (0x2028, 0x2029), (0x202f, 0x202f), (0x205f, 0x205f), (0x3000, 0x3000)]

def isBlank (c : Char) : Bool :=
  covers blankRanges c

namespace Text

def stripLeft (t : Text) : Text :=
  t.dropWhile isBlank

def stripRight (t : Text) : Text :=
  (t.reverse.dropWhile isBlank).reverse

def strip (t : Text) : Text :=
  stripRight (stripLeft t)

def startsWith (start : String) (t : Text) : Bool :=
  start.toList.isPrefixOf t

/-- Whether no word goes on at the start of the text. -/
def atGap : Text → Bool
  | [] => true
  | c :: _ => isBlank c

def extendFirst (c : Char) : List Text → List Text
  | [] => [[c]]
  | w :: ws => (c :: w) :: ws

def words : Text → List Text
  | [] => []
  | c :: rest =>
    if isBlank c then words rest
    else if atGap rest then [c] :: words rest
    else extendFirst c (words rest)

def joinWords (ws : List Text) : Text :=
  [' '].intercalate ws

end Text

structure PlacedWord where
  start : Nat
  text : Text
  deriving DecidableEq, Repr

/-- The words of a text whose first character stands at position `pos`. -/
def Text.placedWords (pos : Nat) : Text → List PlacedWord
  | [] => []
  | c :: rest =>
    if isBlank c then placedWords (pos + 1) rest
    else if atGap rest then ⟨pos, [c]⟩ :: placedWords (pos + 1) rest
    else match placedWords (pos + 1) rest with
      | [] => [⟨pos, [c]⟩]
      | w :: ws => ⟨pos, c :: w.text⟩ :: ws

end HardWrap
