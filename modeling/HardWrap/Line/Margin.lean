import HardWrap.Limits
import HardWrap.Line.Kind

/-!
Margins: the run of spaces and tabs before a line's text, with every tab written as spaces. Other
blanks are not margin.
-/

namespace HardWrap

def isMarginChar (c : Char) : Bool :=
  c == ' ' || c == '\t'

/-- A tab is as many spaces as the tab width says; a negative width makes it nothing. -/
def expandTab (tabWidth : Int) (c : Char) : Text :=
  if c = '\t' then List.replicate tabWidth.toNat ' ' else [c]

/-- The margin of a line. A line of nothing but spaces and tabs has none. -/
def margin (tabWidth : Int) (line : Text) : Text :=
  if line.all isMarginChar then []
  else (line.takeWhile isMarginChar).flatMap (expandTab tabWidth)

def commentMargin (tabWidth : Int) (line : Text) : Text :=
  if Text.startsWith "%" (line.dropWhile isMarginChar) then margin tabWidth line ++ ['%', ' ']
  else margin tabWidth line

def hangingMargin (tabWidth : Int) (line : Text) : Text :=
  match itemMarker line with
  | [] => margin tabWidth line
  | marker => margin tabWidth line ++ List.replicate (marker.length + 1) ' '

/-! ### Tabs that cannot be written as spaces -/

inductive TabFault where
  /-- The tab width is not an integer. -/
  | notInteger
  /-- No text can have that many characters. -/
  | countless
  /-- There is no room for a text of that length. -/
  | roomless
  deriving DecidableEq, Repr

def checkTab (limits : Limits) (tabWidth : Int) : Except TabFault Int :=
  if limits.longest < tabWidth then .error .countless
  else if limits.memory < tabWidth then .error .roomless
  else .ok tabWidth

def holdsTab (line : Text) : Bool :=
  (line.takeWhile isMarginChar).contains '\t'

/-- One of the margins of a line. The tab width is only looked at for a tab. -/
def measure (tab : Except TabFault Int) (marginOf : Int → Text → Text) (line : Text) :
    Except TabFault Text :=
  match tab with
  | .ok tabWidth => .ok (marginOf tabWidth line)
  | .error fault => if holdsTab line then .error fault else .ok (marginOf 0 line)

end HardWrap
