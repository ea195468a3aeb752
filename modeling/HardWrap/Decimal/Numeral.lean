import HardWrap.Decimal.Binary64
import HardWrap.Text.Blank
import HardWrap.Text.Digit

/-!
Numerals: how people write numbers into settings. Digits of every script count, a single underscore
may stand between two digits, and blanks around the numeral are ignored.
-/

namespace HardWrap.Numeral

/-- Blanks around a numeral. The information separators are not among them. -/
def isPadding (c : Char) : Bool :=
  isBlank c && !(decide (0x1c ≤ c.toNat) && decide (c.toNat ≤ 0x1f))

def trim (t : Text) : Text :=
  ((t.dropWhile isPadding).reverse.dropWhile isPadding).reverse

def isDigit (c : Char) : Bool :=
  (digitValue? c).isSome

/-- The text without its underscores, each of which has to stand between two digits. `before` tells
whether a digit precedes the text. -/
def ungroup (before : Bool) : Text → Option Text
  | [] => some []
  | c :: rest =>
    if c = '_' then
      if before && (rest.head?.any isDigit) then ungroup false rest else none
    else (ungroup (isDigit c) rest).map (c :: ·)

def valueOf (digits : Text) : Nat :=
  digits.foldl (fun n c => 10 * n + (digitValue? c).getD 0) 0

def sign : Text → Bool × Text
  | '-' :: rest => (true, rest)
  | '+' :: rest => (false, rest)
  | t => (false, t)

def maxDigits : Nat := 4300

def signed (negative : Bool) (n : Nat) : Int :=
  if negative then -(n : Int) else n

def integer? (t : Text) : Option Int := do
  let (negative, digits) := sign (← ungroup false (trim t))
  if digits.isEmpty || !digits.all isDigit || maxDigits < digits.length then none
  else some (signed negative (valueOf digits))

def exponent? : Text → Option Int
  | [] => some 0
  | mark :: rest =>
    let (negative, digits) := sign rest
    if mark.toLower = 'e' && !digits.isEmpty && digits.all isDigit then
      some (signed negative (valueOf digits))
    else none

def decimals : Text → Text × Text
  | '.' :: rest => (rest.takeWhile isDigit, rest.dropWhile isDigit)
  | t => ([], t)

def decimal? (negative : Bool) (t : Text) : Option Binary64 := do
  let whole := t.takeWhile isDigit
  let (part, rest) := decimals (t.dropWhile isDigit)
  let exponent ← exponent? rest
  if whole.isEmpty && part.isEmpty then none
  else some (.ofDecimal negative (valueOf (whole ++ part)) (exponent - part.length))

def real? (t : Text) : Option Binary64 := do
  let (negative, rest) := sign (← ungroup false (trim t))
  let word := String.ofList (rest.map Char.toLower)
  if word = "inf" || word = "infinity" then some (.infinite negative)
  else if word = "nan" then some .nan
  else decimal? negative rest

end HardWrap.Numeral
