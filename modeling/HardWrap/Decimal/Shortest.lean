import HardWrap.Decimal.Binary64
import HardWrap.Text.Blank

/-!
The shortest decimal that reads back as a given number, and how it is written. Of two decimals of
the least length the one nearer to the number is taken.
-/

namespace HardWrap

structure Decimal where
  digits : Nat
  scale : Int
  deriving DecidableEq, Repr

namespace Decimal

def leadingExponent (num den : Nat) : Int :=
  if den ≤ num then (digitCount (num / den) : Int) - 1 else -(digitCount ((den - 1) / num) : Int)

def inUnits (num den : Nat) (scale : Int) : Nat × Nat :=
  if 0 ≤ scale then (num, den * tenTo scale.toNat) else (num * tenTo (-scale).toNat, den)

/-- Of the two neighbours of a number among the decimals of `size` digits, the nearest that reads
back. -/
def withDigits? (mantissa : Nat) (exponent : Int) (size : Nat) : Option Decimal :=
  let (num, den) := Binary64.fraction mantissa exponent
  let scale := leadingExponent num den - size + 1
  let (n, d) := inUnits num den scale
  let lower := n / d
  let readsBack := fun k => Binary64.ofDecimal false k scale == .finite false mantissa exponent
  let nearest := roundQuotient n d
  let other := if nearest = lower then lower + 1 else lower
  if readsBack nearest then some ⟨nearest, scale⟩
  else if readsBack other then some ⟨other, scale⟩
  else none

/-- The shortest decimal of a positive number. Seventeen digits always suffice. -/
def shortest (mantissa : Nat) (exponent : Int) : Decimal :=
  ((List.range 17).findSome? fun k => withDigits? mantissa exponent (k + 1)).getD ⟨0, 0⟩

end Decimal

/-- How numbers are written: which exponents are written positionally, and the names of the
numbers that are not finite. -/
structure RealFormat where
  positionalFrom : Int := -4
  positionalTo : Int := 15
  exponentDigits : Nat := 2
  nan : String
  infinity : String

namespace RealFormat

def significant (n : Nat) : Text :=
  ((Nat.toDigits 10 n).reverse.dropWhile (· = '0')).reverse

def zeros (n : Int) : Text :=
  List.replicate n.toNat '0'

def positional (digits : Text) (exponent : Int) : Text :=
  if exponent < 0 then ['0', '.'] ++ zeros (-exponent - 1) ++ digits
  else
    let whole := digits ++ zeros (exponent + 1 - digits.length)
    let (before, after) := whole.splitAt (exponent + 1).toNat
    before ++ '.' :: (if after.isEmpty then ['0'] else after)

def scientific (format : RealFormat) (digits : Text) (exponent : Int) : Text :=
  let size := Nat.toDigits 10 exponent.natAbs
  digits.take 1 ++ (if digits.length ≤ 1 then [] else '.' :: digits.drop 1) ++
    'e' :: (if exponent < 0 then '-' else '+') ::
      zeros (format.exponentDigits - size.length) ++ size

def magnitude (format : RealFormat) (mantissa : Nat) (exponent : Int) : Text :=
  if mantissa = 0 then ['0', '.', '0']
  else
    let decimal := Decimal.shortest mantissa exponent
    let digits := significant decimal.digits
    let leading := decimal.scale + digitCount decimal.digits - 1
    if format.positionalFrom ≤ leading ∧ leading ≤ format.positionalTo then
      positional digits leading
    else format.scientific digits leading

def write (format : RealFormat) : Binary64 → Text
  | .nan => format.nan.toList
  | .infinite negative => (if negative then ['-'] else []) ++ format.infinity.toList
  | .finite negative mantissa exponent =>
    (if negative then ['-'] else []) ++ format.magnitude mantissa exponent

end RealFormat

end HardWrap
