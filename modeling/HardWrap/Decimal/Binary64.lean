/-!
Numbers of the binary64 format, with exact integers for their parts. A finite number is
`mantissa * 2 ^ exponent` and is kept in the one form that the format stores: the mantissa has 53
bits, or fewer at the least exponent.
-/

namespace HardWrap

inductive Binary64 where
  | nan
  | infinite (negative : Bool)
  | finite (negative : Bool) (mantissa : Nat) (exponent : Int)
  deriving DecidableEq, Repr

/-- The integer nearest to a quotient; a half goes to the even neighbour. -/
def roundQuotient (num den : Nat) : Nat :=
  let q := num / den
  let r := num % den
  if 2 * r < den then q
  else if den < 2 * r then q + 1
  else q + q % 2

def tenTo (k : Nat) : Nat :=
  Nat.pow 10 k

def digitCount (n : Nat) : Nat :=
  (Nat.toDigits 10 n).length

namespace Binary64

def leastExponent : Int := -1074

def greatestExponent : Int := 971

def leastFull : Nat := 0x10000000000000

def zero (negative : Bool) : Binary64 :=
  .finite negative 0 leastExponent

def scaleDown (num den : Nat) (exponent : Int) : Nat × Nat :=
  if 0 ≤ exponent then (num, den <<< exponent.toNat) else (num <<< (-exponent).toNat, den)

/-- The exponent at which a positive fraction has a mantissa of 53 bits, but not less than the
least one. -/
def exponentFor (num den : Nat) : Int :=
  let guess : Int := num.log2 - den.log2 - 52
  let (n, d) := scaleDown num den guess
  max leastExponent (if n / d < leastFull then guess - 1 else guess)

def ofFraction (negative : Bool) (num den : Nat) : Binary64 :=
  if num = 0 then zero negative
  else
    let exponent := exponentFor num den
    let (n, d) := scaleDown num den exponent
    let mantissa := roundQuotient n d
    let (mantissa, exponent) :=
      if mantissa = 2 * leastFull then (leastFull, exponent + 1) else (mantissa, exponent)
    if greatestExponent < exponent then .infinite negative
    else .finite negative mantissa exponent

/-- The number nearest to `digits * 10 ^ exponent`. Far outside the range of the format no power is
computed. -/
def ofDecimal (negative : Bool) (digits : Nat) (exponent : Int) : Binary64 :=
  if digits = 0 then zero negative
  else
    let size := digitCount digits + exponent
    if 310 < size then .infinite negative
    else if size < -330 then zero negative
    else if 0 ≤ exponent then ofFraction negative (digits * tenTo exponent.toNat) 1
    else ofFraction negative digits (tenTo (-exponent).toNat)

def fraction (mantissa : Nat) (exponent : Int) : Nat × Nat :=
  if 0 ≤ exponent then (mantissa <<< exponent.toNat, 1) else (mantissa, 1 <<< (-exponent).toNat)

def floor? : Binary64 → Option Int
  | nan | infinite _ => none
  | finite negative mantissa exponent =>
    let (num, den) := fraction mantissa exponent
    some (if negative then -(((num + den - 1) / den : Nat) : Int) else ((num / den : Nat) : Int))

/-- Whether a number is less than an integer. NaN is not. -/
def isLess (x : Binary64) (n : Int) : Bool :=
  match x with
  | nan => false
  | infinite negative => negative
  | finite .. => x.floor?.any (· < n)

def signBit (negative : Bool) : Nat :=
  if negative then 0x8000000000000000 else 0

def bits : Binary64 → Nat
  | nan => 0x7ff8000000000000
  | infinite negative => signBit negative + 0x7ff0000000000000
  | finite negative mantissa exponent =>
    signBit negative +
      if mantissa < leastFull then mantissa
      else (exponent - leastExponent + 1).toNat * leastFull + (mantissa - leastFull)

end Binary64

end HardWrap
