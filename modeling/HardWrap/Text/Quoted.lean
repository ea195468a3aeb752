import HardWrap.Text.Blank
import HardWrap.Text.Unprintable

/-!
Texts in quotes, as messages show them. Single quotes, unless the text holds a single quote and no
double quote. A backslash and the quote in use are escaped, and so is what cannot be shown.
-/

namespace HardWrap

namespace Quoted

def hex (width n : Nat) : Text :=
  (List.range width).reverse.map fun k => Nat.digitChar (n >>> (4 * k) % 16)

/-- An escape has two, four or eight digits, the fewest that hold the code point. -/
def escapeCode (n : Nat) : Text :=
  if n < 0x100 then '\\' :: 'x' :: hex 2 n
  else if n < 0x10000 then '\\' :: 'u' :: hex 4 n
  else '\\' :: 'U' :: hex 8 n

def escape (quote c : Char) : Text :=
  if c = quote || c = '\\' then ['\\', c]
  else if c = '\n' then ['\\', 'n']
  else if c = '\r' then ['\\', 'r']
  else if c = '\t' then ['\\', 't']
  else if isPrintable c then [c]
  else escapeCode c.toNat

def quoteFor (t : Text) : Char :=
  if t.contains '\x27' && !t.contains '"' then '"' else '\x27'

end Quoted

def Text.quoted (t : Text) : Text :=
  let quote := Quoted.quoteFor t
  quote :: t.flatMap (Quoted.escape quote) ++ [quote]

end HardWrap
