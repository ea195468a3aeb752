/-!
Classes of characters given as tables of code point ranges.
-/

namespace HardWrap

/-- Two code points, the first and the last of a range. -/
abbrev CodeRange := Nat × Nat

def covers (ranges : List CodeRange) (c : Char) : Bool :=
  ranges.any fun (first, last) => decide (first ≤ c.toNat) && decide (c.toNat ≤ last)

end HardWrap
