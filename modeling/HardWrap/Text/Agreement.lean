/-!
How far two lists agree.
-/

namespace HardWrap

/-- The length of the longest common start of two lists. -/
def agreement {α : Type} [DecidableEq α] : List α → List α → Nat
  | a :: as, b :: bs => if a = b then agreement as bs + 1 else 0
  | _, _ => 0

end HardWrap
