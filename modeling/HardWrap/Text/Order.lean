import HardWrap.Text.Blank

/-!
The order of texts by code points.
-/

namespace HardWrap

/-- Whether a text comes before another one or equals it. A text comes before its extensions. -/
def Text.le : Text → Text → Bool
  | [], _ => true
  | _ :: _, [] => false
  | a :: as, b :: bs => if a = b then le as bs else a < b

end HardWrap
