import HardWrap.Text.Blank

/-!
How paragraphs are laid out.
-/

namespace HardWrap

structure Style where
  /-- No filled line is wider, if its words allow. -/
  maxWidth : Int := 80
  /-- How many spaces a tab in a margin stands for. -/
  tabWidth : Int := 4
  /-- Environments whose contents are filled. All others are copied. -/
  tracked : List Text := ["document".toList]
  /-- Whether lines are refilled while they are typed. -/
  incremental : Bool := true
  deriving DecidableEq, Repr

inductive StyleFault where
  | narrow (maxWidth : Int)
  | negativeTab (tabWidth : Int)
  deriving DecidableEq, Repr

def StyleFault.message : StyleFault → String
  | narrow w => s!"max_width must be >= 1, got {w}"
  | negativeTab w => s!"tab_width must be >= 0, got {w}"

/-- A line has room for a character, and tabs do not reach back. -/
def Style.Valid (style : Style) : Prop :=
  1 ≤ style.maxWidth ∧ 0 ≤ style.tabWidth

instance (style : Style) : Decidable style.Valid :=
  inferInstanceAs (Decidable (_ ∧ _))

/-- The style itself if it is valid, and else what is wrong with it, the width first. -/
def Style.check (style : Style) : Except StyleFault Style :=
  if style.maxWidth < 1 then .error (.narrow style.maxWidth)
  else if style.tabWidth < 0 then .error (.negativeTab style.tabWidth)
  else .ok style

end HardWrap
