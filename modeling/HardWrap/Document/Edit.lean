import HardWrap.Text.Agreement
import HardWrap.Text.Blank

/-!
Edits: one range of a text replaced by another text, with a hint where the caret goes.
-/

namespace HardWrap

structure Edit where
  offset : Nat
  /-- How many characters are replaced. -/
  length : Nat
  text : Text
  caret : Option Int := none
  deriving DecidableEq, Repr

inductive EditFault where
  | negativeOffset (offset : Int)
  | negativeLength (length : Int)
  | outside (start stop length : Nat)
  deriving DecidableEq, Repr

def EditFault.message : EditFault → String
  | negativeOffset offset => s!"offset must be >= 0, got {offset}"
  | negativeLength length => s!"length must be >= 0, got {length}"
  | outside start stop length => s!"edit range [{start}, {stop}) exceeds length {length}"

namespace Edit

/-- An edit whose numbers come from outside. The offset is checked before the length. -/
def make (offset length : Int) (text : Text) (caret : Option Int) : Except EditFault Edit :=
  if offset < 0 then .error (.negativeOffset offset)
  else if length < 0 then .error (.negativeLength length)
  else .ok ⟨offset.toNat, length.toNat, text, caret⟩

def stop (edit : Edit) : Nat :=
  edit.offset + edit.length

def apply (edit : Edit) (content : Text) : Except EditFault Text :=
  if content.length < edit.stop then .error (.outside edit.offset edit.stop content.length)
  else .ok (content.take edit.offset ++ edit.text ++ content.drop edit.stop)

/-- The shortest edit that turns `old`, which stands at `offset`, into `new`: what the two have in
common at the start, and then at the end, stays. -/
def trimmed (offset : Nat) (old new : Text) (caret : Option Int) : Edit :=
  let head := agreement old new
  let tail := agreement (old.drop head).reverse (new.drop head).reverse
  { offset := offset + head
    length := old.length - head - tail
    text := (new.drop head).take (new.length - head - tail)
    caret := caret }

end Edit

end HardWrap
