import HardWrap.Document.Edit
import HardWrap.Document.View
import HardWrap.Reflow

/-!
Reflow of a part of a document: a range of rows, or the paragraph around the cursor. The document
itself is not touched; the result is a proposal.
-/

namespace HardWrap

structure Proposal where
  edit : Option Edit
  notes : List Note
  deriving DecidableEq, Repr

def Proposal.applyTo (proposal : Proposal) (content : Text) : Text :=
  match proposal.edit with
  | none => content
  | some edit =>
    match edit.apply content with
    | .ok t => t
    | .error _ => content

def Row.toLine (number : Nat) (r : Row) : Line :=
  ⟨r.text, number, r.ending⟩

def numberRows (start : Nat) : List Row → List Line
  | [] => []
  | r :: more => r.toLine start :: numberRows (start + 1) more

namespace View

def pipelineNote (level : Level) (message : String) : Note :=
  ⟨level, "texreflow.pipeline", message⟩

def linesBetween (view : View) (first last : Nat) : List Line :=
  numberRows first ((view.rows.drop first).take (last + 1 - first))

/-- Reflows the rows from `first` to `last`, which exist. The edit covers the rows and the ending
of the last one. -/
def proposeRows (view : View) (style : Style) (first last : Nat) (start stop : Nat) : Proposal :=
  let lines := view.linesBetween first last
  let before := view.between start stop
  let after := reflowLines style (view.endingAt first) lines
  let notes := reflowNotes style lines
  if after = before then
    ⟨none, notes ++ [pipelineNote .debug s!"Lines {first}-{last} already wrapped"]⟩
  else
    ⟨some ⟨start, stop - start, after, none⟩,
      notes ++ [pipelineNote .info s!"Reflowed lines {first}-{last}"]⟩

def reflowRange (view : View) (style : Style) (first last : Int) : Except RangeFault Proposal := do
  let top ← view.row first
  let bottom ← view.row last
  if first > last then throw (.reversed first last)
  return view.proposeRows style first.toNat last.toNat top.offset bottom.stop

def reflowAround (view : View) (style : Style) (index : Int) : Except RangeFault Proposal := do
  match ← view.paragraphAt style index with
  | some (first, last) => view.reflowRange style first last
  | none => return ⟨none, [pipelineNote .debug s!"No paragraph at line {index}"]⟩

end View

end HardWrap
