import HardWrap.Document.Keystroke
import HardWrap.Engine

/-!
Requests to a document, answered with every check made. A row, a range, a line, an edit and the tabs
of a margin are each looked up, made or measured by a function that can fail, in the order in which
the answer needs them. The answers of the other modules take all of this to succeed.
-/

namespace HardWrap

inductive LookupFault where
  | range (fault : RangeFault)
  | line (fault : LineFault)
  | edit (fault : EditFault)
  | tab (fault : TabFault)
  deriving DecidableEq, Repr

abbrev Lookup := Noted LookupFault

def Edit.makeChecked (offset length : Int) (text : Text) (caret : Option Int) : Lookup Edit :=
  .ofExcept ((make offset length text caret).mapError .edit)

/-- The shortest edit, from the lengths that are left after the agreement at both ends. -/
def Edit.trimmedChecked (offset : Nat) (old new : Text) (caret : Option Int) : Lookup Edit :=
  let head := agreement old new
  let tail := agreement (old.drop head).reverse (new.drop head).reverse
  makeChecked (offset + head) (old.length - head - tail)
    ((new.drop head).take (new.length - head - tail)) caret

def measured {α : Type} (x : Except TabFault α) : Lookup α :=
  .ofExcept (x.mapError .tab)

namespace View

def rowChecked (view : View) (index : Int) : Lookup Row :=
  .ofExcept ((view.row index).mapError .range)

def sliceChecked (view : View) (offset length : Int) : Lookup Text :=
  .ofExcept ((view.slice offset length).mapError .range)

def isInsideChecked (view : View) (style : Style) (index : Int) : Lookup Bool :=
  .ofExcept ((view.isInside style index).mapError .range)

def linesChecked (view : View) (first : Int) : Nat → Lookup (List Line)
  | 0 => return []
  | n + 1 => do
    let r ← view.rowChecked first
    let line ← Noted.ofExcept ((Line.numbered r.text first r.ending).mapError .line)
    let more ← view.linesChecked (first + 1) n
    return line :: more

def endingChecked (view : View) (index : Int) : Lookup Text :=
  match (view.endingOf? index).or (view.endingOf? (index - 1)) with
  | some e => return e
  | none => do
    let content ← view.sliceChecked 0 view.length
    return content.newEnding

/-! ### Ranges of rows -/

def proposeRowsChecked (view : View) (layout : Layout) (first last : Int)
    (top bottom : Row) : Lookup (Option Edit) := do
  let lines ← view.linesChecked first (last + 1 - first).toNat
  let before ← view.sliceChecked top.offset (bottom.stop - top.offset)
  let ending ← view.endingChecked first
  let after ← (Plan.reflow ⟨layout, ending⟩ lines).mapError .tab
  if after = before then
    Noted.note (pipelineNote .debug s!"Lines {first}-{last} already wrapped")
    return none
  else
    Noted.note (pipelineNote .info s!"Reflowed lines {first}-{last}")
    let edit ← Edit.makeChecked top.offset (bottom.stop - top.offset) after none
    return some edit

def reflowRangeChecked (view : View) (layout : Layout) (first last : Int) :
    Lookup (Option Edit) := do
  let top ← view.rowChecked first
  let bottom ← view.rowChecked last
  if first > last then Noted.fail (.range (.reversed first last))
  else view.proposeRowsChecked layout first last top bottom

def firstChecked (view : View) : Nat → Lookup Nat
  | 0 => return 0
  | k + 1 => do
    let r ← view.rowChecked k
    if isBoundary r then return k + 1
    else view.firstChecked k

def lastChecked (view : View) (k : Nat) : Lookup Nat :=
  if k + 1 < view.count then do
    let r ← view.rowChecked (k + 1 : Nat)
    if isBoundary r then return k
    else view.lastChecked (k + 1)
  else return k
termination_by view.count - k

def paragraphChecked (view : View) (style : Style) (index : Int) :
    Lookup (Option (Nat × Nat)) := do
  let r ← view.rowChecked index
  if isBoundary r then return none
  else
    let inside ← view.isInsideChecked style index
    if inside then return none
    else
      let first ← view.firstChecked index.toNat
      let last ← view.lastChecked index.toNat
      return some (first, last)

def reflowAroundChecked (view : View) (layout : Layout) (index : Int) :
    Lookup (Option Edit) := do
  match ← view.paragraphChecked layout.style index with
  | some (first, last) => view.reflowRangeChecked layout first last
  | none =>
    Noted.note (pipelineNote .debug s!"No paragraph at line {index}")
    return none

end View

/-! ### Typed characters -/

namespace Paragraph

def kindFor? (line : Text) : Option ParagraphKind :=
  match kindOf line with
  | .prose none => some .prose
  | .item none => some .item
  | .comment => if isMergeableComment line then some .comment else none
  | _ => none

def frameChecked (tab : Except TabFault Int) (kind : ParagraphKind) (line : Text) :
    Except TabFault Frame :=
  match kind with
  | .comment => return .even (← measure tab commentMargin line)
  | .prose => return .even (← measure tab margin line)
  | .item => return ⟨← measure tab margin line, ← measure tab hangingMargin line⟩

/-- Whether the line after a paragraph continues it. Its margin is looked at last. -/
def joinsChecked (p : Paragraph) (tab : Except TabFault Int) (line : Text) :
    Except TabFault Bool :=
  match p.kind, kindOf line with
  | .comment, .comment =>
    if isMergeableComment line then return p.continuedByComment (← measure tab commentMargin line)
    else return false
  | .prose, .prose none | .item, .prose none =>
    if opensParagraph line then return false
    else return p.continuedByProse (← measure tab margin line)
  | _, _ => return false

end Paragraph

namespace View

/-- The paragraph with the rows below row `k` that continue it, and its last row. -/
def absorbChecked (view : View) (tab : Except TabFault Int) (p : Paragraph) (k : Nat) :
    Lookup (Paragraph × Nat) :=
  if k + 1 < view.count then do
    let r ← view.rowChecked (k + 1 : Nat)
    let joins ← measured (p.joinsChecked tab r.text)
    if !joins then return (p, k)
    else if p.isEndedBy r.text then return (p.extend r.text, k + 1)
    else view.absorbChecked tab (p.extend r.text) (k + 1)
  else return (p, k)
termination_by view.count - k

def gatherChecked (view : View) (tab : Except TabFault Int) (p : Paragraph) (line : Text)
    (k : Nat) : Lookup (Paragraph × Nat) :=
  if p.isEndedBy line then return (p, k) else view.absorbChecked tab p k

def proposeTypedChecked (view : View) (tab : Except TabFault Int) (width : Int) (index : Nat)
    (r : Row) (column : Nat) (typed : Char) (p : Paragraph) (anchor : Anchor) :
    Lookup (Option Edit) := do
  let edited := r.text.take column ++ typed :: r.text.drop column
  let (whole, last) ← view.gatherChecked tab p edited index
  let ending ← view.endingChecked index
  let packed := pack whole.frame width whole.words
  let after := dropEnding ending (writeLines whole.frame ending packed)
  let bottom ← view.rowChecked last
  let before ← view.sliceChecked r.offset (bottom.textEnd - r.offset)
  if after = before.take column ++ typed :: before.drop column then return none
  else
    let caret := r.offset +
      caretIn whole.frame.first whole.frame.later ending.length packed anchor.index anchor.within
    Noted.note (rewrappedNote index last (r.offset + column))
    let edit ← Edit.trimmedChecked r.offset before after (some caret)
    return some edit

def typeInRowChecked (view : View) (limits : Limits) (style : Style) (index : Nat) (r : Row)
    (column : Nat) (typed : Char) : Lookup (Option Edit) :=
  let edited := r.text.take column ++ typed :: r.text.drop column
  if r.text.length < column || (Text.stripRight edited).length ≤ style.maxWidth then return none
  else match Paragraph.kindFor? edited with
    | none => return none
    | some kind => do
      let inside ← view.isInsideChecked style index
      if inside then return none
      else
        let tab := checkTab limits style.tabWidth
        let frame ← measured (Paragraph.frameChecked tab kind edited)
        let p := (Paragraph.mk kind frame []).extend edited
        let start := edited.length - (p.content edited).length
        match anchorOf (Text.placedWords start (p.content edited)) (column + 1) with
        | none => return none
        | some anchor =>
          if column < start then return none
          else view.proposeTypedChecked tab style.maxWidth index r column typed p anchor

def typeAtChecked (view : View) (limits : Limits) (style : Style) (offset : Int) (typed : Text) :
    Lookup (Option Edit) :=
  if offset < 0 || offset > view.length then .fail (.range (.offset offset view.length))
  else
    match style.incremental, typed with
    | true, [c] =>
      if c = '\r' || c = '\n' then return none
      else do
        let index ← Noted.ofExcept ((view.rowAt offset).mapError .range)
        let r ← view.rowChecked index
        view.typeInRowChecked limits style index r (offset.toNat - r.offset) c
    | _, _ => return none

end View

/-! ### Requests -/

inductive Request where
  /-- Reflow the paragraph around a row. -/
  | around (index : Int)
  /-- Reflow a range of rows. -/
  | range (first last : Int)
  /-- A text is about to be typed. -/
  | typed (offset : Int) (text : Text)
  deriving DecidableEq, Repr

namespace View

def answer (view : View) (style : Style) : Request → Except RangeFault Proposal
  | .around index => view.reflowAround style index
  | .range first last => view.reflowRange style first last
  | .typed offset text => view.typeAt style offset text

def answerChecked (view : View) (limits : Limits) (style : Style) :
    Request → Lookup (Option Edit)
  | .around index => view.reflowAroundChecked (style.layout limits) index
  | .range first last => view.reflowRangeChecked (style.layout limits) first last
  | .typed offset text => view.typeAtChecked limits style offset text

end View

namespace Session

def typeChecked (limits : Limits) (style : Style) :
    Session → Text → Session × Option (LookupFault ⊕ TypingFault)
  | session, [] => (session, none)
  | session, c :: rest =>
    let answer := session.buffer.view.typeAtChecked limits style session.caret [c]
    let noted := { session with notes := session.notes ++ answer.notes }
    match answer.result with
    | .error fault => (noted, some (.inl fault))
    | .ok edit =>
      match noted.enter c edit with
      | .error fault => (noted, some (.inr fault))
      | .ok next => next.typeChecked limits style rest

end Session

end HardWrap
