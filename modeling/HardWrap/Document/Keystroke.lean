import HardWrap.Document.Buffer
import HardWrap.Document.Selection

/-!
Typing. When a typed character makes its line too wide, the line and the lines that continue its
paragraph are filled again. Lines above it stay as they are. The proposed edit performs the
insertion and the filling together, and its caret stands right after the typed character.
-/

namespace HardWrap

/-- A place within a list of words: before the character `within` of the word `index`. -/
structure Anchor where
  index : Nat
  within : Nat
  deriving DecidableEq, Repr

def Anchor.shift (anchor : Anchor) : Anchor :=
  { anchor with index := anchor.index + 1 }

def anchorWithin (caret : Nat) : List PlacedWord → Option Anchor
  | [] => none
  | w :: ws =>
    if w.start < caret ∧ caret ≤ w.start + w.text.length then some ⟨0, caret - w.start⟩
    else (anchorWithin caret ws).map Anchor.shift

def anchorBefore (caret : Nat) : List PlacedWord → Option Anchor
  | [] => none
  | w :: ws =>
    if caret ≤ w.start then some ⟨0, 0⟩ else (anchorBefore caret ws).map Anchor.shift

/-- The caret as a place within words. There is none after the last word and its blanks. -/
def anchorOf (words : List PlacedWord) (caret : Nat) : Option Anchor :=
  (anchorWithin caret words).or (anchorBefore caret words)

/-- How far the place `within` the word `index` is from the start of the filled lines. -/
def caretIn (margin later : Text) (ending : Nat) :
    List (List Text) → (index within : Nat) → Nat
  | [], _, _ => 0
  | line :: more, index, within =>
    if index < line.length then
      margin.length + extraWidth (line.take index) + within
    else
      margin.length + (Text.joinWords line).length + ending +
        caretIn later later ending more (index - line.length) within

namespace Paragraph

def ofLine? (style : Style) (line : Text) : Option Paragraph :=
  match kindOf line with
  | .prose none => some (proseParagraph style line)
  | .item none => some (itemParagraph style line)
  | .comment => if isMergeableComment line then some (commentParagraph style line) else none
  | _ => none

def content (p : Paragraph) (line : Text) : Text :=
  match p.kind with
  | .comment => commentBody line
  | .prose | .item => Text.stripLeft line

def joins (p : Paragraph) (style : Style) (line : Text) : Bool :=
  match p.kind, kindOf line with
  | .comment, .comment =>
    isMergeableComment line && p.continuedByComment (commentMargin style.tabWidth line)
  | .prose, .prose none | .item, .prose none =>
    !opensParagraph line && p.continuedByProse (margin style.tabWidth line)
  | _, _ => false

def isEndedBy (p : Paragraph) (line : Text) : Bool :=
  p.kind != .comment && endsWithBreak line

def extend (p : Paragraph) (line : Text) : Paragraph :=
  p.append (Text.words (p.content line))

def absorb (p : Paragraph) (style : Style) : List Text → Paragraph × Nat
  | [] => (p, 0)
  | line :: rest =>
    if p.joins style line then
      if p.isEndedBy line then (p.extend line, 1)
      else
        let (whole, n) := (p.extend line).absorb style rest
        (whole, n + 1)
    else (p, 0)

end Paragraph

namespace View

def rewrappedNote (first last offset : Nat) : Note :=
  ⟨.info, "texreflow.wrap.incremental",
    s!"Rewrapped lines {first}-{last} after insertion at offset {offset}"⟩

def proposeTyped (view : View) (style : Style) (index : Nat) (r : Row) (column : Nat)
    (typed : Char) (p : Paragraph) (anchor : Anchor) : Proposal :=
  let edited := r.text.take column ++ typed :: r.text.drop column
  let below := (view.rows.drop (index + 1)).map Row.text
  let (whole, joined) := if p.isEndedBy edited then (p, 0) else p.absorb style below
  let last := index + joined
  let ending := view.endingAt index
  let packed := pack whole.frame style.maxWidth whole.words
  let after := dropEnding ending (writeLines whole.frame ending packed)
  let stop := ((view.row? last).map Row.textEnd).getD r.textEnd
  let before := view.between r.offset stop
  if after = before.take column ++ typed :: before.drop column then ⟨none, []⟩
  else
    let caret := r.offset +
      caretIn whole.frame.first whole.frame.later ending.length packed anchor.index anchor.within
    ⟨some (Edit.trimmed r.offset before after (some caret)),
      [rewrappedNote index last (r.offset + column)]⟩

def typeInRow (view : View) (style : Style) (index : Nat) (r : Row) (column : Nat)
    (typed : Char) : Proposal :=
  let edited := r.text.take column ++ typed :: r.text.drop column
  if r.text.length < column || (Text.stripRight edited).length ≤ style.maxWidth
      || (view.openBefore style index).isSome then
    ⟨none, []⟩
  else match Paragraph.ofLine? style edited with
    | none => ⟨none, []⟩
    | some p =>
      let start := edited.length - (p.content edited).length
      match anchorOf (Text.placedWords start (p.content edited)) (column + 1) with
      | none => ⟨none, []⟩
      | some anchor =>
        if column < start then ⟨none, []⟩
        else view.proposeTyped style index r column typed p anchor

/-- The proposal for a text typed at an offset. Only a single character that is no line ending is
looked at. -/
def typeAt (view : View) (style : Style) (offset : Int) (typed : Text) :
    Except RangeFault Proposal :=
  if offset < 0 || offset > view.length then .error (.offset offset view.length)
  else
    match style.incremental, typed with
    | true, [c] =>
      if c = '\r' || c = '\n' then .ok ⟨none, []⟩
      else do
        let index ← view.rowAt offset
        let r ← view.row index
        return view.typeInRow style index r (offset.toNat - r.offset) c
    | _, _ => .ok ⟨none, []⟩

end View

/-! ### A run of typed characters -/

inductive TypingFault where
  | range (fault : RangeFault)
  | replace (fault : ReplaceFault)
  | apply (fault : ApplyFault)
  deriving DecidableEq, Repr

structure Session where
  buffer : Buffer
  caret : Int
  edits : List Edit := []
  notes : List Note := []
  deriving DecidableEq, Repr

namespace Session

def insertPlain (session : Session) (c : Char) : Except TypingFault Session := do
  let buffer ← (session.buffer.replace session.caret 0 [c]).mapError .replace
  return { session with buffer := buffer, caret := session.caret + 1 }

def follow (session : Session) (edit : Edit) : Except TypingFault Session := do
  let buffer ← (session.buffer.apply edit).mapError .apply
  return { session with
    buffer := buffer
    caret := edit.caret.getD session.caret
    edits := session.edits ++ [edit] }

def enter (session : Session) (c : Char) : Option Edit → Except TypingFault Session
  | none => session.insertPlain c
  | some edit => session.follow edit

/-- Types a whole text, character by character. A fault ends the run and keeps what was typed
before it. -/
def type (style : Style) : Session → Text → Session × Option TypingFault
  | session, [] => (session, none)
  | session, c :: rest =>
    match session.buffer.view.typeAt style session.caret [c] with
    | .error fault => (session, some (.range fault))
    | .ok proposal =>
      let noted := { session with notes := session.notes ++ proposal.notes }
      match noted.enter c proposal.edit with
      | .error fault => (noted, some fault)
      | .ok next => next.type style rest

end Session

end HardWrap
