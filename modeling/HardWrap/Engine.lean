import HardWrap.Reflow

/-!
The engine that reflows lines. It walks them from top to bottom, keeps the words of the pending
paragraph in its state, and writes the paragraph out when a line ends it. A line that needs its
margin while a tab in it cannot be written as spaces stops the engine where it stands.
-/

namespace HardWrap

/-- How paragraphs are laid out, with a tab width that may turn out to be of no use. -/
structure Layout where
  width : Int
  tab : Except TabFault Int
  tracked : List Text

structure Plan extends Layout where
  /-- The ending of filled lines. -/
  ending : Text

def Style.layout (limits : Limits) (style : Style) : Layout :=
  ⟨style.maxWidth, checkTab limits style.tabWidth, style.tracked⟩

def Layout.style (layout : Layout) : Style :=
  { maxWidth := layout.width
    tabWidth := layout.tab.toOption.getD 0
    tracked := layout.tracked }

/-- What an engine keeps between two lines. The margins and the list of margins that may continue
the paragraph are those of the last paragraph, also when nothing is pending. -/
structure ReflowState where
  pendingWords : List Text := []
  currentMargin : Text := []
  hanging : Text := []
  mergeMargins : List Text := []
  bufferKind : Option LineRole := none
  insidePassthrough : Bool := false
  passthroughName : Option Text := none
  deriving DecidableEq, Repr

structure Engine where
  state : ReflowState := {}
  out : List Text := []
  lastWrapped : Bool := false
  notes : List Note := []
  deriving DecidableEq, Repr

namespace ReflowState

def continues (state : ReflowState) (role : LineRole) (margin : Text) : Bool :=
  !state.pendingWords.isEmpty &&
    match state.bufferKind with
    | none => false
    | some kind =>
      (if role = .comment then kind = .comment else kind = .prose || kind = .item) &&
        state.mergeMargins.contains margin

end ReflowState

namespace Engine

def noteCrossing (engine : Engine) (line : Line) (crossing : Crossing) : Engine :=
  { engine with notes := engine.notes ++ Block.crossingNotes line.number crossing }

def emit (engine : Engine) (line : Line) : Engine :=
  { engine with out := engine.out ++ [line.text ++ line.ending], lastWrapped := false }

/-- Writes out the pending paragraph. The margins stay behind. -/
def flush (plan : Plan) (engine : Engine) : Engine :=
  let state := engine.state
  let emptied := { state with pendingWords := [], bufferKind := none }
  if state.pendingWords.isEmpty then { engine with state := emptied }
  else
    let filled := fill ⟨state.currentMargin, state.hanging⟩ plan.width plan.ending
      state.pendingWords
    { state := emptied
      out := engine.out ++ [filled]
      lastWrapped := true
      notes := engine.notes ++ [Block.fillNote state.pendingWords state.currentMargin] }

def start (engine : Engine) (kind : LineRole) (margin hanging : Text) (merge : List Text) :
    Engine :=
  { engine with state := { engine.state with
      bufferKind := some kind
      currentMargin := margin
      hanging := hanging
      mergeMargins := merge } }

def gather (engine : Engine) (words : List Text) : Engine :=
  { engine with state := { engine.state with
      pendingWords := engine.state.pendingWords ++ words } }

def flushAfter (plan : Plan) (engine : Engine) (line : Text) : Engine :=
  if endsWithBreak line then engine.flush plan else engine

def restart (plan : Plan) (engine : Engine) (kind : LineRole) (margin : Text) : Engine :=
  (engine.flush plan).start kind margin margin [margin]

abbrev Step := Engine × Option TabFault

def processProse (plan : Plan) (engine : Engine) (line : Text) : Step :=
  match measure plan.tab margin line with
  | .error fault => (engine, some fault)
  | .ok indent =>
    let ready :=
      if !engine.state.continues .prose indent || opensParagraph line then
        engine.restart plan .prose indent
      else engine
    ((ready.gather (Text.words line)).flushAfter plan line, none)

/-- An item opens a paragraph of its own. What was pending is written before the item's margin is
looked at. -/
def processItem (plan : Plan) (engine : Engine) (line : Text) : Step :=
  let ready := engine.flush plan
  match measure plan.tab margin line, measure plan.tab hangingMargin line with
  | .ok indent, .ok hanging =>
    let started := ready.start .item indent hanging [indent, hanging]
    ((started.gather (Text.words line)).flushAfter plan line, none)
  | .error fault, _ | .ok _, .error fault => (ready, some fault)

def processComment (plan : Plan) (engine : Engine) (line : Line) : Step :=
  if !isMergeableComment line.text then ((engine.flush plan).emit line, none)
  else match measure plan.tab commentMargin line.text with
    | .error fault => (engine, some fault)
    | .ok indent =>
      let ready :=
        if !engine.state.continues .comment indent then engine.restart plan .comment indent
        else engine
      (ready.gather (Text.words (commentBody line.text)), none)

/-- A line whose comment starts at `pos` of the stripped line. The text before the comment is
filled; the comment and the blanks before it stay on the last line. -/
def emitCommented (plan : Plan) (engine : Engine) (line : Line) (pos : Nat) : Step :=
  let stripped := Text.strip line.text
  let body := Text.stripRight (stripped.take pos)
  if isCommandLine body then (engine.emit line, none)
  else match measure plan.tab margin line.text, measure plan.tab hangingMargin line.text with
    | .ok indent, .ok hanging =>
      let filled := fill ⟨indent, hanging⟩ plan.width plan.ending (Text.words body)
      let ending := if line.ending.isEmpty then plan.ending else line.ending
      ({ engine with
        out := engine.out ++ [dropEnding plan.ending filled ++ stripped.drop body.length ++ ending]
        lastWrapped := true }, none)
    | .error fault, _ | .ok _, .error fault => (engine, some fault)

def enter (engine : Engine) (name : Text) : Engine :=
  { engine with state := { engine.state with
      insidePassthrough := true
      passthroughName := some name } }

def leave (engine : Engine) : Engine :=
  { engine with state := { engine.state with
      insidePassthrough := false
      passthroughName := none } }

def copyInside (engine : Engine) (line : Line) : Engine :=
  let copied := engine.emit line
  match engine.state.passthroughName with
  | some name =>
    if closesEnvironment line.text name then (copied.noteCrossing line (.leaves name)).leave
    else copied
  | none => copied

def processOutside (plan : Plan) (engine : Engine) (line : Line) : Step :=
  match kindOf line.text with
  | .begins name =>
    let copied := (engine.flush plan).emit line
    if plan.tracked.contains name then (copied, none)
    else ((copied.noteCrossing line (.enters name)).enter name, none)
  | .ends name =>
    let copied := (engine.flush plan).emit line
    if plan.tracked.contains name then (copied, none)
    else (copied.noteCrossing line (.unmatched name), none)
  | .blank | .command => ((engine.flush plan).emit line, none)
  | .comment => engine.processComment plan line
  | .item (some pos) | .prose (some pos) => (engine.flush plan).emitCommented plan line pos
  | .item none => engine.processItem plan line.text
  | .prose none => engine.processProse plan line.text

def process (plan : Plan) (engine : Engine) (line : Line) : Step :=
  if engine.state.insidePassthrough then (engine.copyInside line, none)
  else engine.processOutside plan line

def run (plan : Plan) : Engine → List Line → Step
  | engine, [] => (engine, none)
  | engine, line :: rest =>
    match engine.process plan line with
    | (next, none) => next.run plan rest
    | (next, some fault) => (next, some fault)

/-- The text that an engine wrote. If the source is open at its end and the last thing written was
filled, the text is open at its end too. -/
def text (plan : Plan) (engine : Engine) (isOpen : Bool) : Text :=
  let written := engine.out.flatten
  if isOpen && engine.lastWrapped && plan.ending.isSuffixOf written then
    dropEnding plan.ending written
  else written

end Engine

def Plan.reflow (plan : Plan) (lines : List Line) : Noted TabFault Text :=
  match ({} : Engine).run plan lines with
  | (engine, some fault) => ⟨engine.notes, .error fault⟩
  | (engine, none) =>
    let flushed := engine.flush plan
    ⟨flushed.notes, .ok (flushed.text plan (endsOpen lines))⟩

def Layout.reflow (layout : Layout) (t : Text) : Noted TabFault Text :=
  Plan.reflow ⟨layout, t.newEnding⟩ t.lines

end HardWrap
