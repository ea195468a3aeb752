import HardWrap.Proofs.FilledTexts
import HardWrap.Proofs.TabMargins

/-! What an engine keeps between two lines. Words are pending exactly if there is a kind for them,
and none are pending inside an environment that is copied. They are whole words, and outside
comments none of them opens a comment: a line with a sign that does is never gathered.

Fields that are stale after a paragraph was written out do no harm. What matters of a state is the
stage that a reader of the lines would be in, and each line that an engine gets through takes it to
the stage that the reader goes to and writes the blocks that the reader completes. -/

namespace HardWrap

open Text

/-! ### Paragraphs as they are gathered -/

namespace Paragraph

/-- A paragraph that lines were read into. -/
structure Gathered (p : Paragraph) : Prop where
  nonempty : p.words ≠ []
  words : ∀ w ∈ p.words, IsWord w
  signs : p.kind ≠ .comment → ∀ w ∈ p.words, SignsEscaped w

variable {style : Style} {line : Text} {p : Paragraph}

theorem ofLine?_gathered (h : ofLine? style line = some p) : p.Gathered := by
  obtain ⟨hwords, hne⟩ := ofLine?_words h
  refine ⟨by rwa [hwords], ?_, ?_⟩
  · rw [hwords]
    exact words_isWord _
  · intro hkind
    rw [hwords, words_content hkind]
    apply words_signsEscaped
    unfold ofLine? at h
    split at h
    next hk => exact Or.inr hk
    next hk => exact Or.inl hk
    next hk =>
      split at h
      · obtain rfl := Option.some.inj h
        exact absurd rfl hkind
      · cases h
    next => cases h

theorem Gathered.append (h : p.Gathered) {words : List Text} (hwords : ∀ w ∈ words, IsWord w)
    (hsigns : p.kind ≠ .comment → ∀ w ∈ words, SignsEscaped w) : (p.append words).Gathered := by
  refine ⟨List.append_ne_nil_of_left_ne_nil h.nonempty _,
    List.forall_mem_append.mpr ⟨h.words, hwords⟩, ?_⟩
  intro hkind
  exact List.forall_mem_append.mpr ⟨h.signs hkind, hsigns hkind⟩

end Paragraph

/-! ### States -/

def ParagraphKind.role : ParagraphKind → LineRole
  | prose => .prose
  | item => .item
  | comment => .comment

namespace ReflowState

/-- What holds of a state between two lines. -/
structure Sound (state : ReflowState) : Prop where
  pending_iff : state.pendingWords = [] ↔ state.bufferKind = none
  inside_iff : state.insidePassthrough = true ↔ state.passthroughName ≠ none
  inside : state.insidePassthrough = true → state.pendingWords = []
  kinds : state.pendingWords ≠ [] → state.bufferKind = some .prose ∨
    state.bufferKind = some .item ∨ state.bufferKind = some .comment
  margins : state.pendingWords ≠ [] →
    state.currentMargin ∈ state.mergeMargins ∧ state.hanging ∈ state.mergeMargins
  /-- No other margin continues the paragraph. -/
  merge : state.pendingWords ≠ [] →
    ∀ m ∈ state.mergeMargins, m = state.currentMargin ∨ m = state.hanging
  words : ∀ w ∈ state.pendingWords, w ≠ [] ∧ ∀ c ∈ w, isBlank c = false
  signs : state.bufferKind = some .prose ∨ state.bufferKind = some .item →
    ∀ w ∈ state.pendingWords, w.head? ≠ some '%' ∧
      ∀ a b, w = a ++ '%' :: b → a.getLast? = some '\\'

def paragraph (state : ReflowState) (kind : ParagraphKind) : Paragraph :=
  ⟨kind, ⟨state.currentMargin, state.hanging⟩, state.pendingWords⟩

/-- Where a reader of the lines would be. -/
def stage (state : ReflowState) : Stage :=
  match state.passthroughName, state.bufferKind with
  | some name, _ => .copying name
  | none, some .item => .gathering (state.paragraph .item)
  | none, some .comment => .gathering (state.paragraph .comment)
  | none, some _ => .gathering (state.paragraph .prose)
  | none, none => .idle

def emptied (state : ReflowState) : ReflowState :=
  { state with pendingWords := [], bufferKind := none }

/-- The state with a paragraph pending that lines at its margins may continue. -/
def holding (state : ReflowState) (p : Paragraph) (merge : List Text) : ReflowState :=
  { state with
    pendingWords := p.words
    currentMargin := p.frame.first
    hanging := p.frame.later
    mergeMargins := merge
    bufferKind := some p.kind.role }

variable {state : ReflowState}

theorem sound_fresh : ({} : Engine).state.Sound := by
  constructor <;> simp

theorem Sound.emptied (h : state.Sound) : state.emptied.Sound where
  pending_iff := by simp [ReflowState.emptied]
  inside_iff := h.inside_iff
  inside := by simp [ReflowState.emptied]
  kinds := by simp [ReflowState.emptied]
  margins := by simp [ReflowState.emptied]
  merge := by simp [ReflowState.emptied]
  words := by simp [ReflowState.emptied]
  signs := by simp [ReflowState.emptied]

theorem Sound.inside_eq (h : state.Sound) (hname : state.passthroughName = none) :
    state.insidePassthrough = false := by
  rw [Bool.eq_false_iff]
  intro hinside
  exact h.inside_iff.mp hinside hname

theorem Sound.holding (h : state.Sound) (hname : state.passthroughName = none) {p : Paragraph}
    (hp : p.Gathered) {merge : List Text}
    (hmerge : ∀ m, m ∈ merge ↔ m = p.frame.first ∨ m = p.frame.later) :
    (state.holding p merge).Sound where
  pending_iff := by simp [ReflowState.holding, hp.nonempty]
  inside_iff := h.inside_iff
  inside := by simp [ReflowState.holding, h.inside_eq hname]
  kinds := by
    intro _
    cases hkind : p.kind <;> simp [ReflowState.holding, ParagraphKind.role, hkind]
  margins := fun _ => ⟨(hmerge _).mpr (Or.inl rfl), (hmerge _).mpr (Or.inr rfl)⟩
  merge := fun _ m hm => (hmerge m).mp hm
  words := hp.words
  signs := by
    intro hkind w hw
    have hcomment : p.kind ≠ .comment := by
      intro hcomment
      simp [ReflowState.holding, ParagraphKind.role, hcomment] at hkind
    have hsigns := hp.signs hcomment w hw
    exact ⟨hsigns.head?, hsigns⟩

theorem stage_emptied (hname : state.passthroughName = none) : state.emptied.stage = .idle := by
  simp [stage, emptied, hname]

theorem stage_holding (hname : state.passthroughName = none) (p : Paragraph)
    (merge : List Text) : (state.holding p merge).stage = .gathering p := by
  obtain ⟨kind, frame, words⟩ := p
  cases kind <;> simp [stage, holding, hname, ParagraphKind.role, paragraph]

theorem Sound.left (h : state.Sound) :
    ReflowState.Sound { state with insidePassthrough := false, passthroughName := none } :=
  { h with inside_iff := by simp, inside := by simp }

theorem Sound.entered (h : state.Sound) (hempty : state.pendingWords = []) (name : Text) :
    ReflowState.Sound { state with insidePassthrough := true, passthroughName := some name } :=
  { h with inside_iff := by simp, inside := fun _ => hempty }

theorem passthroughName_of_gathering {p : Paragraph} (h : state.stage = .gathering p) :
    state.passthroughName = none := by
  cases hname : state.passthroughName with
  | none => rfl
  | some name => simp [stage, hname] at h

/-- A sound state is inside an environment, or has nothing pending, or holds a paragraph. -/
theorem Sound.cases (h : state.Sound) :
    (∃ name, state.insidePassthrough = true ∧ state.passthroughName = some name ∧
      state.stage = .copying name) ∨
    state.insidePassthrough = false ∧ state.passthroughName = none ∧
      (state = state.emptied ∧ state.stage = .idle ∨
      ∃ p : Paragraph, p.Gathered ∧
        (∀ m, m ∈ state.mergeMargins ↔ m = p.frame.first ∨ m = p.frame.later) ∧
        state = state.holding p state.mergeMargins ∧ state.stage = .gathering p) := by
  cases hname : state.passthroughName with
  | some name =>
    have hinside : state.insidePassthrough = true := h.inside_iff.mpr (by simp [hname])
    exact Or.inl ⟨name, hinside, rfl, by simp [stage, hname]⟩
  | none =>
    refine Or.inr ⟨h.inside_eq hname, rfl, ?_⟩
    by_cases hpending : state.pendingWords = []
    · have hkind := h.pending_iff.mp hpending
      refine Or.inl ⟨?_, by simp [stage, hname, hkind]⟩
      rw [ReflowState.emptied, ← hpending, ← hkind]
    · obtain ⟨kind, hkind⟩ : ∃ kind : ParagraphKind, state.bufferKind = some kind.role := by
        rcases h.kinds hpending with hk | hk | hk
        · exact ⟨.prose, hk⟩
        · exact ⟨.item, hk⟩
        · exact ⟨.comment, hk⟩
      have hp : (state.paragraph kind).Gathered := by
        refine ⟨hpending, h.words, ?_⟩
        intro hcomment w hw
        refine (h.signs ?_ w hw).2
        cases kind with
        | prose => exact Or.inl hkind
        | item => exact Or.inr hkind
        | comment => exact absurd rfl hcomment
      obtain ⟨hfirst, hlater⟩ := h.margins hpending
      refine Or.inr ⟨state.paragraph kind, hp, ?_, ?_, ?_⟩
      · intro m
        refine ⟨h.merge hpending m, ?_⟩
        rintro (rfl | rfl)
        · exact hfirst
        · exact hlater
      · exact congrArg (fun k => { state with bufferKind := k }) hkind
      · cases kind <;> simp [stage, hname, hkind, ParagraphKind.role]

theorem Sound.pending_of_idle (h : state.Sound) (hstage : state.stage = .idle) :
    state.pendingWords = [] := by
  obtain ⟨name, -, -, hother⟩ | ⟨-, -, ⟨hempty, -⟩ | ⟨p, -, -, -, hother⟩⟩ := h.cases
  · cases hother.symm.trans hstage
  · exact congrArg ReflowState.pendingWords hempty
  · cases hother.symm.trans hstage

end ReflowState

/-! ### Writing blocks -/

namespace Engine

variable {plan : Plan} {engine next last : Engine}

def put (plan : Plan) (engine : Engine) (block : Block) : Engine :=
  { engine with
    out := engine.out ++ [block.write plan.width plan.ending]
    lastWrapped := block.isFilled
    notes := engine.notes ++ block.notes }

def putAll (plan : Plan) (engine : Engine) (blocks : List Block) : Engine :=
  blocks.foldl (put plan) engine

theorem putAll_append (blocks more : List Block) :
    engine.putAll plan (blocks ++ more) = (engine.putAll plan blocks).putAll plan more :=
  List.foldl_append

theorem putAll_withState (state : ReflowState) (blocks : List Block) :
    putAll plan { engine with state := state } blocks =
      { putAll plan engine blocks with state := state } := by
  induction blocks generalizing engine with
  | nil => rfl
  | cons block blocks ih => exact @ih (engine.put plan block)

theorem putAll_out (blocks : List Block) :
    (engine.putAll plan blocks).out =
      engine.out ++ blocks.map (Block.write plan.width plan.ending) := by
  induction blocks generalizing engine with
  | nil => simp [putAll]
  | cons block blocks ih =>
    rw [putAll, List.foldl_cons, ← putAll, ih]
    simp [put]

theorem putAll_notes (blocks : List Block) :
    (engine.putAll plan blocks).notes = engine.notes ++ blocks.flatMap Block.notes := by
  induction blocks generalizing engine with
  | nil => simp [putAll]
  | cons block blocks ih =>
    rw [putAll, List.foldl_cons, ← putAll, ih]
    simp [put]

theorem putAll_lastWrapped (blocks : List Block) (h : engine.lastWrapped = false) :
    (engine.putAll plan blocks).lastWrapped = blocks.getLast?.any Block.isFilled := by
  cases hlast : blocks.getLast? with
  | none =>
    obtain rfl := List.getLast?_eq_none_iff.mp hlast
    exact h
  | some block =>
    obtain ⟨front, rfl⟩ := List.getLast?_eq_some_iff.mp hlast
    rw [putAll_append]
    rfl

/-- Whether an engine has come to a stage and written blocks on the way. -/
structure Follows (plan : Plan) (engine : Engine) (target : Stage × List Block) (next : Engine) :
    Prop where
  sound : next.state.Sound
  stage_eq : next.state.stage = target.1
  eq : next = { engine.putAll plan target.2 with state := next.state }

theorem Follows.putAll_eq {target : Stage × List Block} (h : engine.Follows plan target next)
    (more : List Block) (state : ReflowState) :
    { next.putAll plan more with state := state } =
      { engine.putAll plan (target.2 ++ more) with state := state } := by
  calc { next.putAll plan more with state := state }
      = { putAll plan { engine.putAll plan target.2 with state := next.state } more with
          state := state } :=
        congrArg (fun e : Engine => { putAll plan e more with state := state }) h.eq
    _ = { engine.putAll plan (target.2 ++ more) with state := state } := by
      rw [putAll_withState, putAll_append]

theorem Follows.trans {stage stage' : Stage} {blocks more : List Block}
    (h : engine.Follows plan (stage, blocks) next) (h' : next.Follows plan (stage', more) last) :
    engine.Follows plan (stage', blocks ++ more) last :=
  ⟨h'.sound, h'.stage_eq, h'.eq.trans (h.putAll_eq more last.state)⟩

theorem follows_self (h : engine.state.Sound) :
    engine.Follows plan (engine.state.stage, []) engine :=
  ⟨h, rfl, rfl⟩

theorem follows_put (h : engine.state.Sound) (block : Block) :
    engine.Follows plan (engine.state.stage, [block]) (engine.put plan block) :=
  ⟨h, rfl, rfl⟩

theorem Follows.put {stage : Stage} {blocks : List Block}
    (h : engine.Follows plan (stage, blocks) next) (block : Block) :
    engine.Follows plan (stage, blocks ++ [block]) (next.put plan block) := by
  have hput := h.trans (follows_put h.sound block)
  rwa [h.stage_eq] at hput

theorem emit_eq_put (plan : Plan) (engine : Engine) (line : Line) :
    engine.emit line = engine.put plan (.copied line .none) := by
  simp [emit, Engine.put, Block.write, Line.source, Block.isFilled, Block.notes,
    Block.crossingNotes]

theorem emit_noteCrossing_eq_put (plan : Plan) (engine : Engine) (line : Line)
    (crossing : Crossing) :
    (engine.emit line).noteCrossing line crossing = engine.put plan (.copied line crossing) :=
  rfl

theorem flush_eq (h : engine.state.Sound) :
    engine.flush plan =
      { engine.putAll plan engine.state.stage.flush with state := engine.state.emptied } := by
  obtain ⟨name, hinside, -, hstage⟩ | ⟨-, -, ⟨hempty, hstage⟩ | ⟨p, hp, -, hholding, hstage⟩⟩ :=
    h.cases
  · rw [hstage]
    simp [flush, h.inside hinside, ReflowState.emptied, Stage.flush, putAll]
  · have hwords : engine.state.pendingWords = [] := congrArg ReflowState.pendingWords hempty
    rw [hstage]
    simp [flush, hwords, ReflowState.emptied, Stage.flush, putAll]
  · have hwords : engine.state.pendingWords = p.words := congrArg _ hholding
    have hfirst : engine.state.currentMargin = p.frame.first := congrArg _ hholding
    have hlater : engine.state.hanging = p.frame.later := congrArg _ hholding
    rw [hstage]
    simp [flush, hp.nonempty, Stage.flush, putAll, Engine.put, ReflowState.emptied, Block.write,
      Block.isFilled, Block.notes, hwords, hfirst, hlater]

theorem follows_flush (h : engine.state.Sound) (hname : engine.state.passthroughName = none) :
    engine.Follows plan (.idle, engine.state.stage.flush) (engine.flush plan) := by
  rw [flush_eq h]
  exact ⟨h.emptied, ReflowState.stage_emptied hname, rfl⟩

theorem follows_copy (h : engine.state.Sound) (hname : engine.state.passthroughName = none)
    (line : Line) (crossing : Crossing) :
    engine.Follows plan (engine.state.stage.copy line crossing)
      (((engine.flush plan).emit line).noteCrossing line crossing) := by
  rw [emit_noteCrossing_eq_put plan]
  exact (follows_flush h hname).put _

theorem follows_copy_none (h : engine.state.Sound)
    (hname : engine.state.passthroughName = none) (line : Line) :
    engine.Follows plan (engine.state.stage.copy line .none) ((engine.flush plan).emit line) := by
  rw [emit_eq_put plan]
  exact (follows_flush h hname).put _

theorem follows_open (h : engine.state.Sound) (hname : engine.state.passthroughName = none)
    {p : Paragraph} (hp : p.Gathered) {merge : List Text}
    (hmerge : ∀ m, m ∈ merge ↔ m = p.frame.first ∨ m = p.frame.later) :
    engine.Follows plan (.gathering p, engine.state.stage.flush)
      (((engine.flush plan).start p.kind.role p.frame.first p.frame.later merge).gather
        p.words) := by
  rw [flush_eq h]
  exact ⟨h.emptied.holding hname hp hmerge, ReflowState.stage_holding hname p merge, rfl⟩

theorem follows_gather (h : engine.state.Sound) {p : Paragraph}
    (hstage : engine.state.stage = .gathering p) {words : List Text}
    (hwords : ∀ w ∈ words, IsWord w)
    (hsigns : p.kind ≠ .comment → ∀ w ∈ words, SignsEscaped w) :
    engine.Follows plan (.gathering (p.append words), []) (engine.gather words) := by
  obtain ⟨name, -, -, hother⟩ | ⟨-, hname, ⟨-, hother⟩ | ⟨q, hq, hmerge, hholding, hsame⟩⟩ :=
    h.cases
  · cases hother.symm.trans hstage
  · cases hother.symm.trans hstage
  · obtain rfl := Stage.gathering.inj (hsame.symm.trans hstage)
    have hstate : (engine.gather words).state =
        engine.state.holding (q.append words) engine.state.mergeMargins := by
      rw [Engine.gather]
      conv_lhs => rw [hholding]
      rfl
    refine ⟨?_, ?_, rfl⟩
    · rw [hstate]
      exact h.holding hname (hq.append hwords hsigns) hmerge
    · rw [hstate]
      exact ReflowState.stage_holding hname _ _

/-- A paragraph that a line with a forced break ends is written out. -/
theorem Follows.flushAfter {p : Paragraph} {blocks : List Block}
    (h : engine.Follows plan (.gathering p, blocks) next) (line : Text) :
    engine.Follows plan ((p.settle line).1, blocks ++ (p.settle line).2)
      (next.flushAfter plan line) := by
  rw [Engine.flushAfter, Paragraph.settle]
  cases endsWithBreak line with
  | true =>
    have hname := ReflowState.passthroughName_of_gathering h.stage_eq
    have hflush := h.trans (follows_flush h.sound hname)
    rwa [h.stage_eq] at hflush
  | false => simpa using h

/-! ### One line -/

/-- A line at a margin joins what is pending if it continues the paragraph. -/
theorem continues_of_gathering (h : engine.state.Sound) {p : Paragraph}
    (hstage : engine.state.stage = .gathering p) (margin : Text) :
    engine.state.continues .prose margin = p.continuedByProse margin ∧
      engine.state.continues .comment margin = p.continuedByComment margin := by
  obtain ⟨name, -, -, hother⟩ | ⟨-, -, ⟨-, hother⟩ | ⟨q, hq, hmerge, hholding, hsame⟩⟩ := h.cases
  · cases hother.symm.trans hstage
  · cases hother.symm.trans hstage
  · obtain rfl := Stage.gathering.inj (hsame.symm.trans hstage)
    have hmargins : engine.state.mergeMargins.contains margin = q.admits margin := by
      rw [Bool.eq_iff_iff, List.contains_iff_mem, hmerge, Paragraph.admits]
      simp
    have hwords : engine.state.pendingWords = q.words := congrArg _ hholding
    have hkind : engine.state.bufferKind = some q.kind.role := congrArg _ hholding
    rw [ReflowState.continues, ReflowState.continues, Paragraph.continuedByProse,
      Paragraph.continuedByComment, hmargins, hwords, hkind,
      List.isEmpty_eq_false_iff.mpr hq.nonempty]
    cases q.kind with
    | prose => exact ⟨rfl, rfl⟩
    | item => exact ⟨rfl, rfl⟩
    | comment => exact ⟨rfl, rfl⟩

theorem continues_of_idle (h : engine.state.Sound) (hstage : engine.state.stage = .idle)
    (role : LineRole) (margin : Text) : engine.state.continues role margin = false := by
  simp [ReflowState.continues, h.pending_of_idle hstage]

/-- Whether a step got through its line to where a reader goes. -/
def Completes (plan : Plan) (engine : Engine) (target : Stage × List Block) (step : Step) : Prop :=
  ∃ next, step = (next, none) ∧ engine.Follows plan target next

/-- Whether the margin of a line can be written with a plan's tab width. -/
def Writable (plan : Plan) (line : Text) : Prop :=
  ∀ fault, plan.tab = .error fault → holdsTab line = false

theorem Writable.measure_eq {line : Text} (h : Writable plan line)
    (marginOf : Int → Text → Text) :
    measure plan.tab marginOf line = .ok (marginOf plan.style.tabWidth line) :=
  measure_of_usable h marginOf

theorem mem_merge_even (margin m : Text) :
    m ∈ [margin] ↔ m = (Frame.even margin).first ∨ m = (Frame.even margin).later := by
  simp [Frame.even]

theorem processProse_completes (h : engine.state.Sound)
    (hname : engine.state.passthroughName = none) {line : Text}
    (hkind : kindOf line = .prose none) (hwritable : Writable plan line) :
    engine.Completes plan (engine.state.stage.readProse plan.style line)
      (engine.processProse plan line) := by
  have hfresh : (proseParagraph plan.style line).Gathered :=
    Paragraph.ofLine?_gathered (by rw [Paragraph.ofLine?, hkind])
  have hopen : engine.Follows plan _ _ :=
    (follows_open h hname hfresh (mem_merge_even _)).flushAfter line
  rw [processProse, hwritable.measure_eq]
  refine ⟨_, rfl, ?_⟩
  obtain ⟨name, -, hother, -⟩ | ⟨-, -, ⟨-, hstage⟩ | ⟨p, hp, -, -, hstage⟩⟩ := h.cases
  · rw [hname] at hother
    cases hother
  · rw [hstage] at hopen ⊢
    simp only [continues_of_idle h hstage, Bool.not_false, Bool.true_or, if_true]
    exact hopen
  · rw [(continues_of_gathering h hstage _).1]
    rw [hstage] at hopen ⊢
    have hread : Stage.readProse plan.style (.gathering p) line =
        if p.continuedByProse (margin plan.style.tabWidth line) && !opensParagraph line then
          (p.append (Text.words line)).settle line
        else (((proseParagraph plan.style line).settle line).1,
          .paragraph p :: ((proseParagraph plan.style line).settle line).2) := rfl
    rw [hread]
    cases p.continuedByProse (margin plan.style.tabWidth line) with
    | false => exact hopen
    | true =>
      cases opensParagraph line with
      | true => exact hopen
      | false =>
        exact (follows_gather h hstage (words_isWord line)
          fun _ => words_signsEscaped (Or.inr hkind)).flushAfter line

theorem processItem_completes (h : engine.state.Sound)
    (hname : engine.state.passthroughName = none) {line : Text}
    (hkind : kindOf line = .item none) (hwritable : Writable plan line) :
    engine.Completes plan (engine.state.stage.readItem plan.style line)
      (engine.processItem plan line) := by
  have hfresh : (itemParagraph plan.style line).Gathered :=
    Paragraph.ofLine?_gathered (by rw [Paragraph.ofLine?, hkind])
  rw [processItem, hwritable.measure_eq, hwritable.measure_eq]
  refine ⟨_, rfl, ?_⟩
  exact (follows_open h hname hfresh fun m => List.mem_pair).flushAfter line

theorem processComment_completes (h : engine.state.Sound)
    (hname : engine.state.passthroughName = none) {line : Line}
    (hkind : kindOf line.text = .comment)
    (hwritable : isMergeableComment line.text = true → Writable plan line.text) :
    engine.Completes plan (engine.state.stage.readComment plan.style line)
      (engine.processComment plan line) := by
  rw [processComment, Stage.readComment]
  cases hmerges : isMergeableComment line.text with
  | false => exact ⟨_, rfl, follows_copy_none h hname line⟩
  | true =>
    have hline : Paragraph.ofLine? plan.style line.text =
        some (commentParagraph plan.style line.text) := by
      rw [Paragraph.ofLine?, hkind]
      exact if_pos hmerges
    have hfresh := Paragraph.ofLine?_gathered hline
    have hopen : engine.Follows plan _ _ := follows_open h hname hfresh (mem_merge_even _)
    rw [(hwritable hmerges).measure_eq]
    refine ⟨_, rfl, ?_⟩
    obtain ⟨name, -, hother, -⟩ | ⟨-, -, ⟨-, hstage⟩ | ⟨p, hp, -, -, hstage⟩⟩ := h.cases
    · rw [hname] at hother
      cases hother
    · rw [hstage] at hopen ⊢
      simp only [continues_of_idle h hstage]
      exact hopen
    · dsimp only
      rw [(continues_of_gathering h hstage _).2]
      rw [hstage] at hopen ⊢
      change engine.Follows plan
        (if p.continuedByComment (commentMargin plan.style.tabWidth line.text) then
          (.gathering (p.append (Text.words (commentBody line.text))), [])
        else (.gathering (commentParagraph plan.style line.text), [.paragraph p])) _
      cases hjoins : p.continuedByComment (commentMargin plan.style.tabWidth line.text) with
      | false => exact hopen
      | true =>
        refine follows_gather h hstage (words_isWord _) fun hprose => absurd ?_ hprose
        rw [Paragraph.continuedByComment, Bool.and_eq_true, beq_iff_eq] at hjoins
        exact hjoins.1

theorem emitCommented_eq {line : Line} {pos : Nat}
    (hwritable : isCommandLine (stripRight ((strip line.text).take pos)) = false →
      Writable plan line.text) :
    engine.emitCommented plan line pos =
      (engine.put plan (commentedBlock plan.style line pos), none) := by
  simp only [emitCommented, commentedBlock]
  cases hcommands : isCommandLine (stripRight ((strip line.text).take pos)) with
  | true => simp only [if_true, emit_eq_put plan]
  | false =>
    rw [(hwritable hcommands).measure_eq, (hwritable hcommands).measure_eq]
    simp [put, Block.write, Block.isFilled, Block.notes, Layout.style]

theorem copyInside_follows (h : engine.state.Sound) {name : Text}
    (hname : engine.state.passthroughName = some name) (line : Line) :
    engine.Follows plan (Stage.readInside name line) (engine.copyInside line) := by
  have hstage : engine.state.stage = .copying name := by simp [ReflowState.stage, hname]
  have hinside : engine.state.insidePassthrough = true := h.inside_iff.mpr (by simp [hname])
  simp only [copyInside, hname, Stage.readInside]
  cases closesEnvironment line.text name with
  | false =>
    simp only [emit_eq_put plan, ← hstage]
    exact follows_put h _
  | true =>
    have hkind := h.pending_iff.mp (h.inside (h.inside_iff.mpr (by simp [hname])))
    refine ⟨h.left, ?_, rfl⟩
    simp [ReflowState.stage, leave, noteCrossing, emit, hkind]

theorem follows_enter (h : engine.state.Sound) (hname : engine.state.passthroughName = none)
    (line : Line) (name : Text) :
    engine.Follows plan (.copying name, engine.state.stage.flush ++ [.copied line (.enters name)])
      ((((engine.flush plan).emit line).noteCrossing line (.enters name)).enter name) := by
  have hcopy : engine.Follows plan _ _ := follows_copy h hname line (.enters name)
  refine ⟨hcopy.sound.entered (hcopy.sound.pending_of_idle hcopy.stage_eq) name, rfl, ?_⟩
  exact congrArg (fun e : Engine => e.enter name) hcopy.eq

theorem writable_of_reads {stage : Stage} {line : Text} (hopen : stage.openName = none)
    (htab : ∀ fault, plan.tab = .error fault → stage.meetsTab line = false)
    (hreads : Stage.idle.readsMargin line = true) : Writable plan line := by
  intro fault hfault
  have hmeets := htab fault hfault
  rw [Stage.meetsTab, Stage.readsMargin_eq, hopen, hreads] at hmeets
  exact hmeets

theorem processOutside_completes (h : engine.state.Sound)
    (hname : engine.state.passthroughName = none) (line : Line)
    (hwritable : Stage.idle.readsMargin line.text = true → Writable plan line.text) :
    engine.Completes plan (engine.state.stage.readOutside plan.style line)
      (engine.processOutside plan line) := by
  have hcommented : ∀ pos, kindOf line.text = .item (some pos) ∨
      kindOf line.text = .prose (some pos) →
      engine.Completes plan (engine.state.stage.readCommented plan.style line pos)
        ((engine.flush plan).emitCommented plan line pos) := by
    intro pos hkind
    rw [emitCommented_eq]
    · exact ⟨_, rfl, (follows_flush h hname).put _⟩
    · intro hcommands
      apply hwritable
      rcases hkind with hkind | hkind <;> simp [Stage.readsMargin, hkind, hcommands]
  rw [processOutside, Stage.readOutside]
  cases hkind : kindOf line.text with
  | begins name =>
    dsimp only [Stage.readBegin, Layout.style]
    cases plan.tracked.contains name with
    | true => exact ⟨_, rfl, follows_copy_none h hname line⟩
    | false => exact ⟨_, rfl, follows_enter h hname line name⟩
  | ends name =>
    dsimp only [Stage.readEnd, Layout.style]
    cases plan.tracked.contains name with
    | true => exact ⟨_, rfl, follows_copy_none h hname line⟩
    | false => exact ⟨_, rfl, follows_copy h hname line (.unmatched name)⟩
  | blank => exact ⟨_, rfl, follows_copy_none h hname line⟩
  | command => exact ⟨_, rfl, follows_copy_none h hname line⟩
  | comment =>
    refine processComment_completes h hname hkind fun hmerges => hwritable ?_
    simp [Stage.readsMargin, hkind, hmerges]
  | item pos =>
    cases pos with
    | none =>
      exact processItem_completes h hname hkind (hwritable (by simp [Stage.readsMargin, hkind]))
    | some pos => exact hcommented pos (Or.inl hkind)
  | prose pos =>
    cases pos with
    | none =>
      exact processProse_completes h hname hkind (hwritable (by simp [Stage.readsMargin, hkind]))
    | some pos => exact hcommented pos (Or.inr hkind)

/-- A line that no tab stands in the way of is read as a reader reads it. -/
theorem process_completes (h : engine.state.Sound) {line : Line}
    (htab : ∀ fault, plan.tab = .error fault →
      engine.state.stage.meetsTab line.text = false) :
    engine.Completes plan (engine.state.stage.read plan.style line) (engine.process plan line) := by
  obtain ⟨name, hinside, hname, hstage⟩ | ⟨hinside, hname, hout⟩ := h.cases
  · rw [process, hinside, hstage]
    exact ⟨_, rfl, copyInside_follows h hname line⟩
  · obtain ⟨hopen, hread⟩ : engine.state.stage.openName = none ∧
        engine.state.stage.read plan.style line =
          engine.state.stage.readOutside plan.style line := by
      obtain ⟨-, hstage⟩ | ⟨p, -, -, -, hstage⟩ := hout
      · rw [hstage]
        exact ⟨rfl, rfl⟩
      · rw [hstage]
        exact ⟨rfl, rfl⟩
    rw [process, hinside, hread]
    exact processOutside_completes h hname line (writable_of_reads hopen htab)

/-- A line that a tab stands in the way of stops the engine, which may have written out the pending
paragraph before. -/
theorem process_stops (h : engine.state.Sound) {line : Line} {fault : TabFault}
    (hfault : plan.tab = .error fault) (hmeets : engine.state.stage.meetsTab line.text = true) :
    engine.process plan line = (engine, some fault) ∨
      engine.process plan line = (engine.flush plan, some fault) := by
  rw [Stage.meetsTab, Stage.readsMargin_eq, Bool.and_eq_true, Bool.and_eq_true] at hmeets
  obtain ⟨⟨hopen, hreads⟩, htab⟩ := hmeets
  have hmeasure : ∀ marginOf, measure plan.tab marginOf line.text = .error fault := by
    intro marginOf
    rw [hfault, measure_of_error htab]
  have hinside : engine.state.insidePassthrough = false := by
    obtain ⟨name, -, -, hstage⟩ | ⟨hinside, -⟩ := h.cases
    · rw [hstage] at hopen
      cases hopen
    · exact hinside
  rw [process, hinside, if_neg Bool.false_ne_true, processOutside]
  cases hkind : kindOf line.text with
  | begins name => simp [Stage.readsMargin, hkind] at hreads
  | ends name => simp [Stage.readsMargin, hkind] at hreads
  | blank => simp [Stage.readsMargin, hkind] at hreads
  | command => simp [Stage.readsMargin, hkind] at hreads
  | comment =>
    have hmerges : isMergeableComment line.text = true := by
      simpa [Stage.readsMargin, hkind] using hreads
    simp [processComment, hmerges, hmeasure]
  | item pos =>
    cases pos with
    | none => simp [processItem, hmeasure]
    | some pos =>
      have hcommands : isCommandLine (stripRight ((strip line.text).take pos)) = false := by
        simpa [Stage.readsMargin, hkind] using hreads
      simp [emitCommented, hcommands, hmeasure]
  | prose pos =>
    cases pos with
    | none => simp [processProse, hmeasure]
    | some pos =>
      have hcommands : isCommandLine (stripRight ((strip line.text).take pos)) = false := by
        simpa [Stage.readsMargin, hkind] using hreads
      simp [emitCommented, hcommands, hmeasure]

/-! ### Many lines -/

theorem process_sound (h : engine.state.Sound) (line : Line) :
    (engine.process plan line).1.state.Sound := by
  by_cases htab : ∃ fault, plan.tab = .error fault ∧
      engine.state.stage.meetsTab line.text = true
  · obtain ⟨fault, hfault, hmeets⟩ := htab
    rcases process_stops h hfault hmeets with hstop | hstop
    · rwa [hstop]
    · rw [hstop, flush_eq h]
      exact h.emptied
  · have hmeets : ∀ fault, plan.tab = .error fault →
        engine.state.stage.meetsTab line.text = false := by
      intro fault hfault
      rw [← Bool.not_eq_true]
      exact fun hmeets => htab ⟨fault, hfault, hmeets⟩
    obtain ⟨next, hstep, hfollows⟩ := process_completes h hmeets
    rw [hstep]
    exact hfollows.sound

theorem run_sound (h : engine.state.Sound) (lines : List Line) :
    (engine.run plan lines).1.state.Sound := by
  induction lines generalizing engine with
  | nil => exact h
  | cons line rest ih =>
    have hnext : (engine.process plan line).1.state.Sound := process_sound h line
    rw [run]
    cases hstep : engine.process plan line with
    | mk next stopped =>
      rw [hstep] at hnext
      cases stopped with
      | none => exact ih hnext
      | some fault => exact hnext

theorem run_completes (h : engine.state.Sound) {lines : List Line}
    (htab : ∀ fault, plan.tab = .error fault →
      ¬ engine.state.stage.MeetsTab plan.style lines) :
    ∃ blocks, engine.Completes plan (engine.state.stage.after plan.style lines, blocks)
        (engine.run plan lines) ∧
      engine.state.stage.segment plan.style lines =
        blocks ++ (engine.state.stage.after plan.style lines).flush := by
  induction lines generalizing engine with
  | nil => exact ⟨[], ⟨_, rfl, follows_self h⟩, rfl⟩
  | cons line rest ih =>
    simp only [Stage.meetsTab_cons_iff, not_or, Bool.not_eq_true] at htab
    obtain ⟨next, hstep, hfollows⟩ := process_completes h fun fault hfault => (htab fault hfault).1
    rw [← hfollows.stage_eq] at htab
    obtain ⟨blocks, ⟨last, hrun, hlast⟩, hsegment⟩ :=
      ih hfollows.sound fun fault hfault => (htab fault hfault).2
    rw [hfollows.stage_eq] at hlast hsegment
    refine ⟨(engine.state.stage.read plan.style line).2 ++ blocks, ⟨last, ?_, ?_⟩, ?_⟩
    · rw [run, hstep]
      exact hrun
    · exact hfollows.trans hlast
    · calc engine.state.stage.segment plan.style (line :: rest)
          = (engine.state.stage.read plan.style line).2 ++
              (engine.state.stage.read plan.style line).1.segment plan.style rest := rfl
        _ = _ := by
          rw [hsegment, List.append_assoc]
          rfl

theorem run_stops (h : engine.state.Sound) {lines : List Line} {fault : TabFault}
    (hfault : plan.tab = .error fault) (hmeets : engine.state.stage.MeetsTab plan.style lines) :
    ∃ next, engine.run plan lines = (next, some fault) := by
  induction lines generalizing engine with
  | nil => exact absurd hmeets Stage.not_meetsTab_nil
  | cons line rest ih =>
    rw [run]
    cases hfirst : engine.state.stage.meetsTab line.text with
    | true =>
      rcases process_stops h hfault hfirst with hstop | hstop
      · exact ⟨_, by rw [hstop]⟩
      · exact ⟨_, by rw [hstop]⟩
    | false =>
      obtain ⟨next, hstep, hfollows⟩ : engine.Completes plan _ _ :=
        process_completes h fun _ _ => hfirst
      rw [Stage.meetsTab_cons_iff, hfirst, ← hfollows.stage_eq] at hmeets
      rw [hstep]
      exact ih hfollows.sound (hmeets.resolve_left Bool.false_ne_true)

end Engine

/-- Between any two lines, words are pending exactly if there is a kind for them; an environment is
copied exactly if it has a name, and then nothing is pending. Pending words are words of prose, of
an item or of a comment, lines at either margin may continue them, and outside comments no sign in
them opens a comment. -/
theorem engine_keeps_state_sound (plan : Plan) (lines : List Line) :
    (({} : Engine).run plan lines).1.state.Sound :=
  Engine.run_sound ReflowState.sound_fresh lines

/-- A tab stands in the way of lines: a margin that is looked at holds one, and no tab can be
written as spaces. -/
def Layout.Stops (layout : Layout) (lines : List Line) : Prop :=
  (∃ fault, layout.tab = .error fault) ∧ MeetsTab layout.style lines

variable {plan : Plan} {lines : List Line}

/-- An engine writes what the blocks of the lines come to, unless a tab stops it. -/
theorem Plan.reflow_eq (h : ¬ plan.Stops lines) :
    plan.reflow lines =
      ⟨reflowNotes plan.style lines, .ok (reflowLines plan.style plan.ending lines)⟩ := by
  obtain ⟨blocks, ⟨next, hrun, hfollows⟩, hsegment⟩ :=
    Engine.run_completes ReflowState.sound_fresh fun fault hfault hmeets =>
      h ⟨⟨fault, hfault⟩, hmeets⟩
  have hflush : next.flush plan =
      { ({} : Engine).putAll plan (blocksOf plan.style lines) with
        state := next.state.emptied } := by
    have hblocks : blocksOf plan.style lines = _ := hsegment
    rw [Engine.flush_eq hfollows.sound, hfollows.stage_eq, hblocks]
    exact hfollows.putAll_eq _ _
  have hout : (next.flush plan).out =
      (blocksOf plan.style lines).map (Block.write plan.width plan.ending) := by
    rw [hflush]
    exact Engine.putAll_out _
  have hlast : (next.flush plan).lastWrapped =
      (blocksOf plan.style lines).getLast?.any Block.isFilled := by
    rw [hflush]
    exact Engine.putAll_lastWrapped _ rfl
  have hnotes : (next.flush plan).notes = reflowNotes plan.style lines := by
    rw [hflush]
    exact Engine.putAll_notes _
  rw [Plan.reflow, hrun]
  simp only [hnotes, Engine.text, hout, hlast, ← List.flatMap_def]
  rfl

theorem Plan.reflow_of_stops (h : plan.Stops lines) :
    ∃ fault, (plan.reflow lines).result = .error fault := by
  obtain ⟨⟨fault, hfault⟩, hmeets⟩ := h
  obtain ⟨next, hrun⟩ := Engine.run_stops ReflowState.sound_fresh hfault hmeets
  refine ⟨fault, ?_⟩
  rw [Plan.reflow, hrun]

theorem blocksOf_incremental (style : Style) (lines : List Line) (b : Bool) :
    blocksOf { style with incremental := b } lines = blocksOf style lines := by
  have hsegment : ∀ stage : Stage,
      stage.segment { style with incremental := b } lines = stage.segment style lines := by
    induction lines with
    | nil => exact fun _ => rfl
    | cons line rest ih => exact fun stage => congrArg _ (ih (stage.read style line).1)
  exact hsegment .idle

namespace Style

variable {limits : Limits} {style : Style}

/-- Which margins are looked at does not depend on the tab width, so neither on its use. -/
theorem layout_stops_iff :
    (style.layout limits).Stops lines ↔ limits.Exceeded style.tabWidth ∧ MeetsTab style lines :=
  and_congr checkTab_error_iff (Stage.meetsTab_tabWidth .idle lines _)

/-- A tab width that is too large does no harm to lines in which it is not looked at. -/
theorem layout_blocksOf (h : ¬ (style.layout limits).Stops lines) :
    blocksOf (style.layout limits).style lines = blocksOf style lines := by
  rw [layout_stops_iff] at h
  by_cases hexceeded : limits.Exceeded style.tabWidth
  · obtain ⟨fault, hfault⟩ := checkTab_error_iff.mpr hexceeded
    have hstyle : (style.layout limits).style =
        { style with tabWidth := 0, incremental := true } := by
      simp [layout, Layout.style, hfault, Except.toOption]
    have hmeets : ¬ MeetsTab style lines := fun hmeets => h ⟨hexceeded, hmeets⟩
    rw [hstyle]
    exact (blocksOf_incremental { style with tabWidth := 0 } lines true).trans
      (blocksOf_tabWidth hmeets 0)
  · have hstyle : (style.layout limits).style = { style with incremental := true } := by
      simp [layout, Layout.style, checkTab_of_not_exceeded hexceeded, Except.toOption]
    rw [hstyle, blocksOf_incremental]

end Style

end HardWrap
