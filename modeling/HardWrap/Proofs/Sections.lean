import HardWrap.Document.Keystroke
import HardWrap.Proofs.Lines

/-! Sections: blocks together with the lines they were read from. The reader works line by line and
keeps the paragraph it gathers; here every section is taken off the lines at once. A line that opens
a paragraph takes the lines that continue it along, and every other line is a section of its own.
Both ways of reading give the same blocks. -/

namespace HardWrap

open Text

/-- Consecutive lines and the block that was read from them. -/
structure Section where
  lines : List Line
  block : Block
  deriving DecidableEq, Repr

namespace Paragraph

/-- The whole paragraph that a line opens, and the number of lines after it that belong to it. -/
def gather (p : Paragraph) (style : Style) (line : Line) (rest : List Line) : Paragraph × Nat :=
  if p.isEndedBy line.text then (p, 0) else p.absorb style (rest.map Line.text)

@[simp] theorem extend_kind (p : Paragraph) (line : Text) : (p.extend line).kind = p.kind := rfl

@[simp] theorem extend_frame (p : Paragraph) (line : Text) : (p.extend line).frame = p.frame := rfl

@[simp] theorem extend_words (p : Paragraph) (line : Text) :
    (p.extend line).words = p.words ++ Text.words (p.content line) := rfl

theorem extend_of_prose {p : Paragraph} (h : p.kind ≠ .comment) (line : Text) :
    p.extend line = p.append (Text.words line) := by
  unfold extend content
  cases hk : p.kind with
  | prose => simp
  | item => simp
  | comment => exact absurd hk h

theorem extend_of_comment {p : Paragraph} (h : p.kind = .comment) (line : Text) :
    p.extend line = p.append (Text.words (commentBody line)) := by
  simp [extend, content, h]

end Paragraph

namespace Stage

/-- A line that continues the gathered paragraph is added to it. -/
theorem read_of_joins {style : Style} {p : Paragraph} {line : Line}
    (h : p.joins style line.text = true) :
    (gathering p).read style line =
      if p.isEndedBy line.text then (idle, [.paragraph (p.extend line.text)])
      else (gathering (p.extend line.text), []) := by
  unfold Paragraph.joins at h
  split at h
  next hp hk =>
    simp only [Bool.and_eq_true] at h
    simp [read, readOutside, hk, readComment, h.1, h.2, commentParagraph, Frame.even,
      Paragraph.isEndedBy, hp, Paragraph.extend_of_comment hp]
  next hp hk =>
    simp only [Bool.and_eq_true, Bool.not_eq_eq_eq_not, Bool.not_true] at h
    simp [read, readOutside, hk, readProse, h.1, h.2, proseParagraph, Frame.even,
      Paragraph.isEndedBy, hp, Paragraph.settle,
      Paragraph.extend_of_prose (p := p) (by simp [hp])]
  next hp hk =>
    simp only [Bool.and_eq_true, Bool.not_eq_eq_eq_not, Bool.not_true] at h
    simp [read, readOutside, hk, readProse, h.1, h.2, proseParagraph, Frame.even,
      Paragraph.isEndedBy, hp, Paragraph.settle,
      Paragraph.extend_of_prose (p := p) (by simp [hp])]
  next => cases h

/-- Any other line ends the gathered paragraph and is read as if there had been none. -/
theorem read_of_not_joins {style : Style} {p : Paragraph} {line : Line}
    (h : p.joins style line.text = false) :
    (gathering p).read style line =
      ((idle.read style line).1, .paragraph p :: (idle.read style line).2) := by
  unfold Paragraph.joins at h
  simp only [read, readOutside]
  cases hk : kindOf line.text with
  | blank => rfl
  | command => rfl
  | begins name =>
    simp only [readBegin]
    split <;> rfl
  | ends name => rfl
  | comment =>
    simp only [readComment]
    split
    · rfl
    next hm =>
      have hm' : isMergeableComment line.text = true := by simpa using hm
      have hno : p.continuedByComment (commentMargin style.tabWidth line.text) = false := by
        cases hp : p.kind with
        | comment => simpa [hp, hk, hm'] using h
        | prose => simp [Paragraph.continuedByComment, hp]
        | item => simp [Paragraph.continuedByComment, hp]
      simp [commentParagraph, Frame.even, hno]
  | item pos =>
    cases pos with
    | none => rfl
    | some pos => rfl
  | prose pos =>
    cases pos with
    | some pos => rfl
    | none =>
      have hno : (p.continuedByProse (margin style.tabWidth line.text)
          && !opensParagraph line.text) = false := by
        cases hp : p.kind with
        | comment => simp [Paragraph.continuedByProse, hp]
        | prose => simpa [hp, hk, Bool.and_comm] using h
        | item => simpa [hp, hk, Bool.and_comm] using h
      simp [readProse, proseParagraph, Frame.even, hno]

/-- The reader between paragraphs, with or without an open environment. -/
def ofOpen : Option Text → Stage
  | none => idle
  | some name => copying name

end Stage

/-- The block of a line that is copied because an environment is open. -/
def insideBlock (name : Text) (line : Line) : Block :=
  .copied line (if closesEnvironment line.text name then .leaves name else .none)

/-- The block of a line that neither opens nor continues a paragraph. -/
def loneBlock (style : Style) (line : Line) : Block :=
  match kindOf line.text with
  | .begins name => .copied line (if style.tracked.contains name then .none else .enters name)
  | .ends name => .copied line (if style.tracked.contains name then .none else .unmatched name)
  | .item (some pos) | .prose (some pos) => commentedBlock style line pos
  | .item none | .prose none | .blank | .command | .comment => .copied line .none

theorem Stage.read_copying (style : Style) (name : Text) (line : Line) :
    (copying name).read style line =
      (ofOpen (nextOpen style (some name) line.text), [insideBlock name line]) := by
  simp only [read, readInside, nextOpen, insideBlock]
  split <;> rfl

theorem Stage.read_opening {style : Style} {line : Line} {p : Paragraph}
    (h : Paragraph.ofLine? style line.text = some p) :
    idle.read style line =
      if p.isEndedBy line.text then (idle, [.paragraph p]) else (gathering p, []) := by
  unfold Paragraph.ofLine? at h
  split at h
  next hk =>
    obtain rfl := Option.some.inj h
    simp [read, readOutside, hk, readProse, Paragraph.settle, Paragraph.isEndedBy, proseParagraph]
  next hk =>
    obtain rfl := Option.some.inj h
    simp only [read, readOutside, hk, readItem, Paragraph.settle, flush, List.nil_append]
    rfl
  next hk =>
    split at h
    next hm =>
      obtain rfl := Option.some.inj h
      simp [read, readOutside, hk, readComment, hm, Paragraph.isEndedBy, commentParagraph]
    next => cases h
  next => cases h

theorem Stage.read_lone {style : Style} {line : Line}
    (h : Paragraph.ofLine? style line.text = none) :
    idle.read style line = (ofOpen (nextOpen style none line.text), [loneBlock style line]) := by
  unfold Paragraph.ofLine? at h
  simp only [read, readOutside, nextOpen, loneBlock]
  cases hk : kindOf line.text with
  | blank => rfl
  | command => rfl
  | begins name =>
    simp only [readBegin]
    split <;> rfl
  | ends name => rfl
  | comment =>
    simp only [hk] at h
    split at h
    · cases h
    next hm =>
      simp only [readComment, hm]
      rfl
  | item pos =>
    cases pos with
    | none => simp [hk] at h
    | some pos => rfl
  | prose pos =>
    cases pos with
    | none => simp [hk] at h
    | some pos => rfl

/-- The sections of some lines, with the environment that is open before them. -/
def sectionsFrom (style : Style) : Option Text → List Line → List Section
  | _, [] => []
  | some name, line :: rest =>
    ⟨[line], insideBlock name line⟩ ::
      sectionsFrom style (nextOpen style (some name) line.text) rest
  | none, line :: rest =>
    match Paragraph.ofLine? style line.text with
    | some p =>
      ⟨line :: rest.take (p.gather style line rest).2, .paragraph (p.gather style line rest).1⟩ ::
        sectionsFrom style none (rest.drop (p.gather style line rest).2)
    | none =>
      ⟨[line], loneBlock style line⟩ :: sectionsFrom style (nextOpen style none line.text) rest
termination_by _ lines => lines.length

/-! ### The same blocks -/

theorem Stage.segment_cons (style : Style) (stage : Stage) (line : Line) (rest : List Line) :
    stage.segment style (line :: rest) =
      (stage.read style line).2 ++ (stage.read style line).1.segment style rest := rfl

/-- A gathered paragraph goes on as far as lines continue it; then the reader starts afresh. -/
theorem Stage.segment_gathering (style : Style) (p : Paragraph) (lines : List Line) :
    (gathering p).segment style lines =
      .paragraph (p.absorb style (lines.map Line.text)).1 ::
        idle.segment style (lines.drop (p.absorb style (lines.map Line.text)).2) := by
  induction lines generalizing p with
  | nil => rfl
  | cons line rest ih =>
    rw [segment_cons]
    cases hj : p.joins style line.text with
    | true =>
      rw [read_of_joins hj]
      simp only [List.map_cons, Paragraph.absorb, hj, ↓reduceIte]
      split
      · rfl
      · exact ih (p.extend line.text)
    | false =>
      rw [read_of_not_joins hj]
      simp only [List.map_cons, Paragraph.absorb, hj]
      rfl

theorem Stage.segment_opening {style : Style} {line : Line} {p : Paragraph}
    (h : Paragraph.ofLine? style line.text = some p) (rest : List Line) :
    idle.segment style (line :: rest) =
      .paragraph (p.gather style line rest).1 ::
        idle.segment style (rest.drop (p.gather style line rest).2) := by
  rw [segment_cons, read_opening h, Paragraph.gather]
  split
  · rfl
  · exact segment_gathering style p rest

theorem sections_blocks (style : Style) (isOpen : Option Text) (lines : List Line) :
    (sectionsFrom style isOpen lines).map Section.block =
      (Stage.ofOpen isOpen).segment style lines := by
  fun_induction sectionsFrom style isOpen lines with
  | case1 isOpen => cases isOpen <;> rfl
  | case2 name line rest ih =>
    rw [List.map_cons, ih, Stage.ofOpen, Stage.segment_cons, Stage.read_copying]
    rfl
  | case3 line rest p hp ih =>
    rw [List.map_cons, ih, Stage.ofOpen, Stage.segment_opening hp]
  | case4 line rest hp ih =>
    rw [List.map_cons, ih, Stage.ofOpen, Stage.segment_cons, Stage.read_lone hp]
    rfl

/-- No line is lost between the sections. -/
theorem sections_lines (style : Style) (isOpen : Option Text) (lines : List Line) :
    (sectionsFrom style isOpen lines).flatMap Section.lines = lines := by
  fun_induction sectionsFrom style isOpen lines with
  | case1 => rfl
  | case2 name line rest ih => simp [ih]
  | case3 line rest p hp ih => simp [ih]
  | case4 line rest hp ih => simp [ih]

theorem forall_mem_sections (style : Style) (isOpen : Option Text) {lines : List Line}
    {p : Line → Prop} :
    (∀ l ∈ lines, p l) ↔ ∀ s ∈ sectionsFrom style isOpen lines, ∀ l ∈ s.lines, p l := by
  conv_lhs => rw [← sections_lines style isOpen lines]
  exact List.forall_mem_flatMap

theorem blocksOf_eq (style : Style) (lines : List Line) :
    blocksOf style lines = (sectionsFrom style none lines).map Section.block := by
  rw [sections_blocks]
  rfl

/-! ### What a section is read from -/

/-- Lines that continue a paragraph, one after the other. -/
inductive Paragraph.Absorbs (style : Style) : Paragraph → List Text → Paragraph → Prop where
  | done (p) : Absorbs style p [] p
  | step {p q line lines} : p.joins style line = true → Absorbs style (p.extend line) lines q →
      Absorbs style p (line :: lines) q

theorem Paragraph.absorb_absorbs (style : Style) (p : Paragraph) (lines : List Text) :
    Absorbs style p (lines.take (p.absorb style lines).2) (p.absorb style lines).1 := by
  induction lines generalizing p with
  | nil => exact .done p
  | cons line rest ih =>
    simp only [absorb]
    cases hj : p.joins style line with
    | true =>
      simp only [↓reduceIte]
      split
      · exact .step hj (.done _)
      · exact .step hj (ih (p.extend line))
    | false => exact .done p

theorem Paragraph.absorb_le (p : Paragraph) (style : Style) (lines : List Text) :
    (p.absorb style lines).2 ≤ lines.length := by
  induction lines generalizing p with
  | nil => rfl
  | cons line rest ih =>
    simp only [absorb]
    split
    · split
      · simp
      · have := ih (p.extend line)
        simpa using this
    · simp

theorem Paragraph.gather_le (p : Paragraph) (style : Style) (line : Line) (rest : List Line) :
    (p.gather style line rest).2 ≤ rest.length := by
  unfold gather
  split
  · simp
  · simpa using p.absorb_le style (rest.map Line.text)

theorem Paragraph.gather_absorbs (style : Style) (p : Paragraph) (line : Line)
    (rest : List Line) :
    Absorbs style p ((rest.take (p.gather style line rest).2).map Line.text)
      (p.gather style line rest).1 := by
  unfold gather
  split
  · exact .done p
  · rw [List.map_take]
    exact absorb_absorbs style p (rest.map Line.text)

/-- How a block comes from its lines. -/
inductive Section.Reads (style : Style) : List Line → Block → Prop where
  | copied (line crossing) : Reads style [line] (.copied line crossing)
  | commented (line : Line) (pos : Nat)
      (kind : kindOf line.text = .item (some pos) ∨ kindOf line.text = .prose (some pos))
      (body : isCommandLine (stripRight ((strip line.text).take pos)) = false) :
      Reads style [line] (commentedBlock style line pos)
  | paragraph (line : Line) (rest : List Line) (p q : Paragraph)
      (opening : Paragraph.ofLine? style line.text = some p)
      (later : p.Absorbs style (rest.map Line.text) q) :
      Reads style (line :: rest) (.paragraph q)

theorem loneBlock_reads (style : Style) (line : Line) :
    Section.Reads style [line] (loneBlock style line) := by
  have hcomment : ∀ pos, (kindOf line.text = .item (some pos) ∨
      kindOf line.text = .prose (some pos)) →
      Section.Reads style [line] (commentedBlock style line pos) := by
    intro pos hk
    cases hb : isCommandLine (stripRight ((strip line.text).take pos)) with
    | true =>
      simp only [commentedBlock, hb, ↓reduceIte]
      exact .copied line .none
    | false => exact .commented line pos hk hb
  unfold loneBlock
  split
  · exact .copied line _
  · exact .copied line _
  next pos hk => exact hcomment pos (Or.inl hk)
  next pos hk => exact hcomment pos (Or.inr hk)
  all_goals exact .copied line .none

theorem sections_read (style : Style) (isOpen : Option Text) (lines : List Line) :
    ∀ s ∈ sectionsFrom style isOpen lines, Section.Reads style s.lines s.block := by
  fun_induction sectionsFrom style isOpen lines with
  | case1 => simp
  | case2 name line rest ih =>
    intro s hs
    rcases List.mem_cons.mp hs with rfl | hs
    · exact .copied line _
    · exact ih s hs
  | case3 line rest p hp ih =>
    intro s hs
    rcases List.mem_cons.mp hs with rfl | hs
    · exact .paragraph line _ p _ hp (p.gather_absorbs style line rest)
    · exact ih s hs
  | case4 line rest hp ih =>
    intro s hs
    rcases List.mem_cons.mp hs with rfl | hs
    · exact loneBlock_reads style line
    · exact ih s hs

end HardWrap
