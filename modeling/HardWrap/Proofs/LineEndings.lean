import HardWrap.Proofs.Contents

/-! The choice of the line ending. Lines are classified, gathered and filled by their contents; an
ending is only copied, or put after a filled line. So the sections of some lines do not depend on
the endings, and a text whose lines end with LF is reflowed like the same text with CR or CR LF in
its place. -/

namespace HardWrap

open Text

/-! ### Texts with another ending -/

namespace Text

/-- The text with `d` in place of every LF. -/
def withEnding (d t : Text) : Text :=
  t.flatMap fun c => if c = '\n' then d else [c]

variable {d : Text}

@[simp] theorem withEnding_nil (d : Text) : withEnding d [] = [] := rfl

@[simp] theorem withEnding_lf (d : Text) : withEnding d ['\n'] = d := by
  simp [withEnding]

theorem withEnding_cons (d : Text) (c : Char) (t : Text) :
    withEnding d (c :: t) = (if c = '\n' then d else [c]) ++ withEnding d t := rfl

@[simp] theorem withEnding_append (d a b : Text) :
    withEnding d (a ++ b) = withEnding d a ++ withEnding d b := by
  simp [withEnding]

theorem withEnding_unbroken {t : Text} (h : Unbroken t) : withEnding d t = t := by
  induction t with
  | nil => rfl
  | cons c t ih =>
    have hc := (h c (by simp)).2
    rw [withEnding_cons, if_neg hc, ih fun b hb => h b (List.mem_cons_of_mem _ hb)]
    rfl

theorem withEnding_isEmpty (hd : d ≠ []) (t : Text) : (withEnding d t).isEmpty = t.isEmpty := by
  cases t with
  | nil => rfl
  | cons c t =>
    rw [withEnding_cons]
    split <;> simp [hd]

/-- Where CR is written for LF no LF is left. -/
theorem not_mem_withEnding_cr (t : Text) : '\n' ∉ withEnding ['\r'] t := by
  induction t with
  | nil => simp
  | cons c t ih =>
    rw [withEnding_cons, List.mem_append, not_or]
    refine ⟨?_, ih⟩
    split
    · simp
    next hc => simpa using Ne.symm hc

theorem whole_withEnding (t : Text) : d = ['\r'] → (withEnding d t).head? ≠ some '\n' := by
  rintro rfl hhead
  exact not_mem_withEnding_cr t (List.mem_of_head? hhead)

theorem withEnding_joinLines {ps : List (Text × Text)} (h : ∀ p ∈ ps, Unbroken p.1) :
    withEnding d (joinLines ps) = joinLines (ps.map (Prod.map id (withEnding d))) := by
  induction ps with
  | nil => rfl
  | cons p ps ih =>
    obtain ⟨t, e⟩ := p
    have ht : Unbroken t := h (t, e) (by simp)
    rw [joinLines_cons, withEnding_append, withEnding_append, withEnding_unbroken ht,
      ih fun q hq => h q (List.mem_cons_of_mem _ hq)]
    simp

theorem extendLine_map (c : Char) (d : Text) (ps : List (Text × Text)) :
    extendLine c (ps.map (Prod.map id (withEnding d))) =
      (extendLine c ps).map (Prod.map id (withEnding d)) := by
  cases ps <;> rfl

/-- The same lines, with the other ending. -/
theorem cut_withEnding (hd : IsEnding d) {t : Text} (h : '\r' ∉ t) :
    cut (withEnding d t) = (cut t).map (Prod.map id (withEnding d)) := by
  induction t with
  | nil => rfl
  | cons c t ih =>
    rw [List.mem_cons, not_or] at h
    by_cases hc : c = '\n'
    · have hline := cut_line (t := []) (by simp [Unbroken]) hd _ (whole_withEnding t)
      rw [withEnding_cons, if_pos hc, ← List.nil_append (d ++ _), hline, ih h.2, hc]
      simp [cut]
    · have hcut : ∀ u : Text, cut (c :: u) = extendLine c (cut u) := by
        intro u
        rw [cut]
        · simp [hc, Ne.symm h.1]
        · intro r hr
          exact absurd hr.symm h.1
      rw [withEnding_cons, if_neg hc, List.singleton_append, hcut, hcut, ih h.2, extendLine_map]

/-- New lines of a text get the ending that its lines have. -/
theorem newEnding_withEnding (hd : IsEnding d) {t : Text} (hlf : '\n' ∈ t) (hcr : '\r' ∉ t) :
    newEnding t = ['\n'] ∧ newEnding (withEnding d t) = d := by
  obtain ⟨a, b, rfl, ha⟩ := List.eq_append_cons_of_mem hlf
  have hunbroken : Unbroken a := by
    intro c hc
    refine ⟨?_, ?_⟩
    · rintro rfl
      exact hcr (List.mem_append_left _ hc)
    · rintro rfl
      exact ha hc
  have hplain := firstEnding?_line hunbroken (e := ['\n']) (Or.inr (Or.inr rfl)) b (by simp)
  have hother := firstEnding?_line hunbroken hd _ (whole_withEnding b)
  rw [List.singleton_append] at hplain
  rw [withEnding_append, withEnding_unbroken hunbroken, withEnding_cons, if_pos rfl, newEnding,
    newEnding, hplain, hother]
  exact ⟨rfl, rfl⟩

end Text

/-! ### Sections do not depend on endings -/

def Line.mapEnding (f : Text → Text) (line : Line) : Line :=
  { line with ending := f line.ending }

def Block.mapEnding (f : Text → Text) : Block → Block
  | copied line crossing => copied (line.mapEnding f) crossing
  | paragraph p => paragraph p
  | commented line => commented { line with ending := f line.ending }

def Section.mapEnding (f : Text → Text) (s : Section) : Section :=
  ⟨s.lines.map (Line.mapEnding f), s.block.mapEnding f⟩

section Endings

variable (f : Text → Text)

@[simp] theorem Line.mapEnding_text (line : Line) : (line.mapEnding f).text = line.text := rfl

@[simp] theorem map_text_mapEnding (lines : List Line) :
    (lines.map (Line.mapEnding f)).map Line.text = lines.map Line.text := by
  rw [List.map_map]
  rfl

theorem number_mapEnding (start : Nat) (ps : List (Text × Text)) :
    Text.number start (ps.map (Prod.map id f)) =
      (Text.number start ps).map (Line.mapEnding f) := by
  induction ps generalizing start with
  | nil => rfl
  | cons p ps ih => simp [Text.number, Line.mapEnding, ih]

theorem Paragraph.gather_mapEnding (p : Paragraph) (style : Style) (line : Line)
    (rest : List Line) :
    p.gather style (line.mapEnding f) (rest.map (Line.mapEnding f)) = p.gather style line rest := by
  rw [gather, gather, Line.mapEnding_text, map_text_mapEnding]

theorem insideBlock_mapEnding (name : Text) (line : Line) :
    insideBlock name (line.mapEnding f) = (insideBlock name line).mapEnding f := rfl

theorem commentedBlock_mapEnding (style : Style) (line : Line) (pos : Nat) :
    commentedBlock style (line.mapEnding f) pos = (commentedBlock style line pos).mapEnding f := by
  unfold commentedBlock
  by_cases hbody : isCommandLine (stripRight ((strip line.text).take pos)) = true
  · simp only [Line.mapEnding_text, hbody, ↓reduceIte]
    rfl
  · simp only [Line.mapEnding_text, hbody]
    rfl

theorem loneBlock_mapEnding (style : Style) (line : Line) :
    loneBlock style (line.mapEnding f) = (loneBlock style line).mapEnding f := by
  simp only [loneBlock, Line.mapEnding_text]
  split
  · rfl
  · rfl
  · exact commentedBlock_mapEnding f style line _
  · exact commentedBlock_mapEnding f style line _
  all_goals rfl

/-- Which lines form a section, and what is read from them, is the same for all endings. -/
theorem sectionsFrom_mapEnding (style : Style) (isOpen : Option Text) (lines : List Line) :
    sectionsFrom style isOpen (lines.map (Line.mapEnding f)) =
      (sectionsFrom style isOpen lines).map (Section.mapEnding f) := by
  fun_induction sectionsFrom style isOpen lines with
  | case1 isOpen => cases isOpen <;> simp [sectionsFrom]
  | case2 name line rest ih =>
    rw [List.map_cons, sectionsFrom, Line.mapEnding_text, ih, insideBlock_mapEnding]
    rfl
  | case3 line rest p hp ih =>
    rw [List.map_cons, sectionsFrom, Line.mapEnding_text, hp]
    simp only [Paragraph.gather_mapEnding, ← List.map_drop, ← List.map_take, ih]
    rfl
  | case4 line rest hp ih =>
    rw [List.map_cons, sectionsFrom, Line.mapEnding_text, hp]
    simp only [ih, loneBlock_mapEnding]
    rfl

theorem blocksOf_mapEnding (style : Style) (lines : List Line) :
    blocksOf style (lines.map (Line.mapEnding f)) =
      (blocksOf style lines).map (Block.mapEnding f) := by
  rw [blocksOf_eq, blocksOf_eq, sectionsFrom_mapEnding, List.map_map, List.map_map]
  rfl

end Endings

/-! ### Writing with another ending -/

theorem lines_withEnding {d : Text} (hd : IsEnding d) {t : Text} (h : '\r' ∉ t) :
    (withEnding d t).lines = t.lines.map (Line.mapEnding (withEnding d)) := by
  rw [lines, linesFrom, cut_withEnding hd h, number_mapEnding]
  rfl

namespace Block

variable {d : Text}

theorem mapEnding_isFilled (f : Text → Text) (b : Block) :
    (b.mapEnding f).isFilled = b.isFilled := by
  cases b <;> rfl

theorem mapEnding_contents (f : Text → Text) (b : Block) (width : Int) :
    (b.mapEnding f).contents width = b.contents width := by
  cases b <;> rfl

theorem lastEnding_withEnding (hd : d ≠ []) (b : Block) :
    (b.mapEnding (withEnding d)).lastEnding d = withEnding d (b.lastEnding ['\n']) := by
  cases b with
  | copied line crossing => rfl
  | paragraph p => simp [mapEnding, lastEnding]
  | commented c =>
    simp only [mapEnding, lastEnding, withEnding_isEmpty hd]
    split <;> simp

theorem rows_withEnding (hd : d ≠ []) (b : Block) (width : Int) :
    (b.mapEnding (withEnding d)).rows width d =
      (b.rows width ['\n']).map (Prod.map id (withEnding d)) := by
  rw [rows, rows, mapEnding_contents, lastEnding_withEnding hd]
  rcases List.eq_nil_or_concat' (b.contents width) with hnil | ⟨front, last, hconcat⟩
  · rw [hnil]
    rfl
  · simp [hconcat]

end Block

theorem endsOpen_withEnding {d : Text} (hd : d ≠ []) (lines : List Line) :
    endsOpen (lines.map (Line.mapEnding (withEnding d))) = endsOpen lines := by
  rw [endsOpen, endsOpen, List.getLast?_map, Option.any_map]
  congr 1
  funext line
  exact withEnding_isEmpty hd line.ending

theorem dropsEnding_withEnding {d : Text} (hd : d ≠ []) (sections : List Section) :
    dropsEnding (sections.map (Section.mapEnding (withEnding d))) = dropsEnding sections := by
  rw [dropsEnding, dropsEnding, List.getLast?_map, Option.any_map]
  congr 1
  funext s
  simp only [Section.mapEnding, endsOpen_withEnding hd,
    Block.mapEnding_isFilled]

/-- What is written for lines with the other ending is what is written for the lines, with the other
ending. -/
theorem writeAll_withEnding {style : Style} {lines : List Line}
    (htext : ∀ l ∈ lines, Unbroken l.text) (width : Int) {d : Text} (hd : IsEnding d) :
    writeAll width d ((sectionsFrom style none lines).map (Section.mapEnding (withEnding d))) =
      withEnding d (writeAll width ['\n'] (sectionsFrom style none lines)) := by
  have hreads := sections_read style none lines
  have hreads' := sections_read style none (lines.map (Line.mapEnding (withEnding d)))
  have hlf : IsEnding ['\n'] := Or.inr (Or.inr rfl)
  rw [sectionsFrom_mapEnding] at hreads'
  have hunbroken : ∀ p ∈ writtenRows width ['\n'] (sectionsFrom style none lines),
      Unbroken p.1 := by
    intro p hp
    have hcontent := List.mem_map_of_mem (f := Prod.fst) hp
    rw [writtenRows_fst, List.mem_flatMap] at hcontent
    obtain ⟨s, hs, hp⟩ := hcontent
    have hs' := (forall_mem_sections style none).mp htext s hs
    exact (hreads s hs).contents_unbroken width hs' _ hp
  rw [writeAll_rows hreads' width hd, writeAll_rows hreads width hlf,
    withEnding_joinLines hunbroken]
  congr 1
  rw [writtenRows, writtenRows, List.flatMap_map, List.map_flatMap]
  apply List.flatMap_congr
  intro s hs
  exact s.block.rows_withEnding hd.ne_nil width

theorem reflowLines_withEnding (style : Style) {lines : List Line}
    (htext : ∀ l ∈ lines, Unbroken l.text) {d : Text} (hd : IsEnding d) :
    reflowLines style d (lines.map (Line.mapEnding (withEnding d))) =
      withEnding d (reflowLines style ['\n'] lines) := by
  rw [reflowLines_eq, reflowLines_eq, sectionsFrom_mapEnding, dropsEnding_withEnding hd.ne_nil,
    writeAll_withEnding htext style.maxWidth hd]
  split
  next hdrop =>
    obtain ⟨x, hx⟩ := writeAll_ends (sections_read style none lines) style.maxWidth ['\n'] hdrop
    rw [hx, withEnding_append, withEnding_lf, dropEnding_append hd.ne_nil,
      dropEnding_append (by simp)]
  next => rfl

/-- A text whose lines end with LF and the same text with another ending are read as the same
blocks, and they are reflowed to the same text but for the ending. -/
theorem reflow_withEnding (style : Style) {d t : Text} (hd : d = ['\r'] ∨ d = ['\r', '\n'])
    (hlf : '\n' ∈ t) (hcr : '\r' ∉ t) :
    blocksOf style (withEnding d t).lines =
        (blocksOf style t.lines).map (Block.mapEnding (withEnding d)) ∧
      reflow style (withEnding d t) = withEnding d (reflow style t) := by
  have hending : IsEnding d := by
    rcases hd with rfl | rfl
    · exact Or.inr (Or.inl rfl)
    · exact Or.inl rfl
  have hlines := lines_withEnding hending hcr
  obtain ⟨hplain, hother⟩ := newEnding_withEnding hending hlf hcr
  have htext : ∀ l ∈ t.lines, Unbroken l.text := by
    intro l hl
    have hparts := List.mem_map_of_mem (f := Line.parts) hl
    rw [lines_parts] at hparts
    exact (cut_isCut t).unbroken l.parts hparts
  refine ⟨?_, ?_⟩
  · rw [hlines, blocksOf_mapEnding]
  · rw [reflow, reflow, hother, hplain, hlines, reflowLines_withEnding style htext hending]

/-- Prose, a line with a comment, a blank line and two comments, open at the end. -/
theorem reflow_withEnding_crlf :
    ∃ t : Text, t = "a b\nc % d\n\nfoo bar\nbaz\n% one two\n% six".toList ∧
      '\n' ∈ t ∧ '\r' ∉ t ∧
      reflow { maxWidth := 8 } (withEnding ['\r', '\n'] t) =
        "a b\r\nc % d\r\n\r\nfoo bar\r\nbaz\r\n% one\r\n% two\r\n% six".toList := by
  refine ⟨_, rfl, by decide, by decide, ?_⟩
  rw [(reflow_withEnding { maxWidth := 8 } (Or.inr rfl) (by decide) (by decide)).2]
  decide +kernel

end HardWrap
