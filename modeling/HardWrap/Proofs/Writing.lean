import HardWrap.Proofs.Paragraphs
import HardWrap.Reflow

/-! Blocks as they are written. Filling keeps the words and ends with the common ending; a line with
a comment keeps its words with the comment attached to the last one; and the ending that is dropped
at the end of an open source is always there to be dropped. -/

namespace HardWrap

open Text

theorem dropEnding_append {e : Text} (he : e ≠ []) (t : Text) : dropEnding e (t ++ e) = t := by
  simp [dropEnding, he]

/-! ### Filled words -/

theorem words_fill {frame : Frame} (width : Int) {e : Text} {ws : List Text} (he : IsEnding e)
    (hfirst : IsBlankText frame.first) (hlater : IsBlankText frame.later)
    (hws : ∀ w ∈ ws, IsWord w) : words (fill frame width e ws) = ws := by
  have hline := pack_isWord frame width hws
  rw [fill, writeLines_eq, words_joinLines (by simp [he]), List.flatMap_map]
  conv_rhs => rw [← pack_flatten frame width hws]
  cases hp : pack frame width ws with
  | nil => rfl
  | cons line more =>
    rw [hp] at hline
    simp only [layLines, List.flatMap_cons, List.flatMap_map, List.flatten_cons]
    rw [words_blank_append hfirst, words_joinWords (hline line (by simp)),
      List.append_cancel_left_eq, List.flatten_eq_flatMap]
    apply List.flatMap_congr
    intro l hl
    rw [words_blank_append hlater, words_joinWords (hline l (List.mem_cons_of_mem _ hl))]
    rfl

theorem bareWords_joinWords {line : List Text} (h : ∀ w ∈ line, IsWord w) :
    bareWords (joinWords line) = bare line := by
  rw [bareWords, words_joinWords h]

theorem bareWords_writeLines {frame : Frame} {e : Text} {groups : List (List Text)}
    (he : IsEnding e) (hframe : frame.IsOpen) (hline : ∀ line ∈ groups, ∀ w ∈ line, IsWord w) :
    bareWords (writeLines frame e groups) = bare groups.flatten := by
  rw [writeLines_eq, bareWords_joinLines (by simp [he]), List.flatMap_map]
  cases groups with
  | nil => rfl
  | cons line more =>
    simp only [layLines, List.flatMap_cons, List.flatMap_map, List.flatten_cons, bare_append]
    rw [bareWords_margin hframe.1, bareWords_joinWords (hline line (by simp)),
      List.append_cancel_left_eq, List.flatten_eq_flatMap, bare_flatMap]
    apply List.flatMap_congr
    intro l hl
    rw [bareWords_margin hframe.2, bareWords_joinWords (hline l (List.mem_cons_of_mem _ hl))]
    rfl

theorem bareWords_fill {frame : Frame} {width : Int} {e : Text} {ws : List Text} (he : IsEnding e)
    (hframe : frame.IsOpen) (hws : ∀ w ∈ ws, IsWord w) :
    bareWords (fill frame width e ws) = bare ws := by
  rw [fill, bareWords_writeLines he hframe (pack_isWord frame width hws),
    pack_flatten frame width hws]

/-- Filled lines end with a word and the ending. -/
theorem fill_ends (frame : Frame) (width : Int) (e : Text) {ws : List Text}
    (hws : ∀ w ∈ ws, IsWord w) (hne : ws ≠ []) :
    ∃ x, fill frame width e ws = x ++ e ∧ endsAtGap x = false := by
  have hline := pack_isWord frame width hws
  have hgroup := pack_nonempty frame width ws
  have hlast : ∀ (m : Text) (line : List Text), line ∈ pack frame width ws →
      endsAtGap (m ++ joinWords line) = false := by
    intro m line hl
    have hj := joinWords_ends (hline line hl) (hgroup line hl)
    rw [endsAtGap_append, hj]
    intro hnil
    rw [hnil] at hj
    cases hj
  obtain ⟨line, more, hp⟩ := List.exists_cons_of_ne_nil
    (pack_ne_nil frame width hws hne)
  rw [fill, hp]
  rcases List.eq_nil_or_concat' more with rfl | ⟨front, last, rfl⟩
  · exact ⟨frame.first ++ joinWords line, by simp [writeLines, writeLine],
      hlast _ line (by simp [hp])⟩
  · refine ⟨writeLines frame e (line :: front) ++ (frame.later ++ joinWords last),
      by simp [writeLines, writeLine], ?_⟩
    rw [← List.append_assoc]
    exact hlast _ last (by simp [hp])

/-! ### Lines with a comment -/

/-- The text of a line before its comment. -/
def commentedBody (line : Text) (pos : Nat) : Text :=
  stripRight ((strip line).take pos)

theorem commentedBody_split (line : Text) (pos : Nat) :
    commentedBody line pos ++ (strip line).drop (commentedBody line pos).length = strip line := by
  apply List.prefix_iff_eq_append.mp
  obtain ⟨b, -, hb⟩ := stripRight_split ((strip line).take pos)
  exact List.IsPrefix.trans ⟨b, hb.symm⟩ (List.take_prefix pos (strip line))

theorem length_words_commentedBody (line : Text) (pos : Nat) :
    (words (commentedBody line pos)).length ≤ (words line).length := by
  have hle := length_words_le_append (commentedBody line pos)
    ((strip line).drop (commentedBody line pos).length)
  rwa [commentedBody_split, words_strip] at hle

/-- The words before the comment, filled, may stand in for the text before the comment. -/
theorem words_commented (frame : Frame) {width : Int} {e body : Text} (he : IsEnding e)
    (hfirst : IsBlankText frame.first) (hlater : IsBlankText frame.later)
    (hbody : body = [] ∨ endsAtGap body = false) (t : Text) :
    words (dropEnding e (fill frame width e (words body)) ++ t) = words (body ++ t) := by
  have hws := words_isWord body
  by_cases hnil : words body = []
  · -- Nothing but blanks before the comment means nothing at all.
    have hb : body = [] := by
      rcases hbody with hb | hb
      · exact hb
      · rw [endsAtGap_of_blank (words_eq_nil_iff.mp hnil)] at hb
        cases hb
    subst hb
    simp [fill, pack, packWords, writeLines, dropEnding]
  · obtain ⟨x, hx, hends⟩ := fill_ends frame width e hws hnil
    have hwords := words_fill width he hfirst hlater hws
    rw [hx, words_append_blank he.blank] at hwords
    rw [hx, dropEnding_append he.ne_nil]
    refine words_append_congr_left hwords ?_ t
    rcases hbody with rfl | hb
    · simp at hnil
    · rw [hends, hb]

theorem commentedBody_ends (line : Text) (pos : Nat) :
    commentedBody line pos = [] ∨ endsAtGap (commentedBody line pos) = false := by
  by_cases h : commentedBody line pos = []
  · exact Or.inl h
  · exact Or.inr (endsAtGap_stripRight h)

theorem atGap_strip {t : Text} (h : strip t ≠ []) : atGap (strip t) = false := by
  have hleft : stripLeft t ≠ [] := by
    intro hnil
    simp [strip, hnil, stripRight] at h
  obtain ⟨b, -, hb⟩ := stripRight_split (stripLeft t)
  have hhead : atGap (stripLeft t) = false := by
    have := List.head_dropWhile_not isBlank (l := t) hleft
    rw [stripLeft] at hleft ⊢
    cases hd : t.dropWhile isBlank with
    | nil => exact absurd hd hleft
    | cons c r => simpa [hd] using this
  rw [hb, atGap_append (show stripRight (stripLeft t) ≠ [] from h)] at hhead
  exact hhead

theorem commentAfter_pos {before : Char} {start : Nat} {t : Text} {pos : Nat}
    (h : commentAfter before start t = some pos) : start ≤ pos := by
  induction t generalizing before start with
  | nil => cases h
  | cons c t ih =>
    simp only [commentAfter] at h
    split at h
    · exact (Option.some.inj h).le
    · have := ih h
      omega

theorem commentAt?_pos {t : Text} {pos : Nat} (h : commentAt? t = some pos) : 1 ≤ pos := by
  cases t with
  | nil => cases h
  | cons c t => exact commentAfter_pos h

theorem kindOf_commentAt {line : Text} {pos : Option Nat}
    (h : kindOf line = .item pos ∨ kindOf line = .prose pos) : commentAt? (strip line) = pos := by
  simp only [kindOf] at h
  split at h
  · simp at h
  · split at h
    · simp at h
    · split at h
      · simp at h
      · simp at h
      · simp only [contentKind] at h
        split at h
        · simpa using h
        · split at h
          · simp at h
          · simpa using h

/-- A comment never starts at the first character, so there are words before it. -/
theorem commentedBody_words {line : Text} {pos : Nat}
    (h : kindOf line = .item (some pos) ∨ kindOf line = .prose (some pos)) :
    words (commentedBody line pos) ≠ [] := by
  have hkind : kindOf line ≠ .blank := by rcases h with h | h <;> simp [h]
  have hgap := atGap_strip (strip_ne_nil_of_kind hkind)
  have hpos := commentAt?_pos (kindOf_commentAt h)
  rw [commentedBody, words_stripRight]
  obtain ⟨w, ws, hw⟩ := words_of_not_atGap (t := (strip line).take pos) (by
    cases hs : strip line with
    | nil => simp [hs] at hgap
    | cons c r =>
      obtain ⟨n, rfl⟩ : ∃ n, pos = n + 1 := ⟨pos - 1, by omega⟩
      simpa [hs] using hgap)
  simp [hw]

/-! ### Blocks -/

/-- The line that a commented block holds. -/
def commentedLine (style : Style) (line : Line) (pos : Nat) : CommentedLine where
  frame := ⟨margin style.tabWidth line.text, hangingMargin style.tabWidth line.text⟩
  words := words (commentedBody line.text pos)
  tail := (strip line.text).drop (commentedBody line.text pos).length
  ending := line.ending

theorem commentedBlock_eq {style : Style} {line : Line} {pos : Nat}
    (h : isCommandLine (commentedBody line.text pos) = false) :
    commentedBlock style line pos = .commented (commentedLine style line pos) := by
  rw [commentedBody] at h
  simp [commentedBlock, h, commentedLine, commentedBody]

@[simp] theorem Block.write_copied (line : Line) (crossing : Crossing) (width : Int) (e : Text) :
    (Block.copied line crossing).write width e = line.source := rfl

/-- A commented block as written: its filled words, the comment, and the ending. -/
theorem write_commentedLine (style : Style) (line : Line) (pos : Nat) (width : Int) (e : Text) :
    (Block.commented (commentedLine style line pos)).write width e =
      dropEnding e (fill (commentedLine style line pos).frame width e
        (words (commentedBody line.text pos))) ++
      (strip line.text).drop (commentedBody line.text pos).length ++
      (if line.ending.isEmpty then e else line.ending) := rfl

namespace Section

theorem Reads.copied_or_filled {style : Style} {lines : List Line} {b : Block}
    (h : Reads style lines b) :
    (∃ line crossing, lines = [line] ∧ b = .copied line crossing) ∨ b.isFilled = true := by
  cases h with
  | copied line crossing => exact Or.inl ⟨line, crossing, rfl, rfl⟩
  | commented line pos hk hbody => exact Or.inr (by rw [commentedBlock_eq hbody]; rfl)
  | paragraph => exact Or.inr rfl

/-- A written block has the words of its lines. -/
theorem Reads.bareWords_write {style : Style} {lines : List Line} {b : Block}
    (h : Reads style lines b) (width : Int) {e : Text} (he : IsEnding e)
    (hends : ∀ l ∈ lines, IsEnding l.ending ∨ l.ending = []) :
    bareWords (b.write width e) = lines.flatMap fun l => bareWords l.text := by
  have hblank : ∀ l ∈ lines, IsBlankText l.ending := by
    intro l hl
    rcases hends l hl with hl | hl
    · exact hl.blank
    · rw [hl]
      intro c hc
      cases hc
  cases h with
  | copied line crossing =>
    simp only [Block.write, Line.source, List.flatMap_cons, List.flatMap_nil, List.append_nil]
    exact bareWords_of_words_eq (words_append_blank (hblank line (by simp)))
  | commented line pos hk hbody =>
    rw [commentedBlock_eq hbody, write_commentedLine]
    simp only [List.flatMap_cons, List.flatMap_nil, List.append_nil]
    have hmargin := blank_of_spaces (margin_spaces style.tabWidth line.text)
    have hhang := blank_of_spaces (hangingMargin_spaces style.tabWidth line.text)
    have hlast : IsBlankText (if line.ending.isEmpty then e else line.ending) := by
      by_cases hnil : line.ending.isEmpty = true
      · rw [if_pos hnil]
        exact he.blank
      · rw [if_neg hnil]
        exact hblank line (by simp)
    apply bareWords_of_words_eq
    rw [words_append_blank hlast, words_commented (commentedLine style line pos).frame he
      hmargin hhang (commentedBody_ends line.text pos),
      commentedBody_split, words_strip]
  | paragraph line rest p q hp hrest =>
    have hreads : Reads style (line :: rest) (.paragraph q) := .paragraph line rest p q hp hrest
    obtain ⟨hwords, -, hframe⟩ := hreads.words
    rw [Block.write, bareWords_fill he hframe hreads.isWord, hwords, bare_flatMap]
    apply List.flatMap_congr
    intro l hl
    exact q.bareWords_content l.text

/-- A block whose lines have endings ends with one. -/
theorem Reads.write_endsAtGap {style : Style} {lines : List Line} {b : Block}
    (h : Reads style lines b) (width : Int) {e : Text} (he : IsEnding e)
    (hends : ∀ l ∈ lines, IsEnding l.ending) : endsAtGap (b.write width e) = true := by
  cases h with
  | copied line crossing => exact endsAtGap_ended (hends line (by simp)) line.text
  | commented line pos hk hbody =>
    have hline := hends line (by simp)
    rw [commentedBlock_eq hbody, write_commentedLine, if_neg (by simpa using hline.ne_nil)]
    exact endsAtGap_ended hline _
  | paragraph line rest p q hp hrest =>
    have hreads : Reads style (line :: rest) (.paragraph q) := .paragraph line rest p q hp hrest
    obtain ⟨x, hx, -⟩ := fill_ends q.frame width e hreads.isWord hreads.words_ne_nil
    rw [Block.write, hx]
    exact endsAtGap_ended he x

/-- A filled block that lacks an ending of its own has the common one. -/
theorem Reads.write_ends {style : Style} {lines : List Line} {b : Block}
    (h : Reads style lines b) (width : Int) (e : Text) (hfilled : b.isFilled = true)
    (hopen : endsOpen lines = true) : ∃ x, b.write width e = x ++ e := by
  cases h with
  | copied line crossing => cases hfilled
  | commented line pos hk hbody =>
    simp only [endsOpen, List.getLast?_singleton, Option.any_some] at hopen
    rw [commentedBlock_eq hbody, write_commentedLine, if_pos hopen]
    exact ⟨_, rfl⟩
  | paragraph line rest p q hp hrest =>
    have hreads : Reads style (line :: rest) (.paragraph q) := .paragraph line rest p q hp hrest
    obtain ⟨x, hx, -⟩ := fill_ends q.frame width e hreads.isWord hreads.words_ne_nil
    exact ⟨x, hx⟩

end Section

/-- All blocks of some sections, written one after the other. -/
def writeAll (width : Int) (e : Text) (sections : List Section) : Text :=
  sections.flatMap fun s => s.block.write width e

/-- Whether the ending of the last block is dropped: the source lacks one, and the block is
filled. -/
def dropsEnding (sections : List Section) : Bool :=
  sections.getLast?.any fun s => endsOpen s.lines && s.block.isFilled

theorem endsOpen_append {ls ms : List Line} (h : ms ≠ []) : endsOpen (ls ++ ms) = endsOpen ms := by
  obtain ⟨ms, m, rfl⟩ := (List.eq_nil_or_concat' ms).resolve_left h
  simp [endsOpen, ← List.append_assoc]

/-- The dropped ending is always there. -/
theorem writeAll_ends {style : Style} {sections : List Section}
    (hreads : ∀ s ∈ sections, Section.Reads style s.lines s.block) (width : Int) (e : Text)
    (h : dropsEnding sections = true) : ∃ x, writeAll width e sections = x ++ e := by
  rcases List.eq_nil_or_concat' sections with rfl | ⟨front, last, rfl⟩
  · cases h
  · simp only [dropsEnding, List.getLast?_append, List.getLast?_singleton, Option.some_or,
      Option.any_some, Bool.and_eq_true] at h
    obtain ⟨x, hx⟩ := (hreads last (by simp)).write_ends width e h.2 h.1
    exact ⟨writeAll width e front ++ x, by simp [writeAll, hx]⟩

theorem dropsEnding_eq {style : Style} {sections : List Section}
    (hreads : ∀ s ∈ sections, Section.Reads style s.lines s.block) :
    dropsEnding sections = (endsOpen (sections.flatMap Section.lines) &&
      (sections.map Section.block).getLast?.any Block.isFilled) := by
  rcases List.eq_nil_or_concat' sections with rfl | ⟨front, last, rfl⟩
  · rfl
  · have hne := (hreads last (by simp)).lines_ne_nil
    simp [dropsEnding, endsOpen_append hne]

theorem writeBlocks_eq {style : Style} {sections : List Section}
    (hreads : ∀ s ∈ sections, Section.Reads style s.lines s.block) (width : Int) (e : Text) :
    writeBlocks width e (endsOpen (sections.flatMap Section.lines)) (sections.map Section.block) =
      if dropsEnding sections then dropEnding e (writeAll width e sections)
      else writeAll width e sections := by
  have hall : (sections.map Section.block).flatMap (Block.write width e)
      = writeAll width e sections := by
    rw [writeAll, List.flatMap_map]
  simp only [writeBlocks, hall, ← dropsEnding_eq hreads]
  cases hd : dropsEnding sections with
  | false => simp
  | true =>
    obtain ⟨x, hx⟩ := writeAll_ends hreads width e hd
    simp [hx, List.isSuffixOf_iff_suffix]

/-- Reflow in terms of sections. -/
theorem reflowLines_eq (style : Style) (e : Text) (lines : List Line) :
    reflowLines style e lines =
      if dropsEnding (sectionsFrom style none lines) then
        dropEnding e (writeAll style.maxWidth e (sectionsFrom style none lines))
      else writeAll style.maxWidth e (sectionsFrom style none lines) := by
  rw [← writeBlocks_eq (sections_read style none lines), sections_lines, sections_blocks]
  rfl

end HardWrap
