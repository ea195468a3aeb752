import HardWrap.Proofs.CommentSigns
import HardWrap.Proofs.Contents

/-! Comments that stay comments. A paragraph of comments gets its margin from its first line, and
the opening of a comment belongs to the margin only if nothing but spaces and tabs stands before the
percent sign. Any other blank makes a line a comment too; then the sign is taken off the text and
not written again. -/

namespace HardWrap

open Text

/-- A filled line of a comment: a run of spaces, a percent sign, and words one space apart. -/
def IsFilledComment (line : Text) : Prop :=
  ∃ n ws, ws ≠ [] ∧ (∀ w ∈ ws, IsWord w) ∧
    line = List.replicate n ' ' ++ ['%', ' '] ++ joinWords ws

/-- Only spaces and tabs stand before the percent sign of a comment. -/
def hasPlainMargin (line : Text) : Bool :=
  startsWith "%" (line.dropWhile isMarginChar)

theorem IsFilledComment.isCommentLine {line : Text} (h : IsFilledComment line) :
    isCommentLine line = true := by
  obtain ⟨n, ws, -, -, rfl⟩ := h
  have hblank : IsBlankText (List.replicate n ' ') :=
    blank_of_spaces fun c hc => (List.mem_replicate.mp hc).2
  rw [isCommentLine_iff, List.append_assoc, words_blank_append hblank, List.cons_append,
    List.singleton_append, ← List.singleton_append, words_append_of_atGap (by simp),
    words_of_isWord ⟨by simp, by simp⟩]
  rfl

theorem IsFilledComment.of_margin {margin : Text} (hm : ∀ c ∈ margin, c = ' ') {ws : List Text}
    (hne : ws ≠ []) (hws : ∀ w ∈ ws, IsWord w) :
    IsFilledComment (margin ++ ['%', ' '] ++ joinWords ws) :=
  ⟨margin.length, ws, hne, hws, by rw [← List.eq_replicate_of_mem hm]⟩

theorem mem_layLines_even {m t : Text} {groups : List (List Text)} :
    t ∈ layLines (.even m) groups ↔ ∃ g ∈ groups, t = m ++ joinWords g := by
  cases groups with
  | nil => simp [layLines]
  | cons g groups =>
    simp only [layLines, Frame.even, List.mem_cons, List.mem_map, exists_eq_or_imp]
    constructor
    · rintro (h | ⟨f, hf, rfl⟩)
      · exact Or.inl h
      · exact Or.inr ⟨f, hf, rfl⟩
    · rintro (h | ⟨f, hf, rfl⟩)
      · exact Or.inl h
      · exact Or.inr ⟨f, hf, rfl⟩

theorem hasPlainMargin_iff (tabWidth : Int) (line : Text) :
    hasPlainMargin line = true ↔ '%' ∈ commentMargin tabWidth line := by
  have hspaces := margin_spaces tabWidth line
  constructor
  · intro h
    rw [commentMargin, if_pos (show startsWith "%" (line.dropWhile isMarginChar) = true from h)]
    simp
  · intro h
    by_contra hno
    rw [commentMargin, if_neg (show ¬ startsWith "%" (line.dropWhile isMarginChar) = true from hno)]
      at h
    exact absurd (hspaces '%' h) (by decide)

/-! ### Sections of comments -/

theorem nextOpen_comment {style : Style} {line : Text} (h : isCommentLine line = true) :
    nextOpen style none line = none := by
  simp [nextOpen, (kindOf_eq_comment_iff line).mpr h]

/-- Of lines that are comments only those are copied that stand alone. -/
theorem copied_comment {style : Style} {isOpen : Option Text} {lines : List Line}
    (hopen : isOpen = none) (h : ∀ l ∈ lines, isCommentLine l.text = true) :
    ∀ s ∈ sectionsFrom style isOpen lines, s.block.isFilled = false →
      ∀ l ∈ s.lines, isMergeableComment l.text = false := by
  fun_induction sectionsFrom style isOpen lines with
  | case1 => simp
  | case2 name line rest ih => cases hopen
  | case3 line rest p hp ih =>
    intro s hs hcopied
    rcases List.mem_cons.mp hs with rfl | hs
    · cases hcopied
    · exact ih rfl (fun l hl => h l (List.mem_cons_of_mem _ (List.mem_of_mem_drop hl))) s hs hcopied
  | case4 line rest hp ih =>
    intro s hs hcopied l hl
    rcases List.mem_cons.mp hs with rfl | hs
    · obtain rfl := List.mem_singleton.mp hl
      have hk := (kindOf_eq_comment_iff l.text).mpr (h l (by simp))
      simpa [Paragraph.ofLine?, hk] using hp
    · exact ih (nextOpen_comment (h line (by simp)))
        (fun m hm => h m (List.mem_cons_of_mem _ hm)) s hs hcopied l hl

namespace Section

/-- A filled block of comments is a paragraph, all its lines have its margin, and its first word is
no comment within the comment. -/
theorem Reads.comment_paragraph {style : Style} {lines : List Line} {b : Block}
    (h : Reads style lines b) (hcomment : ∀ l ∈ lines, isCommentLine l.text = true)
    (hb : b.isFilled = true) :
    ∃ q m, b = .paragraph q ∧ q.frame = .even m ∧
      (∀ l ∈ lines, isMergeableComment l.text = true ∧ commentMargin style.tabWidth l.text = m) ∧
      q.words.head?.bind List.head? ≠ some '%' := by
  cases h with
  | copied line crossing => cases hb
  | commented line pos hk hbody =>
    have hline := (kindOf_eq_comment_iff line.text).mpr (hcomment line (by simp))
    rw [hline] at hk
    rcases hk with hk | hk <;> cases hk
  | paragraph line rest p q hp hrest =>
    have hreads : Reads style (line :: rest) (.paragraph q) := .paragraph line rest p q hp hrest
    have hk := (kindOf_eq_comment_iff line.text).mpr (hcomment line (by simp))
    simp only [Paragraph.ofLine?, hk] at hp
    split at hp
    next hmerge =>
      obtain rfl := Option.some.inj hp
      obtain ⟨hkind, hframe, hwords, -⟩ := hrest.spec
      refine ⟨q, commentMargin style.tabWidth line.text, rfl, hframe, ?_, ?_⟩
      · intro l hl
        rcases List.mem_cons.mp hl with rfl | hl
        · exact ⟨hmerge, rfl⟩
        · have hjoin := hrest.joins l.text (List.mem_map_of_mem hl)
          obtain ⟨hl, hadmits⟩ := Paragraph.comment_of_joins rfl hjoin
          exact ⟨hl, by simpa [Paragraph.admits, commentParagraph, Frame.even] using hadmits⟩
      · have hfirst : q.words.head? = (Text.words (commentBody line.text)).head? := by
          rw [hwords, commentParagraph, List.head?_append_of_ne_nil]
          exact Paragraph.words_commentBody_ne_nil hmerge
        have hbody : isCommentLine (commentBody line.text) = false := by
          simp only [isMergeableComment, standsAlone, Bool.and_eq_true, Bool.not_eq_true',
            Bool.or_eq_false_iff] at hmerge
          exact hmerge.2.1.1.1
        rw [hfirst, ne_eq, ← isCommentLine_iff, hbody]
        exact Bool.false_ne_true
    next => cases hp

/-- Either all lines of a filled block have the opening of a comment in their margin, and so have
the lines that it is written as; or none has it, and the first of these lines is no comment. -/
theorem Reads.filled_comment {style : Style} {lines : List Line} {b : Block}
    (h : Reads style lines b) (hcomment : ∀ l ∈ lines, isCommentLine l.text = true)
    (hb : b.isFilled = true) (width : Int) :
    (∀ x ∈ b.contents width, x ≠ []) ∧
      (((∀ l ∈ lines, hasPlainMargin l.text = true) ∧
          ∀ x ∈ b.contents width, IsFilledComment x) ∨
        ((∀ l ∈ lines, isMergeableComment l.text = true ∧ hasPlainMargin l.text = false) ∧
          ∃ x ∈ b.contents width, isCommentLine x = false)) := by
  obtain ⟨q, m, rfl, hframe, hmargin, hhead⟩ := h.comment_paragraph hcomment hb
  obtain ⟨line, rest, rfl⟩ := List.exists_cons_of_ne_nil h.lines_ne_nil
  have hwords := pack_isWord q.frame width h.isWord
  have hgroups := pack_nonempty q.frame width q.words
  have hcontents : ∀ x, x ∈ (Block.paragraph q).contents width ↔
      ∃ g ∈ pack q.frame width q.words, x = m ++ joinWords g := by
    intro x
    rw [Block.contents, hframe, mem_layLines_even]
  refine ⟨?_, ?_⟩
  · intro x hx hnil
    obtain ⟨g, hg, rfl⟩ := (hcontents x).mp hx
    have hends := joinWords_ends (hwords g hg) (hgroups g hg)
    rw [(List.append_eq_nil_iff.mp hnil).2] at hends
    cases hends
  · have hfirst := (hmargin line (by simp)).2
    rcases commentMargin_cases style.tabWidth line.text with hmark | hno
    · refine Or.inl ⟨?_, ?_⟩
      · intro l hl
        rw [hasPlainMargin_iff style.tabWidth, (hmargin l hl).2, ← hfirst, hmark]
        simp
      · intro x hx
        obtain ⟨g, hg, rfl⟩ := (hcontents x).mp hx
        rw [← hfirst, hmark]
        exact .of_margin (margin_spaces style.tabWidth line.text) (hgroups g hg) (hwords g hg)
    · have hspaces : ∀ c ∈ m, c = ' ' := by
        rw [← hfirst, hno]
        exact margin_spaces style.tabWidth line.text
      refine Or.inr ⟨?_, ?_⟩
      · intro l hl
        refine ⟨(hmargin l hl).1, ?_⟩
        rw [Bool.eq_false_iff, ne_eq, hasPlainMargin_iff style.tabWidth, (hmargin l hl).2]
        intro hpercent
        exact absurd (hspaces '%' hpercent) (by decide)
      · -- The first line starts with the first word, which is no comment.
        obtain ⟨g, gs, hpack⟩ := List.exists_cons_of_ne_nil
          (pack_ne_nil q.frame width h.isWord h.words_ne_nil)
        have hflat := pack_flatten q.frame width h.isWord
        rw [hpack] at hwords hgroups hflat
        refine ⟨m ++ joinWords g, (hcontents _).mpr ⟨g, by rw [hpack]; simp, rfl⟩, ?_⟩
        rw [Bool.eq_false_iff, ne_eq, isCommentLine_iff,
          words_blank_append (blank_of_spaces hspaces), words_joinWords (hwords g (by simp))]
        rwa [← hflat, List.flatten_cons, List.head?_append_of_ne_nil _ (hgroups g (by simp))]
          at hhead

end Section

/-! ### Texts of comments -/

section Comments

variable {style : Style} {t : Text} (h : ∀ l ∈ t.lines, isCommentLine l.text = true)
include h

/-- What is written for a section of comments: no empty line, and only comments exactly if the sign
of every comment that is filled stands after spaces and tabs. -/
theorem section_comments_iff {s : Section} (hs : s ∈ sectionsFrom style none t.lines)
    (width : Int) :
    (∀ x ∈ s.block.contents width, x ≠ []) ∧
      ((∀ x ∈ s.block.contents width, isCommentLine x = true) ↔
        ∀ l ∈ s.lines, isMergeableComment l.text = true → hasPlainMargin l.text = true) := by
  have hreads := sections_read style none t.lines s hs
  have hcomment := (forall_mem_sections style none).mp h s hs
  cases hb : s.block.isFilled with
  | false =>
    have halone := copied_comment rfl h s hs hb
    rcases hreads.copied_or_filled with ⟨line, crossing, hlines, hblock⟩ | hfilled
    · rw [hlines] at hcomment halone
      have hline := hcomment line (by simp)
      have hno := halone line (by simp)
      rw [hblock, hlines]
      refine ⟨?_, ?_⟩
      · intro x hx hnil
        obtain rfl := List.mem_singleton.mp hx
        rw [hnil] at hline
        cases hline
      · simp [Block.contents, hline, hno]
    · rw [hb] at hfilled
      cases hfilled
  | true =>
    obtain ⟨hne, hgood | hbad⟩ := hreads.filled_comment hcomment hb width
    · refine ⟨hne, fun _ l hl _ => hgood.1 l hl, fun _ x hx => (hgood.2 x hx).isCommentLine⟩
    · obtain ⟨hmargin, x, hx, hno⟩ := hbad
      obtain ⟨line, rest, hlines⟩ := List.exists_cons_of_ne_nil hreads.lines_ne_nil
      have hline := hmargin line (by simp [hlines])
      refine ⟨hne, ?_, ?_⟩
      · intro hall
        rw [hall x hx] at hno
        cases hno
      · intro hall
        have hplain := hall line (by simp [hlines]) hline.1
        rw [hline.2] at hplain
        cases hplain

theorem reflow_comments_text :
    (reflow style t).lines.map Line.text =
      (sectionsFrom style none t.lines).flatMap fun s => s.block.contents style.maxWidth := by
  have hblocks : (blocksOf style t.lines).flatMap (Block.contents style.maxWidth) =
      (sectionsFrom style none t.lines).flatMap fun s => s.block.contents style.maxWidth := by
    rw [blocksOf_eq, List.flatMap_map]
  rw [← hblocks]
  apply reflow_lines_text
  rw [hblocks, List.forall_mem_flatMap]
  intro s hs
  exact (section_comments_iff h hs style.maxWidth).1

end Comments

/-- A text of comments is reflowed to comments exactly if only spaces and tabs stand before the sign
of each comment that is filled; and then each line of a filled block is spaces, the sign and
words. -/
theorem comments_stay_comments_iff (style : Style) (t : Text)
    (h : ∀ l ∈ t.lines, isCommentLine l.text = true) :
    ((∀ l ∈ (reflow style t).lines, isCommentLine l.text = true) ↔
      ∀ l ∈ t.lines, isMergeableComment l.text = true → hasPlainMargin l.text = true) ∧
    ((∀ l ∈ t.lines, isMergeableComment l.text = true → hasPlainMargin l.text = true) →
      ∀ b ∈ blocksOf style t.lines, b.isFilled = true →
        ∀ l ∈ (b.write style.maxWidth t.newEnding).lines, IsFilledComment l.text) := by
  have hcut := cut_isCut t
  constructor
  · calc (∀ l ∈ (reflow style t).lines, isCommentLine l.text = true)
        ↔ ∀ s ∈ sectionsFrom style none t.lines, ∀ x ∈ s.block.contents style.maxWidth,
            isCommentLine x = true := by
          rw [← List.forall_mem_flatMap, ← reflow_comments_text h, List.forall_mem_map]
      _ ↔ ∀ s ∈ sectionsFrom style none t.lines, ∀ l ∈ s.lines,
            isMergeableComment l.text = true → hasPlainMargin l.text = true :=
          forall₂_congr fun s hs => (section_comments_iff h hs style.maxWidth).2
      _ ↔ _ := (forall_mem_sections style none).symm
  · rw [forall_mem_sections style none, blocksOf_eq, List.forall_mem_map]
    intro hmargin s hs hb
    have hreads := sections_read style none t.lines s hs
    have hparts : ∀ l ∈ s.lines, l.parts ∈ cut t := by
      rw [← lines_parts]
      exact (forall_mem_sections style none).mp (fun l => List.mem_map_of_mem) s hs
    obtain ⟨ps, hwrite, hfst, hlined, -, -⟩ := hreads.write_lines style.maxWidth
      (newEnding_isEnding t) (fun l hl => hcut.unbroken l.parts (hparts l hl))
      fun l hl => hcut.ending_or_nil l.parts (hparts l hl)
    obtain ⟨hne, hgood | hbad⟩ := hreads.filled_comment
      ((forall_mem_sections style none).mp h s hs) hb style.maxWidth
    · rw [← hfst, List.forall_mem_map] at hne
      rw [hwrite, ← List.forall_mem_map, hlined.lines_text hne, hfst]
      exact hgood.2
    · obtain ⟨line, rest, hlines⟩ := List.exists_cons_of_ne_nil hreads.lines_ne_nil
      have hline := hbad.1 line (by simp [hlines])
      have hplain := hmargin s hs line (by simp [hlines]) hline.1
      rw [hline.2] at hplain
      cases hplain

/-- Two comments at the margin of a tab become one paragraph of two lines; the rule stays. -/
theorem comments_stay_comments_tab :
    ∃ t : Text, t = "\t% one two\n\t%  three\n%%%%\n".toList ∧
      (∀ l ∈ t.lines, isCommentLine l.text = true) ∧
      (∀ l ∈ t.lines, isMergeableComment l.text = true → hasPlainMargin l.text = true) ∧
      reflow { maxWidth := 12, tabWidth := 2 } t = "  % one two\n  % three\n%%%%\n".toList ∧
      ∀ l ∈ (reflow { maxWidth := 12, tabWidth := 2 } t).lines, isCommentLine l.text = true :=
  ⟨_, rfl, by decide +kernel, by decide +kernel, by decide +kernel,
    (comments_stay_comments_iff { maxWidth := 12, tabWidth := 2 } _ (by decide +kernel)).1.mpr
      (by decide +kernel)⟩

/-- A no-break space before the sign makes a line a comment, but is no margin. -/
theorem reflow_can_free_comment :
    ¬ ∀ (style : Style) (t : Text), style.Valid → (∀ l ∈ t.lines, isCommentLine l.text = true) →
      ∀ l ∈ (reflow style t).lines, isCommentLine l.text = true := by
  intro h
  have := h {} "\u00a0% foo bar\n".toList (by decide) (by decide +kernel)
  revert this
  decide +kernel

end HardWrap
