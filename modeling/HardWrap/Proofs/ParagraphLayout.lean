import HardWrap.Proofs.Boundaries
import HardWrap.Proofs.CommentSigns

/-! Lines that form a paragraph, and the layout of the paragraph. Prose at one margin, an item with
the prose below it and comments with one margin are each read as one paragraph, as long as no line
within them opens a paragraph or ends with a forced break. What is written for such lines is the
filled words of all of them: where the words stood on the lines is forgotten. -/

namespace HardWrap

open Text

/-- Lines that form one paragraph, with the margins and the words of the paragraph. -/
inductive FormsParagraph (style : Style) : List Line → Paragraph → Prop where
  | prose (first : Line) (rest : List Line) (m : Text)
      (kind : ∀ l ∈ first :: rest, kindOf l.text = .prose none)
      (margins : ∀ l ∈ first :: rest, margin style.tabWidth l.text = m)
      (unopened : ∀ l ∈ rest, opensParagraph l.text = false)
      (unbroken : ∀ l ∈ (first :: rest).dropLast, endsWithBreak l.text = false) :
      FormsParagraph style (first :: rest)
        ⟨.prose, .even m, (first :: rest).flatMap fun l => words l.text⟩
  /-- Prose may stand under the item's command or hang under its text. -/
  | item (first : Line) (rest : List Line) (m hanging : Text)
      (kind : kindOf first.text = .item none)
      (below : ∀ l ∈ rest, kindOf l.text = .prose none)
      (margin_eq : margin style.tabWidth first.text = m)
      (hanging_eq : hangingMargin style.tabWidth first.text = hanging)
      (margins : ∀ l ∈ rest,
        margin style.tabWidth l.text = m ∨ margin style.tabWidth l.text = hanging)
      (unopened : ∀ l ∈ rest, opensParagraph l.text = false)
      (unbroken : ∀ l ∈ (first :: rest).dropLast, endsWithBreak l.text = false) :
      FormsParagraph style (first :: rest)
        ⟨.item, ⟨m, hanging⟩, (first :: rest).flatMap fun l => words l.text⟩
  | comment (first : Line) (rest : List Line) (m : Text)
      (kind : ∀ l ∈ first :: rest, isMergeableComment l.text = true)
      (margins : ∀ l ∈ first :: rest, commentMargin style.tabWidth l.text = m) :
      FormsParagraph style (first :: rest)
        ⟨.comment, .even m, (first :: rest).flatMap fun l => words (commentBody l.text)⟩

namespace Paragraph

/-- Lines that continue a paragraph are all taken into it, if none but the last ends it. -/
theorem absorb_all {style : Style} {p : Paragraph} {lines : List Text}
    (hjoins : ∀ l ∈ lines, p.joins style l = true)
    (hends : ∀ l ∈ lines.dropLast, p.isEndedBy l = false) :
    p.absorb style lines =
      (p.append (lines.flatMap fun l => Text.words (p.content l)), lines.length) := by
  induction lines generalizing p with
  | nil => simp [absorb, append]
  | cons line rest ih =>
    have hline := hjoins line (by simp)
    -- Only the kind and the margins decide what continues a paragraph; more words change neither.
    have hrest : ∀ l ∈ rest, (p.extend line).joins style l = true :=
      fun l hl => hjoins l (List.mem_cons_of_mem _ hl)
    have hcontent : ∀ l, (p.extend line).content l = p.content l := content_congr rfl
    by_cases hnil : rest = []
    · subst hnil
      simp [absorb, hline, extend]
    · have hgoes : p.isEndedBy line = false := by
        apply hends
        rw [List.dropLast_cons_of_ne_nil hnil]
        exact List.mem_cons_self
      have hlater : ∀ l ∈ rest.dropLast, (p.extend line).isEndedBy l = false := by
        intro l hl
        apply hends
        rw [List.dropLast_cons_of_ne_nil hnil]
        exact List.mem_cons_of_mem _ hl
      have hih := ih hrest hlater
      simp only [absorb, hline, hgoes, hih, hcontent, ↓reduceIte, Bool.false_eq_true]
      simp [extend, append]

theorem gather_all {style : Style} {p : Paragraph} {first : Line} {rest : List Line}
    (hjoins : ∀ l ∈ rest, p.joins style l.text = true)
    (hends : ∀ l ∈ (first :: rest).dropLast, p.isEndedBy l.text = false) :
    p.gather style first rest =
      (p.append (rest.flatMap fun l => Text.words (p.content l.text)), rest.length) := by
  by_cases hnil : rest = []
  · subst hnil
    unfold gather
    split <;> simp [absorb, append]
  · rw [List.dropLast_cons_of_ne_nil hnil] at hends
    have hgoes := hends first List.mem_cons_self
    have htexts : ∀ l ∈ (rest.map Line.text).dropLast, p.isEndedBy l = false := by
      rw [List.dropLast_eq_take, List.length_map, ← List.map_take, List.forall_mem_map,
        ← List.dropLast_eq_take]
      exact fun l hl => hends l (List.mem_cons_of_mem _ hl)
    rw [gather, hgoes, absorb_all (List.forall_mem_map.mpr hjoins) htexts, List.flatMap_map,
      List.length_map]
    rfl

end Paragraph

/-- Lines of which the first opens a paragraph and the others continue it are one block. -/
theorem blocksOf_gathered {style : Style} {first : Line} {rest : List Line} {p : Paragraph}
    (hp : Paragraph.ofLine? style first.text = some p)
    (hjoins : ∀ l ∈ rest, p.joins style l.text = true)
    (hends : ∀ l ∈ (first :: rest).dropLast, p.isEndedBy l.text = false) :
    blocksOf style (first :: rest) = [.paragraph
      { p with words := (first :: rest).flatMap fun l => words (p.content l.text) }] := by
  rw [blocksOf, Stage.segment_opening hp, Paragraph.gather_all hjoins hends, List.drop_length,
    List.flatMap_cons, ← (Paragraph.ofLine?_words hp).1]
  rfl

namespace FormsParagraph

theorem blocksOf_eq {style : Style} {lines : List Line} {p : Paragraph}
    (h : FormsParagraph style lines p) : blocksOf style lines = [.paragraph p] := by
  cases h with
  | prose first rest m kind margins unopened unbroken =>
    have hfirst := margins first List.mem_cons_self
    have hp : Paragraph.ofLine? style first.text = some (proseParagraph style first.text) := by
      rw [Paragraph.ofLine?, kind first List.mem_cons_self]
    rw [blocksOf_gathered hp]
    · simp [proseParagraph, Paragraph.words_content, hfirst]
    · intro l hl
      have hkind := kind l (List.mem_cons_of_mem _ hl)
      have hmargin := margins l (List.mem_cons_of_mem _ hl)
      simp [Paragraph.joins, proseParagraph, hkind, unopened l hl, Paragraph.continuedByProse,
        Paragraph.admits, Frame.even, hmargin, hfirst]
    · intro l hl
      rw [Paragraph.isEndedBy, unbroken l hl, Bool.and_false]
  | item first rest m hanging kind below margin_eq hanging_eq margins unopened unbroken =>
    have hp : Paragraph.ofLine? style first.text = some (itemParagraph style first.text) := by
      rw [Paragraph.ofLine?, kind]
    rw [blocksOf_gathered hp]
    · simp [itemParagraph, Paragraph.words_content, margin_eq, hanging_eq]
    · intro l hl
      simp [Paragraph.joins, itemParagraph, below l hl, unopened l hl, Paragraph.continuedByProse,
        Paragraph.admits, margin_eq, hanging_eq, margins l hl]
    · intro l hl
      rw [Paragraph.isEndedBy, unbroken l hl, Bool.and_false]
  | comment first rest m kind margins =>
    have hcomment : ∀ l ∈ first :: rest, kindOf l.text = .comment := by
      intro l hl
      have hmerge := kind l hl
      rw [isMergeableComment, Bool.and_eq_true] at hmerge
      exact (kindOf_eq_comment_iff l.text).mpr hmerge.1
    have hfirst := margins first List.mem_cons_self
    have hp : Paragraph.ofLine? style first.text = some (commentParagraph style first.text) := by
      rw [Paragraph.ofLine?, hcomment first List.mem_cons_self]
      simp [kind first List.mem_cons_self]
    rw [blocksOf_gathered hp]
    · simp [commentParagraph, Paragraph.content, hfirst]
    · intro l hl
      have hmargin := margins l (List.mem_cons_of_mem _ hl)
      simp [Paragraph.joins, commentParagraph, hcomment l (List.mem_cons_of_mem _ hl),
        kind l (List.mem_cons_of_mem _ hl), Paragraph.continuedByComment, Paragraph.admits,
        Frame.even, hmargin, hfirst]
    · intro l hl
      rfl

/-- The lines are written as their filled words, without the last ending if the source lacks it. -/
theorem reflowLines_eq {style : Style} {lines : List Line} {p : Paragraph}
    (h : FormsParagraph style lines p) {e : Text} (he : e ≠ []) :
    reflowLines style e lines ++ (if endsOpen lines then e else []) =
      fill p.frame style.maxWidth e p.words := by
  have hblocks := h.blocksOf_eq
  have hdropped : endsDropped style lines = endsOpen lines := by
    rw [endsDropped, hblocks]
    exact Bool.and_true _
  have hwritten : (blocksOf style lines).flatMap (Block.write style.maxWidth e) =
      fill p.frame style.maxWidth e p.words := by
    rw [hblocks]
    exact List.flatMap_singleton _ _
  cases hopen : endsOpen lines with
  | true =>
    rw [← hwritten, reflowLines_of_dropped he (hdropped.trans hopen)]
    rfl
  | false =>
    rw [← hwritten, reflowLines_of_kept (hdropped.trans hopen)]
    exact List.append_nil _

end FormsParagraph

/-- The layout of a paragraph depends on its margins and its words alone. Lines that form it are
written as the filled words, less the last ending if the last line has none; so any other lines that
form the same paragraph, however they are broken and spaced, are written as the same text. -/
theorem paragraph_layout_ignores_breaks {style : Style} {e : Text} (he : e ≠ [])
    {lines : List Line} {p : Paragraph} (h : FormsParagraph style lines p) :
    reflowLines style e lines ++ (if endsOpen lines then e else []) =
      fill p.frame style.maxWidth e p.words ∧
    ∀ others, FormsParagraph style others p → endsOpen others = endsOpen lines →
      reflowLines style e others = reflowLines style e lines := by
  have hlines := h.reflowLines_eq he
  constructor
  · exact hlines
  · intro others hothers hopen
    have hsame := hothers.reflowLines_eq he
    rw [← hlines, hopen] at hsame
    exact List.append_cancel_right hsame

/-- One item broken in two ways, with a tab or spaces before it, prose on either margin, and a
forced break on its last line. -/
theorem paragraph_layout_ignores_breaks_item :
    ∃ (style : Style) (lines others : List Line) (p : Paragraph),
      style = { maxWidth := 12, tabWidth := 2 } ∧
      lines = linesFrom 0 "\t\\item one  two\n        three\r  four\\\\".toList ∧
      others = linesFrom 5 "  \\item one\n\ttwo three  four\\\\ ".toList ∧
      p = ⟨.item, ⟨"  ".toList, "        ".toList⟩,
        ["\\item", "one", "two", "three", "four\\\\"].map String.toList⟩ ∧
      FormsParagraph style lines p ∧ FormsParagraph style others p ∧
      endsOpen lines = true ∧ endsOpen others = true ∧
      reflowLines style ['\n'] lines ++ ['\n'] = fill p.frame style.maxWidth ['\n'] p.words ∧
      reflowLines style ['\n'] others = reflowLines style ['\n'] lines ∧
      reflowLines style ['\n'] lines =
        "  \\item one\n        two\n        three\n        four\\\\".toList := by
  let style : Style := { maxWidth := 12, tabWidth := 2 }
  let frame : Frame := ⟨"  ".toList, "        ".toList⟩
  let ws := ["\\item", "one", "two", "three", "four\\\\"].map String.toList
  let first : Line := ⟨"\t\\item one  two".toList, 0, ['\n']⟩
  let rest : List Line := [⟨"        three".toList, 1, ['\r']⟩, ⟨"  four\\\\".toList, 2, []⟩]
  let other : Line := ⟨"  \\item one".toList, 5, ['\n']⟩
  let more : List Line := [⟨"\ttwo three  four\\\\ ".toList, 6, []⟩]
  have hwords : (first :: rest).flatMap (fun l => words l.text) = ws := by decide +kernel
  have hsame : (other :: more).flatMap (fun l => words l.text) = ws := by decide +kernel
  have hlines : FormsParagraph style (first :: rest) ⟨.item, frame, ws⟩ := by
    rw [← hwords]
    exact .item first rest frame.first frame.later (by decide +kernel) (by decide +kernel)
      (by decide +kernel) (by decide +kernel) (by decide +kernel) (by decide +kernel)
      (by decide +kernel)
  have hothers : FormsParagraph style (other :: more) ⟨.item, frame, ws⟩ := by
    rw [← hsame]
    exact .item other more frame.first frame.later (by decide +kernel) (by decide +kernel)
      (by decide +kernel) (by decide +kernel) (by decide +kernel) (by decide +kernel)
      (by decide +kernel)
  have hlayout := paragraph_layout_ignores_breaks (e := ['\n']) (by simp) hlines
  refine ⟨style, first :: rest, other :: more, ⟨.item, frame, ws⟩, rfl, by decide +kernel,
    by decide +kernel, rfl, hlines, hothers, by decide +kernel, by decide +kernel, ?_, ?_,
    by decide +kernel⟩
  · exact hlayout.1
  · exact hlayout.2 _ hothers (by decide +kernel)

end HardWrap
