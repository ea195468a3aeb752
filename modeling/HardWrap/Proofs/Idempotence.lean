import HardWrap.Proofs.BlankLines
import HardWrap.Proofs.StableBlocks
import Mathlib.Data.List.Forall2

/-! Running twice. The first run changes where lines start and end, so the second run reads every
line afresh. If all blocks are stable it finds the sections of the first run again, one after the
other, each of them settled, and changes nothing. Not every text is so: the words before a comment
can be wrapped to a line of their own, which the second run takes for the end of the paragraph above
it. -/

namespace HardWrap

open Text

/-! ### Lines as they were written -/

/-- A line that was written as a row of a block, with or without the ending. -/
def Line.IsRow (y : Line) (row : Text × Text) : Prop :=
  y.text = row.1 ∧ (y.ending = row.2 ∨ y.ending = [])

section Rows

variable {ys : List Line} {rows : List (Text × Text)}

theorem texts_of_rows (h : List.Forall₂ Line.IsRow ys rows) :
    ys.map Line.text = rows.map Prod.fst := by
  induction h with
  | nil => rfl
  | cons hrow _ ih => rw [List.map_cons, List.map_cons, ih, hrow.1]

theorem endings_of_rows (h : List.Forall₂ Line.IsRow ys rows) {e : Text}
    (he : ∀ row ∈ rows, row.2 = e) : ∀ y ∈ ys, y.ending = e ∨ y.ending = [] := by
  induction h with
  | nil => simp
  | @cons y row ys rows hrow _ ih =>
    obtain ⟨hfirst, hrest⟩ := List.forall_mem_cons.mp he
    refine List.forall_mem_cons.mpr ⟨?_, ih hrest⟩
    rw [← hfirst]
    exact hrow.2

theorem split_rows {more : List (Text × Text)} (h : List.Forall₂ Line.IsRow ys (rows ++ more)) :
    ∃ front back, ys = front ++ back ∧ List.Forall₂ Line.IsRow front rows ∧
      List.Forall₂ Line.IsRow back more :=
  ⟨_, _, (List.take_append_drop rows.length ys).symm, List.forall₂_take_append ys rows more h,
    List.forall₂_drop_append ys rows more h⟩

theorem rows_of_parts (h : ys.map Line.parts = rows) : List.Forall₂ Line.IsRow ys rows := by
  subst h
  rw [List.forall₂_map_right_iff, List.forall₂_same]
  exact fun y _ => ⟨rfl, Or.inl rfl⟩

end Rows

namespace Section

variable {style : Style} {lines : List Line} {b : Block} {width : Int} {e : Text} {ys : List Line}

/-- The lines of a stable block open nothing and are settled. -/
theorem Reads.filled_again (h : Reads style lines b) (hb : b.isFilled = true)
    (hstable : b.IsStable style) (hys : List.Forall₂ Line.IsRow ys (b.rows width e)) :
    (∀ y ∈ ys, nextOpen style none y.text = none) ∧
      ∀ s ∈ sectionsFrom style none ys, s.IsSettled width e := by
  have htexts : ys.map Line.text = b.contents width := by
    rw [texts_of_rows hys, Block.rows, closeLines_fst]
  obtain ⟨front, last, hcontents⟩ := h.contents_concat width
  rw [Block.rows, hcontents, closeLines_concat] at hys
  have hcommon : ∀ row ∈ front.map fun t => (t, e), row.2 = e := by simp
  cases b with
  | copied line crossing => cases hb
  | paragraph q =>
    obtain ⟨hopen, hsettled⟩ := h.paragraph_again hstable width
    refine ⟨fun y hy => hopen _ (htexts ▸ List.mem_map_of_mem hy), ?_⟩
    refine hsettled ys htexts e (endings_of_rows hys ?_)
    rw [List.forall_mem_append]
    exact ⟨hcommon, by simp [Block.lastEnding]⟩
  | commented c =>
    obtain ⟨hopen, -, hsettled⟩ := h.commented_again hstable width
    refine ⟨fun y hy => hopen _ (htexts ▸ List.mem_map_of_mem hy), ?_⟩
    refine hsettled ys htexts e ?_
    obtain ⟨first, final, rfl, hfirst, hfinal⟩ := split_rows hys
    obtain ⟨y, more, -, hmore, rfl⟩ := List.forall₂_cons_right_iff.mp hfinal
    rw [List.forall₂_nil_right_iff] at hmore
    subst hmore
    rw [List.dropLast_concat]
    exact endings_of_rows hfirst hcommon

/-- So are those of a stable block and of what follows it, if nothing goes on beyond the block. -/
theorem Reads.append_again (h : Reads style lines b) (hb : b.isFilled = true)
    (hstable : b.IsStable style) (hys : List.Forall₂ Line.IsRow ys (b.rows width e))
    {back : List Line} (hcloses : ∀ y ∈ back.head?, Closes style (b.contents width) y.text)
    (hback : ∀ s ∈ sectionsFrom style none back, s.IsSettled width e) :
    ∀ s ∈ sectionsFrom style none (ys ++ back), s.IsSettled width e := by
  obtain ⟨hopen, hsettled⟩ := h.filled_again hb hstable hys
  have htexts : ys.map Line.text = b.contents width := by
    rw [texts_of_rows hys, Block.rows, closeLines_fst]
  rw [sectionsFrom_append hopen (by rwa [htexts]), List.forall_mem_append]
  exact ⟨hsettled, hback⟩

theorem settled_of_copied {s : Section} (h : s.block.isFilled = false) : s.IsSettled width e := by
  obtain ⟨lines, b⟩ := s
  cases b with
  | copied line crossing => trivial
  | paragraph p => cases h
  | commented c => cases h

end Section

/-! ### The whole text -/

theorem sections_first_line {style : Style} {isOpen : Option Text} {line : Line}
    {rest : List Line} {s : Section} {more : List Section}
    (h : sectionsFrom style isOpen (line :: rest) = s :: more) :
    Section.Reads style s.lines s.block ∧ ∃ later, s.lines = line :: later := by
  have hreads := sections_read style isOpen (line :: rest) s (by simp [h])
  have hlines := sections_lines style isOpen (line :: rest)
  obtain ⟨first, later, hcons⟩ := List.exists_cons_of_ne_nil hreads.lines_ne_nil
  rw [h, List.flatMap_cons, hcons, List.cons_append] at hlines
  exact ⟨hreads, later, by rw [hcons, (List.cons.inj hlines).1]⟩

section Seam

variable {style : Style} {width : Int} {e : Text}

/-- What is written for the lines after a paragraph begins with the first line of a block. -/
theorem Section.Reads.closes_back {lines after back : List Line} {q : Paragraph}
    (h : Reads style lines (.paragraph q)) (hstable : (Block.paragraph q).IsStable style)
    (hstops : (∃ l ∈ lines.getLast?, q.isEndedBy l.text = true) ∨
      ∀ l ∈ after.head?, q.joins style l.text = false)
    (hnext : ∀ s ∈ (sectionsFrom style none after).head?,
      s.block.IsStable style ∧ (Block.paragraph q).takesUp width s.block = false)
    (hback : List.Forall₂ Line.IsRow back (writtenRows width e (sectionsFrom style none after))) :
    ∀ y ∈ back.head?, Closes style ((Block.paragraph q).contents width) y.text := by
  intro y hy
  refine h.closes hstable width ?_
  intro hjoins
  rcases hstops with ⟨l, hl, hended⟩ | hstops
  · rw [Paragraph.isEndedBy, Bool.and_eq_true, bne_iff_ne] at hended
    exact ⟨hended.1, by rw [h.last_break hended.1 hl, hended.2]⟩
  · cases after with
    | nil =>
      simp only [sectionsFrom, writtenRows, List.flatMap_nil, List.forall₂_nil_right_iff] at hback
      rw [hback] at hy
      cases hy
    | cons line rest =>
      cases hsections : sectionsFrom style none (line :: rest) with
      | nil =>
        have hlines := sections_lines style none (line :: rest)
        rw [hsections] at hlines
        cases hlines
      | cons s more =>
        obtain ⟨hreads, later, hlines⟩ := sections_first_line hsections
        obtain ⟨hs, hup⟩ := hnext s (by simp [hsections])
        have hhead : y.text ∈ (s.block.contents width).head? := by
          have htexts := texts_of_rows hback
          rw [writtenRows_fst, hsections, List.flatMap_cons] at htexts
          obtain ⟨front, last, hcontents⟩ := hreads.contents_concat width
          have hne : s.block.contents width ≠ [] := by simp [hcontents]
          have hfirst := congrArg List.head? htexts
          rw [List.head?_map, Option.mem_def.mp hy, List.head?_append_of_ne_nil _ hne] at hfirst
          exact hfirst.symm
        rw [hlines] at hreads
        rcases hreads.joins_first hs hhead hup hjoins with hgoes | hbreak
        · rw [hstops line (by simp)] at hgoes
          cases hgoes
        · exact hbreak

theorem commentedBlock_isFilled (line : Line) (pos : Nat) :
    (commentedBlock style line pos).isFilled = !isCommandLine (commentedBody line.text pos) := by
  cases h : isCommandLine (commentedBody line.text pos) with
  | false => rw [commentedBlock_eq h]; rfl
  | true =>
    rw [commentedBody] at h
    simp [commentedBlock, h, Block.isFilled]

/-- Whether a line is copied depends on its text alone. -/
theorem loneBlock_isFilled_congr {y line : Line} (h : y.text = line.text) :
    (loneBlock style y).isFilled = (loneBlock style line).isFilled := by
  unfold loneBlock
  rw [h]
  split
  · rfl
  · rfl
  · rw [commentedBlock_isFilled, commentedBlock_isFilled, h]
  · rw [commentedBlock_isFilled, commentedBlock_isFilled, h]
  all_goals rfl

theorem Section.Reads.nextOpen_commented {line : Line} {c : CommentedLine}
    (h : Reads style [line] (.commented c)) : nextOpen style none line.text = none := by
  generalize hb : Block.commented c = b at h
  generalize hl : [line] = ls at h
  cases h with
  | copied l crossing => cases hb
  | paragraph first rest p q hp hrest => cases hb
  | commented l pos hk hbody =>
    obtain rfl : line = l := by simpa using hl
    rcases hk with hk | hk
    · simp [nextOpen, hk]
    · simp [nextOpen, hk]

/-- Written lines of stable blocks are read section by section as their source was, and all sections
are settled. -/
theorem sections_settled_again {isOpen : Option Text} {xs ys : List Line}
    (hstable : ∀ s ∈ sectionsFrom style isOpen xs, s.block.IsStable style)
    (hapart : ((sectionsFrom style isOpen xs).map Section.block).IsChain
      fun b c => b.takesUp width c = false)
    (hys : List.Forall₂ Line.IsRow ys (writtenRows width e (sectionsFrom style isOpen xs))) :
    ∀ s ∈ sectionsFrom style isOpen ys, s.IsSettled width e := by
  fun_induction sectionsFrom style isOpen xs generalizing ys with
  | case1 isOpen =>
    simp only [writtenRows, List.flatMap_nil, List.forall₂_nil_right_iff] at hys
    subst hys
    cases isOpen <;> simp [sectionsFrom]
  | case2 name line rest ih =>
    rw [List.forall_mem_cons] at hstable
    rw [List.map_cons] at hapart
    rw [writtenRows, List.flatMap_cons] at hys
    obtain ⟨y, more, ⟨hy, -⟩, hmore, rfl⟩ := List.forall₂_cons_right_iff.mp hys
    rw [sectionsFrom, List.forall_mem_cons]
    refine ⟨trivial, ?_⟩
    have hy : y.text = line.text := hy
    rw [hy]
    exact ih hstable.2 hapart.tail hmore
  | case3 line rest p hp ih =>
    rw [List.forall_mem_cons] at hstable
    rw [List.map_cons] at hapart
    rw [writtenRows, List.flatMap_cons] at hys
    obtain ⟨front, back, rfl, hfront, hback⟩ := split_rows hys
    have hreads : Section.Reads style (line :: rest.take (p.gather style line rest).2)
        (.paragraph (p.gather style line rest).1) :=
      .paragraph line _ p _ hp (p.gather_absorbs style line rest)
    refine hreads.append_again rfl hstable.1 hfront ?_ (ih hstable.2 hapart.tail hback)
    refine hreads.closes_back hstable.1 (p.gather_stops style line rest) ?_ hback
    intro s hs
    refine ⟨hstable.2 s (List.mem_of_head? hs), (List.isChain_cons.mp hapart).1 s.block ?_⟩
    rw [List.head?_map, Option.mem_def.mp hs]
    rfl
  | case4 line rest hp ih =>
    rw [List.forall_mem_cons] at hstable
    rw [List.map_cons] at hapart
    rw [writtenRows, List.flatMap_cons] at hys
    have hreads := loneBlock_reads style line
    cases hblock : loneBlock style line with
    | paragraph q =>
      rw [hblock] at hreads
      obtain ⟨p, hopens, -⟩ := hreads.opening
      rw [hp] at hopens
      cases hopens
    | copied l crossing =>
      have hcopied : (loneBlock style line).isFilled = false := by rw [hblock]; rfl
      rcases hreads.copied_or_filled with ⟨l', crossing', hl, hsame⟩ | hfilled
      · obtain rfl : line = l' := by simpa using hl
        rw [hsame] at hys
        obtain ⟨y, more, ⟨hy, -⟩, hmore, rfl⟩ := List.forall₂_cons_right_iff.mp hys
        have hy : y.text = line.text := hy
        have hlone : Paragraph.ofLine? style y.text = none := by rw [hy, hp]
        simp only [sectionsFrom, hlone, List.forall_mem_cons]
        refine ⟨Section.settled_of_copied ((loneBlock_isFilled_congr hy).trans hcopied), ?_⟩
        rw [hy]
        exact ih hstable.2 hapart.tail hmore
      · rw [hcopied] at hfilled
        cases hfilled
    | commented c =>
      rw [hblock] at hreads hstable hys
      rw [hreads.nextOpen_commented] at ih hstable hapart hys
      obtain ⟨front, back, rfl, hfront, hback⟩ := split_rows hys
      refine hreads.append_again rfl hstable.1 hfront ?_ (ih hstable.2 hapart.tail hback)
      exact fun y _ => (hreads.commented_again hstable.1 width).2.1 y.text

end Seam

/-! ### Endings -/

theorem Section.IsSettled.of_open {s : Section} {width : Int} {e f : Text}
    (h : s.IsSettled width e) (hopen : ∀ l ∈ s.lines, l.ending = []) : s.IsSettled width f := by
  obtain ⟨lines, b⟩ := s
  cases b with
  | copied line crossing => trivial
  | commented c => exact h
  | paragraph p => exact ⟨fun l hl => Or.inr (hopen l hl), h.2⟩

/-- New lines of a text get the ending of its first line, if that has one. -/
theorem ending_first_line {t : Text} {line : Line} {rest : List Line}
    (h : t.lines = line :: rest) : line.ending = t.newEnding ∨ line.ending = [] ∧ rest = [] := by
  have hparts : cut t = line.parts :: rest.map Line.parts := by
    rw [← lines_parts, h, List.map_cons]
  have hcut := cut_isCut t
  rw [hparts] at hcut
  rcases hcut.2.1 with hend | ⟨hopen, hnil⟩
  · left
    have ht : t = line.text ++ (line.ending ++ joinLines (rest.map Line.parts)) := by
      conv_lhs => rw [← joinLines_cut t, hparts]
      exact joinLines_cons _ _ _
    rw [ht, newEnding, firstEnding?_line hcut.1 hend _ hcut.2.2.1]
    rfl
  · exact Or.inr ⟨hopen, List.map_eq_nil_iff.mp hnil⟩

theorem Section.Reads.lastEnding_first {style : Style} {line : Line} {rest : List Line} {b : Block}
    (h : Reads style (line :: rest) b) (e : Text) :
    b.lastEnding e = e ∨ b.lastEnding e = line.ending := by
  generalize hl : line :: rest = ls at h
  cases h with
  | copied l crossing =>
    obtain ⟨rfl, -⟩ := List.cons.inj hl
    exact Or.inr rfl
  | paragraph first more p q hp hmore => exact Or.inl rfl
  | commented l pos hk hbody =>
    obtain ⟨rfl, -⟩ := List.cons.inj hl
    rw [commentedBlock_eq hbody]
    by_cases hopen : line.ending.isEmpty = true
    · exact Or.inl (if_pos hopen)
    · exact Or.inr (if_neg hopen)

/-- The first line that is written has the ending that new lines get, or none. -/
theorem first_row_ending (style : Style) (t : Text) :
    ∀ row ∈ (writtenRows style.maxWidth t.newEnding (sectionsFrom style none t.lines)).head?,
      row.2 = t.newEnding ∨ row.2 = [] := by
  intro row hrow
  cases hsections : sectionsFrom style none t.lines with
  | nil =>
    rw [hsections] at hrow
    cases hrow
  | cons s more =>
    cases hl : t.lines with
    | nil =>
      rw [hl, sectionsFrom] at hsections
      cases hsections
    | cons line rest =>
      have hending : line.ending = t.newEnding ∨ line.ending = [] :=
        (ending_first_line hl).imp_right And.left
      rw [hl] at hsections
      obtain ⟨hreads, later, hlines⟩ := sections_first_line hsections
      rw [hlines] at hreads
      obtain ⟨front, last, hcontents⟩ := hreads.contents_concat style.maxWidth
      rw [hl, hsections, writtenRows, List.flatMap_cons, Block.rows, hcontents, closeLines_concat]
        at hrow
      cases front with
      | cons u front =>
        left
        rw [← Option.some.inj hrow]
      | nil =>
        rw [← Option.some.inj hrow]
        rcases hreads.lastEnding_first t.newEnding with hnew | hown
        · exact Or.inl hnew
        · rw [hown]
          exact hending

/-! ### Running twice -/

/-- Reflowing a second time changes nothing if all blocks of the source are stable, no line is lost
and no paragraph takes up a wrapped line with a comment. -/
theorem reflow_idempotent_of_stable {style : Style} {t : Text}
    (hstable : ∀ b ∈ blocksOf style t.lines, b.IsStable style)
    (hkeeps : (blocksOf style t.lines).IsChain fun b c => ¬ LosesLine t.newEnding b c)
    (hapart : (blocksOf style t.lines).IsChain fun b c => b.takesUp style.maxWidth c = false) :
    reflow style (reflow style t) = reflow style t := by
  obtain ⟨ps, hps, hlined, hne, -, hiff, hrows⟩ := reflow_rows style t
  have hparts : (reflow style t).lines.map Line.parts = ps := by
    rw [lines_parts, hps, cut_joinLines (hiff.mpr hkeeps) hne]
  have hwritten : List.Forall₂ Line.IsRow (reflow style t).lines
      (writtenRows style.maxWidth t.newEnding (sectionsFrom style none t.lines)) := by
    rcases hrows with rfl | ⟨front, u, rfl, hconcat⟩
    · exact rows_of_parts hparts
    · obtain ⟨xs, ys, hlines, hxs, hys⟩ := List.map_eq_append_iff.mp hparts
      obtain ⟨y, more, hcons, hy, hnil⟩ := List.map_eq_cons_iff.mp hys
      rw [List.map_eq_nil_iff.mp hnil] at hcons
      rw [hlines, hcons, hconcat]
      refine List.rel_append (rows_of_parts hxs) (.cons ⟨?_, Or.inr ?_⟩ .nil)
      · exact congrArg Prod.fst hy
      · exact congrArg Prod.snd hy
  rw [blocksOf_eq] at hapart hstable
  have hsettled := sections_settled_again (List.forall_mem_map.mp hstable) hapart hwritten
  rw [reflow_eq_self_iff]
  cases hl : (reflow style t).lines with
  | nil => simp [sectionsFrom]
  | cons y ys =>
    rw [hl] at hsettled hwritten
    rcases ending_first_line hl with hending | ⟨hopen, rfl⟩
    · -- The ending is the common one, so the lines are settled with the ending they are given.
      obtain ⟨row, rows, ⟨-, hrow⟩, -, hcons⟩ := List.forall₂_cons_left_iff.mp hwritten
      have hfirst := first_row_ending style t row (by rw [hcons]; rfl)
      have hne := (newEnding_isEnding (reflow style t)).ne_nil
      rw [hending] at hrow
      rcases hrow with hrow | hnil
      · rcases hfirst with hsame | hnil
        · rwa [hrow, hsame]
        · exact absurd (hrow.trans hnil) hne
      · exact absurd hnil hne
    · intro s hs
      refine (hsettled s hs).of_open fun l hl => ?_
      rw [List.mem_singleton.mp ((lines_infix_of_mem_sections hs).subset hl)]
      exact hopen

/-- An item with a label of two words, a comment at the margin of a tab, an environment that is
copied and a line with a comment that is wrapped. -/
theorem reflow_idempotent_of_stable_item :
    ∃ (style : Style) (t : Text), style = { maxWidth := 14 } ∧
      t = ("\\item[a b] one two\n\n\t% a  note\n\\begin\x7bv\x7d\n x\n\\end\x7bv\x7d\n" ++
        "some more words % all\n").toList ∧
      (∀ b ∈ blocksOf style t.lines, b.IsStable style) ∧
      reflow style t = ("\\item[a b] one\n           two\n\n    % a note\n" ++
        "\\begin\x7bv\x7d\n x\n\\end\x7bv\x7d\nsome more\nwords % all\n").toList ∧
      reflow style (reflow style t) = reflow style t := by
  refine ⟨_, _, rfl, rfl, ?stable, by decide +kernel,
    reflow_idempotent_of_stable ?stable ?keeps (by decide +kernel)⟩
  case stable => decide +kernel
  case keeps =>
    apply List.Pairwise.isChain
    apply List.pairwise_of_forall
    intro b c hloses
    exact absurd hloses.1 (by decide +kernel)

/-- The words before a comment can be wrapped to a line of their own, which the second run takes for
the end of the paragraph above it. -/
theorem reflow_not_idempotent :
    ¬ ∀ (style : Style) (t : Text), style.Valid →
      reflow style (reflow style t) = reflow style t := by
  intro h
  have := h { maxWidth := 5 } "x\naaa bbb % c\n".toList (by decide)
  revert this
  decide +kernel

end HardWrap
