import HardWrap.Proofs.Writing

/-! Reflow keeps the words of a text. The sections of a text are followed from its first line to its
last: what has been written so far has the words of the lines that were read, percent signs apart,
because a paragraph of comments is written with as many of them as it has lines. -/

namespace HardWrap

open Text

/-- What is written has the words of the lines. Only the last line may lack an ending, so every
block but the last ends at a gap. -/
theorem bareWords_writeAll {style : Style} {sections : List Section}
    (hreads : ∀ s ∈ sections, Section.Reads style s.lines s.block)
    (hcut : IsCut ((sections.flatMap Section.lines).map Line.parts)) (width : Int) {e : Text}
    (he : IsEnding e) :
    bareWords (writeAll width e sections) =
      (sections.flatMap Section.lines).flatMap fun l => bareWords l.text := by
  induction sections with
  | nil => rfl
  | cons s rest ih =>
    rw [List.flatMap_cons, List.map_append] at hcut
    have hs := hreads s (by simp)
    have hends : ∀ l ∈ s.lines, IsEnding l.ending ∨ l.ending = [] := by
      intro l hl
      exact hcut.ending_or_nil l.parts (List.mem_append_left _ (List.mem_map_of_mem hl))
    have hrest := ih (fun r hr => hreads r (List.mem_cons_of_mem _ hr)) (by
      have := hcut.drop (s.lines.map Line.parts).length
      rwa [List.drop_left] at this)
    rw [writeAll, List.flatMap_cons, List.flatMap_cons, List.flatMap_append,
      ← hs.bareWords_write width he hends, ← hrest]
    cases rest with
    | nil => simp [writeAll, bareWords, words_nil]
    | cons r rest =>
      apply bareWords_append
      apply hs.write_endsAtGap width he
      intro l hl
      refine hcut.ending_of_append ?_ l.parts (List.mem_map_of_mem hl)
      have := (hreads r (by simp)).lines_ne_nil
      simp [this]

theorem bareWords_reflowLines (style : Style) {e : Text} (he : IsEnding e) {lines : List Line}
    (hcut : IsCut (lines.map Line.parts)) :
    bareWords (reflowLines style e lines) = lines.flatMap fun l => bareWords l.text := by
  have hreads := sections_read style none lines
  have hall : bareWords (writeAll style.maxWidth e (sectionsFrom style none lines)) =
      lines.flatMap fun l => bareWords l.text := by
    have := bareWords_writeAll hreads (by rwa [sections_lines]) style.maxWidth he
    rwa [sections_lines] at this
  rw [reflowLines_eq]
  split
  next hd =>
    obtain ⟨x, hx⟩ := writeAll_ends hreads style.maxWidth e hd
    rw [← hall, hx, dropEnding_append he.ne_nil]
    exact bareWords_of_words_eq (words_append_blank he.blank).symm
  next => exact hall

/-- Reflow loses, adds, reorders, splits and joins no word, percent signs apart. -/
theorem reflow_keeps_words (style : Style) (t : Text) :
    bareWords (reflow style t) = bareWords t := by
  have hcut : IsCut (t.lines.map Line.parts) := by
    rw [lines_parts]
    exact cut_isCut t
  calc bareWords (reflow style t) = t.lines.flatMap fun l => bareWords l.text :=
        bareWords_reflowLines style (newEnding_isEnding t) hcut
    _ = bareWords (joinLines (t.lines.map Line.parts)) := by
        rw [hcut.bareWords_eq, List.flatMap_map]
        rfl
    _ = bareWords t := by rw [lines_parts, joinLines_cut]

end HardWrap
