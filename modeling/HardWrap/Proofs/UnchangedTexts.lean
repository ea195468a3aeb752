import HardWrap.Proofs.Settled

/-! Which texts reflow leaves as they are: exactly those of which all sections are settled. What is
written for such a text is its own lines, section by section, and a last line without an ending
stays without one. -/

namespace HardWrap

open Text

/-! ### Closing the last line -/

theorem Text.IsCut.close_last {ps : List (Text × Text)} {t e : Text} (h : IsCut (ps ++ [(t, [])]))
    (ht : t ≠ []) (he : IsEnding e) : IsCut (ps ++ [(t, e)]) := by
  induction ps with
  | nil => exact ⟨h.1, Or.inl he, by simp, trivial⟩
  | cons p ps ih =>
    obtain ⟨u, f⟩ := p
    rw [List.cons_append] at h ⊢
    refine ⟨h.1, ?_, ?_, ih h.tail⟩
    · rcases h.2.1 with hf | ⟨-, hnil⟩
      · exact Or.inl hf
      · simp at hnil
    · intro hcr
      have hhead := h.2.2.1 hcr
      rw [joinLines_append] at hhead ⊢
      simp only [joinLines_cons, joinLines_nil, List.append_nil] at hhead ⊢
      rwa [← List.append_assoc, List.head?_append_of_ne_nil _ (by simp [ht])]

namespace Section

theorem closed_eq_parts {e : Text} {s : Section} (h : ∀ l ∈ s.lines, IsEnding l.ending) :
    s.closed e = s.lines.map Line.parts := by
  apply List.map_congr_left
  intro l hl
  simp [Line.parts, (h l hl).ne_nil]

theorem closed_of_copied {e : Text} {s : Section} (h : s.block.isFilled = false) :
    s.closed e = s.lines.map Line.parts := by
  simp [closed, h, Line.parts]

theorem closed_endings {e : Text} {s : Section} (he : IsEnding e) (hs : s.block.isFilled = true)
    (h : ∀ p ∈ s.closed e, IsEnding p.2 ∨ p.2 = []) : ∀ p ∈ s.closed e, IsEnding p.2 := by
  intro p hp
  rcases h p hp with hend | hnil
  · exact hend
  · obtain ⟨l, hl, rfl⟩ := List.mem_map.mp hp
    simp only [hs, Bool.true_and] at hnil ⊢
    split at hnil
    next hopen => rw [if_pos hopen]; exact he
    next hopen => exact absurd (List.isEmpty_iff.mpr hnil) hopen

theorem Reads.text_ne_nil {style : Style} {lines : List Line} {b : Block}
    (h : Reads style lines b) (hb : b.isFilled = true) : ∀ l ∈ lines, l.text ≠ [] := by
  intro l hl hnil
  cases h with
  | copied line crossing => cases hb
  | commented line pos hk hbody =>
    rw [List.mem_singleton.mp hl] at hnil
    rw [hnil] at hk
    rcases hk with hk | hk <;> cases hk
  | paragraph line rest p q hp hrest =>
    have hreads : Reads style (line :: rest) (.paragraph q) := .paragraph line rest p q hp hrest
    apply hreads.words.2.1 l hl
    rw [hnil]
    unfold Paragraph.content
    split <;> rfl

end Section

/-- Closing the last line of a filled block is the only difference to the source. -/
theorem closed_sections {style : Style} {sections : List Section} {e : Text}
    (hreads : ∀ s ∈ sections, Section.Reads style s.lines s.block)
    (hcut : IsCut ((sections.flatMap Section.lines).map Line.parts)) :
    (dropsEnding sections = false ∧
      sections.flatMap (Section.closed e) = (sections.flatMap Section.lines).map Line.parts) ∨
    (dropsEnding sections = true ∧ ∃ ps t, t ≠ [] ∧
      (sections.flatMap Section.lines).map Line.parts = ps ++ [(t, [])] ∧
      sections.flatMap (Section.closed e) = ps ++ [(t, e)]) := by
  rcases List.eq_nil_or_concat' sections with rfl | ⟨front, last, rfl⟩
  · exact Or.inl ⟨rfl, rfl⟩
  · have hlast := hreads last (by simp)
    have hlines : ((front ++ [last]).flatMap Section.lines).map Line.parts
        = (front.flatMap Section.lines).map Line.parts ++ last.lines.map Line.parts := by
      simp
    rw [hlines] at hcut ⊢
    have hfront : front.flatMap (Section.closed e)
        = (front.flatMap Section.lines).map Line.parts := by
      rw [List.map_flatMap]
      apply List.flatMap_congr
      intro s hs
      apply Section.closed_eq_parts
      intro l hl
      refine hcut.ending_of_append ?_ l.parts
        (List.mem_map_of_mem (List.mem_flatMap.mpr ⟨s, hs, hl⟩))
      simpa using hlast.lines_ne_nil
    rw [List.flatMap_append, List.flatMap_singleton, hfront]
    obtain ⟨ls, l, hls⟩ := (List.eq_nil_or_concat' last.lines).resolve_left hlast.lines_ne_nil
    have hdrop : dropsEnding (front ++ [last]) = (l.ending.isEmpty && last.block.isFilled) := by
      simp [dropsEnding, endsOpen, hls]
    rw [hls, List.map_append, ← List.append_assoc] at hcut
    have hls' : ∀ m ∈ ls, IsEnding m.ending := by
      intro m hm
      exact hcut.ending_of_append (by simp) m.parts
        (List.mem_append_right _ (List.mem_map_of_mem hm))
    have hinit : ∀ m ∈ ls, (m.text, if last.block.isFilled && m.ending.isEmpty then e else m.ending)
        = m.parts := by
      intro m hm
      simp [Line.parts, (hls' m hm).ne_nil]
    have hclosed : last.closed e = ls.map Line.parts ++
        [(l.text, if last.block.isFilled && l.ending.isEmpty then e else l.ending)] := by
      rw [Section.closed, hls, List.map_append, List.map_congr_left hinit]
      rfl
    rw [hdrop, hclosed, hls, List.map_append]
    cases hopen : l.ending.isEmpty && last.block.isFilled with
    | false =>
      rw [Bool.and_comm, hopen]
      exact Or.inl ⟨rfl, rfl⟩
    | true =>
      rw [Bool.and_comm, hopen]
      rw [Bool.and_eq_true, List.isEmpty_iff] at hopen
      refine Or.inr ⟨rfl, (front.flatMap Section.lines).map Line.parts ++ ls.map Line.parts,
        l.text, hlast.text_ne_nil hopen.2 l (by simp [hls]), ?_, ?_⟩
      · simp [Line.parts, hopen.1]
      · simp

/-! ### Comparing all sections -/

theorem fill_starts (frame : Frame) (width : Int) (e : Text) {ws : List Text}
    (hframe : Unbroken frame.first) (hws : ∀ w ∈ ws, IsWord w) (hne : ws ≠ []) :
    ∃ c x, fill frame width e ws = c :: x ∧ c ≠ '\n' := by
  have hwords := pack_isWord frame width hws
  have hgroups := pack_nonempty frame width ws
  obtain ⟨g, gs, hpack⟩ := List.exists_cons_of_ne_nil (pack_ne_nil frame width hws hne)
  have hg := hwords g (by simp [hpack])
  have hline : frame.first ++ joinWords g ≠ [] := by
    intro hnil
    have hends := joinWords_ends hg (hgroups g (by simp [hpack]))
    rw [(List.append_eq_nil_iff.mp hnil).2] at hends
    cases hends
  obtain ⟨c, x, hcx⟩ := List.exists_cons_of_ne_nil hline
  have hc := (hframe.append (Unbroken.joinWords hg) c (by simp [hcx])).2
  exact ⟨c, _, by rw [fill, hpack, writeLines, writeLine, hcx]; rfl, hc⟩

theorem Section.Reads.write_starts {style : Style} {lines : List Line} {b : Block}
    (h : Reads style lines b) (hb : b.isFilled = true) (width : Int) {e : Text} (he : IsEnding e) :
    ∃ c x, b.write width e = c :: x ∧ c ≠ '\n' := by
  cases h with
  | copied line crossing => cases hb
  | commented line pos hk hbody =>
    have hword := words_isWord (commentedBody line.text pos)
    have hne := commentedBody_words hk
    have hmargin := unbroken_of_spaces (margin_spaces style.tabWidth line.text)
    rw [commentedBlock_eq hbody, write_commentedLine]
    obtain ⟨y, hy, hends⟩ := fill_ends (commentedLine style line pos).frame width e hword hne
    obtain ⟨c, x, hcx, hc⟩ :=
      fill_starts (commentedLine style line pos).frame width e hmargin hword hne
    rw [hy, dropEnding_append he.ne_nil]
    cases y with
    | nil => cases hends
    | cons d y =>
      rw [hy, List.cons_append] at hcx
      obtain ⟨rfl, -⟩ := List.cons.inj hcx
      exact ⟨d, _, rfl, hc⟩
  | paragraph line rest p q hp hrest =>
    have hreads : Reads style (line :: rest) (.paragraph q) := .paragraph line rest p q hp hrest
    exact fill_starts q.frame width e hreads.frame_unbroken.1 hreads.isWord hreads.words_ne_nil

/-- A line and its shift by one LF agree only if the line is a bare LF. -/
theorem lf_shift {t e x y : Text} (ht : Unbroken t) (he : IsEnding e ∨ e = [])
    (h : t ++ (e ++ x) = '\n' :: (t ++ (e ++ y))) : x = '\n' :: y := by
  cases t with
  | cons c t =>
    have hc := (ht c (by simp)).2
    exact absurd (List.cons.inj h).1 hc
  | nil => rcases he with (rfl | rfl | rfl) | rfl <;> simp_all

/-- No LF is written in front of the lines. -/
theorem writeAll_ne_lf {style : Style} {sections : List Section} {width : Int} {e : Text}
    (he : IsEnding e) (hreads : ∀ s ∈ sections, Section.Reads style s.lines s.block)
    (hcut : IsCut (sections.flatMap (Section.closed e))) :
    writeAll width e sections ≠ '\n' :: joinLines (sections.flatMap (Section.closed e)) := by
  induction sections with
  | nil => simp [writeAll]
  | cons s sections ih =>
    obtain ⟨lines, b⟩ := s
    have hs := hreads ⟨lines, b⟩ (by simp)
    rw [List.flatMap_cons] at hcut ⊢
    rw [writeAll, List.flatMap_cons]
    intro heq
    rcases hs.copied_or_filled with ⟨line, crossing, rfl, rfl⟩ | hb
    · rw [Section.closed_of_copied rfl] at hcut heq
      obtain ⟨hu, hends, -, hrest⟩ := hcut
      refine ih (fun r hr => hreads r (List.mem_cons_of_mem _ hr)) hrest ?_
      refine lf_shift hu (hends.imp_right And.left) ?_
      rw [Block.write_copied, Line.source, List.append_assoc] at heq
      simpa [writeAll, Line.parts] using heq
    · obtain ⟨c, x, hcx, hc⟩ := hs.write_starts hb width he
      simp only [hcx, List.cons_append] at heq
      exact hc (List.cons.inj heq).1

/-- Sections that are written as their lines stand are settled, one after the other. -/
theorem Section.Reads.settled_of_write {style : Style} {lines : List Line} {b : Block}
    (h : Reads style lines b) {width : Int} {e : Text} (he : IsEnding e) {w : Text}
    {rest : List (Text × Text)} (hcut : IsCut ((Section.mk lines b).closed e ++ rest))
    (heq : b.write width e ++ w = joinLines ((Section.mk lines b).closed e) ++ joinLines rest)
    (hno : w ≠ '\n' :: joinLines rest) :
    (Section.mk lines b).IsSettled width e ∧ w = joinLines rest := by
  have hends : b.isFilled = true → Separated (joinLines rest) ((Section.mk lines b).closed e) := by
    intro hb
    refine hcut.separated (closed_endings he hb fun p hp => ?_)
    exact hcut.ending_or_nil p (List.mem_append_left _ hp)
  cases h with
  | copied line crossing =>
    refine ⟨trivial, ?_⟩
    simpa [Block.write, Line.source, closed, Block.isFilled] using heq
  | commented line pos hk hbody =>
    rw [commentedBlock_eq hbody] at heq hends ⊢
    exact commented_settled hk he (hends rfl) heq
  | paragraph line more p q hp hmore =>
    exact (Reads.paragraph line more p q hp hmore).paragraph_settled he (hends rfl) heq hno

theorem writeAll_eq_iff {style : Style} {sections : List Section} {width : Int} {e : Text}
    (he : IsEnding e) (hreads : ∀ s ∈ sections, Section.Reads style s.lines s.block)
    (hcut : IsCut (sections.flatMap (Section.closed e))) :
    writeAll width e sections = joinLines (sections.flatMap (Section.closed e)) ↔
      ∀ s ∈ sections, s.IsSettled width e := by
  induction sections with
  | nil => simp [writeAll]
  | cons s sections ih =>
    have hs := hreads s (by simp)
    have hreads' : ∀ s ∈ sections, Section.Reads style s.lines s.block :=
      fun r hr => hreads r (List.mem_cons_of_mem _ hr)
    rw [List.flatMap_cons] at hcut ⊢
    have hrest : IsCut (sections.flatMap (Section.closed e)) := by
      simpa using hcut.drop (s.closed e).length
    rw [joinLines_append, List.forall_mem_cons, ← ih hreads' hrest]
    constructor
    · intro heq
      exact hs.settled_of_write he hcut heq (writeAll_ne_lf he hreads' hrest)
    · rintro ⟨hsettled, hmore⟩
      rw [← hmore, ← hs.write_of_settled he hsettled]
      rfl

/-! ### Texts that stay -/

/-- Exactly the texts with settled sections stay as they are. -/
theorem reflow_eq_self_iff (style : Style) (t : Text) :
    reflow style t = t ↔
      ∀ s ∈ sectionsFrom style none t.lines, s.IsSettled style.maxWidth t.newEnding := by
  have he := newEnding_isEnding t
  have hreads := sections_read style none t.lines
  have hparts : ((sectionsFrom style none t.lines).flatMap Section.lines).map Line.parts
      = cut t := by
    rw [sections_lines, lines_parts]
  have hcut := cut_isCut t
  rw [reflow, reflowLines_eq]
  rcases closed_sections (e := t.newEnding) hreads (hparts ▸ hcut) with
    ⟨hkeep, hclosed⟩ | ⟨hdrop, ps, u, hu, hlast, hclosed⟩
  · rw [hparts] at hclosed
    rw [← writeAll_eq_iff he hreads (hclosed ▸ hcut), hclosed, joinLines_cut, hkeep]
    simp
  · -- What is written ends with the common ending, which the last line lacks.
    rw [hparts] at hlast
    obtain ⟨x, hx⟩ := writeAll_ends hreads style.maxWidth t.newEnding hdrop
    have hcut' : IsCut
        ((sectionsFrom style none t.lines).flatMap (Section.closed t.newEnding)) := by
      rw [hclosed]
      exact (hlast ▸ hcut).close_last hu he
    have ht : joinLines ((sectionsFrom style none t.lines).flatMap (Section.closed t.newEnding))
        = t ++ t.newEnding := by
      have hsource : joinLines ps ++ u = t := by
        conv_rhs => rw [← joinLines_cut t, hlast]
        simp
      rw [hclosed, joinLines_append, joinLines_cons, joinLines_nil, List.append_nil,
        ← List.append_assoc, hsource]
    rw [← writeAll_eq_iff he hreads hcut', ht, hdrop, hx, if_pos rfl, dropEnding_append he.ne_nil]
    exact (List.append_left_inj t.newEnding).symm

end HardWrap
