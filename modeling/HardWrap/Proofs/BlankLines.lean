import HardWrap.Proofs.Contents
import Mathlib.Data.List.Chain

/-! Blank lines. A filled line is never blank and a blank line is always copied, so the lines that
are written have the blank lines of the source. They need not be found again when the result is cut:
an empty line that ends with LF is lost if the line before it ends with CR. In the source the two
would have been one ending, so this happens only where filling puts the CR there, after a
paragraph. -/

namespace HardWrap

open Text

/-! ### Blank lines after cutting -/

namespace Text

def blanksOf (ps : List (Text × Text)) : List Text :=
  (ps.map Prod.fst).filter isBlankLine

/-- The contents of the blank lines of a text. -/
def blankLines (t : Text) : List Text :=
  (t.lines.map Line.text).filter isBlankLine

theorem blankLines_eq (t : Text) : blankLines t = blanksOf (cut t) := by
  rw [blankLines, blanksOf, ← lines_parts, List.map_map]
  rfl

theorem blanksOf_append (ps qs : List (Text × Text)) :
    blanksOf (ps ++ qs) = blanksOf ps ++ blanksOf qs := by
  simp [blanksOf]

theorem blanksOf_cons (p : Text × Text) (ps : List (Text × Text)) :
    blanksOf (p :: ps) = blanksOf [p] ++ blanksOf ps :=
  blanksOf_append [p] ps

theorem cut_ne_empty (t : Text) : ([], []) ∉ cut t := by
  fun_induction cut t with
  | case1 => simp
  | case2 rest ih => simpa using ih
  | case3 c rest _ hc ih => simpa using ih
  | case4 c rest _ hc ih =>
    cases hcut : cut rest with
    | nil => simp [extendLine]
    | cons p ps =>
      rw [hcut] at ih
      simp only [extendLine, List.mem_cons, not_or] at ih ⊢
      exact ⟨by simp, ih.2⟩

/-- Two lines that become one when they are put together. -/
def Torn (p q : Text × Text) : Prop :=
  p.2 = ['\r'] ∧ q = ([], ['\n'])

theorem IsLined.starts_lf {ps : List (Text × Text)} (h : IsLined ps) :
    (joinLines ps).head? = some '\n' ↔ ps.head? = some ([], ['\n']) := by
  cases ps with
  | nil => simp
  | cons p ps =>
    obtain ⟨t, e⟩ := p
    obtain ⟨ht, he, -⟩ := h
    cases t with
    | cons c t =>
      have hc := (ht c (by simp)).2
      simp [hc]
    | nil => rcases he with (rfl | rfl | rfl) | ⟨rfl, rfl⟩ <;> simp

theorem IsLined.isCut_iff {ps : List (Text × Text)} (h : IsLined ps) :
    IsCut ps ↔ ps.IsChain fun p q => ¬ Torn p q := by
  induction ps with
  | nil => simp [IsCut]
  | cons p ps ih =>
    obtain ⟨t, e⟩ := p
    obtain ⟨ht, he, hrest⟩ := h
    have hseam : (e = ['\r'] → (joinLines ps).head? ≠ some '\n') ↔
        ∀ q ∈ ps.head?, ¬ Torn (t, e) q := by
      rw [ne_eq, hrest.starts_lf]
      constructor
      · intro hno q hq htorn
        exact hno htorn.1 (htorn.2 ▸ hq)
      · intro hno hcr hhead
        exact hno _ hhead ⟨hcr, rfl⟩
    rw [List.isChain_cons, ← ih hrest, ← hseam]
    constructor
    · intro hcut
      exact ⟨hcut.2.2.1, hcut.tail⟩
    · intro hchain
      exact ⟨ht, he, hchain.1, hchain.2⟩

/-- Cutting finds no new blank lines, and it finds them all only if it finds the same lines. -/
theorem IsLined.blanksOf_cut {ps : List (Text × Text)} (h : IsLined ps) (hne : ([], []) ∉ ps) :
    (blanksOf (cut (joinLines ps))).Sublist (blanksOf ps) ∧
      (blanksOf (cut (joinLines ps)) = blanksOf ps → IsCut ps) := by
  induction ps with
  | nil => exact ⟨List.Sublist.refl _, fun _ => trivial⟩
  | cons p ps ih =>
    obtain ⟨t, e⟩ := p
    obtain ⟨ht, hend, hrest⟩ := h
    obtain ⟨hsub, hsame⟩ := ih hrest fun hp => hne (List.mem_cons_of_mem _ hp)
    rw [joinLines_cons, blanksOf_cons]
    rcases hend with he | ⟨rfl, rfl⟩
    · by_cases htorn : e = ['\r'] ∧ (joinLines ps).head? = some '\n'
      · -- CR and LF become one ending, and the empty line between them is gone.
        obtain ⟨rfl, hlf⟩ := htorn
        obtain ⟨r, hr⟩ := List.head?_eq_some_iff.mp hlf
        have hline : cut (t ++ (['\r'] ++ '\n' :: r)) = (t, ['\r', '\n']) :: cut r :=
          cut_line ht (Or.inl rfl) r (by simp)
        have hempty : cut ('\n' :: r) = ([], ['\n']) :: cut r :=
          cut_line (t := []) (by simp [Unbroken]) (Or.inr (Or.inr rfl)) r (by simp)
        have hlost : ([] :: blanksOf (cut r)).Sublist (blanksOf ps) := by
          rw [hr, hempty, blanksOf_cons] at hsub
          exact hsub
        have hfirst : blanksOf [(t, ['\r', '\n'])] = blanksOf [(t, ['\r'])] := rfl
        rw [hr, hline, blanksOf_cons, hfirst]
        constructor
        · exact ((List.sublist_cons_self _ _).trans hlost).append_left _
        · intro heq
          have hlen := hlost.length_le
          rw [List.append_cancel_left heq, List.length_cons] at hlen
          omega
      · have hwhole : e = ['\r'] → (joinLines ps).head? ≠ some '\n' := fun hcr hlf =>
          htorn ⟨hcr, hlf⟩
        rw [cut_line ht he _ hwhole, blanksOf_cons]
        constructor
        · exact hsub.append_left _
        · intro heq
          exact ⟨ht, Or.inl he, hwhole, hsame (List.append_cancel_left heq)⟩
    · have htne : t ≠ [] := by
        rintro rfl
        exact hne (by simp)
      have hcut : IsCut [(t, [])] := ⟨ht, Or.inr ⟨rfl, rfl⟩, by simp, trivial⟩
      have hline : cut (t ++ ([] ++ joinLines [])) = [(t, [])] := by
        simpa using cut_unbroken ht htne
      rw [hline]
      exact ⟨List.sublist_append_left _ _, fun _ => hcut⟩

end Text

/-! ### Blank lines of a section -/

namespace Section

variable {style : Style} {lines : List Line} {b : Block}

theorem Reads.source_not_blank (h : Reads style lines b) (hb : b.isFilled = true) :
    ∀ l ∈ lines, isBlankLine l.text = false := by
  intro l hl
  rw [Bool.eq_false_iff, ne_eq, isBlankLine_iff]
  intro hblank
  cases h with
  | copied line crossing => cases hb
  | commented line pos hk hbody =>
    rw [List.mem_singleton.mp hl] at hblank
    have hempty := strip_eq_nil_of_blank hblank
    have hkind : kindOf line.text ≠ .blank := by rcases hk with hk | hk <;> simp [hk]
    exact strip_ne_nil_of_kind hkind hempty
  | paragraph line rest p q hp hrest =>
    have hreads : Reads style (line :: rest) (.paragraph q) := .paragraph line rest p q hp hrest
    obtain ⟨x, hsplit, -⟩ := q.content_split l.text
    apply hreads.words.2.1 l hl
    rw [words_eq_nil_iff]
    intro c hc
    apply hblank
    rw [hsplit]
    exact List.mem_append_right x hc

theorem Reads.blanksOf_rows (h : Reads style lines b) (width : Int) (e : Text) :
    blanksOf (b.rows width e) = blanksOf (lines.map Line.parts) := by
  rw [blanksOf, Block.rows, closeLines_fst]
  rcases h.copied_or_filled with ⟨line, crossing, rfl, rfl⟩ | hb
  · rfl
  · have hcontents : (b.contents width).filter isBlankLine = [] := by
      rw [List.filter_eq_nil_iff]
      intro t ht
      rw [h.contents_not_blank hb width t ht]
      exact Bool.false_ne_true
    have hsource : blanksOf (lines.map Line.parts) = [] := by
      rw [blanksOf, List.map_map, List.filter_eq_nil_iff]
      intro t ht
      obtain ⟨l, hl, rfl⟩ := List.mem_map.mp ht
      have hblank : isBlankLine l.text = false := h.source_not_blank hb l hl
      rw [Function.comp_apply, Line.parts, hblank]
      exact Bool.false_ne_true
    rw [hcontents, hsource]

theorem Reads.rows_concat (h : Reads style lines b) (width : Int) (e : Text) :
    ∃ front t, b.rows width e = front ++ [(t, b.lastEnding e)] := by
  obtain ⟨front, last, hconcat⟩ := h.contents_concat width
  refine ⟨front.map fun t => (t, e), last, ?_⟩
  rw [Block.rows, hconcat, closeLines_concat]

theorem Reads.rows_ne_nil (h : Reads style lines b) (hb : b.isFilled = true) (width : Int)
    (e : Text) : ∀ p ∈ b.rows width e, p.1 ≠ [] := by
  intro p hp
  apply h.contents_ne_nil hb width
  rw [← closeLines_fst e (b.lastEnding e) (b.contents width)]
  exact List.mem_map_of_mem hp

theorem Reads.rows_chain (h : Reads style lines b) (width : Int) (e : Text) :
    (b.rows width e).IsChain fun p q => ¬ Torn p q := by
  rcases h.copied_or_filled with ⟨line, crossing, rfl, rfl⟩ | hb
  · exact List.isChain_singleton _
  · apply List.Pairwise.isChain
    apply List.pairwise_of_forall_mem_list
    rintro p - q hq ⟨-, rfl⟩
    exact h.rows_ne_nil hb width e _ hq rfl

/-- Only a copied line is written as an empty line. -/
theorem Reads.head_rows_empty (h : Reads style lines b) {width : Int} {e f : Text}
    (hhead : (b.rows width e).head? = some ([], f)) :
    ∃ m crossing, lines = [m] ∧ b = .copied m crossing ∧ m.text = [] ∧ m.ending = f := by
  rcases h.copied_or_filled with ⟨m, crossing, rfl, rfl⟩ | hb
  · have hparts : m.parts = ([], f) := Option.some.inj hhead
    exact ⟨m, crossing, rfl, rfl, congrArg Prod.fst hparts, congrArg Prod.snd hparts⟩
  · exact absurd rfl (h.rows_ne_nil hb width e _ (List.mem_of_head? hhead))

/-- A line that another one follows and that no filling changes keeps its ending. -/
theorem Reads.lastEnding_eq (h : Reads style lines b) {e : Text} {more : List (Text × Text)}
    (hcut : IsCut (lines.map Line.parts ++ more)) (hmore : more ≠ []) :
    (∃ p, b = .paragraph p) ∨ ∃ l, lines = [l] ∧ b.lastEnding e = l.ending := by
  cases h with
  | copied line crossing => exact Or.inr ⟨line, rfl, rfl⟩
  | commented line pos hk hbody =>
    have hline : IsEnding line.ending := hcut.ending_of_append hmore line.parts (by simp)
    rw [commentedBlock_eq hbody]
    exact Or.inr ⟨line, rfl, if_neg (by simpa [commentedLine] using hline.ne_nil)⟩
  | paragraph line rest p q hp hrest => exact Or.inl ⟨q, rfl⟩

end Section

/-! ### Where a line is lost -/

/-- A paragraph whose last line gets CR, and an empty line after it that ends with LF. -/
def LosesLine (e : Text) (b c : Block) : Prop :=
  e = ['\r'] ∧ (∃ p, b = .paragraph p) ∧
    ∃ m crossing, c = .copied m crossing ∧ m.text = [] ∧ m.ending = ['\n']

theorem torn_rows_iff {style : Style} {s r : Section} (hs : Section.Reads style s.lines s.block)
    (hr : Section.Reads style r.lines r.block) {more : List (Text × Text)}
    (hcut : IsCut (s.lines.map Line.parts ++ (r.lines.map Line.parts ++ more))) (width : Int)
    (e : Text) :
    (∃ p ∈ (s.block.rows width e).getLast?, ∃ q ∈ (r.block.rows width e).head?, Torn p q) ↔
      LosesLine e s.block r.block := by
  obtain ⟨front, t, hlast⟩ := hs.rows_concat width e
  rw [hlast]
  constructor
  · rintro ⟨p, hp, q, hq, hcr, rfl⟩
    obtain ⟨m, crossing, hm, hcopied, htext, hending⟩ := hr.head_rows_empty hq
    obtain rfl : (t, s.block.lastEnding e) = p := by simpa using hp
    -- A line that keeps its CR would have been cut together with the LF after it.
    rcases hs.lastEnding_eq (e := e) hcut (by simp [hm]) with ⟨p, hblock⟩ | ⟨l, hl, hkeep⟩
    · rw [hblock] at hcr
      exact ⟨hcr, ⟨p, hblock⟩, m, crossing, hcopied, htext, hending⟩
    · rw [hl, hm] at hcut
      have hsource : l.ending = ['\r'] := hkeep ▸ hcr
      have hno := hcut.2.2.1 hsource
      simp [Line.parts, htext, hending] at hno
  · rintro ⟨rfl, ⟨p, hblock⟩, m, crossing, hcopied, htext, hending⟩
    have hrow : (r.block.rows width ['\r']).head? = some m.parts := by
      rw [hcopied]
      rfl
    refine ⟨(t, s.block.lastEnding ['\r']), by simp, m.parts, hrow, ?_, ?_⟩
    · rw [hblock]
      rfl
    · rw [Line.parts, htext, hending]

/-- The lines that are written are found again when they are cut, but where one is lost. -/
theorem isCut_writtenRows_iff {style : Style} {sections : List Section}
    (hreads : ∀ s ∈ sections, Section.Reads style s.lines s.block)
    (hcut : IsCut ((sections.flatMap Section.lines).map Line.parts)) (width : Int) {e : Text}
    (he : IsEnding e) :
    IsCut (writtenRows width e sections) ↔
      (sections.map Section.block).IsChain fun b c => ¬ LosesLine e b c := by
  have hne : [] ∉ sections.map fun s => s.block.rows width e := by
    intro hmem
    obtain ⟨s, hs, hnil⟩ := List.mem_map.mp hmem
    obtain ⟨front, t, hlast⟩ := (hreads s hs).rows_concat width e
    rw [hlast] at hnil
    simp at hnil
  have hwithin : ∀ rows ∈ sections.map fun s => s.block.rows width e,
      rows.IsChain fun p q => ¬ Torn p q := by
    intro rows hrows
    obtain ⟨s, hs, rfl⟩ := List.mem_map.mp hrows
    exact (hreads s hs).rows_chain width e
  have hseam : ∀ ⦃s r front back⦄, sections = front ++ s :: r :: back →
      ((∀ p ∈ (s.block.rows width e).getLast?, ∀ q ∈ (r.block.rows width e).head?, ¬ Torn p q) ↔
        ¬ LosesLine e s.block r.block) := by
    intro s r front back hsplit
    have hparts : IsCut (s.lines.map Line.parts ++ (r.lines.map Line.parts ++
        (back.flatMap Section.lines).map Line.parts)) := by
      rw [hsplit] at hcut
      simpa using hcut.drop ((front.flatMap Section.lines).map Line.parts).length
    rw [← torn_rows_iff (hreads s (by simp [hsplit])) (hreads r (by simp [hsplit])) hparts width e]
    simp only [not_exists, not_and]
  rw [(writtenRows_lined hreads hcut width he).1.isCut_iff, writtenRows, List.flatMap_def,
    List.isChain_flatten hne, List.isChain_map, List.isChain_map,
    List.isChain_iff_forall_rel_of_append_cons_cons,
    List.isChain_iff_forall_rel_of_append_cons_cons]
  constructor
  · rintro ⟨-, hseams⟩ s r front back hsplit
    exact (hseam hsplit).mp (hseams hsplit)
  · intro hkeeps
    exact ⟨hwithin, fun s r front back hsplit => (hseam hsplit).mpr (hkeeps hsplit)⟩

theorem blanksOf_writtenRows {style : Style} {sections : List Section}
    (hreads : ∀ s ∈ sections, Section.Reads style s.lines s.block) (width : Int) (e : Text) :
    blanksOf (writtenRows width e sections) =
      blanksOf ((sections.flatMap Section.lines).map Line.parts) := by
  induction sections with
  | nil => rfl
  | cons s sections ih =>
    have hrest := ih fun r hr => hreads r (List.mem_cons_of_mem _ hr)
    have hs := (hreads s (by simp)).blanksOf_rows width e
    rw [writtenRows] at hrest
    rw [writtenRows, List.flatMap_cons, blanksOf_append, hs, hrest, List.flatMap_cons,
      List.map_append, blanksOf_append]

/-- An empty line is written only as it stands in the source. -/
theorem writtenRows_ne_empty {style : Style} {sections : List Section}
    (hreads : ∀ s ∈ sections, Section.Reads style s.lines s.block) (width : Int) (e : Text)
    (hne : ([], []) ∉ (sections.flatMap Section.lines).map Line.parts) :
    ([], []) ∉ writtenRows width e sections := by
  intro hmem
  obtain ⟨s, hs, hrow⟩ := List.mem_flatMap.mp hmem
  rcases (hreads s hs).copied_or_filled with ⟨line, crossing, hlines, hblock⟩ | hb
  · apply hne
    have hparts : ([], []) = line.parts := by
      rw [hblock] at hrow
      exact List.mem_singleton.mp hrow
    rw [hparts]
    exact List.mem_map_of_mem (List.mem_flatMap.mpr ⟨s, hs, by simp [hlines]⟩)
  · exact (hreads s hs).rows_ne_nil hb width e _ hrow rfl

theorem isChain_concat {front : List (Text × Text)} {t : Text} (ht : t ≠ []) (e : Text) :
    ((front ++ [(t, e)]).IsChain fun p q => ¬ Torn p q) ↔ front.IsChain fun p q => ¬ Torn p q := by
  rw [List.isChain_append]
  constructor
  · intro h
    exact h.1
  · intro h
    refine ⟨h, List.isChain_singleton _, ?_⟩
    rintro p - q hq ⟨-, rfl⟩
    have hrow : t = [] ∧ e = ['\n'] := by simpa using hq
    exact ht hrow.1

/-- The lines of the result are those of the blocks, but that the last one may lack its ending. They
have the blank lines of the source, and they are found again unless one is lost. -/
theorem reflow_rows (style : Style) (t : Text) :
    ∃ ps, reflow style t = joinLines ps ∧ IsLined ps ∧ ([], []) ∉ ps ∧
      blanksOf ps = blanksOf (cut t) ∧
      (IsCut ps ↔ (blocksOf style t.lines).IsChain fun b c => ¬ LosesLine t.newEnding b c) ∧
      (ps = writtenRows style.maxWidth t.newEnding (sectionsFrom style none t.lines) ∨
        ∃ front u, ps = front ++ [(u, [])] ∧
          writtenRows style.maxWidth t.newEnding (sectionsFrom style none t.lines) =
            front ++ [(u, t.newEnding)]) := by
  have he := newEnding_isEnding t
  have hreads := sections_read style none t.lines
  have hparts : ((sectionsFrom style none t.lines).flatMap Section.lines).map Line.parts
      = cut t := by
    rw [sections_lines, lines_parts]
  have hcut := hparts ▸ cut_isCut t
  have hlines : IsCut (t.lines.map Line.parts) := by
    rw [lines_parts]
    exact cut_isCut t
  have hempty := writtenRows_ne_empty hreads style.maxWidth t.newEnding
    (hparts ▸ cut_ne_empty t)
  have hblanks := blanksOf_writtenRows hreads style.maxWidth t.newEnding
  have hchain := isCut_writtenRows_iff hreads hcut style.maxWidth he
  have hwritten := (writtenRows_lined hreads hcut style.maxWidth he).1
  rw [hparts] at hblanks
  rw [← blocksOf_eq] at hchain
  obtain ⟨ps, hps, hlined, hrows⟩ := reflowLines_rows style he hlines
  refine ⟨ps, hps, hlined, ?_⟩
  rcases hrows with rfl | ⟨front, u, rfl, hconcat, hu⟩
  · exact ⟨hempty, hblanks, hchain, Or.inl rfl⟩
  · rw [hconcat] at hempty hblanks hwritten hchain
    refine ⟨?_, ?_, ?_, Or.inr ⟨front, u, rfl, hconcat⟩⟩
    · intro hmem
      rcases List.mem_append.mp hmem with hmem | hmem
      · exact hempty (List.mem_append_left _ hmem)
      · exact hu (by simpa using hmem)
    · rw [← hblanks, blanksOf_append, blanksOf_append]
      rfl
    · rw [← hchain, hlined.isCut_iff, hwritten.isCut_iff, isChain_concat hu, isChain_concat hu]

/-- No blank line is added or changed, and all of them survive exactly if no empty line that ends
with LF comes after a paragraph whose lines get CR. -/
theorem reflow_keeps_blank_lines_iff (style : Style) (t : Text) :
    (blankLines (reflow style t)).Sublist (blankLines t) ∧
      (blankLines (reflow style t) = blankLines t ↔
        (blocksOf style t.lines).IsChain fun b c => ¬ LosesLine t.newEnding b c) := by
  obtain ⟨ps, hps, hlined, hne, hsame, hiff, -⟩ := reflow_rows style t
  obtain ⟨hsub, hall⟩ := hlined.blanksOf_cut hne
  rw [blankLines_eq, blankLines_eq, hps, ← hsame, ← hiff]
  refine ⟨hsub, hall, ?_⟩
  intro hcut
  rw [cut_joinLines hcut hne]

/-- The paragraph before an empty line gets a CR for its LF, and the two lines become one ending. -/
theorem reflow_can_lose_blank_line :
    ¬ ∀ (style : Style) (t : Text), style.Valid → blankLines (reflow style t) = blankLines t := by
  intro h
  have := h {} "a\rb\n\nc\n".toList (by decide)
  revert this
  decide +kernel

end HardWrap
