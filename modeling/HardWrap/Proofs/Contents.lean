import HardWrap.Proofs.Settled

/-! Contents of the lines that reflow writes. Every block is written as some lines, and the lines of
all blocks, one after the other, are the lines of the result. Only where a line ends with CR and the
next one is an empty line that ends with LF, the result has one line in place of two. -/

namespace HardWrap

open Text

namespace Text

/-! ### Lines written one after the other -/

/-- Lines of which only the last may lack an ending. -/
def IsLined : List (Text × Text) → Prop
  | [] => True
  | (t, e) :: more => Unbroken t ∧ (IsEnding e ∨ e = [] ∧ more = []) ∧ IsLined more

theorem isLined_append {ps qs : List (Text × Text)} (hps : ∀ p ∈ ps, Unbroken p.1 ∧ IsEnding p.2)
    (hqs : IsLined qs) : IsLined (ps ++ qs) := by
  induction ps with
  | nil => exact hqs
  | cons p ps ih =>
    have hp := hps p (by simp)
    exact ⟨hp.1, Or.inl hp.2, ih fun q hq => hps q (List.mem_cons_of_mem _ hq)⟩

theorem IsLined.mem {ps : List (Text × Text)} (h : IsLined ps) :
    ∀ p ∈ ps, Unbroken p.1 ∧ (IsEnding p.2 ∨ p.2 = []) := by
  induction ps with
  | nil => simp
  | cons p ps ih =>
    intro q hq
    rcases List.mem_cons.mp hq with rfl | hq
    · exact ⟨h.1, h.2.1.imp_right And.left⟩
    · exact ih h.2.2 q hq

theorem IsLined.open_last {ps : List (Text × Text)} {t e : Text} (h : IsLined (ps ++ [(t, e)])) :
    IsLined (ps ++ [(t, [])]) := by
  induction ps with
  | nil => exact ⟨h.1, Or.inr ⟨rfl, rfl⟩, trivial⟩
  | cons p ps ih =>
    obtain ⟨u, f⟩ := p
    obtain ⟨hu, hf, hrest⟩ := h
    refine ⟨hu, ?_, ih hrest⟩
    rcases hf with hf | ⟨-, hnil⟩
    · exact Or.inl hf
    · exact absurd hnil (by simp)

/-- Without empty lines no CR is followed by LF. -/
theorem IsLined.isCut {ps : List (Text × Text)} (h : IsLined ps) (hne : ∀ p ∈ ps, p.1 ≠ []) :
    IsCut ps := by
  induction ps with
  | nil => trivial
  | cons p ps ih =>
    obtain ⟨t, e⟩ := p
    obtain ⟨ht, he, hrest⟩ := h
    refine ⟨ht, he, ?_, ih hrest fun q hq => hne q (List.mem_cons_of_mem _ hq)⟩
    intro _ hhead
    cases ps with
    | nil => simp at hhead
    | cons q ps =>
      obtain ⟨u, f⟩ := q
      obtain ⟨c, u, rfl⟩ := List.exists_cons_of_ne_nil (hne (u, f) (by simp))
      have hc : c = '\n' := by simpa using hhead
      exact (hrest.1 c (by simp)).2 hc

theorem flatMap_cut_line {α : Type} {f : Text → List α} (hf : f [] = []) {t e : Text}
    (ht : Unbroken t) (he : IsEnding e) (rest : Text) :
    (cut (t ++ (e ++ rest))).flatMap (fun p => f p.1) =
      f t ++ (cut rest).flatMap fun p => f p.1 := by
  by_cases hsplit : e = ['\r'] ∧ rest.head? = some '\n'
  · -- CR and LF become one ending, and the empty line between them is gone.
    obtain ⟨rfl, hlf⟩ := hsplit
    obtain ⟨r, rfl⟩ := List.head?_eq_some_iff.mp hlf
    have hline := cut_line ht (e := ['\r', '\n']) (Or.inl rfl) r (by simp)
    have hrest := cut_line (t := []) (e := ['\n']) (by simp [Unbroken]) (Or.inr (Or.inr rfl)) r
      (by simp)
    simp only [List.cons_append, List.nil_append] at hline hrest ⊢
    rw [hline, hrest]
    simp [hf]
  · have hwhole : e = ['\r'] → rest.head? ≠ some '\n' := fun h hh => hsplit ⟨h, hh⟩
    rw [cut_line ht he rest hwhole]
    rfl

/-- What is collected line by line is the same after cutting, if an empty line adds nothing. -/
theorem IsLined.flatMap_cut {α : Type} {f : Text → List α} (hf : f [] = [])
    {ps : List (Text × Text)} (h : IsLined ps) :
    (cut (joinLines ps)).flatMap (fun p => f p.1) = ps.flatMap fun p => f p.1 := by
  induction ps with
  | nil => rfl
  | cons p ps ih =>
    obtain ⟨t, e⟩ := p
    obtain ⟨ht, hend, hrest⟩ := h
    rcases hend with he | ⟨rfl, rfl⟩
    · rw [joinLines_cons, flatMap_cut_line hf ht he, ih hrest]
      rfl
    · by_cases hnil : t = []
      · simp [hnil, hf, cut]
      · simp [cut_unbroken ht hnil]

/-- Puts a text after the last of some lines. -/
def appendToLast (tail : Text) : List Text → List Text
  | [] => [tail]
  | [t] => [t ++ tail]
  | t :: u :: more => t :: appendToLast tail (u :: more)

@[simp] theorem appendToLast_concat (tail t : Text) (ts : List Text) :
    appendToLast tail (ts ++ [t]) = ts ++ [t ++ tail] := by
  induction ts with
  | nil => rfl
  | cons u ts ih =>
    cases ts with
    | nil => rfl
    | cons v ts => simpa [appendToLast] using ih

/-- Gives every line the ending `e`, and the last one the ending `last`. -/
def closeLines (e last : Text) : List Text → List (Text × Text)
  | [] => []
  | [t] => [(t, last)]
  | t :: u :: more => (t, e) :: closeLines e last (u :: more)

@[simp] theorem closeLines_concat (e last t : Text) (ts : List Text) :
    closeLines e last (ts ++ [t]) = ts.map (fun t => (t, e)) ++ [(t, last)] := by
  induction ts with
  | nil => rfl
  | cons u ts ih =>
    cases ts with
    | nil => rfl
    | cons v ts => simpa [closeLines] using ih

@[simp] theorem closeLines_fst (e last : Text) (ts : List Text) :
    (closeLines e last ts).map Prod.fst = ts := by
  rcases List.eq_nil_or_concat' ts with rfl | ⟨ts, t, rfl⟩
  · rfl
  · simp [Function.comp_def]

end Text

/-! ### The lines of a block -/

theorem isBlankLine_iff (line : Text) : isBlankLine line = true ↔ IsBlankText line := by
  rw [isBlankLine, List.isEmpty_iff]
  constructor
  · intro h
    rw [← words_eq_nil_iff, ← words_strip, h]
    rfl
  · exact strip_eq_nil_of_blank

theorem isBlankLine_of_ends {line : Text} (h : endsAtGap line = false) :
    isBlankLine line = false := by
  rw [Bool.eq_false_iff, ne_eq, isBlankLine_iff]
  intro hblank
  rw [endsAtGap_of_blank hblank] at h
  cases h

/-- The contents of the lines that a block is written as. -/
def Block.contents (width : Int) : Block → List Text
  | copied line _ => [line.text]
  | paragraph p => layLines p.frame (pack p.frame width p.words)
  | commented c => appendToLast c.tail (layLines c.frame (pack c.frame width c.words))

/-- The ending of the last line that a block is written as. -/
def Block.lastEnding (e : Text) : Block → Text
  | copied line _ => line.ending
  | paragraph _ => e
  | commented c => if c.ending.isEmpty then e else c.ending

/-- The lines that a block is written as. -/
def Block.rows (width : Int) (e : Text) (b : Block) : List (Text × Text) :=
  closeLines e (b.lastEnding e) (b.contents width)

theorem layLines_ne_nil (frame : Frame) {groups : List (List Text)} (h : groups ≠ []) :
    layLines frame groups ≠ [] := by
  obtain ⟨line, more, rfl⟩ := List.exists_cons_of_ne_nil h
  simp [layLines]

theorem mem_layLines {frame : Frame} {groups : List (List Text)} {t : Text}
    (h : t ∈ layLines frame groups) :
    ∃ g ∈ groups, t = frame.first ++ joinWords g ∨ t = frame.later ++ joinWords g := by
  cases groups with
  | nil => cases h
  | cons line more =>
    rcases List.mem_cons.mp h with rfl | h
    · exact ⟨line, by simp, Or.inl rfl⟩
    · obtain ⟨g, hg, rfl⟩ := List.mem_map.mp h
      exact ⟨g, List.mem_cons_of_mem _ hg, Or.inr rfl⟩

theorem layLines_ends (frame : Frame) (width : Int) {ws : List Text} (hws : ∀ w ∈ ws, IsWord w) :
    ∀ t ∈ layLines frame (pack frame width ws), endsAtGap t = false := by
  intro t ht
  obtain ⟨g, hg, hline⟩ := mem_layLines ht
  have hwords := pack_isWord frame width hws g hg
  have hends := joinWords_ends hwords (pack_nonempty frame width ws g hg)
  have hne : joinWords g ≠ [] := by
    intro hnil
    rw [hnil] at hends
    cases hends
  rcases hline with rfl | rfl
  · rwa [endsAtGap_append hne]
  · rwa [endsAtGap_append hne]

/-- The last of the lines that a commented block is written as holds the comment. -/
theorem commented_contents (style : Style) {line : Line} {pos : Nat}
    (hk : kindOf line.text = .item (some pos) ∨ kindOf line.text = .prose (some pos))
    (width : Int) :
    ∃ front last, layLines (commentedLine style line pos).frame
        (pack (commentedLine style line pos).frame width (words (commentedBody line.text pos)))
          = front ++ [last] ∧
      (Block.commented (commentedLine style line pos)).contents width
        = front ++ [last ++ (commentedLine style line pos).tail] := by
  have hpack := pack_ne_nil (commentedLine style line pos).frame width
    (words_isWord (commentedBody line.text pos)) (commentedBody_words hk)
  obtain ⟨front, last, hlay⟩ := (List.eq_nil_or_concat' _).resolve_left
    (layLines_ne_nil _ hpack)
  refine ⟨front, last, hlay, ?_⟩
  rw [Block.contents, ← appendToLast_concat, ← hlay]
  rfl

namespace Section

theorem commented_unbroken (style : Style) {line : Line} (pos : Nat) (width : Int)
    (h : Unbroken line.text) :
    (∀ t ∈ layLines (commentedLine style line pos).frame
      (pack (commentedLine style line pos).frame width (Text.words (commentedBody line.text pos))),
        Unbroken t) ∧ Unbroken (commentedLine style line pos).tail := by
  constructor
  · have hframe : (commentedLine style line pos).frame.IsUnbroken :=
      ⟨unbroken_of_spaces (margin_spaces style.tabWidth line.text),
        unbroken_of_spaces (hangingMargin_spaces style.tabWidth line.text)⟩
    exact layLines_unbroken hframe
      (pack_isWord _ width (words_isWord (commentedBody line.text pos)))
  · intro c hc
    exact h c (mem_of_mem_strip (List.mem_of_mem_drop hc))

theorem Reads.contents_concat {style : Style} {lines : List Line} {b : Block}
    (h : Reads style lines b) (width : Int) : ∃ front last, b.contents width = front ++ [last] := by
  cases h with
  | copied line crossing => exact ⟨[], line.text, rfl⟩
  | commented line pos hk hbody =>
    obtain ⟨front, last, -, hcontents⟩ := commented_contents style hk width
    rw [commentedBlock_eq hbody]
    exact ⟨front, _, hcontents⟩
  | paragraph line rest p q hp hrest =>
    have hreads : Reads style (line :: rest) (.paragraph q) := .paragraph line rest p q hp hrest
    exact (List.eq_nil_or_concat' _).resolve_left (layLines_ne_nil q.frame
      (pack_ne_nil q.frame width hreads.isWord hreads.words_ne_nil))

theorem Reads.contents_not_blank {style : Style} {lines : List Line} {b : Block}
    (h : Reads style lines b) (hb : b.isFilled = true) (width : Int) :
    ∀ t ∈ b.contents width, isBlankLine t = false := by
  cases h with
  | copied line crossing => cases hb
  | commented line pos hk hbody =>
    have hlay := layLines_ends (commentedLine style line pos).frame width
      (words_isWord (commentedBody line.text pos))
    obtain ⟨front, last, hconcat, hcontents⟩ := commented_contents style hk width
    rw [hconcat] at hlay
    rw [commentedBlock_eq hbody, hcontents]
    intro t ht
    rcases List.mem_append.mp ht with ht | ht
    · exact isBlankLine_of_ends (hlay t (List.mem_append_left _ ht))
    · rw [List.mem_singleton.mp ht]
      have hlast := isBlankLine_of_ends (hlay last (by simp))
      rw [Bool.eq_false_iff, ne_eq, isBlankLine_iff] at hlast ⊢
      exact fun hblank => hlast fun c hc => hblank c (List.mem_append_left _ hc)
  | paragraph line rest p q hp hrest =>
    have hreads : Reads style (line :: rest) (.paragraph q) := .paragraph line rest p q hp hrest
    intro t ht
    exact isBlankLine_of_ends (layLines_ends q.frame width hreads.isWord t ht)

theorem Reads.contents_ne_nil {style : Style} {lines : List Line} {b : Block}
    (h : Reads style lines b) (hb : b.isFilled = true) (width : Int) :
    ∀ t ∈ b.contents width, t ≠ [] := by
  rintro t ht rfl
  have hblank := h.contents_not_blank hb width [] ht
  cases hblank

theorem Reads.write_rows {style : Style} {lines : List Line} {b : Block} (h : Reads style lines b)
    (width : Int) {e : Text} (he : IsEnding e) : b.write width e = joinLines (b.rows width e) := by
  cases h with
  | copied line crossing =>
    simp [Block.rows, Block.contents, Block.lastEnding, closeLines, Line.source]
  | commented line pos hk hbody =>
    obtain ⟨front, last, hlay, hcontents⟩ := commented_contents style hk width
    have hfill : fill (commentedLine style line pos).frame width e
        (Text.words (commentedBody line.text pos))
          = joinLines (front.map fun t => (t, e)) ++ last ++ e := by
      rw [fill, writeLines_eq, hlay]
      simp
    rw [commentedBlock_eq hbody, write_commentedLine, hfill, dropEnding_append he.ne_nil,
      Block.rows, hcontents, closeLines_concat]
    simp [commentedLine, Block.lastEnding]
  | paragraph line rest p q hp hrest =>
    have hreads : Reads style (line :: rest) (.paragraph q) := .paragraph line rest p q hp hrest
    obtain ⟨front, last, hconcat⟩ := hreads.contents_concat width
    have hlay : layLines q.frame (pack q.frame width q.words) = front ++ [last] := hconcat
    rw [Block.write, fill, writeLines_eq, hlay, Block.rows, hconcat, closeLines_concat,
      List.map_append]
    rfl

theorem Reads.contents_unbroken {style : Style} {lines : List Line} {b : Block}
    (h : Reads style lines b) (width : Int) (htext : ∀ l ∈ lines, Unbroken l.text) :
    ∀ t ∈ b.contents width, Unbroken t := by
  cases h with
  | copied line crossing =>
    intro t ht
    rw [List.mem_singleton.mp ht]
    exact htext line (by simp)
  | commented line pos hk hbody =>
    obtain ⟨hunbroken, htail⟩ := commented_unbroken style pos width (htext line (by simp))
    obtain ⟨front, last, hlay, hcontents⟩ := commented_contents style hk width
    rw [hlay] at hunbroken
    rw [commentedBlock_eq hbody, hcontents]
    intro t ht
    rcases List.mem_append.mp ht with ht | ht
    · exact hunbroken t (List.mem_append_left _ ht)
    · rw [List.mem_singleton.mp ht]
      exact (hunbroken last (by simp)).append htail
  | paragraph line rest p q hp hrest =>
    have hreads : Reads style (line :: rest) (.paragraph q) := .paragraph line rest p q hp hrest
    exact layLines_unbroken hreads.frame_unbroken (pack_isWord q.frame width hreads.isWord)

/-- The last line has an ending if the block is filled or its source has one. -/
theorem Reads.lastEnding_cases {style : Style} {lines : List Line} {b : Block}
    (h : Reads style lines b) {e : Text} (he : IsEnding e)
    (hends : ∀ l ∈ lines, IsEnding l.ending ∨ l.ending = []) :
    (IsEnding (b.lastEnding e) ∨ b.lastEnding e = []) ∧
      ((b.isFilled = true ∨ ∀ l ∈ lines, IsEnding l.ending) → IsEnding (b.lastEnding e)) ∧
      (b.isFilled = true → endsOpen lines = true → b.lastEnding e = e) := by
  cases h with
  | copied line crossing =>
    refine ⟨hends line (by simp), ?_, fun hno => by cases hno⟩
    rintro (hno | hall)
    · cases hno
    · exact hall line (by simp)
  | commented line pos hk hbody =>
    rw [commentedBlock_eq hbody]
    have hlast : IsEnding (if line.ending.isEmpty then e else line.ending) := by
      rcases hends line (by simp) with hline | hline
      · rwa [if_neg (by simpa using hline.ne_nil)]
      · rwa [hline]
    refine ⟨Or.inl hlast, fun _ => hlast, ?_⟩
    intro _ hopen
    simp only [endsOpen, List.getLast?_singleton, Option.any_some] at hopen
    exact if_pos hopen
  | paragraph line rest p q hp hrest => exact ⟨Or.inl he, fun _ => he, fun _ _ => rfl⟩

/-- A filled block has endings throughout, and if its source is open at the end its last line has
the common one. -/
theorem Reads.rows_lined {style : Style} {lines : List Line} {b : Block}
    (h : Reads style lines b) (width : Int) {e : Text} (he : IsEnding e)
    (htext : ∀ l ∈ lines, Unbroken l.text)
    (hends : ∀ l ∈ lines, IsEnding l.ending ∨ l.ending = []) :
    IsLined (b.rows width e) ∧
      ((b.isFilled = true ∨ ∀ l ∈ lines, IsEnding l.ending) →
        ∀ p ∈ b.rows width e, Unbroken p.1 ∧ IsEnding p.2) ∧
      (b.isFilled = true → endsOpen lines = true →
        ∃ front t, t ≠ [] ∧ b.rows width e = front ++ [(t, e)]) := by
  obtain ⟨front, last, hconcat⟩ := h.contents_concat width
  have hrows : b.rows width e = front.map (fun t => (t, e)) ++ [(last, b.lastEnding e)] := by
    rw [Block.rows, hconcat, closeLines_concat]
  have hunbroken := h.contents_unbroken width htext
  rw [hconcat] at hunbroken
  obtain ⟨hlast, hended, hopen⟩ := h.lastEnding_cases he hends
  have hfront : ∀ p ∈ front.map (fun t => (t, e)), Unbroken p.1 ∧ IsEnding p.2 := by
    intro p hp
    obtain ⟨t, ht, rfl⟩ := List.mem_map.mp hp
    exact ⟨hunbroken t (List.mem_append_left _ ht), he⟩
  have hlastLine : Unbroken last := hunbroken last (by simp)
  rw [hrows]
  refine ⟨?_, ?_, ?_⟩
  · exact isLined_append hfront ⟨hlastLine, hlast.imp_right fun hnil => ⟨hnil, rfl⟩, trivial⟩
  · intro hall p hp
    rcases List.mem_append.mp hp with hp | hp
    · exact hfront p hp
    · rw [List.mem_singleton.mp hp]
      exact ⟨hlastLine, hended hall⟩
  · intro hfilled hsource
    have hne := h.contents_ne_nil hfilled width last (by simp [hconcat])
    rw [hopen hfilled hsource]
    exact ⟨_, last, hne, rfl⟩

/-- A block is written as lines with its contents. -/
theorem Reads.write_lines {style : Style} {lines : List Line} {b : Block}
    (h : Reads style lines b) (width : Int) {e : Text} (he : IsEnding e)
    (htext : ∀ l ∈ lines, Unbroken l.text)
    (hends : ∀ l ∈ lines, IsEnding l.ending ∨ l.ending = []) :
    ∃ ps, b.write width e = joinLines ps ∧ ps.map Prod.fst = b.contents width ∧ IsLined ps ∧
      ((b.isFilled = true ∨ ∀ l ∈ lines, IsEnding l.ending) →
        ∀ p ∈ ps, Unbroken p.1 ∧ IsEnding p.2) ∧
      (b.isFilled = true → endsOpen lines = true → ∃ front t, ps = front ++ [(t, e)]) := by
  obtain ⟨hlined, hended, hopen⟩ := h.rows_lined width he htext hends
  refine ⟨b.rows width e, h.write_rows width he, closeLines_fst e _ _, hlined, hended, ?_⟩
  intro hfilled hsource
  obtain ⟨front, t, -, hconcat⟩ := hopen hfilled hsource
  exact ⟨front, t, hconcat⟩

end Section

/-! ### The lines of the result -/

/-- The lines that all blocks together are written as. -/
def writtenRows (width : Int) (e : Text) (sections : List Section) : List (Text × Text) :=
  sections.flatMap fun s => s.block.rows width e

theorem writeAll_rows {style : Style} {sections : List Section}
    (hreads : ∀ s ∈ sections, Section.Reads style s.lines s.block) (width : Int) {e : Text}
    (he : IsEnding e) : writeAll width e sections = joinLines (writtenRows width e sections) := by
  rw [writeAll, joinLines, writtenRows, List.flatMap_assoc]
  apply List.flatMap_congr
  intro s hs
  exact (hreads s hs).write_rows width he

theorem writtenRows_fst (sections : List Section) (width : Int) (e : Text) :
    (writtenRows width e sections).map Prod.fst =
      sections.flatMap fun s => s.block.contents width := by
  rw [writtenRows, List.map_flatMap]
  apply List.flatMap_congr
  intro s _
  exact closeLines_fst e _ _

/-- If the ending of the last line is to be dropped it is the common one. -/
theorem writtenRows_lined {style : Style} {sections : List Section}
    (hreads : ∀ s ∈ sections, Section.Reads style s.lines s.block)
    (hcut : IsCut ((sections.flatMap Section.lines).map Line.parts)) (width : Int) {e : Text}
    (he : IsEnding e) :
    IsLined (writtenRows width e sections) ∧
      (dropsEnding sections = true →
        ∃ front t, t ≠ [] ∧ writtenRows width e sections = front ++ [(t, e)]) := by
  induction sections with
  | nil => exact ⟨trivial, fun h => by cases h⟩
  | cons s rest ih =>
    rw [List.flatMap_cons, List.map_append] at hcut
    have hs := hreads s (by simp)
    have hmem : ∀ l ∈ s.lines, l.parts ∈ s.lines.map Line.parts ++
        (rest.flatMap Section.lines).map Line.parts := fun l hl =>
      List.mem_append_left _ (List.mem_map_of_mem hl)
    obtain ⟨hlined, hended, hopen⟩ := hs.rows_lined width he
      (fun l hl => hcut.unbroken l.parts (hmem l hl))
      (fun l hl => hcut.ending_or_nil l.parts (hmem l hl))
    obtain ⟨hrest, hlast⟩ := ih (fun r hr => hreads r (List.mem_cons_of_mem _ hr))
      (by simpa using hcut.drop (s.lines.map Line.parts).length)
    have hcons : writtenRows width e (s :: rest) =
        s.block.rows width e ++ writtenRows width e rest := List.flatMap_cons
    rw [hcons]
    cases rest with
    | nil =>
      rw [writtenRows, List.flatMap_nil, List.append_nil]
      refine ⟨hlined, ?_⟩
      intro hdrop
      simp only [dropsEnding, List.getLast?_singleton, Option.any_some, Bool.and_eq_true] at hdrop
      exact hopen hdrop.2 hdrop.1
    | cons r rest =>
      have hends : ∀ l ∈ s.lines, IsEnding l.ending := by
        intro l hl
        refine hcut.ending_of_append ?_ l.parts (List.mem_map_of_mem hl)
        simp [(hreads r (by simp)).lines_ne_nil]
      refine ⟨isLined_append (hended (Or.inr hends)) hrest, ?_⟩
      intro hdrop
      obtain ⟨front, t, ht, hconcat⟩ := hlast (by simpa [dropsEnding] using hdrop)
      exact ⟨s.block.rows width e ++ front, t, ht, by rw [hconcat, List.append_assoc]⟩

/-- The written lines are the lines of the blocks, but that the last one may lack its ending. -/
theorem reflowLines_rows (style : Style) {e : Text} (he : IsEnding e) {lines : List Line}
    (hcut : IsCut (lines.map Line.parts)) :
    ∃ ps, reflowLines style e lines = joinLines ps ∧ IsLined ps ∧
      (ps = writtenRows style.maxWidth e (sectionsFrom style none lines) ∨
        ∃ front t, ps = front ++ [(t, [])] ∧
          writtenRows style.maxWidth e (sectionsFrom style none lines) = front ++ [(t, e)] ∧
          t ≠ []) := by
  have hreads := sections_read style none lines
  obtain ⟨hlined, hlast⟩ := writtenRows_lined hreads (by rwa [sections_lines]) style.maxWidth he
  rw [reflowLines_eq, writeAll_rows hreads style.maxWidth he]
  split
  next hdrop =>
    obtain ⟨front, t, ht, hconcat⟩ := hlast hdrop
    rw [hconcat] at hlined
    refine ⟨front ++ [(t, [])], ?_, hlined.open_last, Or.inr ⟨front, t, rfl, hconcat, ht⟩⟩
    have hjoin : joinLines (front ++ [(t, e)]) = joinLines (front ++ [(t, [])]) ++ e := by simp
    rw [hconcat, hjoin, dropEnding_append he.ne_nil]
  next => exact ⟨_, rfl, hlined, Or.inl rfl⟩

theorem reflowLines_lines (style : Style) {e : Text} (he : IsEnding e) {lines : List Line}
    (hcut : IsCut (lines.map Line.parts)) :
    ∃ ps, reflowLines style e lines = joinLines ps ∧ IsLined ps ∧
      ps.map Prod.fst = (blocksOf style lines).flatMap (Block.contents style.maxWidth) := by
  obtain ⟨ps, hps, hlined, hrows⟩ := reflowLines_rows style he hcut
  refine ⟨ps, hps, hlined, ?_⟩
  have hcontents := writtenRows_fst (sectionsFrom style none lines) style.maxWidth e
  rw [blocksOf_eq, List.flatMap_map, ← hcontents]
  rcases hrows with rfl | ⟨front, t, rfl, hconcat, -⟩
  · rfl
  · simp [hconcat]

theorem reflow_lines (style : Style) (t : Text) :
    ∃ ps, reflow style t = joinLines ps ∧ IsLined ps ∧
      ps.map Prod.fst = (blocksOf style t.lines).flatMap (Block.contents style.maxWidth) :=
  reflowLines_lines style (newEnding_isEnding t) (by
    rw [lines_parts]
    exact cut_isCut t)

/-- Lines that are not empty are the lines of the text that they make. -/
theorem Text.IsLined.lines_text {ps : List (Text × Text)} (h : IsLined ps)
    (hne : ∀ p ∈ ps, p.1 ≠ []) :
    (joinLines ps).lines.map Line.text = ps.map Prod.fst := by
  have hcut : cut (joinLines ps) = ps :=
    cut_joinLines (h.isCut hne) fun hmem => hne _ hmem rfl
  calc (joinLines ps).lines.map Line.text
      = ((joinLines ps).lines.map Line.parts).map Prod.fst := by rw [List.map_map]; rfl
    _ = ps.map Prod.fst := by rw [lines_parts, hcut]

theorem reflow_lines_text {style : Style} {t : Text}
    (hne : ∀ x ∈ (blocksOf style t.lines).flatMap (Block.contents style.maxWidth), x ≠ []) :
    (reflow style t).lines.map Line.text =
      (blocksOf style t.lines).flatMap (Block.contents style.maxWidth) := by
  obtain ⟨ps, hps, hlined, hfst⟩ := reflow_lines style t
  rw [hps, ← hfst]
  apply hlined.lines_text
  intro p hp
  apply hne
  rw [← hfst]
  exact List.mem_map_of_mem hp

/-- What is collected from the lines of a text. -/
theorem flatMap_lines {α : Type} (f : Text → List α) (t : Text) :
    t.lines.flatMap (fun l => f l.text) = (cut t).flatMap fun p => f p.1 := by
  rw [← lines_parts, List.flatMap_map]
  rfl

/-- What is collected from the lines of the result comes from its blocks, if an empty line adds
nothing. -/
theorem flatMap_reflow {α : Type} {f : Text → List α} (hf : f [] = []) (style : Style) (t : Text) :
    (reflow style t).lines.flatMap (fun l => f l.text) =
      (blocksOf style t.lines).flatMap fun b => (b.contents style.maxWidth).flatMap f := by
  obtain ⟨ps, hps, hlined, hfst⟩ := reflow_lines style t
  rw [flatMap_lines, hps, hlined.flatMap_cut hf]
  calc ps.flatMap (fun p => f p.1) = (ps.map Prod.fst).flatMap f := by rw [List.flatMap_map]
    _ = _ := by rw [hfst, List.flatMap_assoc]

end HardWrap
