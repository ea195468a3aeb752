import HardWrap.Audit
import HardWrap.Proofs.LiveText

/-! Widths of the lines that reflow writes. A filled line fits or holds one word, whatever margin it
has. Only the last line of a commented block may be wider, since the comment is put after the text
that was filled; cut before its comment it fits or holds one word as well. -/

namespace HardWrap

open Text

namespace Text

/-! ### Cutting a line before its comment -/

/-- What stands on a line before its in-line comment. The sign that opens the comment comes after
the first character that is not blank, and no backslash directly precedes it. -/
def uncommented (line : Text) : Text :=
  if isCommentLine line then line
  else match commentAt? (stripLeft line) with
    | none => line
    | some pos => stripRight (line.take ((line.takeWhile isBlank).length + pos))

theorem stripRight_initial (t : Text) : stripRight t <+: t := by
  obtain ⟨b, -, hb⟩ := stripRight_split t
  exact ⟨b, hb.symm⟩

theorem stripRight_append_blank (t : Text) {b : Text} (hb : IsBlankText b) :
    stripRight (t ++ b) = stripRight t := by
  rw [stripRight, stripRight, List.reverse_append, List.dropWhile_append_of_pos]
  intro c hc
  exact hb c (List.mem_reverse.mp hc)

theorem uncommented_initial (line : Text) : uncommented line <+: line := by
  rw [uncommented]
  split
  · exact List.prefix_rfl
  · split
    · exact List.prefix_rfl
    · exact (stripRight_initial _).trans (List.take_prefix _ _)

theorem head?_stripLeft (t : Text) : (stripLeft t).head? = (words t).head?.bind List.head? := by
  induction t using word_induction with
  | nil => rfl
  | blank c t hc ih =>
    have hdrop : stripLeft (c :: t) = stripLeft t := by simp [stripLeft, hc]
    rw [hdrop, words_cons_blank hc, ih]
  | word w t hw ht _ =>
    obtain ⟨c, w, rfl⟩ := List.exists_cons_of_ne_nil hw.1
    rw [words_word_append hw ht]
    simp [stripLeft, hw.2 c (by simp)]

theorem stripLeft_ne_nil {a : Text} (h : words a ≠ []) : stripLeft a ≠ [] := by
  intro hnil
  apply h
  rw [← words_stripLeft, hnil]
  rfl

theorem stripLeft_append {a : Text} (h : words a ≠ []) (b : Text) :
    stripLeft (a ++ b) = stripLeft a ++ b := by
  rw [stripLeft, List.dropWhile_append, if_neg, ← stripLeft]
  rw [List.isEmpty_iff]
  exact stripLeft_ne_nil h

theorem takeWhile_append {a : Text} (h : words a ≠ []) (b : Text) :
    (a ++ b).takeWhile isBlank = a.takeWhile isBlank := by
  rw [← List.append_left_inj (stripLeft a ++ b)]
  have hall := List.takeWhile_append_dropWhile (p := isBlank) (l := a ++ b)
  have hfirst := List.takeWhile_append_dropWhile (p := isBlank) (l := a)
  rw [← stripLeft] at hall hfirst
  rw [stripLeft_append h] at hall
  rw [hall, ← List.append_assoc, hfirst]

/-- A comment with the blanks before it, as it may stand right after the text of a line. -/
structure IsCommentOf (text tail : Text) : Prop where
  sign : ∃ gap r, IsBlankText gap ∧ tail = gap ++ '%' :: r ∧
    (gap = [] → text.getLast? ≠ some '\\')
  ends : endsAtGap tail = false

end Text

theorem isCommentLine_iff_stripLeft (line : Text) :
    isCommentLine line = true ↔ (stripLeft line).head? = some '%' := by
  rw [isCommentLine_iff, head?_stripLeft]

theorem isCommentLine_append {a : Text} (h : words a ≠ []) (b : Text) :
    isCommentLine (a ++ b) = isCommentLine a := by
  rw [Bool.eq_iff_iff, isCommentLine_iff_stripLeft, isCommentLine_iff_stripLeft,
    stripLeft_append h, List.head?_append_of_ne_nil _ (stripLeft_ne_nil h)]

/-- A sign that no backslash precedes is found, or one before it is. -/
theorem commentAfter_sign {before : Char} {a : Text} (h : (before :: a).getLast? ≠ some '\\')
    (start : Nat) (r : Text) :
    ∃ pos ≤ start + a.length, commentAfter before start (a ++ '%' :: r) = some pos := by
  induction a generalizing before start with
  | nil =>
    have hbefore : before ≠ '\\' := by simpa using h
    exact ⟨start, by simp, by simp [commentAfter, hbefore]⟩
  | cons c a ih =>
    simp only [List.cons_append, commentAfter]
    split
    · exact ⟨start, by omega, rfl⟩
    · obtain ⟨pos, hle, hpos⟩ := ih (by rwa [List.getLast?_cons_cons] at h) (start + 1)
      exact ⟨pos, by simp only [List.length_cons]; omega, hpos⟩

theorem commentAt?_sign {a : Text} (hne : a ≠ []) (h : a.getLast? ≠ some '\\') (r : Text) :
    ∃ pos ≤ a.length, commentAt? (a ++ '%' :: r) = some pos := by
  obtain ⟨c, a, rfl⟩ := List.exists_cons_of_ne_nil hne
  obtain ⟨pos, hle, hpos⟩ := commentAfter_sign h 1 r
  exact ⟨pos, by simp only [List.length_cons]; omega, hpos⟩

namespace Text.IsCommentOf

/-- The comment is found after the text, or a sign within the text is. -/
theorem commentAt {a tail : Text} (h : IsCommentOf a tail) (ha : words a ≠ []) :
    ∃ gap r, IsBlankText gap ∧ tail = gap ++ '%' :: r ∧
      ∃ pos ≤ (stripLeft a ++ gap).length, commentAt? (stripLeft a ++ tail) = some pos := by
  obtain ⟨gap, r, hgap, rfl, hslash⟩ := h.sign
  have hne := stripLeft_ne_nil ha
  have hlast : (stripLeft a ++ gap).getLast? ≠ some '\\' := by
    rcases List.eq_nil_or_concat' gap with rfl | ⟨gap, c, rfl⟩
    · obtain ⟨b, -, hb⟩ := stripLeft_split a
      have hno := hslash rfl
      rw [hb, List.getLast?_append_of_ne_nil _ hne] at hno
      rwa [List.append_nil]
    · rw [← List.append_assoc, List.getLast?_concat]
      intro hc
      have hblank := hgap c (by simp)
      rw [Option.some.inj hc] at hblank
      exact absurd hblank (by decide)
  obtain ⟨pos, hle, hpos⟩ := commentAt?_sign (by simp [hne]) hlast r
  exact ⟨gap, r, hgap, rfl, pos, hle, by rw [← hpos, List.append_assoc]⟩

/-- Cut before its comment a line leaves at most the text that the comment was put after. -/
theorem uncommented_initial {a tail : Text} (h : IsCommentOf a tail) (ha : words a ≠ [])
    (hplain : isCommentLine a = false) : uncommented (a ++ tail) <+: a := by
  obtain ⟨gap, r, hgap, rfl, pos, hle, hpos⟩ := h.commentAt ha
  have hlen : (a.takeWhile isBlank).length + pos ≤ (a ++ gap).length := by
    have hsplit := congrArg List.length (List.takeWhile_append_dropWhile (p := isBlank) (l := a))
    rw [← stripLeft] at hsplit
    simp only [List.length_append] at hle hsplit ⊢
    omega
  rw [uncommented, isCommentLine_append ha, hplain, stripLeft_append ha, hpos,
    takeWhile_append ha]
  simp only [Bool.false_eq_true, ↓reduceIte]
  generalize (a.takeWhile isBlank).length + pos = n at hlen ⊢
  have htake : (a ++ (gap ++ '%' :: r)).take n = a.take n ++ gap.take (n - a.length) := by
    rw [← List.append_assoc, List.take_append_of_le_length hlen, List.take_append]
  have hrest : IsBlankText (gap.take (n - a.length)) := fun c hc =>
    hgap c (List.mem_of_mem_take hc)
  rw [htake, stripRight_append_blank _ hrest]
  exact (stripRight_initial _).trans (List.take_prefix n a)

end Text.IsCommentOf

/-! ### Filled lines -/

namespace Text

/-- A line that is at most `width` wide, or cannot be broken. The percent sign that opens a comment
line is no word. -/
def Fits (width : Int) (line : Text) : Prop :=
  (line.length : Int) ≤ width ∨ (words (Audit.body line)).length ≤ 1

instance (width : Int) (line : Text) : Decidable (Fits width line) :=
  inferInstanceAs (Decidable (_ ∨ _))

/-- A blank margin, or one that opens a comment. -/
def IsMargin (m : Text) : Prop :=
  ∃ b, IsBlankText b ∧ (m = b ∨ m = b ++ ['%', ' '])

theorem length_words_body_le (t : Text) : (words (Audit.body t)).length ≤ (words t).length := by
  rw [Audit.body]
  split
  · obtain ⟨x, hx, -⟩ := commentBody_split t
    conv_rhs => rw [hx]
    exact length_words_le_append_right x (commentBody t)
  · exact le_rfl

theorem Fits.of_initial {width : Int} {a b : Text} (hb : Fits width b) (h : a <+: b)
    (hplain : isCommentLine b = false) : Fits width a := by
  rcases hb with hlen | hone
  · have := h.length_le
    exact Or.inl (by omega)
  · obtain ⟨r, rfl⟩ := h
    rw [Audit.body, hplain] at hone
    have hbody := length_words_body_le a
    have happend := length_words_le_append a r
    exact Or.inr (hbody.trans (happend.trans hone))

theorem Fits.uncommented {width : Int} {line : Text} (h : Fits width line) :
    Fits width (uncommented line) := by
  cases hcomment : isCommentLine line with
  | true => rwa [Text.uncommented, if_pos hcomment]
  | false => exact h.of_initial (uncommented_initial line) hcomment

theorem length_words_margin {m : Text} (hm : IsMargin m) {g : List Text}
    (hg : ∀ w ∈ g, IsWord w) : (words (Audit.body (m ++ joinWords g))).length ≤ g.length := by
  obtain ⟨b, hb, rfl | rfl⟩ := hm
  · have hbody := length_words_body_le (m ++ joinWords g)
    rwa [words_blank_append hb, words_joinWords hg] at hbody
  · have hstart : stripLeft (b ++ ['%', ' '] ++ joinWords g) = '%' :: ' ' :: joinWords g := by
      rw [List.append_assoc]
      exact stripLeft_blank_append hb (by simp)
    have hcomment : isCommentLine (b ++ ['%', ' '] ++ joinWords g) = true := by
      rw [isCommentLine_iff_stripLeft, hstart]
      rfl
    rw [Audit.body, if_pos hcomment, commentBody, hstart]
    simp [dropOne, words_joinWords hg]

end Text

theorem IsGreedy.fits {later : Nat} {width : Int} {groups : List (List Text)}
    (h : IsGreedy later width later groups) :
    ∀ g ∈ groups, g.length = 1 ∨ (later + (joinWords g).length : Int) ≤ width := by
  induction groups with
  | nil => simp
  | cons line more ih =>
    obtain ⟨-, hfits, -, hmore⟩ := h
    intro g hg
    rcases List.mem_cons.mp hg with rfl | hg
    · exact hfits
    · exact ih hmore g hg

/-- A line holds one word or fits, with the margin that it is given. -/
theorem IsGreedy.layLines {frame : Frame} {width : Int} {groups : List (List Text)}
    (h : IsGreedy frame.later.length width frame.first.length groups) :
    ∀ x ∈ layLines frame groups, ∃ m, (m = frame.first ∨ m = frame.later) ∧
      ∃ g ∈ groups, x = m ++ joinWords g ∧ (g.length = 1 ∨ (x.length : Int) ≤ width) := by
  cases groups with
  | nil => intro x hx; cases hx
  | cons line more =>
    obtain ⟨-, hfits, -, hmore⟩ := h
    intro x hx
    rcases List.mem_cons.mp hx with rfl | hx
    · refine ⟨frame.first, Or.inl rfl, line, by simp, rfl, ?_⟩
      rwa [List.length_append, Int.natCast_add]
    · obtain ⟨g, hg, rfl⟩ := List.mem_map.mp hx
      refine ⟨frame.later, Or.inr rfl, g, List.mem_cons_of_mem _ hg, rfl, ?_⟩
      rw [List.length_append, Int.natCast_add]
      exact hmore.fits g hg

theorem layLines_fits {frame : Frame} (hfirst : IsMargin frame.first)
    (hlater : IsMargin frame.later) (width : Int) {ws : List Text} (hws : ∀ w ∈ ws, IsWord w) :
    ∀ x ∈ layLines frame (pack frame width ws), Fits width x := by
  have hgreedy := packWords_isGreedy frame width ws
  rw [← pack_eq_packWords frame width hws] at hgreedy
  intro x hx
  obtain ⟨m, hm, g, hg, rfl, hone | hfits⟩ := hgreedy.layLines x hx
  · right
    rw [← hone]
    apply length_words_margin _ (pack_isWord frame width hws g hg)
    rcases hm with rfl | rfl
    · exact hfirst
    · exact hlater
  · exact Or.inl hfits

/-! ### The lines of a block -/

theorem commentedLine_margins (style : Style) (line : Line) (pos : Nat) :
    IsBlankText (commentedLine style line pos).frame.first ∧
      IsBlankText (commentedLine style line pos).frame.later :=
  ⟨blank_of_spaces (margin_spaces style.tabWidth line.text),
    blank_of_spaces (hangingMargin_spaces style.tabWidth line.text)⟩

/-- The words of the last filled line are the last ones of the text before the comment. -/
theorem commented_last_words (style : Style) {line : Line} {pos : Nat} {width : Int}
    {front : List Text} {last : Text}
    (hlay : layLines (commentedLine style line pos).frame
      (pack (commentedLine style line pos).frame width (words (commentedBody line.text pos)))
        = front ++ [last]) :
    endsAtGap last = false ∧ words last ≠ [] ∧
      words last <:+ words (commentedBody line.text pos) := by
  have hword := words_isWord (commentedBody line.text pos)
  have hends := layLines_ends (commentedLine style line pos).frame width hword last (by simp [hlay])
  refine ⟨hends, ?_, (front.map words).flatten, ?_⟩
  · intro hnil
    rw [endsAtGap_of_blank (words_eq_nil_iff.mp hnil)] at hends
    cases hends
  · obtain ⟨hfirst, hlater⟩ := commentedLine_margins style line pos
    have hgroups : (front ++ [last]).map words = pack (commentedLine style line pos).frame width
        (words (commentedBody line.text pos)) := by
      rw [← hlay]
      exact layLines_words hfirst hlater (pack_isWord _ width hword)
    rw [← pack_flatten (commentedLine style line pos).frame width hword, ← hgroups]
    simp

theorem commentedLine_tail_ends (style : Style) {line : Line} {pos : Nat}
    (h : (commentedLine style line pos).tail ≠ []) :
    endsAtGap (commentedLine style line pos).tail = false := by
  have hsplit : commentedBody line.text pos ++ (commentedLine style line pos).tail
      = strip line.text := commentedBody_split line.text pos
  have hne : strip line.text ≠ [] := by
    intro hnil
    apply h
    simp [commentedLine, hnil]
  have hends := endsAtGap_stripRight hne
  rwa [← strip, ← hsplit, endsAtGap_append h] at hends

theorem commented_last (style : Style) {line : Line} {pos : Nat}
    (hk : kindOf line.text = .item (some pos) ∨ kindOf line.text = .prose (some pos))
    (hbody : isCommandLine (commentedBody line.text pos) = false) {width : Int}
    {front : List Text} {last : Text}
    (hlay : layLines (commentedLine style line pos).frame
      (pack (commentedLine style line pos).frame width (words (commentedBody line.text pos)))
        = front ++ [last]) :
    isCommentLine last = false ∧ IsCommentOf last (commentedLine style line pos).tail := by
  obtain ⟨hends, hne, hlast⟩ := commented_last_words style hlay
  constructor
  · have hplain : isCommentLine line.text = false := by
      rw [Bool.eq_false_iff, ne_eq, ← kindOf_eq_comment_iff]
      rcases hk with hk | hk <;> simp [hk]
    have hreads : Section.Reads style [line] (commentedBlock style line pos) :=
      .commented line pos hk hbody
    have hwords := hreads.words_plain (by simpa using hplain)
    rw [commentedBlock_eq hbody] at hwords
    obtain ⟨w, ws, hcons⟩ := List.exists_cons_of_ne_nil hne
    have hhead := (hwords w (hlast.mem (by simp [hcons]))).2
    rw [Bool.eq_false_iff, ne_eq, isCommentLine_iff, hcons]
    exact hhead
  · obtain ⟨gap, r, hgap, htail, hslash⟩ := commentedBody_gap (kindOf_commentAt hk)
    refine ⟨⟨gap, r, hgap, htail, ?_⟩, commentedLine_tail_ends style ?_⟩
    · intro hnil
      have hbodyEnds := (commentedBody_ends line.text pos).resolve_left fun hnil =>
        commentedBody_words hk (by rw [hnil]; rfl)
      obtain ⟨ws, hws⟩ := hlast
      have hno := hslash hnil
      rwa [getLast?_of_words hbodyEnds, ← hws, List.getLast?_append_of_ne_nil _ hne,
        ← getLast?_of_words hends] at hno
    · simp [commentedLine, htail]

namespace Section

variable {style : Style} {lines : List Line}

theorem Reads.frame_margins {q : Paragraph} (h : Reads style lines (.paragraph q)) :
    IsMargin q.frame.first ∧ IsMargin q.frame.later := by
  obtain ⟨line, rest, rfl⟩ := List.exists_cons_of_ne_nil h.lines_ne_nil
  rcases h.frame_cases with ⟨-, hfirst, hlater⟩ | ⟨-, -, hframe⟩
  · exact ⟨⟨_, blank_of_spaces hfirst, Or.inl rfl⟩, ⟨_, blank_of_spaces hlater, Or.inl rfl⟩⟩
  · have hblank := blank_of_spaces (margin_spaces style.tabWidth line.text)
    have hmargin : IsMargin (commentMargin style.tabWidth line.text) := by
      rcases commentMargin_cases style.tabWidth line.text with hmark | hno
      · exact ⟨_, hblank, Or.inr hmark⟩
      · exact ⟨_, hblank, Or.inl hno⟩
    rw [hframe]
    exact ⟨hmargin, hmargin⟩

/-- A commented block is written as lines that fit, with the comment put after the last one. -/
theorem Reads.commented_lines {c : CommentedLine} (h : Reads style lines (.commented c))
    (width : Int) :
    ∃ front last, (Block.commented c).contents width = front ++ [last ++ c.tail] ∧
      (∀ x ∈ front ++ [last], Fits width x) ∧ Text.words last ≠ [] ∧ isCommentLine last = false ∧
      IsCommentOf last c.tail := by
  generalize hb : Block.commented c = b at h
  cases h with
  | copied line crossing => cases hb
  | paragraph line rest p q hp hrest => cases hb
  | commented line pos hk hbody =>
    rw [commentedBlock_eq hbody] at hb
    obtain rfl := Block.commented.inj hb
    obtain ⟨front, last, hlay, hcontents⟩ := commented_contents style hk width
    obtain ⟨hfirst, hlater⟩ := commentedLine_margins style line pos
    obtain ⟨hplain, hcomment⟩ := commented_last style hk hbody hlay
    refine ⟨front, last, ?_, ?_, (commented_last_words style hlay).2.1, hplain, hcomment⟩
    · rw [commentedBlock_eq hbody, hcontents]
    · rw [← hlay]
      exact layLines_fits ⟨_, hfirst, Or.inl rfl⟩ ⟨_, hlater, Or.inl rfl⟩ width
        (words_isWord (commentedBody line.text pos))

end Section

/-- What a line of a block can be: a copied line of the source, a line that fits, or the last line
of a commented block, which fits without its comment. -/
inductive BlockLine (width : Int) (lines : List Line) (b : Block) : Text → Prop where
  | copied {l : Line} {crossing : Crossing} (block : b = .copied l crossing) (source : l ∈ lines) :
      BlockLine width lines b l.text
  | filled {x : Text} (fits : Fits width x) : BlockLine width lines b x
  | commented {c : CommentedLine} {x : Text} (block : b = .commented c)
      (last : (b.contents width).getLast? = some (x ++ c.tail)) (fits : Fits width x)
      (nonempty : words x ≠ []) (plain : isCommentLine x = false) (comment : IsCommentOf x c.tail) :
      BlockLine width lines b (x ++ c.tail)

theorem Section.Reads.blockLine {style : Style} {lines : List Line} {b : Block}
    (h : Reads style lines b) (width : Int) :
    ∀ x ∈ b.contents width, BlockLine width lines b x := by
  intro x hx
  cases b with
  | copied line crossing =>
    rcases h.copied_or_filled with ⟨l, crossing, rfl, hcopied⟩ | hno
    · obtain ⟨rfl, -⟩ := Block.copied.inj hcopied
      rw [List.mem_singleton.mp hx]
      exact .copied rfl (by simp)
    · cases hno
  | paragraph q =>
    obtain ⟨hfirst, hlater⟩ := h.frame_margins
    exact .filled (layLines_fits hfirst hlater width h.isWord x hx)
  | commented c =>
    obtain ⟨front, last, hcontents, hfits, hne, hplain, hcomment⟩ := h.commented_lines width
    rw [hcontents] at hx
    rcases List.mem_append.mp hx with hx | hx
    · exact .filled (hfits x (List.mem_append_left _ hx))
    · rw [List.mem_singleton.mp hx]
      exact .commented rfl (by simp [hcontents]) (hfits last (by simp)) hne hplain hcomment

/-! ### The lines of the result -/

theorem mem_reflow_lines (style : Style) (t : Text) {x : Text} (hx : x ≠ []) :
    (∃ l ∈ (reflow style t).lines, l.text = x) ↔
      ∃ b ∈ blocksOf style t.lines, x ∈ b.contents style.maxWidth := by
  have hcollect := flatMap_reflow (f := fun y => if y = x then [x] else []) (by simp [hx.symm])
    style t
  have hmem := congrArg (x ∈ ·) hcollect
  simpa using hmem

theorem block_reads {style : Style} {t : Text} {b : Block} (h : b ∈ blocksOf style t.lines) :
    ∃ lines : List Line, lines ⊆ t.lines ∧ Section.Reads style lines b := by
  rw [blocksOf_eq] at h
  obtain ⟨s, hs, rfl⟩ := List.mem_map.mp h
  refine ⟨s.lines, ?_, sections_read style none t.lines s hs⟩
  intro l hl
  rw [← sections_lines style none t.lines]
  exact List.mem_flatMap.mpr ⟨s, hs, hl⟩

/-- Every line of the result is a line of the source that is copied, or what stands on it before its
comment fits or cannot be broken. -/
theorem reflow_width_bound (style : Style) (t : Text) :
    ∀ l ∈ (reflow style t).lines,
      (∃ m ∈ t.lines, m.text = l.text ∧ ∃ crossing, .copied m crossing ∈ blocksOf style t.lines) ∨
        Fits style.maxWidth (uncommented l.text) := by
  intro l hl
  by_cases hnil : l.text = []
  · right
    rw [hnil]
    exact Or.inr (by decide)
  · obtain ⟨b, hb, hmem⟩ := (mem_reflow_lines style t hnil).mp ⟨l, hl, rfl⟩
    obtain ⟨lines, hsub, hreads⟩ := block_reads hb
    generalize l.text = x at *
    cases hreads.blockLine style.maxWidth x hmem with
    | copied block source =>
      subst block
      exact Or.inl ⟨_, hsub source, rfl, _, hb⟩
    | filled fits => exact Or.inr fits.uncommented
    | commented block last fits nonempty plain comment =>
      exact Or.inr (fits.of_initial (comment.uncommented_initial nonempty plain) plain)

/-- A comment may make the last line of a block too wide; the text before it fits. -/
theorem reflow_width_bound_comment :
    ∃ t : Text, t = "one two three % counted from one\n".toList ∧
      ∃ l ∈ (reflow { maxWidth := 12 } t).lines, l.text = "three % counted from one".toList ∧
        (∀ m ∈ t.lines, m.text ≠ l.text) ∧ ¬ Fits 12 l.text ∧ Fits 12 (uncommented l.text) := by
  have hmem : ⟨"three % counted from one".toList, 1, ['\n']⟩ ∈
      lines (reflow { maxWidth := 12 } "one two three % counted from one\n".toList) := by
    decide +kernel
  have hnew : ∀ m ∈ lines "one two three % counted from one\n".toList,
      m.text ≠ "three % counted from one".toList := by
    decide +kernel
  refine ⟨_, rfl, _, hmem, rfl, hnew, by decide +kernel, ?_⟩
  rcases reflow_width_bound { maxWidth := 12 } _ _ hmem with ⟨m, hm, hsame, -⟩ | hfits
  · exact absurd hsame (hnew m hm)
  · exact hfits

end HardWrap
