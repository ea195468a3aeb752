import HardWrap.Proofs.Filling
import HardWrap.Proofs.Sections

/-! What a paragraph has from its lines: its words are theirs, in order, each of its lines has some,
and its margins are spaces, with the opening of a comment after them in a paragraph of comments. -/

namespace HardWrap

open Text

/-! ### Margins -/

theorem margin_spaces (tabWidth : Int) (line : Text) : ∀ c ∈ margin tabWidth line, c = ' ' := by
  intro c hc
  unfold margin at hc
  split at hc
  · cases hc
  · obtain ⟨d, hd, hc⟩ := List.mem_flatMap.mp hc
    have hm : isMarginChar d = true := List.mem_takeWhile_imp hd
    unfold expandTab at hc
    split at hc
    · exact (List.mem_replicate.mp hc).2
    next ht =>
      rw [List.mem_singleton] at hc
      subst hc
      simpa [isMarginChar, ht] using hm

theorem hangingMargin_spaces (tabWidth : Int) (line : Text) :
    ∀ c ∈ hangingMargin tabWidth line, c = ' ' := by
  intro c hc
  unfold hangingMargin at hc
  split at hc
  · exact margin_spaces tabWidth line c hc
  · rcases List.mem_append.mp hc with hc | hc
    · exact margin_spaces tabWidth line c hc
    · exact (List.mem_replicate.mp hc).2

theorem commentMargin_cases (tabWidth : Int) (line : Text) :
    commentMargin tabWidth line = margin tabWidth line ++ ['%', ' '] ∨
      commentMargin tabWidth line = margin tabWidth line := by
  unfold commentMargin
  split
  · exact Or.inl rfl
  · exact Or.inr rfl

theorem blank_of_spaces {t : Text} (h : ∀ c ∈ t, c = ' ') : IsBlankText t := by
  intro c hc
  rw [h c hc]
  exact isBlank_space

theorem isMarginChar_of_not_blank {c : Char} (h : isBlank c = false) : isMarginChar c = false := by
  simp only [isMarginChar, Bool.or_eq_false_iff, beq_eq_false_iff_ne]
  constructor
  · rintro rfl
    simp at h
  · rintro rfl
    exact absurd h (by decide)

theorem dropWhile_spaces {s t : Text} (hs : ∀ c ∈ s, c = ' ') (ht : atGap t = false) :
    (s ++ t).dropWhile isMarginChar = t := by
  obtain ⟨c, t, rfl⟩ : ∃ c r, t = c :: r := by
    cases t with
    | nil => simp at ht
    | cons c r => exact ⟨c, r, rfl⟩
  rw [List.dropWhile_append_of_pos (fun d hd => by rw [hs d hd]; rfl), List.dropWhile_cons_of_neg]
  rw [isMarginChar_of_not_blank ht]
  simp

/-- Both margins are blank but for percent signs. -/
def Frame.IsOpen (frame : Frame) : Prop :=
  IsBlankText (unmarked frame.first) ∧ IsBlankText (unmarked frame.later)

theorem unmarked_commentMargin_blank (tabWidth : Int) (line : Text) :
    IsBlankText (unmarked (commentMargin tabWidth line)) := by
  have hm := blank_of_spaces (margin_spaces tabWidth line)
  rcases commentMargin_cases tabWidth line with h | h
  · rw [h, unmarked_append, unmarked_of_blank hm]
    exact hm.append (by intro c hc; simp_all [unmarked])
  · rw [h, unmarked_of_blank hm]
    exact hm

/-! ### Contents -/

theorem strip_eq_nil_of_blank {t : Text} (h : IsBlankText t) : strip t = [] := by
  have : stripLeft t = [] := List.dropWhile_eq_nil_iff.mpr h
  simp [strip, this, stripRight]

theorem words_ne_nil_of_strip {t : Text} (h : strip t ≠ []) : words t ≠ [] :=
  fun hw => h (strip_eq_nil_of_blank (words_eq_nil_iff.mp hw))

theorem strip_ne_nil_of_kind {line : Text} (h : kindOf line ≠ .blank) : strip line ≠ [] := by
  intro hs
  simp [kindOf, hs] at h

theorem dropOne_split (c : Char) (t : Text) : ∃ x, t = x ++ dropOne c t ∧ ∀ d ∈ x, d = c := by
  cases t with
  | nil => exact ⟨[], rfl, by simp⟩
  | cons d t =>
    by_cases hd : d = c
    · exact ⟨[d], by simp [dropOne, hd], by simp [hd]⟩
    · exact ⟨[], by simp [dropOne, hd], by simp⟩

/-- What stands before the body of a comment is blank, percent signs apart. -/
theorem commentBody_split (line : Text) :
    ∃ x, line = x ++ commentBody line ∧ IsBlankText (unmarked x) := by
  obtain ⟨b, hb, hline⟩ := stripLeft_split line
  obtain ⟨x, hx, hmark⟩ := dropOne_split '%' (stripLeft line)
  obtain ⟨y, hy, hspace⟩ := dropOne_split ' ' (dropOne '%' (stripLeft line))
  refine ⟨b ++ (x ++ y), ?_, ?_⟩
  · rw [commentBody, List.append_assoc, List.append_assoc, ← hy, ← hx, ← hline]
  · intro c hc
    obtain ⟨hmem, hne⟩ := List.mem_filter.mp hc
    rcases List.mem_append.mp hmem with hc | hc
    · exact hb c hc
    · rcases List.mem_append.mp hc with hc | hc
      · simp [hmark c hc] at hne
      · rw [hspace c hc]
        exact isBlank_space

namespace Paragraph

theorem content_congr {p q : Paragraph} (h : p.kind = q.kind) (line : Text) :
    p.content line = q.content line := by
  simp [content, h]

theorem words_content {p : Paragraph} (h : p.kind ≠ .comment) (line : Text) :
    Text.words (p.content line) = Text.words line := by
  unfold content
  split
  next hcomment => exact absurd hcomment h
  · exact words_stripLeft line
  · exact words_stripLeft line

/-- What stands before the content of a line is blank, percent signs apart. -/
theorem content_split (p : Paragraph) (line : Text) :
    ∃ x, line = x ++ p.content line ∧ IsBlankText (unmarked x) := by
  obtain ⟨b, hb, hline⟩ := stripLeft_split line
  have hb' : IsBlankText (unmarked b) := by rwa [unmarked_of_blank hb]
  unfold content
  split
  · exact commentBody_split line
  · exact ⟨b, hline, hb'⟩
  · exact ⟨b, hline, hb'⟩

theorem bareWords_content (p : Paragraph) (line : Text) :
    bareWords (p.content line) = bareWords line := by
  obtain ⟨x, hline, hx⟩ := p.content_split line
  conv_rhs => rw [hline, bareWords_margin hx]

theorem words_commentBody_ne_nil {line : Text} (h : isMergeableComment line = true) :
    Text.words (commentBody line) ≠ [] := by
  apply words_ne_nil_of_strip
  intro hs
  simp [isMergeableComment, standsAlone, isBlankLine, hs] at h

/-- The words of a paragraph are those of the line that opens it, and there are some. -/
theorem ofLine?_words {style : Style} {line : Text} {p : Paragraph}
    (h : ofLine? style line = some p) :
    p.words = Text.words (p.content line) ∧ Text.words (p.content line) ≠ [] := by
  unfold ofLine? at h
  split at h
  next hk =>
    obtain rfl := Option.some.inj h
    have hne := words_ne_nil_of_strip (strip_ne_nil_of_kind (by rw [hk]; simp))
    simpa [proseParagraph, content] using hne
  next hk =>
    obtain rfl := Option.some.inj h
    have hne := words_ne_nil_of_strip (strip_ne_nil_of_kind (by rw [hk]; simp))
    simpa [itemParagraph, content] using hne
  next hk =>
    split at h
    next hm =>
      obtain rfl := Option.some.inj h
      exact ⟨rfl, words_commentBody_ne_nil hm⟩
    next => cases h
  next => cases h

theorem words_of_joins {style : Style} {line : Text} {p : Paragraph}
    (h : p.joins style line = true) : Text.words (p.content line) ≠ [] := by
  unfold joins at h
  split at h
  next hp hk =>
    simp only [Bool.and_eq_true] at h
    simpa [content, hp] using words_commentBody_ne_nil h.1
  next hp hk =>
    have hne := words_ne_nil_of_strip (strip_ne_nil_of_kind (by rw [hk]; simp))
    simpa [content, hp] using hne
  next hp hk =>
    have hne := words_ne_nil_of_strip (strip_ne_nil_of_kind (by rw [hk]; simp))
    simpa [content, hp] using hne
  next => cases h

theorem ofLine?_isOpen {style : Style} {line : Text} {p : Paragraph}
    (h : ofLine? style line = some p) : p.frame.IsOpen := by
  have hmargin := blank_of_spaces (margin_spaces style.tabWidth line)
  have hhang := blank_of_spaces (hangingMargin_spaces style.tabWidth line)
  unfold ofLine? at h
  split at h
  next =>
    obtain rfl := Option.some.inj h
    have : IsBlankText (unmarked (margin style.tabWidth line)) := by
      rwa [unmarked_of_blank hmargin]
    exact ⟨this, this⟩
  next =>
    obtain rfl := Option.some.inj h
    refine ⟨?_, ?_⟩
    · rw [itemParagraph, unmarked_of_blank hmargin]
      exact hmargin
    · rw [itemParagraph, unmarked_of_blank hhang]
      exact hhang
  next =>
    split at h
    next =>
      obtain rfl := Option.some.inj h
      have := unmarked_commentMargin_blank style.tabWidth line
      exact ⟨this, this⟩
    next => cases h
  next => cases h

/-- Lines add their words and change nothing else. -/
theorem Absorbs.spec {style : Style} {p q : Paragraph} {lines : List Text}
    (h : Absorbs style p lines q) :
    q.kind = p.kind ∧ q.frame = p.frame ∧
      q.words = p.words ++ lines.flatMap (fun line => Text.words (p.content line)) ∧
      ∀ line ∈ lines, Text.words (p.content line) ≠ [] := by
  induction h with
  | done p => simp
  | @step p q line lines hj _ ih =>
    obtain ⟨hkind, hframe, hwords, hne⟩ := ih
    have hc : ∀ l, (p.extend line).content l = p.content l := content_congr rfl
    refine ⟨hkind, hframe, ?_, ?_⟩
    · rw [hwords]
      simp [hc]
    · intro l hl
      rcases List.mem_cons.mp hl with rfl | hl
      · exact words_of_joins hj
      · exact hc l ▸ hne l hl

end Paragraph

namespace Section

/-- A paragraph has the words of its lines, and every line has some. -/
theorem Reads.words {style : Style} {lines : List Line} {q : Paragraph}
    (h : Reads style lines (.paragraph q)) :
    q.words = lines.flatMap (fun l => Text.words (q.content l.text)) ∧
      (∀ l ∈ lines, Text.words (q.content l.text) ≠ []) ∧ q.frame.IsOpen := by
  generalize hb : Block.paragraph q = b at h
  cases h with
  | copied line crossing => cases hb
  | commented line pos hk hbody => simp [commentedBlock, hbody] at hb
  | paragraph line rest p q' hp hrest =>
    obtain rfl := Block.paragraph.inj hb
    obtain ⟨hkind, hframe, hwords, hne⟩ := hrest.spec
    obtain ⟨hfirst, hfirstne⟩ := Paragraph.ofLine?_words hp
    have hc := Paragraph.content_congr hkind
    refine ⟨?_, ?_, hframe ▸ Paragraph.ofLine?_isOpen hp⟩
    · rw [hwords, hfirst]
      simp [List.flatMap_map, hc]
    · intro l hl
      rw [hc]
      rcases List.mem_cons.mp hl with rfl | hl
      · exact hfirstne
      · exact hne l.text (List.mem_map_of_mem hl)

theorem Reads.isWord {style : Style} {lines : List Line} {q : Paragraph}
    (h : Reads style lines (.paragraph q)) : ∀ w ∈ q.words, IsWord w := by
  intro w hw
  rw [h.words.1] at hw
  obtain ⟨l, -, hw⟩ := List.mem_flatMap.mp hw
  exact words_isWord _ w hw

theorem Reads.lines_ne_nil {style : Style} {lines : List Line} {b : Block}
    (h : Reads style lines b) : lines ≠ [] := by
  cases h <;> simp

theorem Reads.words_ne_nil {style : Style} {lines : List Line} {q : Paragraph}
    (h : Reads style lines (.paragraph q)) : q.words ≠ [] := by
  obtain ⟨hwords, hne, -⟩ := h.words
  obtain ⟨l, rest, rfl⟩ := List.exists_cons_of_ne_nil h.lines_ne_nil
  intro hnil
  rw [hwords, List.flatMap_cons, List.append_eq_nil_iff] at hnil
  exact hne l (by simp) hnil.1

end Section

end HardWrap
