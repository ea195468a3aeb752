import HardWrap.Proofs.Writing

/-! Settled sections: lines that already stand as their block would be written. Each line of a
settled paragraph is its margin and its words one space apart, it holds one word or fits, it has no
room for the first word of the next line, and it has the common ending. That is a condition on each
line and its neighbour. It holds exactly when writing the block gives the lines back, even if all
that is known is that both texts, with whatever comes after them, agree. -/

namespace HardWrap

open Text

/-! ### Comparing lines with a common ending -/

theorem IsEnding.append_cases {e f x y : Text} (he : IsEnding e) (hf : IsEnding f)
    (h : e ++ x = f ++ y) :
    (e = f ∧ x = y) ∨ (e = ['\r'] ∧ f = ['\r', '\n'] ∧ x = '\n' :: y) ∨
      (e = ['\r', '\n'] ∧ f = ['\r'] ∧ y = '\n' :: x) := by
  rcases he with rfl | rfl | rfl <;> rcases hf with rfl | rfl | rfl <;> simp_all

/-- Lines with endings, such that none ends with CR where LF follows. The text `after` comes after
the last one. -/
def Separated (after : Text) : List (Text × Text) → Prop
  | [] => True
  | (t, e) :: more =>
    Unbroken t ∧ IsEnding e ∧ (e = ['\r'] → (joinLines more ++ after).head? ≠ some '\n') ∧
      Separated after more

theorem Text.IsCut.separated {ps qs : List (Text × Text)} (h : IsCut (ps ++ qs))
    (he : ∀ p ∈ ps, IsEnding p.2) : Separated (joinLines qs) ps := by
  induction ps with
  | nil => trivial
  | cons p ps ih =>
    obtain ⟨t, e⟩ := p
    rw [List.cons_append] at h
    refine ⟨h.1, he (t, e) (by simp), ?_, ih h.tail fun p hp => he p (List.mem_cons_of_mem _ hp)⟩
    rw [← joinLines_append]
    exact h.2.2.1

theorem Separated.unbroken {s : Text} {qs : List (Text × Text)} (h : Separated s qs) :
    ∀ t ∈ qs.map Prod.fst, Unbroken t := by
  induction qs with
  | nil => simp
  | cons q qs ih =>
    intro t ht
    rcases List.mem_cons.mp ht with rfl | ht
    · exact h.1
    · exact ih h.2.2.2 t ht

/-- A line with the common ending is not followed by LF. -/
theorem head_joinLines_ne_lf {e : Text} (he : e = ['\r']) {ts : List Text}
    (hts : ∀ t ∈ ts, Unbroken t) (hne : ts ≠ []) (w : Text) :
    (joinLines (ts.map fun t => (t, e)) ++ w).head? ≠ some '\n' := by
  obtain ⟨t, ts, rfl⟩ := List.exists_cons_of_ne_nil hne
  subst he
  cases t with
  | nil => simp
  | cons c t =>
    have := (hts (c :: t) (by simp) c (by simp)).2
    simpa using this

/-- Of two ways to cut one text into lines, the contents of one begin with those of the other. -/
theorem contents_agree {e : Text} (he : IsEnding e) {ts : List Text} {qs : List (Text × Text)}
    {w s : Text} (hts : ∀ t ∈ ts, Unbroken t) (hqs : Separated s qs)
    (h : joinLines (ts.map fun t => (t, e)) ++ w = joinLines qs ++ s) :
    ts <+: qs.map Prod.fst ∨ qs.map Prod.fst <+: ts := by
  induction ts generalizing qs with
  | nil => exact Or.inl List.nil_prefix
  | cons t ts ih =>
    cases qs with
    | nil => exact Or.inr List.nil_prefix
    | cons q qs =>
      obtain ⟨u, f⟩ := q
      obtain ⟨hu, hf, hglue, hrest⟩ := hqs
      simp only [List.map_cons, joinLines_cons, List.append_assoc] at h
      obtain ⟨rfl, hend⟩ := (hts t (by simp)).first_line_unique hu he hf h
      have hts' : ∀ t ∈ ts, Unbroken t := fun v hv => hts v (List.mem_cons_of_mem _ hv)
      rcases he.append_cases hf hend with ⟨-, hxy⟩ | ⟨hcr, -, hlf⟩ | ⟨-, hcr, hlf⟩
      · exact (ih hts' hrest hxy).imp (fun hp => by simpa using hp) (fun hp => by simpa using hp)
      · -- CR against CR LF: only the last line can be cut so.
        cases ts with
        | nil => exact Or.inl (by simp)
        | cons v ts =>
          have := head_joinLines_ne_lf hcr hts' (by simp) w
          rw [hlf] at this
          exact absurd rfl this
      · rw [hlf] at hglue
        exact absurd rfl (hglue hcr)

/-- If the contents agree, so do the endings and what follows, or a CR and a CR LF were taken for
each other at the end. -/
theorem endings_agree {e : Text} (he : IsEnding e) {qs : List (Text × Text)} {w s : Text}
    (hqs : Separated s qs)
    (h : joinLines ((qs.map Prod.fst).map fun t => (t, e)) ++ w = joinLines qs ++ s) :
    ((∀ q ∈ qs, q.2 = e) ∧ w = s) ∨ w = '\n' :: s := by
  induction qs with
  | nil => exact Or.inl ⟨by simp, h⟩
  | cons q qs ih =>
    obtain ⟨u, f⟩ := q
    obtain ⟨hu, hf, hglue, hrest⟩ := hqs
    simp only [List.map_cons, joinLines_cons, List.append_assoc] at h
    obtain ⟨-, hend⟩ := hu.first_line_unique hu he hf h
    rcases he.append_cases hf hend with ⟨rfl, hxy⟩ | ⟨hcr, -, hlf⟩ | ⟨-, hcr, hlf⟩
    · refine (ih hrest hxy).imp_left fun ⟨hall, hws⟩ => ⟨?_, hws⟩
      intro q hq
      rcases List.mem_cons.mp hq with rfl | hq
      · rfl
      · exact hall q hq
    · cases qs with
      | nil => exact Or.inr hlf
      | cons r qs =>
        have := head_joinLines_ne_lf hcr hrest.unbroken (by simp) w
        rw [hlf] at this
        exact absurd rfl this
    · rw [hlf] at hglue
      exact absurd rfl (hglue hcr)

/-- Two groupings of the same words are the same if one begins with the other. -/
theorem groups_eq_of_initial {as bs : List (List Text)} (h : as <+: bs)
    (hne : ∀ b ∈ bs, b ≠ []) (hflat : as.flatten = bs.flatten) : as = bs := by
  obtain ⟨cs, rfl⟩ := h
  rw [List.flatten_append, List.self_eq_append_right, List.flatten_eq_nil_iff] at hflat
  cases cs with
  | nil => simp
  | cons c cs => exact absurd (hflat c (by simp)) (hne c (by simp))

/-! ### Lines read back from a layout -/

theorem Unbroken.of_isWord {w : Text} (h : IsWord w) : Unbroken w := by
  intro c hc
  have := h.2 c hc
  constructor <;> rintro rfl <;> simp at this

theorem Unbroken.joinWords {ws : List Text} (h : ∀ w ∈ ws, IsWord w) : Unbroken (joinWords ws) := by
  induction ws with
  | nil => intro c hc; cases hc
  | cons w ws ih =>
    have hw := Unbroken.of_isWord (h w (by simp))
    cases ws with
    | nil => rwa [joinWords_singleton]
    | cons v ws =>
      rw [joinWords_cons_cons, ← List.singleton_append]
      refine hw.append (Unbroken.append (by simp [Unbroken]) ?_)
      exact ih fun u hu => h u (List.mem_cons_of_mem _ hu)

theorem atGap_joinWords {ws : List Text} (h : ∀ w ∈ ws, IsWord w) (hne : ws ≠ []) :
    atGap (joinWords ws) = false := by
  have hword : ∀ w, IsWord w → atGap w = false := by
    intro w hw
    obtain ⟨c, r, rfl⟩ := List.exists_cons_of_ne_nil hw.1
    exact hw.2 c (by simp)
  obtain ⟨w, ws, rfl⟩ := List.exists_cons_of_ne_nil hne
  cases ws with
  | nil => rw [joinWords_singleton]; exact hword w (h w (by simp))
  | cons v ws =>
    rw [joinWords_cons_cons, atGap_append (h w (by simp)).1]
    exact hword w (h w (by simp))

/-- Margins that do not break a line. -/
def Frame.IsUnbroken (frame : Frame) : Prop :=
  Unbroken frame.first ∧ Unbroken frame.later

theorem layLines_unbroken {frame : Frame} (hframe : frame.IsUnbroken) {groups : List (List Text)}
    (h : ∀ line ∈ groups, ∀ w ∈ line, IsWord w) : ∀ t ∈ layLines frame groups, Unbroken t := by
  cases groups with
  | nil => simp [layLines]
  | cons line more =>
    intro t ht
    rcases List.mem_cons.mp ht with rfl | ht
    · exact hframe.1.append (Unbroken.joinWords (h line (by simp)))
    · obtain ⟨l, hl, rfl⟩ := List.mem_map.mp ht
      exact hframe.2.append (Unbroken.joinWords (h l (List.mem_cons_of_mem _ hl)))

/-- A text after which only the words of the line are left of a line with this margin. -/
def Paragraph.Recovers (p : Paragraph) (margin : Text) : Prop :=
  ∀ line, (∀ w ∈ line, IsWord w) → line ≠ [] →
    Text.words (p.content (margin ++ joinWords line)) = line

theorem layLines_content {p : Paragraph} {frame : Frame} (hfirst : p.Recovers frame.first)
    (hlater : p.Recovers frame.later) {groups : List (List Text)}
    (hwords : ∀ line ∈ groups, ∀ w ∈ line, IsWord w) (hne : ∀ line ∈ groups, line ≠ []) :
    (layLines frame groups).map (fun t => words (p.content t)) = groups := by
  cases groups with
  | nil => rfl
  | cons line more =>
    simp only [layLines, List.map_cons, List.map_map, List.cons.injEq]
    refine ⟨hfirst line (hwords line (by simp)) (hne line (by simp)), ?_⟩
    conv_rhs => rw [← List.map_id more]
    apply List.map_congr_left
    intro l hl
    exact hlater l (hwords l (List.mem_cons_of_mem _ hl)) (hne l (List.mem_cons_of_mem _ hl))

theorem Paragraph.recovers_of_blank {p : Paragraph} (hp : p.kind ≠ .comment) {margin : Text}
    (hm : IsBlankText margin) : p.Recovers margin := by
  intro line hline _
  have hc : p.content (margin ++ joinWords line) = stripLeft (margin ++ joinWords line) := by
    unfold content
    cases hk : p.kind with
    | comment => exact absurd hk hp
    | prose => rfl
    | item => rfl
  rw [hc, words_stripLeft, words_blank_append hm, words_joinWords hline]

theorem stripLeft_blank_append {b t : Text} (hb : IsBlankText b) (ht : atGap t = false) :
    stripLeft (b ++ t) = t := by
  rw [stripLeft, List.dropWhile_append_of_pos hb]
  cases t with
  | nil => rfl
  | cons c t =>
    rw [atGap_cons] at ht
    simp [ht]

theorem Paragraph.recovers_of_mark {p : Paragraph} (hp : p.kind = .comment) {margin : Text}
    (hm : IsBlankText margin) : p.Recovers (margin ++ ['%', ' ']) := by
  intro line hline _
  have hc : p.content (margin ++ ['%', ' '] ++ joinWords line)
      = commentBody (margin ++ ['%', ' '] ++ joinWords line) := by
    simp [content, hp]
  have hs : stripLeft (margin ++ ['%', ' '] ++ joinWords line) = '%' :: ' ' :: joinWords line := by
    rw [List.append_assoc]
    exact stripLeft_blank_append hm (by simp)
  rw [hc, commentBody, hs]
  simp [dropOne, words_joinWords hline]

namespace Section

/-- The margins of a paragraph come from its first line. -/
theorem Reads.frame_cases {style : Style} {line : Line} {rest : List Line} {q : Paragraph}
    (h : Reads style (line :: rest) (.paragraph q)) :
    (q.kind ≠ .comment ∧ (∀ c ∈ q.frame.first, c = ' ') ∧ ∀ c ∈ q.frame.later, c = ' ') ∨
      (q.kind = .comment ∧ isCommentLine line.text = true ∧
        q.frame = .even (commentMargin style.tabWidth line.text)) := by
  have hmargin := margin_spaces style.tabWidth line.text
  have hhang := hangingMargin_spaces style.tabWidth line.text
  generalize hb : Block.paragraph q = b at h
  generalize hl : line :: rest = ls at h
  cases h with
  | copied line crossing => cases hb
  | commented line pos hk hbody => simp [commentedBlock, hbody] at hb
  | paragraph first rest p q' hp hrest =>
    obtain rfl := Block.paragraph.inj hb
    obtain ⟨rfl, rfl⟩ := List.cons.inj hl
    obtain ⟨hkind, hframe, -, -⟩ := hrest.spec
    rw [hkind, hframe]
    unfold Paragraph.ofLine? at hp
    split at hp
    next =>
      obtain rfl := Option.some.inj hp
      exact Or.inl ⟨by simp [proseParagraph], hmargin, hmargin⟩
    next =>
      obtain rfl := Option.some.inj hp
      exact Or.inl ⟨by simp [itemParagraph], hmargin, hhang⟩
    next =>
      split at hp
      next hm =>
        obtain rfl := Option.some.inj hp
        simp only [isMergeableComment, Bool.and_eq_true] at hm
        exact Or.inr ⟨rfl, hm.1, rfl⟩
      next => cases hp
    next => cases hp

theorem unbroken_of_spaces {t : Text} (h : ∀ c ∈ t, c = ' ') : Unbroken t := by
  intro c hc
  rw [h c hc]
  decide

theorem commentMargin_unbroken (tabWidth : Int) (line : Text) :
    Unbroken (commentMargin tabWidth line) := by
  have hm := unbroken_of_spaces (margin_spaces tabWidth line)
  rcases commentMargin_cases tabWidth line with h | h
  · rw [h]
    exact hm.append (by simp [Unbroken])
  · rw [h]
    exact hm

theorem Reads.frame_unbroken {style : Style} {line : Line} {rest : List Line} {q : Paragraph}
    (h : Reads style (line :: rest) (.paragraph q)) : q.frame.IsUnbroken := by
  rcases h.frame_cases with ⟨-, hfirst, hlater⟩ | ⟨-, -, hframe⟩
  · exact ⟨unbroken_of_spaces hfirst, unbroken_of_spaces hlater⟩
  · have := commentMargin_unbroken style.tabWidth line.text
    rw [hframe]
    exact ⟨this, this⟩

/-- The first line of a paragraph of comments has its mark, if it stands as it is written. -/
theorem commentMargin_of_layout {tabWidth : Int} {line : Text} {ws : List Text}
    (hcomment : isCommentLine line = true) (hws : ∀ w ∈ ws, IsWord w) (hne : ws ≠ [])
    (h : line = commentMargin tabWidth line ++ joinWords ws) :
    commentMargin tabWidth line = margin tabWidth line ++ ['%', ' '] := by
  rcases commentMargin_cases tabWidth line with hmark | hno
  · exact hmark
  · -- Without a mark the line would start with its first word, and that with a percent sign.
    exfalso
    have hspaces := margin_spaces tabWidth line
    rw [hno] at h
    have hgap := atGap_joinWords hws hne
    obtain ⟨c, r, hj⟩ : ∃ c r, joinWords ws = c :: r := by
      apply List.exists_cons_of_ne_nil
      rintro hnil
      simp [hnil] at hgap
    rw [hj, atGap_cons] at hgap
    have hdrop : line.dropWhile isMarginChar = c :: r := by
      conv_lhs => rw [h, hj]
      exact dropWhile_spaces hspaces hgap
    have hstrip : stripLeft line = c :: r := by
      conv_lhs => rw [h, hj]
      exact stripLeft_blank_append (blank_of_spaces hspaces) hgap
    have hc : c = '%' := by
      obtain ⟨b, -, hb⟩ := stripRight_split (c :: r)
      simp only [isCommentLine, strip, hstrip, startsWith] at hcomment
      cases hs : stripRight (c :: r) with
      | nil => simp [hs] at hcomment
      | cons d s =>
        rw [hs] at hb hcomment
        obtain ⟨rfl, -⟩ := List.cons.inj hb
        have : '%' = c := by simpa using hcomment
        exact this.symm
    have : startsWith "%" (line.dropWhile isMarginChar) = true := by
      rw [hdrop, hc]
      simp [startsWith]
    rw [commentMargin, if_pos this] at hno
    simp at hno

/-- The lines of a section, where a line of a filled block that lacks an ending has the common
one. -/
def closed (e : Text) (s : Section) : List (Text × Text) :=
  s.lines.map fun l =>
    (l.text, if s.block.isFilled && l.ending.isEmpty then e else l.ending)

/-- Whether the lines stand as their block is written at the width, with the common ending. -/
def IsSettled (width : Int) (e : Text) (s : Section) : Prop :=
  match s.block with
  | .copied .. => True
  | .paragraph p =>
    let groups := s.lines.map fun l => words (p.content l.text)
    (∀ l ∈ s.lines, l.ending = e ∨ l.ending = []) ∧
      s.lines.map Line.text = layLines p.frame groups ∧
      IsGreedy p.frame.later.length width p.frame.first.length groups
  | .commented c =>
    (∀ l ∈ s.lines, l.text = c.frame.first ++ joinWords c.words ++ c.tail) ∧
      IsGreedy c.frame.later.length width c.frame.first.length [c.words]

instance isSettledDecidable (width : Int) (e : Text) :
    (s : Section) → Decidable (s.IsSettled width e)
  | ⟨_, .copied ..⟩ => inferInstanceAs (Decidable True)
  | ⟨_, .paragraph _⟩ => inferInstanceAs (Decidable (_ ∧ _ ∧ _))
  | ⟨_, .commented _⟩ => inferInstanceAs (Decidable (_ ∧ _))

/-! ### Settled lines are written back -/

theorem Reads.groups_flatten {style : Style} {lines : List Line} {q : Paragraph}
    (h : Reads style lines (.paragraph q)) :
    (lines.map fun l => Text.words (q.content l.text)).flatten = q.words := by
  rw [h.words.1, List.flatMap_def]

theorem write_commented_of_greedy {c : CommentedLine} {width : Int} {e : Text} (he : IsEnding e)
    (hwords : ∀ w ∈ c.words, IsWord w)
    (hgreedy : IsGreedy c.frame.later.length width c.frame.first.length [c.words]) :
    (Block.commented c).write width e = c.frame.first ++ joinWords c.words ++ c.tail ++
      (if c.ending.isEmpty then e else c.ending) := by
  have hpack := packWords_of_isGreedy hgreedy
  rw [List.flatten_singleton, ← pack_eq_packWords _ _ hwords] at hpack
  have hfill : fill c.frame width e c.words = c.frame.first ++ joinWords c.words ++ e := by
    rw [fill, hpack]
    simp [writeLines, writeLine]
  rw [Block.write, hfill, dropEnding_append he.ne_nil]

theorem Reads.write_of_settled {style : Style} {lines : List Line} {b : Block}
    (h : Reads style lines b) {width : Int} {e : Text} (he : IsEnding e)
    (hs : (Section.mk lines b).IsSettled width e) :
    b.write width e = joinLines ((Section.mk lines b).closed e) := by
  cases h with
  | copied line crossing => simp [Block.write, Line.source, closed, Block.isFilled]
  | commented line pos hk hbody =>
    rw [commentedBlock_eq hbody] at hs ⊢
    obtain ⟨htext, hgreedy⟩ := hs
    have hline := htext line (by simp)
    rw [write_commented_of_greedy he (words_isWord _) hgreedy, ← hline]
    simp only [closed, Block.isFilled, Bool.true_and, List.map_cons, List.map_nil, joinLines_cons,
      joinLines_nil, List.append_nil]
    rfl
  | paragraph line rest p q hp hrest =>
    have hreads : Reads style (line :: rest) (.paragraph q) := .paragraph line rest p q hp hrest
    obtain ⟨hends, htext, hgreedy⟩ := hs
    have hpack := packWords_of_isGreedy hgreedy
    rw [hreads.groups_flatten, ← pack_eq_packWords _ _ hreads.isWord] at hpack
    rw [Block.write, fill, hpack, writeLines_eq, ← htext, List.map_map]
    congr 1
    apply List.map_congr_left
    intro l hl
    rcases hends l hl with hl | hl
    · simp [hl, Block.isFilled]
    · simp [hl, Block.isFilled]

/-! ### Lines that are written back are settled -/

theorem length_layLines (frame : Frame) (groups : List (List Text)) :
    (layLines frame groups).length = groups.length := by
  cases groups <;> simp [layLines]

/-- Margins from which the words of a line can be read back, provided that the first line of the
paragraph stands as it is written. -/
theorem Reads.recovers {style : Style} {line : Line} {rest : List Line} {q : Paragraph}
    (h : Reads style (line :: rest) (.paragraph q)) {ws : List Text}
    (hws : ∀ w ∈ ws, IsWord w) (hne : ws ≠ [])
    (hline : line.text = q.frame.first ++ joinWords ws) :
    q.Recovers q.frame.first ∧ q.Recovers q.frame.later := by
  rcases h.frame_cases with ⟨hkind, hfirst, hlater⟩ | ⟨hkind, hcomment, hframe⟩
  · exact ⟨Paragraph.recovers_of_blank hkind (blank_of_spaces hfirst),
      Paragraph.recovers_of_blank hkind (blank_of_spaces hlater)⟩
  · rw [hframe] at hline ⊢
    have hmark := commentMargin_of_layout hcomment hws hne hline
    have hblank := blank_of_spaces (margin_spaces style.tabWidth line.text)
    have := Paragraph.recovers_of_mark hkind hblank
    rw [← hmark] at this
    exact ⟨this, this⟩

/-- If the filled lines and the lines of a paragraph agree as far as they go, they are the same. -/
theorem Reads.lines_eq_of_agree {style : Style} {line : Line} {rest : List Line} {q : Paragraph}
    (h : Reads style (line :: rest) (.paragraph q)) {width : Int}
    (hpre : layLines q.frame (pack q.frame width q.words) <+: (line :: rest).map Line.text ∨
      (line :: rest).map Line.text <+: layLines q.frame (pack q.frame width q.words)) :
    (pack q.frame width q.words = (line :: rest).map fun l => Text.words (q.content l.text)) ∧
      layLines q.frame (pack q.frame width q.words) = (line :: rest).map Line.text := by
  obtain ⟨-, hlines, -⟩ := h.words
  have hwords := pack_isWord q.frame width h.isWord
  have hgroups := pack_nonempty q.frame width q.words
  obtain ⟨g, gs, hpack⟩ := List.exists_cons_of_ne_nil
    (pack_ne_nil q.frame width h.isWord h.words_ne_nil)
  -- Both begin with the same line, so the margins are those of that line.
  have hfirst : line.text = q.frame.first ++ joinWords g := by
    rw [hpack] at hpre
    rcases hpre with hp | hp
    · exact (List.cons_prefix_cons.mp hp).1.symm
    · exact (List.cons_prefix_cons.mp hp).1
  obtain ⟨hrf, hrl⟩ := h.recovers (hwords g (by simp [hpack])) (hgroups g (by simp [hpack])) hfirst
  -- Hence the words of each written line can be read back, and the groups are the same.
  have hback := layLines_content hrf hrl hwords hgroups
  have hsame : pack q.frame width q.words
      = (line :: rest).map fun l => Text.words (q.content l.text) := by
    have hf : (pack q.frame width q.words).flatten
        = ((line :: rest).map fun l => Text.words (q.content l.text)).flatten := by
      rw [pack_flatten q.frame width h.isWord, h.groups_flatten]
    rcases hpre with hp | hp
    · have := hp.map fun t => Text.words (q.content t)
      rw [hback, List.map_map] at this
      exact groups_eq_of_initial this (by simpa using hlines) hf
    · have := hp.map fun t => Text.words (q.content t)
      rw [hback, List.map_map] at this
      exact (groups_eq_of_initial this hgroups hf.symm).symm
  have hlen : (layLines q.frame (pack q.frame width q.words)).length
      = ((line :: rest).map Line.text).length := by
    rw [length_layLines, hsame, List.length_map, List.length_map]
  rcases hpre with hp | hp
  · exact ⟨hsame, hp.eq_of_length hlen⟩
  · exact ⟨hsame, (hp.eq_of_length hlen.symm).symm⟩

/-- If the written paragraph and its lines agree as far as they go, the lines are settled. -/
theorem Reads.paragraph_settled {style : Style} {line : Line} {rest : List Line} {q : Paragraph}
    (h : Reads style (line :: rest) (.paragraph q)) {width : Int} {e : Text} (he : IsEnding e)
    {w s : Text} (hsep : Separated s ((Section.mk (line :: rest) (.paragraph q)).closed e))
    (heq : (Block.paragraph q).write width e ++ w =
      joinLines ((Section.mk (line :: rest) (.paragraph q)).closed e) ++ s)
    (hno : w ≠ '\n' :: s) :
    (Section.mk (line :: rest) (.paragraph q)).IsSettled width e ∧ w = s := by
  have htexts : ((Section.mk (line :: rest) (.paragraph q)).closed e).map Prod.fst
      = (line :: rest).map Line.text := by
    simp [closed]
  rw [Block.write, fill, writeLines_eq] at heq
  have hpre := contents_agree he
    (layLines_unbroken h.frame_unbroken (pack_isWord q.frame width h.isWord)) hsep heq
  rw [htexts] at hpre
  obtain ⟨hsame, hlay⟩ := h.lines_eq_of_agree hpre
  rw [hlay, ← htexts] at heq
  rcases endings_agree he hsep heq with ⟨hends, hws⟩ | hlf
  · refine ⟨⟨?_, ?_, ?_⟩, hws⟩
    · intro l hl
      have := hends _ (List.mem_map_of_mem hl)
      simp only [Block.isFilled, Bool.true_and] at this
      split at this
      next hnil => exact Or.inr (List.isEmpty_iff.mp hnil)
      next => exact Or.inl this
    · rw [← hsame, hlay]
    · rw [← hsame, pack_eq_packWords _ _ h.isWord]
      exact packWords_isGreedy q.frame width q.words
  · exact absurd hlf hno

theorem commented_settled {style : Style} {line : Line} {pos : Nat}
    (hk : kindOf line.text = .item (some pos) ∨ kindOf line.text = .prose (some pos))
    {width : Int} {e : Text} (he : IsEnding e) {w s : Text}
    (hsep : Separated s ((Section.mk [line] (.commented (commentedLine style line pos))).closed e))
    (heq : (Block.commented (commentedLine style line pos)).write width e ++ w =
      joinLines ((Section.mk [line] (.commented (commentedLine style line pos))).closed e) ++ s) :
    (Section.mk [line] (.commented (commentedLine style line pos))).IsSettled width e ∧ w = s := by
  have hword := words_isWord (commentedBody line.text pos)
  have hmargin := margin_spaces style.tabWidth line.text
  have hwords := pack_isWord (commentedLine style line pos).frame width hword
  have hgroups := pack_nonempty (commentedLine style line pos).frame width
    (words (commentedBody line.text pos))
  have hflat := pack_flatten (commentedLine style line pos).frame width hword
  obtain ⟨g, more, hpack⟩ := List.exists_cons_of_ne_nil
    (pack_ne_nil (commentedLine style line pos).frame width hword (commentedBody_words hk))
  rw [hpack] at hwords hgroups hflat
  have hfirst : Unbroken (margin style.tabWidth line.text ++ joinWords g) :=
    (unbroken_of_spaces hmargin).append (Unbroken.joinWords (hwords g (by simp)))
  obtain ⟨htext, hend, -, -⟩ := hsep
  have htail : Unbroken ((strip line.text).drop (commentedBody line.text pos).length) := by
    intro c hc
    exact htext c (mem_of_mem_strip (List.mem_of_mem_drop hc))
  simp only [closed, Block.isFilled, Bool.true_and, List.map_cons, List.map_nil, joinLines_cons,
    joinLines_nil, List.append_nil, List.append_assoc] at heq hend
  cases more with
  | nil =>
    rw [List.flatten_singleton] at hflat
    subst hflat
    have hgreedy : IsGreedy (commentedLine style line pos).frame.later.length width
        (commentedLine style line pos).frame.first.length
        [words (commentedBody line.text pos)] := by
      rw [← hpack, pack_eq_packWords _ _ hword]
      exact packWords_isGreedy ..
    rw [write_commented_of_greedy he hword hgreedy, List.append_assoc] at heq
    obtain ⟨hline, hrest⟩ := (hfirst.append htail).first_line_unique htext hend hend heq
    refine ⟨⟨?_, hgreedy⟩, List.append_cancel_left hrest⟩
    intro l hl
    rw [List.mem_singleton.mp hl]
    exact hline.symm
  | cons m ms =>
    -- The first filled line would have to hold all the words before the comment.
    exfalso
    obtain ⟨x, hx⟩ := writeLines_cons_cons (commentedLine style line pos).frame e g m ms
    have hfill : dropEnding e (fill (commentedLine style line pos).frame width e
        (words (commentedBody line.text pos)))
          = margin style.tabWidth line.text ++ joinWords g ++ (e ++ x) := by
      rw [fill, hpack, hx]
      exact dropEnding_append he.ne_nil _
    have hline : margin style.tabWidth line.text ++ joinWords g = line.text := by
      rw [write_commentedLine, hfill] at heq
      simp only [List.append_assoc] at heq
      rw [← List.append_assoc] at heq
      exact (hfirst.first_line_unique htext he hend heq).1
    have hle := length_words_commentedBody line.text pos
    rw [← hflat, ← hline, words_blank_append (blank_of_spaces hmargin),
      words_joinWords (hwords g (by simp))] at hle
    have := List.length_pos_of_ne_nil (hgroups m (by simp))
    simp only [List.flatten_cons, List.length_append] at hle
    omega

end Section

end HardWrap
