import HardWrap.Proofs.CommentFidelity
import HardWrap.Proofs.Rereading

/-! Stable blocks. What a block is written as is read again as what it is if comments have their
sign, no item command and no border can come to the start of a line where there was none, and the
label of an item stands on one line. The lines of a stable block are settled, and a paragraph goes
on to the line after them only if it went on before: to the first line of the next block, or to a
line with a comment that was wrapped. -/

namespace HardWrap

open Text

/-! ### Stable blocks -/

/-- Words that mean the same wherever their lines are broken: none but the first is an item, and
none opens an environment that is copied. The comment after the words can do that as well. -/
def KeepsMeaning (style : Style) (ws : List Text) (tail : Text) : Prop :=
  (∀ w ∈ ws.tail, opensWith "\\item" w = false) ∧
    ∀ token ∈ environmentTokens (joinWords ws ++ tail), token.border = .opening →
      style.tracked.contains token.name = true

instance (style : Style) (ws : List Text) (tail : Text) : Decidable (KeepsMeaning style ws tail) :=
  inferInstanceAs (Decidable (_ ∧ _))

namespace Block

/-- A block whose lines are read again as what they are. Comments have their sign, text keeps its
meaning, and an item hangs as far as its label says once the label stands on one line. -/
def IsStable (style : Style) : Block → Prop
  | copied .. => True
  | paragraph p =>
    if p.kind = .comment then '%' ∈ p.frame.first
    else KeepsMeaning style p.words [] ∧
      hangingMargin style.tabWidth (p.frame.first ++ joinWords p.words) = p.frame.later
  | commented c => KeepsMeaning style c.words c.tail

instance isStableDecidable (style : Style) : (b : Block) → Decidable (b.IsStable style)
  | copied .. => inferInstanceAs (Decidable True)
  | paragraph p => inferInstanceAs (Decidable (if p.kind = .comment then _ else _))
  | commented _ => inferInstanceAs (Decidable (KeepsMeaning ..))

/-- A paragraph right above a line with a comment that is wrapped, so that the start of the line
can be read as the end of the paragraph. -/
def takesUp (width : Int) : Block → Block → Bool
  | paragraph p, commented c =>
    p.continuedByProse c.frame.first && !endsWithBreak (joinWords p.words) &&
      !opensParagraph (joinWords c.words) && !isItemLine (joinWords c.words) &&
      decide (1 < (pack c.frame width c.words).length)
  | _, _ => false

end Block

/-! ### Filled text read again -/

section Text

variable {style : Style} {frame : Frame} {ws : List Text} {tail : Text}

theorem KeepsMeaning.nextOpen (h : KeepsMeaning style ws tail) {m t : Text}
    (hm : ∀ c ∈ m, c = ' ') (hgap : atGap t = false) (ht : t <:+: joinWords ws ++ tail) :
    nextOpen style none (m ++ t) = none := by
  apply nextOpen_eq_none
  intro token htoken
  rw [strip, stripLeft_blank_append (blank_of_spaces hm) hgap] at htoken
  exact h.2 token
    (environmentTokens_of_part ((stripRight_initial t).isInfix.trans ht) token htoken)

theorem HoldsText.nextOpen (h : HoldsText frame ws) (hk : KeepsMeaning style ws tail)
    {m : Text} (hm : m = frame.first ∨ m = frame.later) {g : List Text} (hne : g ≠ [])
    (hg : g <:+: ws) : HardWrap.nextOpen style none (m ++ joinWords g) = none := by
  apply hk.nextOpen (h.spaces hm) (atGap_joinWords (fun w hw => h.isWord w (hg.subset hw)) hne)
  exact (joinWords_part hg).trans (List.prefix_append _ tail).isInfix

theorem pack_part (frame : Frame) (width : Int) (hws : ∀ w ∈ ws, IsWord w) :
    ∀ g ∈ pack frame width ws, g <:+: ws := by
  intro g hg
  have hpart := List.infix_of_mem_flatten hg
  rwa [pack_flatten frame width hws] at hpart

theorem HoldsText.lines_open_nothing (h : HoldsText frame ws) (hk : KeepsMeaning style ws tail)
    {width : Int} {groups : List (List Text)} (hgroups : groups <+: pack frame width ws) :
    ∀ x ∈ layLines frame groups, HardWrap.nextOpen style none x = none := by
  intro x hx
  obtain ⟨g, hg, hline⟩ := mem_layLines hx
  have hne := pack_nonempty frame width ws g (hgroups.subset hg)
  have hpart := pack_part frame width h.isWord g (hgroups.subset hg)
  rcases hline with rfl | rfl
  · exact h.nextOpen hk (Or.inl rfl) hne hpart
  · exact h.nextOpen hk (Or.inr rfl) hne hpart

/-- The lines that some text is filled to, or some of them from the first one on, are settled. -/
theorem HoldsText.settled (h : HoldsText frame ws) (hk : KeepsMeaning style ws tail) {width : Int}
    {groups : List (List Text)} (hgroups : groups <+: pack frame width ws) {ys : List Line}
    {e : Text} (hends : ∀ y ∈ ys, y.ending = e ∨ y.ending = [])
    (htexts : ys.map Line.text = layLines frame groups) :
    ∀ s ∈ sectionsFrom style none ys, s.IsSettled width e := by
  cases groups with
  | nil =>
    have hnil : ys = [] := by simpa [layLines] using htexts
    simp [hnil, sectionsFrom]
  | cons g gs =>
    obtain ⟨y, ys, rfl⟩ : ∃ z zs, ys = z :: zs := by
      apply List.exists_cons_of_ne_nil
      rintro rfl
      simp [layLines] at htexts
    have hgreedy := pack_isGreedy frame width ws
    have hwords := pack_isWord frame width h.isWord
    have hflat := pack_flatten frame width h.isWord
    have hg : g ∈ pack frame width ws := hgroups.subset (by simp)
    have hne := pack_nonempty frame width ws
    obtain ⟨more, hmore⟩ := hgroups
    rw [← hmore, List.cons_append, List.flatten_cons] at hflat
    have hy : y.text = frame.first ++ joinWords g := (List.cons.inj htexts).1
    refine sections_settled_of_laid hends htexts ?_ ?_ ?_ ?_ ?_
    · exact fun f hf => hwords f (by rw [← hmore]; exact List.mem_append_left _ hf)
    · rw [← hmore] at hgreedy
      exact hgreedy.of_append
    · exact h.opensAt style hk.1 ⟨_, hflat⟩ (hne g hg)
    · intro f hf
      have hlater : f ⊆ ws.tail := by
        intro w hw
        rw [← hflat, List.tail_append_of_ne_nil (hne g hg)]
        exact List.mem_append_right _
          (List.mem_flatten.mpr ⟨f, List.mem_append_left _ hf, hw⟩)
      have hmem : f ∈ pack frame width ws := by
        rw [← hmore]
        exact List.mem_append_left _ (List.mem_cons_of_mem _ hf)
      exact h.readsAt_later style (hne f hmem) (fun w hw => List.mem_of_mem_tail (hlater hw))
        fun w hw => hk.1 w (hlater hw)
    · rw [hy]
      exact h.nextOpen hk (Or.inl rfl) (hne g hg) (pack_part frame width h.isWord g hg)

/-- The last line and the comment after it open nothing. -/
theorem HoldsText.nextOpen_last (h : HoldsText frame ws) (hk : KeepsMeaning style ws tail)
    {width : Int} {groups : List (List Text)} {g : List Text}
    (hpack : pack frame width ws = groups ++ [g]) {m : Text}
    (hm : m = frame.first ∨ m = frame.later) :
    HardWrap.nextOpen style none (m ++ joinWords g ++ tail) = none := by
  have hg : g ∈ pack frame width ws := by simp [hpack]
  have hwords := pack_isWord frame width h.isWord g hg
  have hne := pack_nonempty frame width ws g hg
  have hsuffix : g <:+ ws := by
    refine ⟨groups.flatten, ?_⟩
    rw [← pack_flatten frame width h.isWord, hpack, List.flatten_concat]
  obtain ⟨x, hx⟩ := joinWords_suffix hsuffix
  rw [List.append_assoc]
  refine hk.nextOpen (h.spaces hm) ?_ ⟨x, [], ?_⟩
  · rw [atGap_append (joinWords_ne_nil hwords hne)]
    exact atGap_joinWords hwords hne
  · rw [List.append_nil, ← List.append_assoc, hx]

/-- The last of some filled lines fits with its margin. -/
theorem layLines_last {width : Int} {groups : List (List Text)} {g : List Text}
    (h : IsGreedy frame.later.length width frame.first.length (groups ++ [g])) :
    ∃ m, (m = frame.first ∨ m = frame.later) ∧
      layLines frame (groups ++ [g]) = layLines frame groups ++ [m ++ joinWords g] ∧
      (g.length = 1 ∨ (m.length + (joinWords g).length : Int) ≤ width) := by
  cases groups with
  | nil => exact ⟨frame.first, Or.inl rfl, rfl, h.2.1⟩
  | cons line more =>
    exact ⟨frame.later, Or.inr rfl, by simp [layLines], h.2.2.2.fits g (by simp)⟩

/-- The last of the lines ends with the last of the words. -/
theorem HoldsText.last_break (h : HoldsText frame ws) (hne : ws ≠ []) (width : Int) :
    ∃ l ∈ (layLines frame (pack frame width ws)).getLast?,
      endsWithBreak l = endsWithBreak (joinWords ws) := by
  obtain ⟨groups, g, hpack⟩ := (List.eq_nil_or_concat' _).resolve_left
    (pack_ne_nil frame width h.isWord hne)
  obtain ⟨m, hm, hlay⟩ := layLines_concat frame groups g
  have hgne := pack_nonempty frame width ws g (by simp [hpack])
  have hgwords := pack_isWord frame width h.isWord g (by simp [hpack])
  have hflat := pack_flatten frame width h.isWord
  obtain ⟨vs, w, rfl⟩ := (List.eq_nil_or_concat' g).resolve_left hgne
  refine ⟨m ++ joinWords (vs ++ [w]), by simp [hpack, hlay], ?_⟩
  have hline : words (m ++ joinWords (vs ++ [w])) = vs ++ [w] := by
    rw [words_blank_append (blank_of_spaces (h.spaces hm)), words_joinWords hgwords]
  have hall : words (joinWords ws) = groups.flatten ++ vs ++ [w] := by
    rw [words_joinWords h.isWord, ← hflat, hpack, List.flatten_concat, List.append_assoc]
  rw [endsWithBreak_eq hline, endsWithBreak_eq hall]

end Text

/-! ### Stable paragraphs read again -/

theorem Paragraph.ofLine?_comment_iff {style : Style} {line : Text} {p : Paragraph}
    (h : ofLine? style line = some p) : p.kind = .comment ↔ isCommentLine line = true := by
  rw [← kindOf_eq_comment_iff]
  unfold ofLine? at h
  split at h
  next hk =>
    obtain rfl := Option.some.inj h
    simp [hk, proseParagraph]
  next hk =>
    obtain rfl := Option.some.inj h
    simp [hk, itemParagraph]
  next hk =>
    split at h
    · obtain rfl := Option.some.inj h
      simp [hk, commentParagraph]
    · cases h
  next => cases h

theorem Paragraph.ofLine?_comment {style : Style} {line : Text} {p : Paragraph}
    (h : ofLine? style line = some p) (hkind : p.kind = .comment) :
    isMergeableComment line = true ∧ p.frame = .even (commentMargin style.tabWidth line) := by
  rw [ofLine?, (kindOf_eq_comment_iff line).mpr ((ofLine?_comment_iff h).mp hkind)] at h
  simp only [Option.ite_none_right_eq_some, Option.some.injEq] at h
  obtain ⟨hmerge, rfl⟩ := h
  exact ⟨hmerge, rfl⟩

theorem HoldsText.not_comment {frame : Frame} {ws : List Text} (h : HoldsText frame ws) {m : Text}
    (hm : m = frame.first ∨ m = frame.later) {g : List Text} (hne : g ≠ []) (hg : g ⊆ ws) :
    isCommentLine (m ++ joinWords g) = false := by
  have hblank := blank_of_spaces (h.spaces hm)
  have hwords : ∀ w ∈ g, IsWord w := fun w hw => h.isWord w (hg hw)
  rw [Bool.eq_false_iff, isCommentLine, strip_blank_joinWords hblank hwords hne, ne_eq,
    startsWith_percent]
  exact (signsEscaped_joinWords fun w hw => h.signs w (hg hw)).head?

theorem HoldsText.ofLine?_kind {style : Style} {frame : Frame} {ws : List Text}
    (h : HoldsText frame ws) {width : Int} {line : Text}
    (hline : line ∈ layLines frame (pack frame width ws)) {p : Paragraph}
    (hp : Paragraph.ofLine? style line = some p) : p.kind ≠ .comment := by
  rw [ne_eq, Paragraph.ofLine?_comment_iff hp, Bool.not_eq_true]
  obtain ⟨g, hg, hline⟩ := mem_layLines hline
  have hne := pack_nonempty frame width ws g hg
  have hpart := pack_part frame width h.isWord g hg
  rcases hline with rfl | rfl
  · exact h.not_comment (Or.inl rfl) hne hpart.subset
  · exact h.not_comment (Or.inr rfl) hne hpart.subset

/-- A paragraph that a filled line opens, and that goes on to the end of the text, has no other
margins than the text. -/
theorem HoldsText.admits {style : Style} {frame : Frame} {ws : List Text} (h : HoldsText frame ws)
    (hk : KeepsMeaning style ws [])
    (hhang : hangingMargin style.tabWidth (frame.first ++ joinWords ws) = frame.later)
    (hne : ws ≠ []) {width : Int} {line : Text} {rest : List Text} {p : Paragraph}
    (hsuffix : line :: rest <:+ layLines frame (pack frame width ws))
    (hp : Paragraph.ofLine? style line = some p) (hrest : ∀ l ∈ rest, p.joins style l = true)
    {m : Text} (hadmits : p.admits m = true) : m = frame.first ∨ m = frame.later := by
  have hgroups := pack_nonempty frame width ws
  have hprose := h.ofLine?_kind (hsuffix.subset List.mem_cons_self) hp
  rw [Paragraph.admits, Bool.or_eq_true, beq_iff_eq, beq_iff_eq] at hadmits
  obtain ⟨g, gs, hpack⟩ := List.exists_cons_of_ne_nil (pack_ne_nil frame width h.isWord hne)
  have hflat := pack_flatten frame width h.isWord
  rw [hpack, List.flatten_cons] at hflat
  rw [hpack, layLines, List.suffix_cons_iff] at hsuffix
  have hg := hgroups g (by simp [hpack])
  rcases hsuffix with hwhole | hlater
  · obtain ⟨rfl, rfl⟩ := List.cons.inj hwhole
    rcases (h.opensAt style hk.1 ⟨_, hflat⟩ hg).frame_eq p hp with hframe | hapart
    · rwa [hframe] at hadmits
    · cases gs with
      | nil =>
        rw [List.flatten_nil, List.append_nil] at hflat
        have hmargin := margin_spaces_append style.tabWidth h.first_spaces
          (atGap_joinWords h.isWord hne)
        rw [(Paragraph.ofLine?_text hp hprose).2.2, hflat, hhang, hmargin] at hadmits
        exact hadmits
      | cons f gs =>
        have hf := hgroups f (by simp [hpack])
        have hjoins := hrest (frame.later ++ joinWords f) (by simp)
        rw [hapart f (pack_isWord frame width h.isWord f (by simp [hpack])) hf] at hjoins
        cases hjoins
  · obtain ⟨f, hf, rfl⟩ := List.mem_map.mp (hlater.subset List.mem_cons_self)
    have htail : f ⊆ ws.tail := by
      intro w hw
      rw [← hflat, List.tail_append_of_ne_nil hg]
      exact List.mem_append_right _ (List.mem_flatten.mpr ⟨f, hf, hw⟩)
    have hreads := h.readsAt_later style (hgroups f (by simp [hpack, hf]))
      (fun w hw => List.mem_of_mem_tail (htail hw)) fun w hw => hk.1 w (htail hw)
    rw [hreads.frame_eq p hp] at hadmits
    exact Or.inr (hadmits.elim id id)

namespace Section

variable {style : Style} {lines : List Line} {q : Paragraph}

/-- The margin of a stable paragraph of comments. -/
theorem Reads.comment_frame (h : Reads style lines (.paragraph q)) (hkind : q.kind = .comment)
    (hstable : '%' ∈ q.frame.first) :
    ∃ m, (∀ c ∈ m, c = ' ') ∧ q.frame = .even (m ++ ['%', ' ']) := by
  obtain ⟨line, rest, rfl⟩ := List.exists_cons_of_ne_nil h.lines_ne_nil
  have hspaces := margin_spaces style.tabWidth line.text
  rcases h.frame_cases with ⟨hno, -, -⟩ | ⟨-, -, hframe⟩
  · exact absurd hkind hno
  · rcases commentMargin_cases style.tabWidth line.text with hmark | hplain
    · exact ⟨_, hspaces, by rw [hframe, hmark]⟩
    · rw [hframe, hplain] at hstable
      exact absurd (hspaces '%' hstable) (by decide)

theorem Reads.paragraph_again (h : Reads style lines (.paragraph q))
    (hstable : (Block.paragraph q).IsStable style) (width : Int) :
    (∀ x ∈ (Block.paragraph q).contents width, nextOpen style none x = none) ∧
      ∀ ys : List Line, ys.map Line.text = (Block.paragraph q).contents width →
        ∀ e, (∀ y ∈ ys, y.ending = e ∨ y.ending = []) →
          ∀ s ∈ sectionsFrom style none ys, s.IsSettled width e := by
  rw [Block.IsStable] at hstable
  rw [Block.contents]
  by_cases hkind : q.kind = .comment
  · rw [if_pos hkind] at hstable
    obtain ⟨m, hm, hframe⟩ := h.comment_frame hkind hstable
    rw [hframe, layLines_even]
    refine ⟨?_, ?_⟩
    · intro x hx
      obtain ⟨g, hg, rfl⟩ := List.mem_map.mp hx
      apply nextOpen_comment
      exact (IsFilledComment.of_margin hm (pack_nonempty _ width q.words g hg)
        (pack_isWord _ width h.isWord g hg)).isCommentLine
    · intro ys htexts e hends
      refine sections_settled_of_filled hends htexts (pack_isWord _ width h.isWord)
        (pack_isGreedy (.even (m ++ ['%', ' '])) width q.words) ?_
      intro y hy
      have hmem : y.text ∈ (pack (.even (m ++ ['%', ' '])) width q.words).map _ :=
        htexts ▸ List.mem_map_of_mem hy
      obtain ⟨g, -, hline⟩ := List.mem_map.mp hmem
      rw [← hline]
      exact readsAt_comment style hm (joinWords g)
  · rw [if_neg hkind] at hstable
    have htext := h.holdsText hkind
    refine ⟨htext.lines_open_nothing hstable.1 List.prefix_rfl, ?_⟩
    intro ys htexts e hends
    exact htext.settled hstable.1 List.prefix_rfl hends htexts

/-- A stable paragraph goes on to the line after it only if it went on before, and not after a
forced break. -/
theorem Reads.closes (h : Reads style lines (.paragraph q))
    (hstable : (Block.paragraph q).IsStable style) (width : Int) {next : Text}
    (hnext : q.joins style next = true →
      q.kind ≠ .comment ∧ endsWithBreak (joinWords q.words) = true) :
    Closes style ((Block.paragraph q).contents width) next := by
  intro line rest p hsuffix hp hrest hjoins
  rw [Block.contents] at hsuffix
  rw [Block.IsStable] at hstable
  by_cases hkind : q.kind = .comment
  · exfalso
    rw [if_pos hkind] at hstable
    obtain ⟨m, hm, hframe⟩ := h.comment_frame hkind hstable
    have hline : line ∈ layLines q.frame (pack q.frame width q.words) := hsuffix.subset (by simp)
    rw [hframe, mem_layLines_even] at hline
    obtain ⟨g, hg, rfl⟩ := hline
    have hcomment := (IsFilledComment.of_margin hm (pack_nonempty _ width q.words g hg)
      (pack_isWord _ width h.isWord g hg)).isCommentLine
    refine (hnext (Paragraph.joins_mono ?_ ?_ hjoins)).1 hkind
    · rw [Paragraph.ofLine?_comment_iff hp]
      exact iff_of_true hcomment hkind
    · intro margin hadmits
      rwa [Paragraph.admits, (readsAt_comment style hm _).frame_eq p hp, ← hframe] at hadmits
  · rw [if_neg hkind] at hstable
    have htext := h.holdsText hkind
    have hprose := htext.ofLine?_kind (hsuffix.subset List.mem_cons_self) hp
    have hbreak := (hnext (Paragraph.joins_mono (iff_of_false hprose hkind) (fun m hm => ?_)
      hjoins)).2
    · obtain ⟨l, hl, hsame⟩ := htext.last_break h.words_ne_nil width
      obtain ⟨front, hfront⟩ := hsuffix
      rw [← hfront, List.getLast?_append_of_ne_nil _ (List.cons_ne_nil line rest)] at hl
      refine ⟨l, hl, ?_⟩
      rw [Paragraph.isEndedBy, hsame, hbreak, Bool.and_true, bne_iff_ne]
      exact hprose
    · rw [Paragraph.admits, Bool.or_eq_true, beq_iff_eq, beq_iff_eq]
      exact htext.admits hstable.1 hstable.2 h.words_ne_nil hsuffix hp hrest hm

/-- A line with a comment is written as filled text and a last line, which is a section of its own
and settled. -/
theorem Reads.commented_shape {c : CommentedLine} (h : Reads style lines (.commented c))
    (width : Int) :
    ∃ groups g m, pack c.frame width c.words = groups ++ [g] ∧
      (m = c.frame.first ∨ m = c.frame.later) ∧
      (Block.commented c).contents width =
        layLines c.frame groups ++ [m ++ joinWords g ++ c.tail] ∧
      ∀ y : Line, y.text = m ++ joinWords g ++ c.tail → ∀ e,
        Paragraph.ofLine? style y.text = none ∧
          (Section.mk [y] (loneBlock style y)).IsSettled width e := by
  have htext := h.holdsText_commented
  have hgreedy := pack_isGreedy c.frame width c.words
  obtain ⟨front, last, hcontents, -, hlast, -, hcomment⟩ := h.commented_lines width
  obtain ⟨groups, g, hpack⟩ : ∃ groups g, pack c.frame width c.words = groups ++ [g] := by
    refine (List.eq_nil_or_concat' _).resolve_left fun hnil => hlast ?_
    rw [Block.contents, hnil, ← List.nil_append (appendToLast _ _)] at hcontents
    have hsame := (List.append_inj' hcontents rfl).2
    rw [List.self_eq_append_left.mp (List.cons.inj hsame).1]
    rfl
  rw [hpack] at hgreedy
  obtain ⟨m, hm, hlay, hfits⟩ := layLines_last hgreedy
  have hwritten : (Block.commented c).contents width =
      layLines c.frame groups ++ [m ++ joinWords g ++ c.tail] := by
    rw [Block.contents, hpack, hlay, appendToLast_concat]
  obtain rfl : last = m ++ joinWords g := by
    rw [hwritten] at hcontents
    exact (List.append_cancel_right (List.cons.inj (List.append_inj' hcontents rfl).2).1).symm
  have hg : g ∈ pack c.frame width c.words := by simp [hpack]
  refine ⟨groups, g, m, hpack, hm, hwritten, fun y hy e => ?_⟩
  refine commented_line_settled (htext.spaces hm) (pack_isWord c.frame width htext.isWord g hg)
    (pack_nonempty c.frame width c.words g hg) hcomment style ?_ hy hfits e
  exact fun w hw => htext.signs w ((pack_part c.frame width htext.isWord g hg).subset hw)

/-- The lines of a stable line with a comment open nothing and are all settled, and nothing goes on
after the last of them. -/
theorem Reads.commented_again {c : CommentedLine} (h : Reads style lines (.commented c))
    (hstable : (Block.commented c).IsStable style) (width : Int) :
    (∀ x ∈ (Block.commented c).contents width, nextOpen style none x = none) ∧
      (∀ next, Closes style ((Block.commented c).contents width) next) ∧
      ∀ ys : List Line, ys.map Line.text = (Block.commented c).contents width →
        ∀ e, (∀ y ∈ ys.dropLast, y.ending = e ∨ y.ending = []) →
          ∀ s ∈ sectionsFrom style none ys, s.IsSettled width e := by
  have htext := h.holdsText_commented
  obtain ⟨groups, g, m, hpack, hm, hwritten, hlast⟩ := h.commented_shape width
  have hgroups : groups <+: pack c.frame width c.words := ⟨[g], hpack.symm⟩
  have hfront := htext.lines_open_nothing hstable hgroups
  have hend := htext.nextOpen_last hstable hpack hm
  have halone : Paragraph.ofLine? style (m ++ joinWords g ++ c.tail) = none :=
    (hlast ⟨_, 0, []⟩ rfl []).1
  rw [hwritten]
  refine ⟨?_, closes_of_lone halone, ?_⟩
  · intro x hx
    rcases List.mem_append.mp hx with hx | hx
    · exact hfront x hx
    · rw [List.mem_singleton.mp hx]
      exact hend
  · intro ys htexts e hends
    obtain ⟨front, back, rfl, hfronts, hback⟩ := List.map_eq_append_iff.mp htexts
    obtain ⟨y, rfl⟩ : ∃ y, back = [y] := by
      rw [← List.length_eq_one_iff, ← List.length_map (f := Line.text), hback]
      rfl
    have hy : y.text = m ++ joinWords g ++ c.tail := (List.cons.inj hback).1
    rw [List.dropLast_concat] at hends
    obtain ⟨hlone, hsettled⟩ := hlast y hy e
    rw [sectionsFrom_concat (fun x hx => hfront _ (hfronts ▸ List.mem_map_of_mem hx)) hlone,
      List.forall_mem_append]
    exact ⟨htext.settled hstable hgroups hends hfronts, by simpa using hsettled⟩

end Section

/-! ### From one block to the next -/

/-- If a paragraph goes on to the first line of some filled text, the text is prose that begins at
one of its margins. -/
theorem HoldsText.prose_of_joins {style : Style} {frame : Frame} {ws : List Text}
    (h : HoldsText frame ws) {g : List Text} (hne : g ≠ []) (hg : g <+: ws) {p : Paragraph}
    (hjoins : p.joins style (frame.first ++ joinWords g) = true) :
    p.kind ≠ .comment ∧ isItemLine (joinWords ws) = false ∧
      opensParagraph (joinWords ws) = false ∧ p.admits frame.first = true := by
  have hprose : p.kind ≠ .comment := by
    intro hcomment
    have hmerge := (Paragraph.comment_of_joins hcomment hjoins).1
    rw [isMergeableComment, Bool.and_eq_true, h.not_comment (Or.inl rfl) hne hg.subset] at hmerge
    cases hmerge.1
  have hwords : ∀ w ∈ g, IsWord w := fun w hw => h.isWord w (hg.subset hw)
  obtain ⟨hopens, hadmits⟩ := Paragraph.prose_of_joins hprose hjoins
  have hitem := isItemLine_of_prose (Paragraph.kindOf_of_joins hprose hjoins)
  rw [margin_spaces_append style.tabWidth h.first_spaces (atGap_joinWords hwords hne)] at hadmits
  obtain ⟨w, g, rfl⟩ := List.exists_cons_of_ne_nil hne
  obtain ⟨more, rfl⟩ := hg
  have hline : words (frame.first ++ joinWords (w :: g)) = w :: g := by
    rw [words_blank_append (blank_of_spaces h.first_spaces), words_joinWords hwords]
  have hall : words (joinWords (w :: g ++ more)) = w :: (g ++ more) := words_joinWords h.isWord
  rw [opensParagraph_eq hline] at hopens
  rw [isItemLine_eq hline] at hitem
  exact ⟨hprose, by rw [isItemLine_eq hall, hitem], by rw [opensParagraph_eq hall, hopens], hadmits⟩

theorem first_line_of_pack (frame : Frame) {ws : List Text} (hws : ∀ w ∈ ws, IsWord w)
    (hne : ws ≠ []) (width : Int) :
    ∃ g, g ≠ [] ∧ g <+: ws ∧
      (layLines frame (pack frame width ws)).head? = some (frame.first ++ joinWords g) := by
  obtain ⟨g, gs, hpack⟩ := List.exists_cons_of_ne_nil (pack_ne_nil frame width hws hne)
  have hflat := pack_flatten frame width hws
  rw [hpack] at hflat
  refine ⟨g, pack_nonempty frame width ws g (by simp [hpack]),
    ⟨gs.flatten, by simpa using hflat⟩, ?_⟩
  rw [hpack, layLines]
  rfl

namespace Section

variable {style : Style} {line : Line} {rest : List Line}

theorem Reads.opening {q : Paragraph} (h : Reads style (line :: rest) (.paragraph q)) :
    ∃ p, Paragraph.ofLine? style line.text = some p ∧ q.kind = p.kind ∧ q.frame = p.frame ∧
      p.words <+: q.words := by
  generalize hb : Block.paragraph q = b at h
  generalize hl : line :: rest = ls at h
  cases h with
  | copied l crossing => cases hb
  | commented l pos hk hbody => simp [commentedBlock, hbody] at hb
  | paragraph first more p q' hp hmore =>
    obtain rfl := Block.paragraph.inj hb
    obtain ⟨rfl, rfl⟩ := List.cons.inj hl
    obtain ⟨hkind, hframe, hwords, -⟩ := hmore.spec
    exact ⟨p, hp, hkind, hframe, ⟨_, hwords.symm⟩⟩

theorem Reads.comment_joins_first {q : Paragraph} (h : Reads style (line :: rest) (.paragraph q))
    (hkind : q.kind = .comment) (hstable : '%' ∈ q.frame.first) {width : Int} {x : Text}
    (hx : x ∈ (layLines q.frame (pack q.frame width q.words)).head?) {p : Paragraph}
    (hjoins : p.joins style x = true) : p.joins style line.text = true := by
  obtain ⟨m, hm, hframe⟩ := h.comment_frame hkind hstable
  obtain ⟨g, hne, hg, hhead⟩ := first_line_of_pack q.frame h.isWord h.words_ne_nil width
  obtain rfl : q.frame.first ++ joinWords g = x := by
    rw [hhead] at hx
    exact Option.some.inj hx
  obtain ⟨p', hp', hkind', hframe', -⟩ := h.opening
  rw [hkind] at hkind'
  have hcomment : isCommentLine (q.frame.first ++ joinWords g) = true := by
    rw [hframe]
    exact (IsFilledComment.of_margin hm hne fun w hw => h.isWord w (hg.subset hw)).isCommentLine
  have hp : p.kind = .comment := by
    by_contra hprose
    have hk := Paragraph.kindOf_of_joins hprose hjoins
    rw [(kindOf_eq_comment_iff _).mpr hcomment] at hk
    cases hk
  have hmargin : commentMargin style.tabWidth (q.frame.first ++ joinWords g) = q.frame.first := by
    have hsplit : m ++ ['%', ' '] ++ joinWords g = m ++ '%' :: ' ' :: joinWords g := by simp
    rw [hframe, Frame.even, hsplit, commentMargin_spaces_append style.tabWidth hm]
  have hadmits := (Paragraph.comment_of_joins hp hjoins).2
  obtain ⟨hmerge, hown⟩ := Paragraph.ofLine?_comment hp' hkind'.symm
  apply Paragraph.joins_of_comment hp hmerge
  rwa [hmargin, hframe', hown] at hadmits

theorem Reads.text_joins_first {q : Paragraph} (h : Reads style (line :: rest) (.paragraph q))
    (hkind : q.kind ≠ .comment) {width : Int} {x : Text}
    (hx : x ∈ (layLines q.frame (pack q.frame width q.words)).head?) {p : Paragraph}
    (hjoins : p.joins style x = true) : p.joins style line.text = true := by
  have htext := h.holdsText hkind
  obtain ⟨g, hne, hg, hhead⟩ := first_line_of_pack q.frame h.isWord h.words_ne_nil width
  obtain rfl : q.frame.first ++ joinWords g = x := by
    rw [hhead] at hx
    exact Option.some.inj hx
  obtain ⟨hprose, hitem, hopens, hadmits⟩ := htext.prose_of_joins hne hg hjoins
  obtain ⟨p', hp', hkind', hframe', ⟨more, hmore⟩⟩ := h.opening
  rw [hkind'] at hkind
  obtain ⟨hline, ⟨hwords, hnonempty⟩, hmargins⟩ := Paragraph.ofLine?_text hp' hkind
  obtain ⟨w, ws, hcons⟩ := List.exists_cons_of_ne_nil hnonempty
  have hall : Text.words (joinWords q.words) = w :: (ws ++ more) := by
    rw [words_joinWords h.isWord, ← hmore, hwords, hcons, List.cons_append]
  rw [isItemLine_eq hall, ← isItemLine_eq hcons] at hitem
  rw [opensParagraph_eq hall, ← opensParagraph_eq hcons] at hopens
  have hk : kindOf line.text = .prose none := by
    refine hline.resolve_left fun hk => ?_
    have hyes := isItemLine_of_kindOf hk
    rw [isItemLine_strip, hitem] at hyes
    cases hyes
  apply Paragraph.joins_of_prose hprose hk hopens
  rwa [hframe', hmargins] at hadmits

/-- What goes on to the first line that a stable block is written as goes on to the first line that
the block was read from, unless it takes up the block. -/
theorem Reads.joins_first {b : Block} (h : Reads style (line :: rest) b)
    (hstable : b.IsStable style) {width : Int} {x : Text} (hx : x ∈ (b.contents width).head?)
    {p : Paragraph} (hup : (Block.paragraph p).takesUp width b = false)
    (hjoins : p.joins style x = true) :
    p.joins style line.text = true ∨
      p.kind ≠ .comment ∧ endsWithBreak (joinWords p.words) = true := by
  cases b with
  | copied l crossing =>
    left
    rcases h.copied_or_filled with ⟨l', crossing', hlines, hblock⟩ | hfilled
    · obtain ⟨rfl, -⟩ := List.cons.inj hlines
      obtain ⟨rfl, -⟩ := Block.copied.inj hblock
      obtain rfl : l.text = x := by simpa [Block.contents] using hx
      exact hjoins
    · cases hfilled
  | paragraph q =>
    left
    rw [Block.contents] at hx
    rw [Block.IsStable] at hstable
    by_cases hkind : q.kind = .comment
    · rw [if_pos hkind] at hstable
      exact h.comment_joins_first hkind hstable hx hjoins
    · exact h.text_joins_first hkind hx hjoins
  | commented c =>
    right
    have htext := h.holdsText_commented
    obtain ⟨groups, g, m, hpack, -, hwritten, hlast⟩ := h.commented_shape width
    rw [hwritten] at hx
    cases groups with
    | nil =>
      obtain rfl : m ++ joinWords g ++ c.tail = x := by simpa [layLines] using hx
      rw [p.joins_of_lone (hlast ⟨_, 0, []⟩ rfl []).1] at hjoins
      cases hjoins
    | cons f groups =>
      obtain rfl : c.frame.first ++ joinWords f = x := by simpa [layLines] using hx
      have hf : f <+: c.words := by
        refine ⟨(groups ++ [g]).flatten, ?_⟩
        rw [← pack_flatten c.frame width htext.isWord, hpack, List.cons_append, List.flatten_cons]
      have hne := pack_nonempty c.frame width c.words f (by simp [hpack])
      obtain ⟨hprose, hitem, hopens, hadmits⟩ := htext.prose_of_joins hne hf hjoins
      refine ⟨hprose, ?_⟩
      simpa [Block.takesUp, Paragraph.continuedByProse, hprose, hadmits, hopens, hitem, hpack]
        using hup

/-- A paragraph of text ends with a forced break exactly if its last line does. -/
theorem Reads.last_break {lines : List Line} {q : Paragraph} (h : Reads style lines (.paragraph q))
    (hkind : q.kind ≠ .comment) {l : Line} (hl : l ∈ lines.getLast?) :
    endsWithBreak (joinWords q.words) = endsWithBreak l.text := by
  obtain ⟨hwords, hne, -⟩ := h.words
  obtain ⟨front, rfl⟩ := List.getLast?_eq_some_iff.mp hl
  have hlast := hne l (by simp)
  rw [Paragraph.words_content hkind] at hlast
  obtain ⟨vs, w, hline⟩ := (List.eq_nil_or_concat' _).resolve_left hlast
  have hall : Text.words (joinWords q.words) =
      front.flatMap (fun m => Text.words (q.content m.text)) ++ vs ++ [w] := by
    rw [words_joinWords h.isWord, hwords, List.flatMap_append, List.flatMap_singleton,
      Paragraph.words_content hkind, hline, List.append_assoc]
  rw [endsWithBreak_eq hline, endsWithBreak_eq hall]

end Section

end HardWrap
