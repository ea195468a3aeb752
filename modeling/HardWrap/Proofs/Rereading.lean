import HardWrap.Proofs.EnvironmentTokens
import HardWrap.Proofs.FilledTexts
import HardWrap.Proofs.Seams
import HardWrap.Proofs.WidthAudit

/-! Filled lines read again. A line of a block is read afresh once it is written, and its kind then
depends on the words that came to stand on it: a command at its start on its first word, a forced
break on its last one. -/

namespace HardWrap

open Text

/-! ### Commands at the start of a line, breaks at its end -/

theorem opensWith_strip {command : String}
    (hcommand : command.toList.all (fun c => !isBlank c) = true) {line w : Text} {ws : List Text}
    (h : words line = w :: ws) : opensWith command (strip line) = opensWith command w := by
  have hgap : atGap (strip line) = false := by
    apply atGap_strip
    intro hnil
    rw [← words_strip, hnil] at h
    cases h
  obtain ⟨v, r, hsplit, hv, hr⟩ := split_first_word hgap
  have hfirst : v = w := by
    rw [← words_strip, hsplit, words_word_append hv hr] at h
    exact (List.cons.inj h).1
  rw [hsplit, opensWith_word hcommand v hr, hfirst]

theorem isItemLine_eq {line w : Text} {ws : List Text} (h : words line = w :: ws) :
    isItemLine line = opensWith "\\item" w :=
  opensWith_strip (by decide) h

theorem opensParagraph_eq {line w : Text} {ws : List Text} (h : words line = w :: ws) :
    opensParagraph line = opensWith "\\par" w :=
  opensWith_strip (by decide) h

/-- Characters that are not blank end a text only if they end its last word. -/
theorem suffix_word {a x w : Text} (ha : a.all (fun c => !isBlank c) = true)
    (hx : endsAtGap x = true) (h : a <:+ x ++ w) : a <:+ w := by
  rcases List.suffix_or_suffix_of_suffix h (List.suffix_append x w) with hw | ⟨b, rfl⟩
  · exact hw
  · rw [List.suffix_append_self_iff] at h
    obtain ⟨y, rfl⟩ := h
    rcases List.eq_nil_or_concat' b with rfl | ⟨b, c, rfl⟩
    · exact List.suffix_rfl
    · rw [← List.append_assoc, endsAtGap_concat] at hx
      simp [hx] at ha

theorem endsWithBreak_eq {line w : Text} {ws : List Text} (h : words line = ws ++ [w]) :
    endsWithBreak line = ['\\', '\\'].isSuffixOf w := by
  have hne : stripRight line ≠ [] := by
    intro hnil
    rw [← words_stripRight, hnil] at h
    simp at h
  obtain ⟨x, v, hsplit, hv, hx⟩ := split_last_word (endsAtGap_stripRight hne)
  have hlast : v = w := by
    rw [← words_stripRight, hsplit, words_append_of_endsAtGap hx, words_of_isWord hv] at h
    exact (List.append_inj' h rfl).2 |> List.cons.inj |>.1
  rw [endsWithBreak, hsplit, hlast, Bool.eq_iff_iff, List.isSuffixOf_iff_suffix,
    List.isSuffixOf_iff_suffix]
  exact ⟨suffix_word (by decide) hx, fun hw => hw.trans (List.suffix_append x w)⟩

/-! ### Borders within filled lines -/

theorem environmentTokens_of_part {t u : Text} (h : t <:+: u) :
    ∀ token ∈ environmentTokens t, token ∈ environmentTokens u := by
  intro token htoken
  rw [EnvironmentToken.environmentTokens_eq, EnvironmentToken.mem_everywhere_iff] at htoken ⊢
  obtain ⟨x, y, rfl⟩ := h
  obtain ⟨before, w, rest, rfl, hw⟩ := htoken
  exact ⟨x ++ before, w, rest ++ y, by simp, hw⟩

theorem joinWords_ne_nil {ws : List Text} (h : ∀ w ∈ ws, IsWord w) (hne : ws ≠ []) :
    joinWords ws ≠ [] := by
  intro hnil
  have hgap := atGap_joinWords h hne
  rw [hnil] at hgap
  cases hgap

theorem joinWords_append {vs ws : List Text} (hvs : vs ≠ []) (hws : ws ≠ []) :
    joinWords (vs ++ ws) = joinWords vs ++ ' ' :: joinWords ws := by
  induction vs with
  | nil => exact absurd rfl hvs
  | cons v vs ih =>
    cases vs with
    | nil =>
      obtain ⟨w, ws, rfl⟩ := List.exists_cons_of_ne_nil hws
      rw [List.singleton_append, joinWords_cons_cons, joinWords_singleton]
    | cons u vs =>
      rw [List.cons_append, List.cons_append, joinWords_cons_cons, ← List.cons_append,
        ih (by simp), joinWords_cons_cons]
      simp

theorem joinWords_suffix {vs ws : List Text} (h : vs <:+ ws) : joinWords vs <:+ joinWords ws := by
  obtain ⟨us, rfl⟩ := h
  by_cases hus : us = []
  · rw [hus]
    exact List.suffix_rfl
  · by_cases hvs : vs = []
    · rw [hvs]
      exact List.nil_suffix
    · rw [joinWords_append hus hvs]
      exact ⟨joinWords us ++ [' '], by simp⟩

theorem joinWords_part {vs ws : List Text} (h : vs <:+: ws) : joinWords vs <:+: joinWords ws := by
  obtain ⟨us, xs, rfl⟩ := h
  have hfront : joinWords (us ++ vs) <+: joinWords (us ++ vs ++ xs) := by
    by_cases hxs : xs = []
    · exact ⟨[], by simp [hxs]⟩
    · by_cases hnil : us ++ vs = []
      · rw [hnil]
        exact List.nil_prefix
      · rw [joinWords_append hnil hxs]
        exact List.prefix_append _ _
  exact (joinWords_suffix (List.suffix_append us vs)).isInfix.trans hfront.isInfix

theorem strip_part (t : Text) : strip t <:+: t := by
  obtain ⟨left, -, hleft⟩ := stripLeft_split t
  obtain ⟨right, -, hright⟩ := stripRight_split (stripLeft t)
  refine ⟨left, right, ?_⟩
  conv_rhs => rw [hleft, hright]
  exact List.append_assoc _ _ _

/-- Only a token of the line opens an environment. -/
theorem nextOpen_eq_none {style : Style} {line : Text}
    (h : ∀ token ∈ environmentTokens (strip line), token.border = .opening →
      style.tracked.contains token.name = true) : nextOpen style none line = none := by
  simp only [nextOpen]
  split
  next name hk =>
    have hborder : borderToken? (strip line) = some ⟨.opening, name⟩ := by
      simp only [kindOf] at hk
      split at hk
      · cases hk
      · split at hk
        · cases hk
        · split at hk
          next hborder =>
            rw [LineKind.begins.inj hk] at hborder
            exact hborder
          next => cases hk
          next =>
            rw [contentKind] at hk
            split at hk
            · cases hk
            · split at hk <;> cases hk
    rw [borderToken?, Option.ite_none_right_eq_some] at hborder
    have htoken := environmentTokens_of_part (strip_part (strip line)) _
      (List.mem_of_head? hborder.2)
    rw [if_pos (h _ htoken rfl)]
  next => rfl

/-! ### Text at its margins -/

/-- Words of prose or of an item, with the margins that they are filled at. Only the text of an item
hangs. -/
structure HoldsText (frame : Frame) (ws : List Text) : Prop where
  first_spaces : ∀ c ∈ frame.first, c = ' '
  later_spaces : ∀ c ∈ frame.later, c = ' '
  isWord : ∀ w ∈ ws, IsWord w
  signs : ∀ w ∈ ws, SignsEscaped w
  hangs : ∀ w ∈ ws.head?,
    if opensWith "\\item" w then frame.first.length < frame.later.length
    else frame.later = frame.first

/-- The first line of a filled text is read with the margins of the text, or at least with the first
of them and as a paragraph that no later line continues. -/
structure OpensAt (style : Style) (frame : Frame) (line : Text) : Prop where
  uncommented : (kindOf line).commentAt = none
  first_eq : ∀ p, Paragraph.ofLine? style line = some p → p.frame.first = frame.first
  frame_eq : ∀ p, Paragraph.ofLine? style line = some p → p.frame = frame ∨
    ∀ g, (∀ w ∈ g, IsWord w) → g ≠ [] → p.joins style (frame.later ++ joinWords g) = false
  recovers : ∀ p, Paragraph.ofLine? style line = some p →
    p.Recovers p.frame.first ∧ p.Recovers p.frame.later

theorem ReadsAt.opensAt {style : Style} {m line : Text} (h : ReadsAt style m line) :
    OpensAt style (.even m) line where
  uncommented := h.uncommented
  first_eq := fun p hp => by rw [h.frame_eq p hp]
  frame_eq := fun p hp => Or.inl (h.frame_eq p hp)
  recovers := fun p hp => by
    rw [h.frame_eq p hp]
    exact ⟨h.recovers p hp, h.recovers p hp⟩

theorem isItemLine_joinWords {m : Text} (hm : ∀ c ∈ m, c = ' ') {w : Text} {ws : List Text}
    (hws : ∀ v ∈ w :: ws, IsWord v) :
    isItemLine (strip (m ++ joinWords (w :: ws))) = opensWith "\\item" w := by
  apply isItemLine_eq
  rw [words_strip, words_blank_append (blank_of_spaces hm), words_joinWords hws]

/-- A line that begins with an item command is an item or the border of an environment. -/
theorem kindOf_item {line : Text} (hne : strip line ≠ [])
    (hcomment : (strip line).head? ≠ some '%') (hitem : isItemLine (strip line) = true) :
    kindOf line = .item (commentAt? (strip line)) ∨ (∃ name, kindOf line = .begins name) ∨
      ∃ name, kindOf line = .ends name := by
  have hstart : startsWith "%" (strip line) = false := by
    rwa [Bool.eq_false_iff, ne_eq, startsWith_percent]
  simp only [kindOf, List.isEmpty_iff, hne, hstart, Bool.false_eq_true, ↓reduceIte]
  split
  · exact Or.inr (Or.inl ⟨_, rfl⟩)
  · exact Or.inr (Or.inr ⟨_, rfl⟩)
  · exact Or.inl (by rw [contentKind, if_pos hitem])

/-- A paragraph of text does not go on to words at a margin that is neither of its own. -/
theorem Paragraph.joins_apart {p : Paragraph} (hp : p.kind ≠ .comment) (style : Style) {m : Text}
    (hm : ∀ c ∈ m, c = ' ') (hfirst : m ≠ p.frame.first) (hlater : m ≠ p.frame.later)
    {g : List Text} (hg : ∀ w ∈ g, IsWord w) (hne : g ≠ []) :
    p.joins style (m ++ joinWords g) = false := by
  by_contra hjoins
  have hadmits := (prose_of_joins hp (Bool.not_eq_false _ ▸ hjoins)).2
  rw [margin_spaces_append style.tabWidth hm (atGap_joinWords hg hne), admits, Bool.or_eq_true,
    beq_iff_eq, beq_iff_eq] at hadmits
  exact hadmits.elim hfirst hlater

/-- The first line of an item opens an item again, if it opens a paragraph. -/
theorem opensAt_item (style : Style) {frame : Frame} {w : Text} {ws : List Text}
    (h : HoldsText frame (w :: ws)) (hitem : opensWith "\\item" w = true) :
    OpensAt style frame (frame.first ++ joinWords (w :: ws)) := by
  have hcons := List.cons_ne_nil w ws
  have hstrip := strip_blank_joinWords (blank_of_spaces h.first_spaces) h.isWord hcons
  have hsigns := signsEscaped_joinWords h.signs
  have hkind := kindOf_item (by rw [hstrip]; exact joinWords_ne_nil h.isWord hcons)
    (by rw [hstrip]; exact hsigns.head?)
    (by rw [isItemLine_joinWords h.first_spaces h.isWord, hitem])
  rw [hstrip, hsigns.commentAt?] at hkind
  have hparagraph : ∀ p, Paragraph.ofLine? style (frame.first ++ joinWords (w :: ws)) = some p →
      p = itemParagraph style (frame.first ++ joinWords (w :: ws)) := by
    intro p hp
    rcases hkind with hkind | ⟨name, hkind⟩ | ⟨name, hkind⟩
    · rw [Paragraph.ofLine?, hkind] at hp
      exact (Option.some.inj hp).symm
    · rw [Paragraph.ofLine?, hkind] at hp
      cases hp
    · rw [Paragraph.ofLine?, hkind] at hp
      cases hp
  have hfirst : ∀ p, Paragraph.ofLine? style (frame.first ++ joinWords (w :: ws)) = some p →
      p.frame.first = frame.first := by
    intro p hp
    rw [hparagraph p hp]
    exact margin_spaces_append style.tabWidth h.first_spaces (atGap_joinWords h.isWord hcons)
  have hlonger : frame.first.length < frame.later.length := by
    have := h.hangs w (by simp)
    rwa [if_pos hitem] at this
  refine ⟨?_, hfirst, ?_, ?_⟩
  · rcases hkind with hkind | ⟨name, hkind⟩ | ⟨name, hkind⟩ <;> rw [hkind] <;> rfl
  · intro p hp
    by_cases hlater : p.frame.later = frame.later
    · exact Or.inl (congrArg₂ Frame.mk (hfirst p hp) hlater)
    · -- The text hangs elsewhere, so its margin is neither of those of the new paragraph.
      right
      intro g
      apply Paragraph.joins_apart ?_ style h.later_spaces ?_ (Ne.symm hlater)
      · rw [hparagraph p hp]
        simp [itemParagraph]
      · rw [hfirst p hp]
        intro hsame
        rw [hsame] at hlonger
        exact lt_irrefl _ hlonger
  · intro p hp
    rw [hparagraph p hp]
    exact ⟨Paragraph.recovers_of_blank (by simp [itemParagraph])
        (blank_of_spaces (margin_spaces style.tabWidth _)),
      Paragraph.recovers_of_blank (by simp [itemParagraph])
        (blank_of_spaces (hangingMargin_spaces style.tabWidth _))⟩

namespace HoldsText

variable {frame : Frame} {ws : List Text}

theorem spaces (h : HoldsText frame ws) {m : Text} (hm : m = frame.first ∨ m = frame.later) :
    ∀ c ∈ m, c = ' ' := by
  rcases hm with rfl | rfl
  · exact h.first_spaces
  · exact h.later_spaces

theorem start (h : HoldsText frame ws) {g : List Text} (hg : g <+: ws) (hne : g ≠ []) :
    HoldsText frame g where
  first_spaces := h.first_spaces
  later_spaces := h.later_spaces
  isWord := fun w hw => h.isWord w (hg.subset hw)
  signs := fun w hw => h.signs w (hg.subset hw)
  hangs := by
    obtain ⟨more, rfl⟩ := hg
    have hhangs := h.hangs
    rwa [List.head?_append_of_ne_nil _ hne] at hhangs

/-- However much of a text stands on its first line, the line opens the text again. -/
theorem opensAt (h : HoldsText frame ws) (style : Style)
    (hitems : ∀ w ∈ ws.tail, opensWith "\\item" w = false) {g : List Text} (hg : g <+: ws)
    (hne : g ≠ []) : OpensAt style frame (frame.first ++ joinWords g) := by
  have hstart := h.start hg hne
  obtain ⟨w, g, rfl⟩ := List.exists_cons_of_ne_nil hne
  cases hitem : opensWith "\\item" w with
  | true => exact opensAt_item style hstart hitem
  | false =>
    have heven : frame = .even frame.first := by
      have hlater := hstart.hangs w (by simp)
      rw [if_neg (by simp [hitem])] at hlater
      exact congrArg₂ Frame.mk rfl hlater
    have hplain : ∀ v ∈ w :: g, opensWith "\\item" v = false := by
      intro v hv
      rcases List.mem_cons.mp hv with rfl | hv
      · exact hitem
      · obtain ⟨more, rfl⟩ := hg
        exact hitems v (by simp [hv])
    have hreads := readsAt_prose style h.first_spaces hstart.isWord (by simp) hstart.signs hplain
    rw [heven]
    exact hreads.opensAt

theorem readsAt_later (h : HoldsText frame ws) (style : Style) {g : List Text} (hne : g ≠ [])
    (hg : g ⊆ ws) (hitems : ∀ w ∈ g, opensWith "\\item" w = false) :
    ReadsAt style frame.later (frame.later ++ joinWords g) :=
  readsAt_prose style h.later_spaces (fun w hw => h.isWord w (hg hw)) hne
    (fun w hw => h.signs w (hg hw)) hitems

end HoldsText

/-! ### Laid out lines are settled -/

theorem loneBlock_of_uncommented (style : Style) {line : Line}
    (h : (kindOf line.text).commentAt = none) :
    ∃ crossing, loneBlock style line = .copied line crossing := by
  cases hk : kindOf line.text with
  | blank => exact ⟨.none, by rw [loneBlock, hk]⟩
  | comment => exact ⟨.none, by rw [loneBlock, hk]⟩
  | command => exact ⟨.none, by rw [loneBlock, hk]⟩
  | begins name => exact ⟨_, by rw [loneBlock, hk]⟩
  | ends name => exact ⟨_, by rw [loneBlock, hk]⟩
  | item at? =>
    rw [hk] at h
    obtain rfl : at? = none := h
    exact ⟨.none, by rw [loneBlock, hk]⟩
  | prose at? =>
    rw [hk] at h
    obtain rfl : at? = none := h
    exact ⟨.none, by rw [loneBlock, hk]⟩

section Laid

variable {style : Style} {frame : Frame} {e : Text} {width : Int} {g : List Text}
  {gs : List (List Text)} {y : Line} {ys : List Line}
  (hends : ∀ l ∈ y :: ys, l.ending = e ∨ l.ending = [])
  (htexts : (y :: ys).map Line.text = layLines frame (g :: gs))
  (hwords : ∀ f ∈ g :: gs, ∀ w ∈ f, IsWord w)
  (hgreedy : IsGreedy frame.later.length width frame.first.length (g :: gs))
  (hfirst : OpensAt style frame (frame.first ++ joinWords g))
include hends htexts hwords hgreedy hfirst

/-- The paragraph that the first line opens takes lines along only if it has their margin. -/
theorem first_settled_of_laid {p : Paragraph} (hp : Paragraph.ofLine? style y.text = some p) :
    (Section.mk (y :: ys.take (p.gather style y ys).2)
      (.paragraph (p.gather style y ys).1)).IsSettled width e := by
  rw [List.map_cons, layLines] at htexts
  obtain ⟨hy, htexts⟩ := List.cons.inj htexts
  rw [← hy] at hfirst
  have habsorbs := p.gather_absorbs style y ys
  obtain ⟨hkind, hframe, -, -⟩ := habsorbs.spec
  obtain ⟨hrfirst, hrlater⟩ := hfirst.recovers p hp
  have hends : ∀ l ∈ y :: ys.take (p.gather style y ys).2, l.ending = e ∨ l.ending = [] :=
    fun l hl => hends l (List.cons_subset_cons y (List.take_subset _ _) hl)
  rcases hfirst.frame_eq p hp with hsame | hapart
  · have hlaid : (y :: ys.take (p.gather style y ys).2).map Line.text =
        layLines (p.gather style y ys).1.frame (g :: gs.take (p.gather style y ys).2) := by
      rw [hframe, hsame, layLines, List.map_cons, hy, List.map_take, htexts, List.map_take]
    have hall : IsGreedy frame.later.length width frame.first.length
        ((g :: gs.take (p.gather style y ys).2) ++ gs.drop (p.gather style y ys).2) := by
      rwa [List.cons_append, List.take_append_drop]
    refine Section.settled_of_laid hends hlaid (hframe ▸ hrfirst.congr hkind)
      (hframe ▸ hrlater.congr hkind) ?_ ?_
    · exact fun f hf => hwords f (List.cons_subset_cons g (List.take_subset _ _) hf)
    · rw [hframe, hsame]
      exact hall.of_append
  · have hnone : ys.take (p.gather style y ys).2 = [] := by
      by_contra hne
      obtain ⟨z, zs, hcons⟩ := List.exists_cons_of_ne_nil hne
      have hz : z.text ∈ ys.map Line.text :=
        List.mem_map_of_mem (List.mem_of_mem_take (by rw [hcons]; simp))
      rw [htexts] at hz
      obtain ⟨f, hf, hline⟩ := List.mem_map.mp hz
      have hjoins := habsorbs.joins z.text (List.mem_map_of_mem (by rw [hcons]; simp))
      rw [← hline, hapart f (hwords f (List.mem_cons_of_mem _ hf))
        (hgreedy.nonempty f (List.mem_cons_of_mem _ hf))] at hjoins
      cases hjoins
    have hlaid : [y].map Line.text = layLines (p.gather style y ys).1.frame [g] := by
      rw [hframe, layLines, hfirst.first_eq p hp, List.map_singleton, hy]
      rfl
    rw [hnone] at hends ⊢
    refine Section.settled_of_laid hends hlaid (hframe ▸ hrfirst.congr hkind)
      (hframe ▸ hrlater.congr hkind) ?_ ?_
    · exact fun f hf => hwords f (by simp [List.mem_singleton.mp hf])
    · rw [hframe, hfirst.first_eq p hp]
      exact ⟨hgreedy.1, hgreedy.2.1, by simp, trivial⟩

/-- Lines laid out at two margins are settled, however they are read: the first line opens them, and
those after it are read at the later margin. -/
theorem sections_settled_of_laid
    (hlater : ∀ f ∈ gs, ReadsAt style frame.later (frame.later ++ joinWords f))
    (hopen : nextOpen style none y.text = none) :
    ∀ s ∈ sectionsFrom style none (y :: ys), s.IsSettled width e := by
  have htexts' := htexts
  rw [List.map_cons, layLines] at htexts'
  obtain ⟨hy, htail⟩ := List.cons.inj htexts'
  -- What comes after the first section is filled at one margin.
  have hrest : ∀ n, ∀ s ∈ sectionsFrom style none (ys.drop n), s.IsSettled width e := by
    intro n
    have hdrop : (ys.drop n).map Line.text =
        (gs.drop n).map fun f => frame.later ++ joinWords f := by
      rw [List.map_drop, htail, List.map_drop]
    refine sections_settled_of_filled ?_ hdrop ?_ ?_ ?_
    · exact fun l hl => hends l (List.mem_cons_of_mem _ (List.mem_of_mem_drop hl))
    · exact fun f hf => hwords f (List.mem_cons_of_mem _ (List.mem_of_mem_drop hf))
    · exact hgreedy.2.2.2.part (List.drop_suffix n gs).isInfix
    · intro l hl
      have hmem : l.text ∈ gs.map _ := htail ▸ List.mem_map_of_mem (List.mem_of_mem_drop hl)
      obtain ⟨f, hf, hline⟩ := List.mem_map.mp hmem
      rw [← hline]
      exact hlater f hf
  intro s hs
  rw [sectionsFrom] at hs
  cases hp : Paragraph.ofLine? style y.text with
  | none =>
    simp only [hp, hopen] at hs
    rcases List.mem_cons.mp hs with rfl | hs
    · obtain ⟨crossing, hcopied⟩ := loneBlock_of_uncommented style (hy ▸ hfirst.uncommented)
      rw [hcopied]
      trivial
    · exact hrest 0 s hs
  | some p =>
    simp only [hp] at hs
    rcases List.mem_cons.mp hs with rfl | hs
    · exact first_settled_of_laid hends htexts hwords hgreedy hfirst hp
    · exact hrest _ s hs

end Laid

/-! ### Lines with a comment -/

theorem Text.SignsEscaped.append_blank {a b : Text} (ha : SignsEscaped a) (hb : IsBlankText b) :
    SignsEscaped (a ++ b) := by
  intro x r h
  rcases List.append_eq_append_iff.mp h with ⟨y, rfl, hy⟩ | ⟨y, rfl, hy⟩
  · have hpercent := hb '%' (by rw [hy]; simp)
    simp at hpercent
  · cases y with
    | nil =>
      have hpercent := hb '%' (by rw [← List.nil_append b, ← hy]; simp)
      simp at hpercent
    | cons c y =>
      obtain ⟨rfl, -⟩ := List.cons.inj hy
      exact ha x y rfl

/-- After text whose signs are escaped the comment starts right where its sign stands. -/
theorem commentAt?_of_signsEscaped {a : Text} (h : SignsEscaped a) (hne : a ≠ [])
    (hlast : a.getLast? ≠ some '\\') (r : Text) : commentAt? (a ++ '%' :: r) = some a.length := by
  obtain ⟨pos, hle, hpos⟩ := commentAt?_sign hne hlast r
  obtain ⟨rest, hsplit, -, hslash, -⟩ := commentAt?_some hpos
  rw [List.take_append_of_le_length hle] at hsplit hslash
  rcases Nat.lt_or_eq_of_le hle with hlt | rfl
  · -- An earlier sign would be one within the text, with no backslash before it.
    exfalso
    obtain ⟨c, d, hdrop⟩ := List.exists_cons_of_ne_nil
      (mt List.drop_eq_nil_iff.mp (Nat.not_le.mpr hlt))
    have hboth : a.take pos ++ (c :: d ++ '%' :: r) = a.take pos ++ '%' :: rest := by
      rw [← hdrop, ← List.append_assoc, List.take_append_drop]
      exact hsplit
    obtain ⟨rfl, -⟩ := List.cons.inj (List.append_cancel_left hboth)
    exact hslash (h _ d (by rw [← hdrop, List.take_append_drop]))
  · exact hpos

theorem ofLine?_of_isMarkup (style : Style) {line : Text} (h : (kindOf line).isMarkup = true) :
    Paragraph.ofLine? style line = none := by
  cases hk : kindOf line with
  | blank | comment | item at? | prose at? =>
    rw [hk] at h
    cases h
  | begins name | ends name | command => rw [Paragraph.ofLine?, hk]

theorem lone_of_commentAt (style : Style) {line : Line} {pos : Nat}
    (h : (kindOf line.text).commentAt = some pos) :
    Paragraph.ofLine? style line.text = none ∧
      loneBlock style line = commentedBlock style line pos := by
  cases hk : kindOf line.text with
  | item at? | prose at? =>
    rw [hk] at h
    obtain rfl : at? = some pos := h
    exact ⟨by rw [Paragraph.ofLine?, hk], by rw [loneBlock, hk]⟩
  | blank | comment | command | begins name | ends name =>
    rw [hk] at h
    cases h

section LastLine

variable {m : Text} (hm : ∀ c ∈ m, c = ' ') {g : List Text} (hwords : ∀ w ∈ g, IsWord w)
  (hne : g ≠ []) {tail : Text} (hcomment : IsCommentOf (m ++ joinWords g) tail)

include hm hwords hne hcomment

theorem strip_commented_line : strip (m ++ joinWords g ++ tail) = joinWords g ++ tail := by
  have hgap : atGap (joinWords g ++ tail) = false := by
    rw [atGap_append (joinWords_ne_nil hwords hne)]
    exact atGap_joinWords hwords hne
  rw [strip, List.append_assoc, stripLeft_blank_append (blank_of_spaces hm) hgap,
    stripRight_of_ends (hcomment.ends_append _)]

/-- The last line of a commented block reads as markup or is again such a line, with the same
text. -/
theorem commented_line_again (hsigns : ∀ w ∈ g, SignsEscaped w) :
    (kindOf (m ++ joinWords g ++ tail)).isMarkup = true ∨
      ∃ pos, (kindOf (m ++ joinWords g ++ tail)).commentAt = some pos ∧
        commentedBody (m ++ joinWords g ++ tail) pos = joinWords g := by
  have hjoined := joinWords_ne_nil hwords hne
  have hstrip := strip_commented_line hm hwords hne hcomment
  have hstart : isCommentLine (m ++ joinWords g ++ tail) = false := by
    rw [Bool.eq_false_iff, isCommentLine, hstrip, ne_eq, startsWith_percent,
      List.head?_append_of_ne_nil _ hjoined]
    exact (signsEscaped_joinWords hsigns).head?
  have hsome : strip (m ++ joinWords g ++ tail) ≠ [] := by
    rw [hstrip]
    exact List.append_ne_nil_of_left_ne_nil hjoined tail
  rcases kindOf_markup_or_commentAt hsome hstart with hmarkup | hfound
  · exact Or.inl hmarkup
  · right
    obtain ⟨gap, r, hblank, rfl, hslash⟩ := hcomment.sign
    have hpos : commentAt? (joinWords g ++ gap ++ '%' :: r) = some (joinWords g ++ gap).length := by
      apply commentAt?_of_signsEscaped ((signsEscaped_joinWords hsigns).append_blank hblank)
      · simp [hjoined]
      · rcases List.eq_nil_or_concat' gap with rfl | ⟨gap, c, rfl⟩
        · have hno := hslash rfl
          rwa [List.getLast?_append_of_ne_nil _ hjoined, ← List.append_nil (joinWords g)] at hno
        · rw [← List.append_assoc, List.getLast?_concat]
          intro hc
          have hc' := hblank c (by simp)
          rw [Option.some.inj hc] at hc'
          exact absurd hc' (by decide)
    rw [List.append_assoc] at hpos
    rw [hstrip, hpos] at hfound
    refine ⟨_, hfound, ?_⟩
    rw [commentedBody, hstrip, ← List.append_assoc, List.take_left,
      stripRight_append_blank _ hblank, stripRight_of_ends (joinWords_ends hwords hne)]

/-- Such a line is a section of its own, and it stays if its text fits. -/
theorem commented_line_settled (style : Style) {y : Line} (hsigns : ∀ w ∈ g, SignsEscaped w)
    (hy : y.text = m ++ joinWords g ++ tail) {width : Int}
    (hfits : g.length = 1 ∨ (m.length + (joinWords g).length : Int) ≤ width) (e : Text) :
    Paragraph.ofLine? style y.text = none ∧
      (Section.mk [y] (loneBlock style y)).IsSettled width e := by
  have hstrip := strip_commented_line hm hwords hne hcomment
  rcases commented_line_again hm hwords hne hcomment hsigns with hmarkup | ⟨pos, hat, hbody⟩
  · rw [← hy] at hmarkup
    obtain ⟨crossing, hcopied⟩ := loneBlock_of_uncommented style
      (LineKind.commentAt_of_isMarkup hmarkup)
    rw [hcopied]
    exact ⟨ofLine?_of_isMarkup style hmarkup, trivial⟩
  · rw [← hy] at hat hbody hstrip
    obtain ⟨hopens, hlone⟩ := lone_of_commentAt style hat
    refine ⟨hopens, ?_⟩
    rw [hlone]
    cases hcommand : isCommandLine (commentedBody y.text pos) with
    | true =>
      rw [commentedBody] at hcommand
      simp only [commentedBlock, hcommand, ↓reduceIte]
      trivial
    | false =>
      have hmargin : margin style.tabWidth y.text = m := by
        rw [hy, List.append_assoc]
        apply margin_spaces_append style.tabWidth hm
        rw [atGap_append (joinWords_ne_nil hwords hne)]
        exact atGap_joinWords hwords hne
      rw [commentedBlock_eq hcommand]
      simp only [Section.IsSettled, commentedLine, hbody, words_joinWords hwords, hmargin, hstrip,
        List.drop_left]
      exact ⟨fun l hl => by rw [List.mem_singleton.mp hl, hy], hne, hfits, by simp, trivial⟩

end LastLine

/-! ### The text of a block -/

/-- A line hangs exactly if it is an item. -/
theorem hangingMargin_cases (tabWidth : Int) (line : Text) :
    if opensWith "\\item" (strip line) then
      (margin tabWidth line).length < (hangingMargin tabWidth line).length
    else hangingMargin tabWidth line = margin tabWidth line := by
  cases hitem : opensWith "\\item" (strip line) with
  | false => simp [hangingMargin, itemMarker, hitem]
  | true =>
    have hstart : "\\item".toList <+: strip line := by
      rw [opensWith, Bool.and_eq_true, startsWith, List.isPrefixOf_iff_prefix] at hitem
      exact hitem.1
    obtain ⟨r, hr⟩ := hstart
    have hmarker : itemMarker line ≠ [] := by
      rw [itemMarker, hitem, ← hr]
      simp
    rw [if_pos rfl, hangingMargin]
    split
    next hnil => exact absurd hnil hmarker
    next => simp

theorem isItemLine_strip (line : Text) : isItemLine (strip line) = isItemLine line := by
  cases hwords : words line with
  | nil =>
    have hnil := strip_eq_nil_of_blank (words_eq_nil_iff.mp hwords)
    rw [isItemLine, isItemLine, hnil]
    rfl
  | cons w ws =>
    have hstripped : words (strip line) = w :: ws := by rw [words_strip, hwords]
    rw [isItemLine_eq hstripped, isItemLine_eq hwords]

theorem isItemLine_of_prose {line : Text} {at? : Option Nat} (h : kindOf line = .prose at?) :
    isItemLine line = false := by
  rw [← isItemLine_strip]
  simp only [kindOf] at h
  split at h
  · cases h
  · split at h
    · cases h
    · split at h
      · cases h
      · cases h
      · rw [contentKind] at h
        split at h
        · cases h
        next hitem => simpa using hitem

namespace Paragraph

/-- The margins of a paragraph of text are those of the line that opens it. -/
theorem ofLine?_text {style : Style} {line : Text} {p : Paragraph}
    (h : ofLine? style line = some p) (hkind : p.kind ≠ .comment) :
    (kindOf line = .item none ∨ kindOf line = .prose none) ∧
      (p.words = Text.words line ∧ Text.words line ≠ []) ∧
      p.frame = ⟨margin style.tabWidth line, hangingMargin style.tabWidth line⟩ := by
  have hwords := ofLine?_words h
  rw [words_content hkind] at hwords
  unfold ofLine? at h
  split at h
  next hk =>
    obtain rfl := Option.some.inj h
    have hhangs := hangingMargin_cases style.tabWidth line
    rw [← isItemLine, isItemLine_of_prose hk, if_neg Bool.false_ne_true] at hhangs
    exact ⟨Or.inr hk, hwords, congrArg (Frame.mk _) hhangs.symm⟩
  next hk =>
    obtain rfl := Option.some.inj h
    exact ⟨Or.inl hk, hwords, rfl⟩
  next =>
    split at h
    · obtain rfl := Option.some.inj h
      exact absurd rfl hkind
    · cases h
  next => cases h

end Paragraph

/-- The text before a comment opens with an item command if its first word is one. -/
theorem opensWith_commentedBody {line : Text} {pos : Nat}
    (hat : commentAt? (strip line) = some pos) {w : Text} {ws : List Text}
    (hwords : words (commentedBody line pos) = w :: ws) :
    opensWith "\\item" (strip line) = opensWith "\\item" w := by
  obtain ⟨gap, r, hgap, htail, -⟩ := commentedBody_gap hat
  have hsplit := commentedBody_split line pos
  rw [htail] at hsplit
  have hne : commentedBody line pos ≠ [] := by
    intro hnil
    rw [hnil] at hwords
    cases hwords
  have hstart : atGap (commentedBody line pos) = false := by
    rw [← atGap_append hne, hsplit]
    apply atGap_strip
    rw [← hsplit]
    simp
  obtain ⟨v, x, hbody, hv, hx⟩ := split_first_word hstart
  obtain rfl : v = w := by
    rw [hbody, words_word_append hv hx] at hwords
    exact (List.cons.inj hwords).1
  rw [← hsplit, hbody, List.append_assoc]
  apply opensWith_append
  -- The first word goes on to a blank or to the sign of the comment.
  intro c hc
  have hnext : isBlank c = true ∨ c = '%' := by
    cases x with
    | cons d x => exact Or.inl (by rw [← Option.some.inj hc]; exact hx)
    | nil =>
      cases gap with
      | nil => exact Or.inr (Option.some.inj hc).symm
      | cons d gap => exact Or.inl (by rw [← Option.some.inj hc]; exact hgap d (by simp))
  rcases hnext with hblank | rfl
  · refine ⟨?_, isAsciiLetter_of_isBlank hblank⟩
    intro hmem
    have hitem : "\\item".toList.all (fun d => !isBlank d) = true := by decide
    have hno := List.all_eq_true.mp hitem c hmem
    simp [hblank] at hno
  · exact ⟨by decide, by decide⟩

/-- Text with the margins of a line that has the text's first word. -/
theorem HoldsText.of_line {style : Style} {line : Text} {ws : List Text}
    (hwords : ∀ w ∈ ws, IsWord w) (hsigns : ∀ w ∈ ws, SignsEscaped w)
    (hfirst : ∀ w ∈ ws.head?, opensWith "\\item" (strip line) = opensWith "\\item" w) :
    HoldsText ⟨margin style.tabWidth line, hangingMargin style.tabWidth line⟩ ws where
  first_spaces := margin_spaces style.tabWidth line
  later_spaces := hangingMargin_spaces style.tabWidth line
  isWord := hwords
  signs := hsigns
  hangs := fun w hw => by
    rw [← hfirst w hw]
    exact hangingMargin_cases style.tabWidth line

namespace Section

variable {style : Style} {lines : List Line}

theorem Reads.holdsText {q : Paragraph} (h : Reads style lines (.paragraph q))
    (hkind : q.kind ≠ .comment) : HoldsText q.frame q.words := by
  have hwords := h.words.1
  generalize hb : Block.paragraph q = b at h
  cases h with
  | copied line crossing => cases hb
  | commented line pos hk hbody => simp [commentedBlock, hbody] at hb
  | paragraph line rest p q' hp hrest =>
    obtain rfl := Block.paragraph.inj hb
    have hreads : Reads style (line :: rest) (.paragraph q) := .paragraph line rest p q hp hrest
    obtain ⟨hpkind, hframe, happend, -⟩ := hrest.spec
    rw [hpkind] at hkind
    obtain ⟨hline, ⟨hown, hnonempty⟩, hmargins⟩ := Paragraph.ofLine?_text hp hkind
    rw [hframe, hmargins]
    refine .of_line hreads.isWord ?_ ?_
    · intro w hw
      rw [hwords] at hw
      obtain ⟨l, hl, hmem⟩ := List.mem_flatMap.mp hw
      rw [Paragraph.words_content (by rwa [hpkind])] at hmem
      rcases List.mem_cons.mp hl with rfl | hl
      · exact words_signsEscaped hline w hmem
      · have hjoins := hrest.joins l.text (List.mem_map_of_mem hl)
        exact words_signsEscaped (Or.inr (Paragraph.kindOf_of_joins hkind hjoins)) w hmem
    · intro w hw
      obtain ⟨v, vs, hcons⟩ := List.exists_cons_of_ne_nil hnonempty
      rw [happend, hown, hcons] at hw
      obtain rfl : v = w := by simpa using hw
      exact opensWith_strip (by decide) hcons

theorem Reads.holdsText_commented {c : CommentedLine} (h : Reads style lines (.commented c)) :
    HoldsText c.frame c.words := by
  generalize hb : Block.commented c = b at h
  cases h with
  | copied line crossing => cases hb
  | paragraph line rest p q hp hrest => cases hb
  | commented line pos hk hbody =>
    rw [commentedBlock_eq hbody] at hb
    obtain rfl := Block.commented.inj hb
    have hat := kindOf_commentAt hk
    refine .of_line (words_isWord _) ?_ ?_
    · obtain ⟨-, -, hnone, -, hhead⟩ := commentAt?_some hat
      have hplain : ((strip line.text).take pos).head? ≠ some '%' := by
        rw [hhead, ne_eq, ← startsWith_percent]
        intro hcomment
        rw [(kindOf_eq_comment_iff line.text).mpr hcomment] at hk
        rcases hk with hk | hk <;> cases hk
      have hsigns := (signsEscaped_of_commentAt? hnone hplain).words
      rwa [← words_stripRight] at hsigns
    · intro w hw
      obtain ⟨ws, hcons⟩ := List.head?_eq_some_iff.mp hw
      exact opensWith_commentedBody hat hcons

end Section

end HardWrap
