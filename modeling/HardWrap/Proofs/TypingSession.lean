import HardWrap.Proofs.Anchors
import HardWrap.Proofs.LineTable
import HardWrap.Proofs.Rewrap

/-! Typing sessions. After every typed character the text before the caret has the words that it
would have without any refilling, and so has the text after it. One thing can get lost: a blank
typed in front of other blanks moves the caret to the next word when the paragraph is filled again,
and the gap that stood after the caret is then before it. What is typed next runs into that word. -/

namespace HardWrap

open Text

/-- Texts with the same words, which end alike: nothing that follows can tell them apart. -/
structure SameBefore (a b : Text) : Prop where
  words_eq : bareWords a = bareWords b
  gap_eq : endsAtGap (unmarked a) = endsAtGap (unmarked b)

theorem SameBefore.bareWords_append {a b : Text} (h : SameBefore a b) (t : Text) :
    bareWords (a ++ t) = bareWords (b ++ t) := by
  have hw := h.words_eq
  simp only [bareWords_eq, unmarked_append] at hw ⊢
  exact words_append_congr_left hw h.gap_eq (unmarked t)

theorem SameBefore.append {a b : Text} (h : SameBefore a b) (t : Text) :
    SameBefore (a ++ t) (b ++ t) := by
  refine ⟨h.bareWords_append t, ?_⟩
  rw [unmarked_append, unmarked_append]
  by_cases ht : unmarked t = []
  · rw [ht, List.append_nil, List.append_nil, h.gap_eq]
  · rw [endsAtGap_append ht, endsAtGap_append ht]

/-- Whether the text after the caret loses its gap when a character is typed and the paragraph is
filled again: the character is a blank, more blanks follow, and then a word. -/
def losesGap (typed : Char) (after : Text) : Bool :=
  isBlank typed && atGap after && (words after).head?.any fun w => !(unmarked w).isEmpty

theorem atGap_unmarked_append {w t : Text} (hw : ∀ c ∈ w, isBlank c = false)
    (ht : atGap t = true) : atGap (unmarked (w ++ t)) = (unmarked w).isEmpty := by
  rw [unmarked_append]
  cases hu : unmarked w with
  | nil => exact atGap_unmarked ht
  | cons c r =>
    have hc : c ∈ unmarked w := by simp [hu]
    exact hw c (List.mem_of_mem_filter hc)

namespace Rewrap

variable {style : Style} {s : Text} {offset : Nat} {typed : Char}

/-- The document after the edit. -/
def result (w : Rewrap style s offset typed) : Text :=
  s.take w.row.offset ++ w.text ++ s.drop w.stop

theorem edit_caret (w : Rewrap style s offset typed) : w.edit.caret = some (w.caret : Int) := rfl

/-- The content of the edited row. -/
def content (w : Rewrap style s offset typed) : Text :=
  w.opening.content w.edited.text

/-- The rows that join the edited row. -/
def joinedRows (w : Rewrap style s offset typed) : List Row :=
  (s.rows.drop (w.index + 1)).take w.joined

theorem whole_words (w : Rewrap style s offset typed) :
    w.whole.words = words w.content ++
      w.joinedRows.flatMap fun r => words (w.opening.content r.text) := by
  obtain ⟨-, -, hwords, -⟩ :=
    (w.opening.gather_absorbs style (w.edited.toLine w.index) w.below).spec
  have htexts : (w.below.take w.joined).map Line.text = w.joinedRows.map Row.text := by
    rw [List.map_take, below, numberRows_text, joinedRows, List.map_take]
  rw [whole, hwords, (Paragraph.ofLine?_words w.opens).1, ← joined, htexts, List.flatMap_map]
  rfl

theorem whole_frame (w : Rewrap style s offset typed) : w.whole.frame.IsOpen := by
  obtain ⟨-, hframe, -, -⟩ :=
    (w.opening.gather_absorbs style (w.edited.toLine w.index) w.below).spec
  rw [whole, hframe]
  exact Paragraph.ofLine?_isOpen w.opens

theorem whole_isWord (w : Rewrap style s offset typed) : ∀ v ∈ w.whole.words, IsWord v := by
  intro v hv
  rw [w.whole_words, List.mem_append] at hv
  rcases hv with hv | hv
  · exact words_isWord _ v hv
  · obtain ⟨r, -, hv⟩ := List.mem_flatMap.mp hv
    exact words_isWord _ v hv

/-- How much of the content stands before the caret, the typed character included. -/
def place (w : Rewrap style s offset typed) : Nat :=
  offset - w.row.offset + 1 - w.opening.contentStart w.edited.text

theorem place_eq (w : Rewrap style s offset typed) :
    offset - w.row.offset + 1 = w.opening.contentStart w.edited.text + w.place := by
  have hstart : w.opening.contentStart w.edited.text ≤ offset - w.row.offset := w.start_le
  rw [place]
  omega

/-- The typed character is in the content, so the caret cuts the content as it cuts the row. -/
theorem content_cut (w : Rewrap style s offset typed) :
    ∃ margin, IsBlankText (unmarked margin) ∧
      w.row.text.take (offset - w.row.offset) ++ [typed] = margin ++ w.content.take w.place ∧
      w.row.text.drop (offset - w.row.offset) = w.content.drop w.place ∧
      0 < w.place ∧ w.place ≤ w.content.length := by
  obtain ⟨margin, hedited, hmargin⟩ := w.opening.content_split w.edited.text
  have hcol := w.column_le
  have hlen : w.edited.text.length = w.row.text.length + 1 := by
    rw [edited, Row.insert, List.length_append, List.length_cons, List.length_take,
      List.length_drop, Nat.min_eq_left hcol]
    omega
  have hsum : w.edited.text.length = margin.length + w.content.length := by
    rw [← List.length_append]
    exact congrArg List.length hedited
  have hstart : w.opening.contentStart w.edited.text = margin.length := by
    rw [Paragraph.contentStart, ← content]
    omega
  have hle : margin.length ≤ offset - w.row.offset := by
    rw [← hstart]
    exact w.start_le
  have hplace := w.place_eq
  rw [hstart] at hplace
  have hin : w.place ≤ w.content.length := by omega
  have hsplit : (w.row.text.take (offset - w.row.offset) ++ [typed]) ++
      w.row.text.drop (offset - w.row.offset)
        = (margin ++ w.content.take w.place) ++ w.content.drop w.place := by
    rw [List.append_assoc margin, List.take_append_drop, List.append_assoc, List.singleton_append]
    exact hedited
  obtain ⟨htake, hdrop⟩ := List.append_inj hsplit (by
    rw [List.length_append, List.length_append, List.length_take, List.length_take,
      List.length_singleton, Nat.min_eq_left hcol, Nat.min_eq_left hin, hplace])
  exact ⟨margin, hmargin, htake, hdrop, by omega, hin⟩

theorem caretSplit (w : Rewrap style s offset typed) :
    Nonempty (CaretSplit w.content w.place w.anchor) := by
  obtain ⟨-, -, -, -, -, hin⟩ := w.content_cut
  have hanchor := w.anchor_eq
  rw [w.place_eq] at hanchor
  exact caretSplit_of_anchorOf _ hin hanchor

/-- The paragraph as it is filled, cut around the word at the caret. -/
theorem text_split (w : Rewrap style s offset typed)
    (x : CaretSplit w.content w.place w.anchor) :
    ∃ left right, w.text = left ++ (x.front ++ x.back ++ right) ∧
      w.caret = w.row.offset + left.length + x.front.length ∧
      endsAtGap (unmarked left) = true ∧ bareWords left = bareWords x.before ∧
      atGap right = true ∧ bareWords right =
        bareWords x.after ++ w.joinedRows.flatMap fun r => bareWords r.text := by
  -- The words before the caret's word, the word, and those after it.
  have hwords : w.whole.words = (words x.before ++ [x.front ++ x.back]) ++
      (words x.after ++ w.joinedRows.flatMap fun r => words (w.opening.content r.text)) := by
    rw [w.whole_words, x.words_eq]
    simp
  have hflat := pack_flatten w.whole.frame style.maxWidth w.whole_isWord
  have hword : (pack w.whole.frame style.maxWidth w.whole.words).flatten[w.anchor.index]?
      = some (x.front ++ x.back) := by
    rw [hflat, hwords, x.index_eq]
    simp
  have hindex : w.anchor.index + 1 = (words x.before ++ [x.front ++ x.back]).length := by
    rw [x.index_eq, List.length_append, List.length_singleton]
  obtain ⟨left, right, hwrite, hcaret, hleft, hleftwords, hright, hrightwords⟩ :=
    caretIn_split w.ending_isEnding w.whole_frame.1 w.whole_frame.2
      (pack_isWord _ style.maxWidth w.whole_isWord) hword w.anchor.within
  refine ⟨left, right, ?_, ?_, hleft, ?_, hright, ?_⟩
  · rw [text, fill, hwrite, ← List.append_assoc, ← List.append_assoc, ← List.append_assoc,
      dropEnding_append w.ending_isEnding.ne_nil]
    simp
  · rw [caret, hcaret, x.within_eq]
    omega
  · rw [hleftwords, hflat, hwords, x.index_eq, List.append_assoc, List.take_left]
    rfl
  · rw [hrightwords, hflat, hwords, hindex, List.drop_left, bare_append, bare_flatMap]
    congr 1
    apply List.flatMap_congr
    intro r hr
    exact w.opening.bareWords_content r.text

/-- The document before and after the edit, cut around the word at the caret. -/
structure Around (w : Rewrap style s offset typed) extends
    CaretSplit w.content w.place w.anchor where
  margin : Text
  left : Text
  right : Text
  margin_blank : IsBlankText (unmarked margin)
  typed_blank : isBlank typed = front.isEmpty
  above_eq : s.take offset ++ [typed] = s.take w.row.offset ++ (margin ++ before) ++ front
  below_eq : s.drop offset = skipped ++ (back ++ (after ++ s.drop w.row.textEnd))
  text_eq : w.text = left ++ (front ++ back ++ right)
  caret_eq : w.caret = w.row.offset + left.length + front.length
  left_gap : endsAtGap (unmarked left) = true
  left_words : bareWords left = bareWords before
  right_gap : atGap right = true
  right_words : bareWords right =
    bareWords after ++ w.joinedRows.flatMap fun r => bareWords r.text

theorem around (w : Rewrap style s offset typed) : Nonempty w.Around := by
  obtain ⟨x⟩ := w.caretSplit
  obtain ⟨margin, hmargin, htake, hdrop, hpos, hin⟩ := w.content_cut
  obtain ⟨left, right, htext, hcaret, hleft, hleftwords, hright, hrightwords⟩ := w.text_split x
  obtain ⟨habove, hbelow⟩ := split_in_row w.row_eq w.offset_le w.column_le
  have hblank : isBlank typed = x.front.isEmpty := by
    have hne : w.content.take w.place ≠ [] := by
      rw [← List.length_pos_iff, List.length_take, Nat.min_eq_left hin]
      exact hpos
    have hends := congrArg endsAtGap htake
    rwa [endsAtGap_concat, endsAtGap_append hne, x.endsAtGap_take] at hends
  have habove' : s.take offset ++ [typed]
      = s.take w.row.offset ++ (margin ++ x.before) ++ x.front := by
    rw [habove, List.append_assoc, htake, x.take_eq]
    simp
  have hbelow' : s.drop offset = x.skipped ++ (x.back ++ (x.after ++ s.drop w.row.textEnd)) := by
    rw [hbelow, hdrop, x.drop_eq]
    simp
  exact ⟨⟨x, margin, left, right, hmargin, hblank, habove', hbelow', htext, hcaret, hleft,
    hleftwords, hright, hrightwords⟩⟩

theorem Around.result_split {w : Rewrap style s offset typed} (a : w.Around) :
    w.result = (s.take w.row.offset ++ a.left ++ a.front) ++
        (a.back ++ (a.right ++ s.drop w.stop)) ∧
      w.caret = (s.take w.row.offset ++ a.left ++ a.front).length := by
  have hle := row_textEnd_le w.row_eq
  rw [Row.textEnd] at hle
  constructor
  · rw [result, a.text_eq]
    simp
  · rw [a.caret_eq, List.length_append, List.length_append, List.length_take,
      Nat.min_eq_left (by omega)]

theorem caret_le (w : Rewrap style s offset typed) : w.caret ≤ w.result.length := by
  obtain ⟨a⟩ := w.around
  obtain ⟨hresult, hcaret⟩ := a.result_split
  rw [hresult, hcaret]
  simp only [List.length_append]
  omega

/-- Before the caret stands what would stand there without refilling. -/
theorem before_caret (w : Rewrap style s offset typed) :
    SameBefore (w.result.take w.caret) (s.take offset ++ [typed]) := by
  obtain ⟨a⟩ := w.around
  obtain ⟨hresult, hcaret⟩ := a.result_split
  have habove := above_row_endsAtGap w.row_eq
  rw [hresult, hcaret, List.take_left, a.above_eq]
  apply SameBefore.append
  constructor
  · rw [bareWords_append habove, bareWords_append habove, a.left_words,
      bareWords_margin a.margin_blank]
  · have hgap := endsAtGap_unmarked habove
    rw [unmarked_append, unmarked_append, unmarked_append, endsAtGap_append_of hgap a.left_gap,
      endsAtGap_append_of hgap (endsAtGap_append_of (endsAtGap_of_blank a.margin_blank)
        (endsAtGap_unmarked a.before_gap))]

/-- After the caret stand the words that stood there before. -/
theorem words_after_caret (w : Rewrap style s offset typed) :
    bareWords (w.result.drop w.caret) = bareWords (s.drop offset) := by
  obtain ⟨a⟩ := w.around
  obtain ⟨hresult, hcaret⟩ := a.result_split
  obtain ⟨last, hlast, hstop⟩ := w.last_row
  obtain ⟨hrow, hrowwords⟩ := below_row w.row_eq
  obtain ⟨hend, hendwords⟩ := below_row hlast
  have hrows : (s.rows.drop (w.index + 1)).flatMap (fun r => bareWords r.text) =
      w.joinedRows.flatMap (fun r => bareWords r.text) ++
        (s.rows.drop (w.index + w.joined + 1)).flatMap fun r => bareWords r.text := by
    have hdrop : s.rows.drop (w.index + w.joined + 1)
        = (s.rows.drop (w.index + 1)).drop w.joined := by
      rw [List.drop_drop, Nat.add_right_comm]
    rw [← List.flatMap_append, joinedRows, hdrop, List.take_append_drop]
  rw [hresult, hcaret, List.drop_left, hstop,
    bareWords_append_of_atGap (atGap_append_of a.right_gap hend), bareWords_append_of_atGap hend,
    a.right_words, hendwords, a.below_eq,
    bareWords_of_words_eq (words_blank_append a.skipped_blank),
    bareWords_append_of_atGap (atGap_append_of a.after_gap hrow), bareWords_append_of_atGap hrow,
    hrowwords, hrows, List.append_assoc]

/-- The gap after the caret is kept, unless it is lost. -/
theorem gap_after_caret (w : Rewrap style s offset typed) :
    atGap (unmarked (w.result.drop w.caret)) =
      (atGap (unmarked (s.drop offset)) && !losesGap typed (s.drop offset)) := by
  obtain ⟨a⟩ := w.around
  obtain ⟨hresult, hcaret⟩ := a.result_split
  obtain ⟨last, hlast, hstop⟩ := w.last_row
  obtain ⟨hrow, -⟩ := below_row w.row_eq
  obtain ⟨hend, -⟩ := below_row hlast
  have hback : ∀ c ∈ a.back, isBlank c = false :=
    fun c hc => a.isWord.2 c (List.mem_append_right _ hc)
  rw [hresult, hcaret, List.drop_left, hstop,
    atGap_unmarked_append hback (atGap_append_of a.right_gap hend), a.below_eq]
  by_cases hskip : a.skipped = []
  · -- Nothing is skipped, and nothing is lost: the word goes on, or it starts right at the caret.
    have hkeep : losesGap typed (a.back ++ (a.after ++ s.drop w.row.textEnd)) = false := by
      rw [losesGap, a.typed_blank]
      cases hfront : a.front with
      | cons c f => rfl
      | nil =>
        have hword := a.isWord
        rw [hfront, List.nil_append] at hword
        obtain ⟨c, r, hcr⟩ := List.exists_cons_of_ne_nil hword.1
        rw [hcr, List.cons_append, atGap_cons, hback c (by simp [hcr])]
        rfl
    rw [hskip, List.nil_append, hkeep,
      atGap_unmarked_append hback (atGap_append_of a.after_gap hrow)]
    simp
  · have hfront := a.front_or_skipped.resolve_right hskip
    have hword := a.isWord
    rw [hfront, List.nil_append] at hword
    have hgap : atGap (a.skipped ++ (a.back ++ (a.after ++ s.drop w.row.textEnd))) = true := by
      rw [atGap_append hskip]
      exact atGap_of_blank a.skipped_blank
    have hlost : losesGap typed (a.skipped ++ (a.back ++ (a.after ++ s.drop w.row.textEnd)))
        = !(unmarked a.back).isEmpty := by
      rw [losesGap, a.typed_blank, hfront, hgap, words_blank_append a.skipped_blank,
        words_word_append hword (atGap_append_of a.after_gap hrow)]
      simp
    rw [hlost, atGap_unmarked hgap]
    simp

end Rewrap

/-! ### From one state of the document to the next -/

/-- A document `s` with the caret at `o` has become `s'` with the caret at `o'`, as if a text had
been typed, but for the layout and, if it is `lost`, the gap after the caret. -/
structure KeepsWords (s : Text) (o : Nat) (typed : Text) (lost : Prop) (s' : Text) (o' : Nat) :
    Prop where
  caret_le : o' ≤ s'.length
  before : SameBefore (s'.take o') (s.take o ++ typed)
  words_after : bareWords (s'.drop o') = bareWords (s.drop o)
  gap_after : atGap (unmarked (s'.drop o')) = true ↔ atGap (unmarked (s.drop o)) = true ∧ ¬ lost
  gap_before : lost → atGap (unmarked (s.drop o)) = true

theorem KeepsWords.refl {s : Text} {o : Nat} (ho : o ≤ s.length) : KeepsWords s o [] False s o :=
  ⟨ho, ⟨by simp, by simp⟩, rfl, by simp, False.elim⟩

theorem KeepsWords.trans {s s' s'' u v : Text} {o o' o'' : Nat} {lost lost' : Prop}
    (h : KeepsWords s o u lost s' o') (h' : KeepsWords s' o' v lost' s'' o'') :
    KeepsWords s o (u ++ v) (lost ∨ lost') s'' o'' := by
  refine ⟨h'.caret_le, ⟨?_, ?_⟩, h'.words_after.trans h.words_after, ?_, ?_⟩
  · rw [h'.before.words_eq, ← List.append_assoc]
    exact (h.before.append v).words_eq
  · rw [h'.before.gap_eq, ← List.append_assoc]
    exact (h.before.append v).gap_eq
  · rw [h'.gap_after, h.gap_after, not_or, and_assoc]
  · rintro (hl | hl)
    · exact h.gap_before hl
    · exact (h.gap_after.mp (h'.gap_before hl)).1

theorem KeepsWords.insert {s : Text} {o : Nat} (ho : o ≤ s.length) (c : Char) :
    KeepsWords s o [c] False (s.take o ++ [c] ++ s.drop o) (o + 1) := by
  have hlen : (s.take o ++ [c]).length = o + 1 := by
    rw [List.length_append, List.length_take, Nat.min_eq_left ho, List.length_singleton]
  have htake : (s.take o ++ [c] ++ s.drop o).take (o + 1) = s.take o ++ [c] := by
    rw [← hlen, List.take_left]
  have hdrop : (s.take o ++ [c] ++ s.drop o).drop (o + 1) = s.drop o := by
    rw [← hlen, List.drop_left]
  refine ⟨?_, ?_, ?_, ?_, False.elim⟩
  · rw [List.length_append, hlen]
    omega
  · rw [htake]
    exact ⟨rfl, rfl⟩
  · rw [hdrop]
  · rw [hdrop]
    simp

theorem Rewrap.keepsWords {style : Style} {s : Text} {o : Nat} {c : Char} (w : Rewrap style s o c) :
    KeepsWords s o [c] (losesGap c (s.drop o) = true) w.result w.caret := by
  refine ⟨w.caret_le, w.before_caret, w.words_after_caret, ?_, ?_⟩
  · rw [w.gap_after_caret]
    simp
  · intro hlost
    simp only [losesGap, Bool.and_eq_true] at hlost
    exact atGap_unmarked hlost.1.2

/-- The words are those of plain typing unless the gap is lost and the typed text ends in a word. -/
theorem KeepsWords.bareWords_eq_iff {s s' u : Text} {o o' : Nat} {lost : Prop}
    (h : KeepsWords s o u lost s' o') :
    bareWords s' = bareWords (s.take o ++ u ++ s.drop o) ↔
      ¬ (lost ∧ endsAtGap (unmarked (s.take o ++ u)) = false) := by
  have hsplit : bareWords s' = bareWords (s.take o ++ u ++ s'.drop o') := by
    conv_lhs => rw [← List.take_append_drop o' s']
    exact h.before.bareWords_append (s'.drop o')
  have hafter := h.words_after
  rw [bareWords_eq, bareWords_eq] at hafter
  rw [hsplit, bareWords_eq, bareWords_eq, unmarked_append _ (s'.drop o'),
    unmarked_append _ (s.drop o)]
  by_cases hlost : lost
  · have hkept := h.gap_before hlost
    have hgone : atGap (unmarked (s'.drop o')) = false := by
      rw [← Bool.not_eq_true, h.gap_after]
      exact fun hboth => hboth.2 hlost
    cases hends : endsAtGap (unmarked (s.take o ++ u)) with
    | true =>
      rw [words_append_of_endsAtGap hends, words_append_of_endsAtGap hends, hafter]
      simp
    | false =>
      -- With the gap there is one word more.
      have hlen := length_words_append hends hgone
      rw [words_append_of_atGap hkept]
      constructor
      · intro heq
        rw [heq, List.length_append, hafter] at hlen
        omega
      · exact fun hno => absurd ⟨hlost, rfl⟩ hno
  · have hgap : atGap (unmarked (s'.drop o')) = atGap (unmarked (s.drop o)) := by
      rw [Bool.eq_iff_iff, h.gap_after]
      simp [hlost]
    rw [words_append_congr_right hafter hgap]
    simp [hlost]

/-! ### Sessions -/

theorem Buffer.replace_insert {s : Text} {o : Nat} (ho : o ≤ s.length) (c : Char) :
    (Buffer.ofText s .writable).replace o 0 [c] =
      .ok (.ofText (s.take o ++ [c] ++ s.drop o) .writable) := by
  have hok : ¬ ((decide ((o : Int) < 0) || decide ((0 : Int) < 0) ||
      decide ((o : Int) + 0 > s.length)) = true) := by
    simpa using ho
  rw [replace, if_neg (by simp), content_ofText, if_neg hok]
  simp

theorem Buffer.apply_of_edit {s t : Text} {edit : Edit} (h : edit.apply s = .ok t) :
    (Buffer.ofText s .writable).apply edit = .ok (.ofText t .writable) :=
  apply_eq_ok_iff.mpr ⟨rfl, h, rfl⟩

namespace Session

/-- Whether typing a character at the caret makes the text after it lose its gap. -/
def losesGap (style : Style) (session : Session) (c : Char) : Bool :=
  match session.buffer.view.typeAt style session.caret [c] with
  | .ok proposal => proposal.edit.isSome &&
      HardWrap.losesGap c (session.buffer.content.drop session.caret.toNat)
  | .error _ => false

/-- Whether some character of a text loses the gap when the text is typed. -/
def LosesGap (style : Style) (session : Session) (u : Text) : Prop :=
  ∃ v c rest, u = v ++ c :: rest ∧ (session.type style v).1.losesGap style c = true

/-- A session at offset `o` of the writable document `s`. -/
structure IsAt (session : Session) (s : Text) (o : Nat) : Prop where
  buffer_eq : session.buffer = .ofText s .writable
  caret_eq : session.caret = o

/-- A typed character goes through, and keeps the words on both sides of the caret. -/
theorem type_step (style : Style) {session : Session} {s : Text} {o : Nat} (h : session.IsAt s o)
    (ho : o ≤ s.length) (c : Char) :
    ∃ (next : Session) (s' : Text) (o' : Nat),
      (∀ rest, session.type style (c :: rest) = next.type style rest) ∧
      next.IsAt s' o' ∧ KeepsWords s o [c] (session.losesGap style c = true) s' o' := by
  obtain ⟨⟨edit, notes⟩, htype⟩ :
      ∃ proposal, (View.ofText s).typeAt style o [c] = .ok proposal := by
    obtain ⟨k, r, -, -, -, htype⟩ := View.typeAt_eq style ho c
    exact ⟨_, htype⟩
  have hview : session.buffer.view.typeAt style session.caret [c] = .ok ⟨edit, notes⟩ := by
    rw [h.buffer_eq, h.caret_eq, Buffer.view_ofText (by decide)]
    exact htype
  cases edit with
  | none =>
    have hlost : session.losesGap style c = false := by simp [losesGap, hview]
    have hreplace : session.buffer.replace session.caret 0 [c]
        = .ok (.ofText (s.take o ++ [c] ++ s.drop o) .writable) := by
      rw [h.buffer_eq, h.caret_eq]
      exact Buffer.replace_insert ho c
    refine ⟨{ session with
      buffer := .ofText (s.take o ++ [c] ++ s.drop o) .writable
      caret := session.caret + 1
      notes := session.notes ++ notes }, s.take o ++ [c] ++ s.drop o, o + 1, ?_, ⟨rfl, ?_⟩, ?_⟩
    · intro rest
      simp [type, hview, enter, insertPlain, hreplace, Except.mapError, bind, Except.bind, pure,
        Except.pure]
    · simp [h.caret_eq]
    · rw [hlost]
      simpa using KeepsWords.insert ho c
  | some edit =>
    obtain ⟨w, rfl⟩ := View.typeAt_edit htype
    have hlost : session.losesGap style c = HardWrap.losesGap c (s.drop o) := by
      rw [losesGap, hview, h.buffer_eq, h.caret_eq]
      simp
    have happly : session.buffer.apply w.edit = .ok (.ofText w.result .writable) := by
      rw [h.buffer_eq]
      exact Buffer.apply_of_edit w.edit_apply
    refine ⟨{ session with
      buffer := .ofText w.result .writable
      caret := w.caret
      edits := session.edits ++ [w.edit]
      notes := session.notes ++ notes }, w.result, w.caret, ?_, ⟨rfl, rfl⟩, ?_⟩
    · intro rest
      simp [type, hview, enter, follow, happly, Except.mapError, bind, Except.bind, pure,
        Except.pure, Rewrap.edit_caret]
    · rw [hlost]
      exact w.keepsWords

theorem not_losesGap_nil (style : Style) (session : Session) : ¬ session.LosesGap style [] := by
  rintro ⟨v, c, rest, hnil, -⟩
  simp at hnil

theorem losesGap_cons {style : Style} {session next : Session} {c : Char}
    (h : ∀ rest, session.type style (c :: rest) = next.type style rest) (u : Text) :
    session.LosesGap style (c :: u) ↔
      session.losesGap style c = true ∨ next.LosesGap style u := by
  constructor
  · rintro ⟨v, d, rest, heq, hlost⟩
    cases v with
    | nil =>
      obtain ⟨rfl, -⟩ := List.cons.inj heq
      exact Or.inl hlost
    | cons e v =>
      obtain ⟨rfl, rfl⟩ := List.cons.inj heq
      rw [h] at hlost
      exact Or.inr ⟨v, d, rest, rfl, hlost⟩
  · rintro (hlost | ⟨v, d, rest, rfl, hlost⟩)
    · exact ⟨[], c, u, rfl, hlost⟩
    · exact ⟨c :: v, d, rest, rfl, by rwa [h]⟩

/-- A whole text goes through. The words on both sides of the caret are kept, and the gap after it
unless one of the characters loses it. -/
theorem type_run (style : Style) {session : Session} {s : Text} {o : Nat} (h : session.IsAt s o)
    (ho : o ≤ s.length) (u : Text) :
    ∃ final s' o', session.type style u = (final, none) ∧ final.IsAt s' o' ∧
      KeepsWords s o u (session.LosesGap style u) s' o' := by
  induction u generalizing session s o with
  | nil =>
    refine ⟨session, s, o, rfl, h, ?_⟩
    rw [eq_false (not_losesGap_nil style session)]
    exact KeepsWords.refl ho
  | cons c u ih =>
    obtain ⟨next, s₁, o₁, hnext, hat, hstep⟩ := type_step style h ho c
    obtain ⟨final, s₂, o₂, hfinal, hend, hrun⟩ := ih hat hstep.caret_le
    refine ⟨final, s₂, o₂, by rw [hnext, hfinal], hend, ?_⟩
    rw [losesGap_cons hnext]
    exact hstep.trans hrun

/-- A text that loses the gap holds a blank, so how it ends does not depend on what is before it. -/
theorem LosesGap.endsAtGap_eq {style : Style} {session : Session} {u : Text}
    (h : session.LosesGap style u) (t : Text) :
    endsAtGap (unmarked (t ++ u)) = endsAtGap (unmarked u) := by
  obtain ⟨v, c, rest, rfl, hlost⟩ := h
  have hblank : isBlank c = true := by
    unfold losesGap at hlost
    split at hlost
    next proposal _ =>
      simp only [HardWrap.losesGap, Bool.and_eq_true] at hlost
      exact hlost.2.1.1
    next => cases hlost
  have hc : c ≠ '%' := by
    rintro rfl
    simp at hblank
  have hne : unmarked (v ++ c :: rest) ≠ [] := by
    simp [unmarked, hc]
  rw [unmarked_append, endsAtGap_append hne]

end Session

/-- Typing a text at an offset always goes through. The document then has the words of the text
typed in plainly, unless a gap was lost on the way and the text ends in a word. -/
theorem typing_keeps_words_iff (style : Style) {s : Text} {o : Nat} (ho : o ≤ s.length) (u : Text) :
    ∃ final, Session.type style ⟨.ofText s .writable, o, [], []⟩ u = (final, none) ∧
      (bareWords final.buffer.content = bareWords (s.take o ++ u ++ s.drop o) ↔
        ¬ (Session.LosesGap style ⟨.ofText s .writable, o, [], []⟩ u ∧
          endsAtGap (unmarked u) = false)) := by
  have hstart : Session.IsAt ⟨.ofText s .writable, o, [], []⟩ s o := ⟨rfl, rfl⟩
  obtain ⟨final, s', o', hrun, hat, hkeeps⟩ := Session.type_run style hstart ho u
  refine ⟨final, hrun, ?_⟩
  rw [hat.buffer_eq, Buffer.content_ofText, hkeeps.bareWords_eq_iff, not_iff_not]
  constructor
  · rintro ⟨hlost, hends⟩
    exact ⟨hlost, by rwa [hlost.endsAtGap_eq] at hends⟩
  · rintro ⟨hlost, hends⟩
    exact ⟨hlost, by rwa [hlost.endsAtGap_eq]⟩

theorem typing_keeps_words_iff_alphabet :
    5 ≤ "alpha beta".toList.length ∧ ∃ final, Session.type { maxWidth := 10 }
        ⟨.ofText "alpha beta".toList .writable, (5 : Nat), [], []⟩ "bet  soup".toList =
          (final, none) ∧
      (bareWords final.buffer.content =
          bareWords ("alpha beta".toList.take 5 ++ "bet  soup".toList ++
            "alpha beta".toList.drop 5) ↔
        ¬ (Session.LosesGap { maxWidth := 10 }
            ⟨.ofText "alpha beta".toList .writable, (5 : Nat), [], []⟩ "bet  soup".toList ∧
          endsAtGap (unmarked "bet  soup".toList) = false)) :=
  ⟨by decide, typing_keeps_words_iff { maxWidth := 10 } (by decide) "bet  soup".toList⟩

/-- A blank typed in front of a blank puts the caret before the next word, and the word typed then
runs into it. -/
theorem typing_can_join_words :
    ¬ ∀ (style : Style) (s : Text) (o : Nat) (u : Text), style.Valid → o ≤ s.length →
      bareWords (Session.type style ⟨.ofText s .writable, o, [], []⟩ u).1.buffer.content =
        bareWords (s.take o ++ u ++ s.drop o) := by
  intro h
  have := h { maxWidth := 7 } "foo bar".toList 3 " x".toList (by decide) (by decide)
  revert this
  decide +kernel

end HardWrap
