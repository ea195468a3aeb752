import HardWrap.Proofs.Rows
import HardWrap.Proofs.TrimmedEdits
import HardWrap.Proofs.Writing

/-! Rewrapping while typing. A typed character can make the editor propose an edit. The edit refills
the row and the rows that continue its paragraph, and these are the rows that reflow takes as the
first paragraph when it starts there. Both fill them the same way. -/

namespace HardWrap

open Text

/-! ### Rows as lines -/

@[simp] theorem numberRows_text (start : Nat) (rs : List Row) :
    (numberRows start rs).map Line.text = rs.map Row.text := by
  induction rs generalizing start with
  | nil => rfl
  | cons r rs ih => simp [numberRows, Row.toLine, ih]

theorem numberRows_drop (start n : Nat) (rs : List Row) :
    (numberRows start rs).drop n = numberRows (start + n) (rs.drop n) := by
  induction n generalizing start rs with
  | zero => rfl
  | succ n ih =>
    cases rs with
    | nil => rfl
    | cons r rs =>
      rw [numberRows, List.drop_succ_cons, List.drop_succ_cons, ih]
      congr 1
      omega

@[simp] theorem numberRows_ending (start : Nat) (rs : List Row) :
    (numberRows start rs).map Line.ending = rs.map Row.ending := by
  induction rs generalizing start with
  | nil => rfl
  | cons r rs ih => simp [numberRows, Row.toLine, ih]

@[simp] theorem length_numberRows (start : Nat) (rs : List Row) :
    (numberRows start rs).length = rs.length := by
  have := congrArg List.length (numberRows_text start rs)
  rwa [List.length_map, List.length_map] at this

theorem endsOpen_numberRows (start : Nat) (rs : List Row) :
    endsOpen (numberRows start rs) = (rs.map Row.ending).getLast?.any List.isEmpty := by
  rw [← numberRows_ending start, List.getLast?_map, Option.any_map]
  rfl

/-! ### Reflow from the start of a paragraph -/

theorem dropsEnding_cons (s : Section) {sections : List Section} (h : sections ≠ []) :
    dropsEnding (s :: sections) = dropsEnding sections := by
  obtain ⟨r, rest, rfl⟩ := List.exists_cons_of_ne_nil h
  rfl

/-- A line that opens a paragraph is written with the lines that belong to it. Then reflow goes on
as if it started with the line after them. -/
theorem reflowLines_opening {style : Style} {line : Line} {p : Paragraph}
    (hp : Paragraph.ofLine? style line.text = some p) {e : Text} (he : IsEnding e)
    (rest : List Line) :
    ∃ x, fill (p.gather style line rest).1.frame style.maxWidth e (p.gather style line rest).1.words
        = x ++ e ∧
      reflowLines style e (line :: rest) =
        if (p.gather style line rest).2 = rest.length then
          if endsOpen (line :: rest) then x else x ++ e
        else x ++ e ++ reflowLines style e (rest.drop (p.gather style line rest).2) := by
  have hreads : Section.Reads style (line :: rest.take (p.gather style line rest).2)
      (.paragraph (p.gather style line rest).1) :=
    .paragraph line _ p _ hp (p.gather_absorbs style line rest)
  obtain ⟨x, hx, -⟩ := fill_ends (p.gather style line rest).1.frame style.maxWidth e hreads.isWord
    hreads.words_ne_nil
  refine ⟨x, hx, ?_⟩
  have hsections : sectionsFrom style none (line :: rest) =
      ⟨line :: rest.take (p.gather style line rest).2, .paragraph (p.gather style line rest).1⟩ ::
        sectionsFrom style none (rest.drop (p.gather style line rest).2) := by
    rw [sectionsFrom, hp]
  rw [reflowLines_eq, reflowLines_eq, hsections]
  by_cases hn : (p.gather style line rest).2 = rest.length
  · rw [if_pos hn, hn, List.drop_length, List.take_length, sectionsFrom]
    simp [dropsEnding, writeAll, Block.isFilled, Block.write, hx, dropEnding_append he.ne_nil]
  · have hle := p.gather_le style line rest
    have hmore : sectionsFrom style none (rest.drop (p.gather style line rest).2) ≠ [] := by
      intro hnil
      have := sections_lines style none (rest.drop (p.gather style line rest).2)
      rw [hnil, List.flatMap_nil, eq_comm, List.drop_eq_nil_iff] at this
      omega
    have hdrops := dropsEnding_cons ⟨line :: rest.take (p.gather style line rest).2,
      .paragraph (p.gather style line rest).1⟩ hmore
    rw [if_neg hn, hdrops, writeAll, List.flatMap_cons, ← writeAll]
    simp only [Block.write, hx]
    split
    next hd =>
      obtain ⟨y, hy⟩ := writeAll_ends (sections_read style none _) style.maxWidth e hd
      rw [hy, ← List.append_assoc, dropEnding_append he.ne_nil, dropEnding_append he.ne_nil]
    next => rfl

/-! ### The proposed edit -/

/-- The row with a character typed at a column. -/
def Row.insert (row : Row) (column : Nat) (c : Char) : Row :=
  { row with text := row.text.take column ++ c :: row.text.drop column }

/-- Where the content of a line starts that belongs to a paragraph. -/
def Paragraph.contentStart (p : Paragraph) (line : Text) : Nat :=
  line.length - (p.content line).length

/-- A typed character after which a paragraph is filled again: its row, the paragraph that the row
opens with the character in it, and the place of the caret in its words. -/
structure Rewrap (style : Style) (s : Text) (offset : Nat) (typed : Char) where
  index : Nat
  row : Row
  opening : Paragraph
  anchor : Anchor
  rowAt_eq : (View.ofText s).rowAt offset = .ok index
  row_eq : s.rows[index]? = some row
  offset_le : row.offset ≤ offset
  column_le : offset - row.offset ≤ row.text.length
  opens : Paragraph.ofLine? style (row.insert (offset - row.offset) typed).text = some opening
  start_le : opening.contentStart (row.insert (offset - row.offset) typed).text
    ≤ offset - row.offset
  anchor_eq : anchorOf
    (placedWords (opening.contentStart (row.insert (offset - row.offset) typed).text)
      (opening.content (row.insert (offset - row.offset) typed).text))
    (offset - row.offset + 1) = some anchor

namespace Rewrap

variable {style : Style} {s : Text} {offset : Nat} {typed : Char}

/-- The row with the typed character. -/
def edited (w : Rewrap style s offset typed) : Row :=
  w.row.insert (offset - w.row.offset) typed

/-- The rows below the row, as lines. -/
def below (w : Rewrap style s offset typed) : List Line :=
  numberRows (w.index + 1) (s.rows.drop (w.index + 1))

/-- The paragraph with all its lines. -/
def whole (w : Rewrap style s offset typed) : Paragraph :=
  (w.opening.gather style (w.edited.toLine w.index) w.below).1

/-- How many rows below the row belong to the paragraph. -/
def joined (w : Rewrap style s offset typed) : Nat :=
  (w.opening.gather style (w.edited.toLine w.index) w.below).2

def ending (w : Rewrap style s offset typed) : Text :=
  (View.ofText s).endingAt w.index

/-- The paragraph as it is filled, without its last ending. -/
def text (w : Rewrap style s offset typed) : Text :=
  dropEnding w.ending (fill w.whole.frame style.maxWidth w.ending w.whole.words)

/-- The offset where the refilled rows end. -/
def stop (w : Rewrap style s offset typed) : Nat :=
  (((View.ofText s).row? (w.index + w.joined : Nat)).map Row.textEnd).getD w.row.textEnd

def caret (w : Rewrap style s offset typed) : Nat :=
  w.row.offset + caretIn w.whole.frame.first w.whole.frame.later w.ending.length
    (pack w.whole.frame style.maxWidth w.whole.words) w.anchor.index w.anchor.within

def edit (w : Rewrap style s offset typed) : Edit :=
  .trimmed w.row.offset ((View.ofText s).between w.row.offset w.stop) w.text (some w.caret)

end Rewrap

theorem View.proposeTyped_edit {style : Style} {s : Text} {o : Nat} {c : Char}
    (w : Rewrap style s o c) {edit : Edit} {notes : List Note}
    (h : (View.ofText s).proposeTyped style w.index w.row (o - w.row.offset) c w.opening w.anchor
      = ⟨some edit, notes⟩) : w.edit = edit := by
  have hgather : (if w.opening.isEndedBy w.edited.text then (w.opening, 0)
      else w.opening.absorb style (((View.ofText s).rows.drop (w.index + 1)).map Row.text))
        = (w.whole, w.joined) := by
    rw [Rewrap.whole, Rewrap.joined, Paragraph.gather, Rewrap.below, numberRows_text]
    rfl
  rw [Rewrap.edited, Row.insert] at hgather
  unfold proposeTyped at h
  dsimp only at h hgather
  rw [hgather] at h
  dsimp only at h
  split at h
  · simp at h
  · have := congrArg Proposal.edit h
    exact Option.some.inj this

/-- There is a proposal for a character at every offset of the document. -/
theorem View.typeAt_eq (style : Style) {s : Text} {o : Nat} (ho : o ≤ s.length) (c : Char) :
    ∃ k r, (View.ofText s).rowAt o = .ok k ∧ s.rows[k]? = some r ∧ r.offset ≤ o ∧
      (View.ofText s).typeAt style o [c] =
        .ok (if style.incremental && !(c = '\r' || c = '\n') then
          (View.ofText s).typeInRow style k r (o - r.offset) c else ⟨none, []⟩) := by
  obtain ⟨k, r, hk, hr, hle, -⟩ := rowAt_ofText ho
  refine ⟨k, r, hk, hr, hle, ?_⟩
  have hrange : ¬ ((decide ((o : Int) < 0) || decide ((o : Int) > (ofText s).length)) = true) := by
    simpa using ho
  unfold typeAt
  rw [if_neg hrange]
  cases style.incremental with
  | false => rfl
  | true =>
    by_cases hc : (c = '\r' || c = '\n') = true
    · simp [hc]
    · simp [hc, hk, row_of_getElem hr, bind, Except.bind, pure, Except.pure]

theorem View.typeInRow_edit {style : Style} {s : Text} {o k : Nat} {r : Row} {c : Char}
    {edit : Edit} {notes : List Note} (hk : (View.ofText s).rowAt o = .ok k)
    (hr : s.rows[k]? = some r) (hle : r.offset ≤ o)
    (h : (View.ofText s).typeInRow style k r (o - r.offset) c = ⟨some edit, notes⟩) :
    ∃ w : Rewrap style s o c, w.edit = edit := by
  unfold typeInRow at h
  dsimp only at h
  split at h
  · simp at h
  next hfits =>
    split at h
    · simp at h
    next p hp =>
      split at h
      · simp at h
      next anchor hanchor =>
        split at h
        · simp at h
        next hstart =>
          have hcol : o - r.offset ≤ r.text.length := by
            simp only [Bool.or_eq_true, not_or, decide_eq_true_eq] at hfits
            omega
          exact ⟨⟨k, r, p, anchor, hk, hr, hle, hcol, hp, Nat.le_of_not_lt hstart, hanchor⟩,
            proposeTyped_edit ⟨k, r, p, anchor, hk, hr, hle, hcol, hp, Nat.le_of_not_lt hstart,
              hanchor⟩ h⟩

/-- Every proposed edit is the edit of a rewrap. -/
theorem View.typeAt_edit {style : Style} {s : Text} {o : Nat} {c : Char} {edit : Edit}
    {notes : List Note} (h : (View.ofText s).typeAt style o [c] = .ok ⟨some edit, notes⟩) :
    ∃ w : Rewrap style s o c, w.edit = edit := by
  have ho : o ≤ s.length := by
    by_contra hout
    unfold typeAt at h
    rw [if_pos (by simp; omega)] at h
    cases h
  obtain ⟨k, r, hk, hr, hle, htype⟩ := typeAt_eq style ho c
  rw [htype, Except.ok.injEq] at h
  split at h
  · exact typeInRow_edit hk hr hle h
  · simp at h

theorem View.endingAt_isEnding (s : Text) (index : Int) :
    IsEnding ((View.ofText s).endingAt index) := by
  have hown : ∀ i e, (View.ofText s).endingOf? i = some e → IsEnding e := by
    intro i e h
    simp only [endingOf?, Option.filter_eq_some_iff, Option.map_eq_some_iff] at h
    obtain ⟨⟨r, hr, rfl⟩, hne⟩ := h
    have hmem : r ∈ s.rows := by
      simp only [row?] at hr
      split at hr
      · cases hr
      · exact List.mem_of_getElem? hr
    rcases (rows_isCut s).ending_or_nil r.parts (List.mem_map_of_mem hmem) with hend | hnil
    · exact hend
    · rw [show r.ending = [] from hnil] at hne
      cases hne
  unfold endingAt
  cases hrow : (View.ofText s).endingOf? index with
  | some e => exact hown index e hrow
  | none =>
    cases habove : (View.ofText s).endingOf? (index - 1) with
    | some e => exact hown (index - 1) e habove
    | none => exact newEnding_isEnding s

namespace Rewrap

variable {style : Style} {s : Text} {offset : Nat} {typed : Char}

theorem ending_isEnding (w : Rewrap style s offset typed) : IsEnding w.ending :=
  View.endingAt_isEnding s w.index

theorem last_row (w : Rewrap style s offset typed) :
    ∃ last, s.rows[w.index + w.joined]? = some last ∧ w.stop = last.textEnd := by
  have hle := w.opening.gather_le style (w.edited.toLine w.index) w.below
  have hlen : w.below.length = s.rows.length - (w.index + 1) := by
    rw [below, length_numberRows, List.length_drop]
  obtain ⟨hindex, -⟩ := List.getElem?_eq_some_iff.mp w.row_eq
  have hlast : w.index + w.joined < s.rows.length := by
    rw [joined]
    omega
  refine ⟨s.rows[w.index + w.joined], List.getElem?_eq_getElem hlast, ?_⟩
  have hrow : (View.ofText s).row? ((w.index + w.joined : Nat) : Int)
      = some s.rows[w.index + w.joined] := by
    rw [View.row?, if_neg (by omega), Int.toNat_natCast]
    exact List.getElem?_eq_getElem hlast
  rw [stop, hrow]
  rfl

/-- The edit replaces the rows of the paragraph, and nothing above or below them. -/
theorem edit_apply (w : Rewrap style s offset typed) :
    w.edit.apply s = .ok (s.take w.row.offset ++ w.text ++ s.drop w.stop) := by
  obtain ⟨last, hlast, hstop⟩ := w.last_row
  have hle := row_textEnd_le hlast
  have hmono : w.row.offset ≤ w.stop := by
    have := row_offset_le w.row_eq hlast (by omega)
    rw [hstop, Row.textEnd]
    omega
  have hsplit : s = s.take w.row.offset ++ (View.ofText s).between w.row.offset w.stop
      ++ s.drop w.stop := by
    have hstop' : w.stop = w.row.offset + (w.stop - w.row.offset) := by omega
    rw [View.between, View.ofText, ← List.take_add, ← hstop', List.take_append_drop]
  have hlen : (s.take w.row.offset).length = w.row.offset := by
    rw [List.length_take, Nat.min_eq_left (by omega)]
  have := Edit.trimmed_apply (s.take w.row.offset) ((View.ofText s).between w.row.offset w.stop)
    (s.drop w.stop) w.text (some (w.caret : Int))
  rwa [← hsplit, hlen] at this

/-- Reflow from the row on starts with the refilled paragraph. Only if the paragraph reaches the end
of the document is nothing written after it. -/
theorem reflowLines_edited (w : Rewrap style s offset typed) :
    reflowLines style w.ending (numberRows w.index (w.edited :: s.rows.drop (w.index + 1))) =
      if w.index + w.joined + 1 = s.rows.length then w.text
      else w.text ++ w.ending ++ reflowLines style w.ending
        (numberRows (w.index + w.joined + 1) (s.rows.drop (w.index + w.joined + 1))) := by
  obtain ⟨x, hx, hreflow⟩ := reflowLines_opening (p := w.opening)
    (show Paragraph.ofLine? style (w.edited.toLine w.index).text = _ from w.opens)
    w.ending_isEnding w.below
  have htext : w.text = x := by
    rw [text, whole, hx, dropEnding_append w.ending_isEnding.ne_nil]
  obtain ⟨hindex, -⟩ := List.getElem?_eq_some_iff.mp w.row_eq
  have hopen : endsOpen (numberRows w.index (w.edited :: s.rows.drop (w.index + 1))) = true := by
    obtain ⟨front, last, hrows, hlast⟩ := rows_ends s
    have hsame : (w.edited :: s.rows.drop (w.index + 1)).map Row.ending
        = (s.rows.drop w.index).map Row.ending := by
      rw [drop_eq_cons w.row_eq]
      rfl
    rw [endsOpen_numberRows, hsame, List.getLast?_map, List.getLast?_drop, if_neg (by omega)]
    simp [hrows, hlast]
  have hend : w.joined = w.below.length ↔ w.index + w.joined + 1 = s.rows.length := by
    rw [below, length_numberRows, List.length_drop]
    omega
  have hdrop : w.below.drop w.joined = numberRows (w.index + w.joined + 1)
      (s.rows.drop (w.index + w.joined + 1)) := by
    rw [below, numberRows_drop, List.drop_drop, Nat.add_right_comm]
  rw [numberRows, ← below] at hopen ⊢
  rw [hreflow, if_pos hopen, htext, ← joined, hdrop]
  simp only [hend]

end Rewrap

/-- An edit proposed for a typed character agrees with reflow. It leaves what is above the row, and
what is below the last row `m` that it takes in, as they are; and what it puts between them is the
first part of the reflowed rows, up to the ending after row `m`. -/
theorem typed_edit_agrees_with_reflow {style : Style} {s : Text} {o : Nat} {c : Char} {edit : Edit}
    {notes : List Note} (h : (View.ofText s).typeAt style o [c] = .ok ⟨some edit, notes⟩) :
    ∃ k r m last refilled, (View.ofText s).rowAt o = .ok k ∧ (View.ofText s).row k = .ok r ∧
      k ≤ m ∧ (View.ofText s).row m = .ok last ∧
      edit.apply s = .ok (s.take r.offset ++ refilled ++ s.drop last.textEnd) ∧
      reflowLines style ((View.ofText s).endingAt k)
          (numberRows k (r.insert (o - r.offset) c :: s.rows.drop (k + 1))) =
        if m + 1 = (View.ofText s).count then refilled
        else refilled ++ (View.ofText s).endingAt k ++
          reflowLines style ((View.ofText s).endingAt k)
            (numberRows (m + 1) (s.rows.drop (m + 1))) := by
  obtain ⟨w, rfl⟩ := View.typeAt_edit h
  obtain ⟨last, hlast, hstop⟩ := w.last_row
  refine ⟨w.index, w.row, w.index + w.joined, last, w.text, w.rowAt_eq,
    View.row_of_getElem w.row_eq, Nat.le_add_right _ _, View.row_of_getElem hlast, ?_, ?_⟩
  · rw [← hstop]
    exact w.edit_apply
  · exact w.reflowLines_edited

/-- Typing `s` after `alpha` pushes `beta` to the next line, which takes `gamma` along. -/
theorem typed_edit_agrees_with_reflow_alphas :
    ∃ (s : Text) (edit : Edit) (notes : List Note), s = "alpha beta\ngamma\n\nend".toList ∧
      (View.ofText s).typeAt { maxWidth := 10 } 5 ['s'] = .ok ⟨some edit, notes⟩ ∧
      edit.apply s = .ok "alphas\nbeta gamma\n\nend".toList ∧
      ∃ k r m last refilled, (View.ofText s).rowAt 5 = .ok k ∧ (View.ofText s).row k = .ok r ∧
        k ≤ m ∧ (View.ofText s).row m = .ok last ∧
        edit.apply s = .ok (s.take r.offset ++ refilled ++ s.drop last.textEnd) ∧
        reflowLines { maxWidth := 10 } ((View.ofText s).endingAt k)
            (numberRows k (r.insert (5 - r.offset) 's' :: s.rows.drop (k + 1))) =
          if m + 1 = (View.ofText s).count then refilled
          else refilled ++ (View.ofText s).endingAt k ++
            reflowLines { maxWidth := 10 } ((View.ofText s).endingAt k)
              (numberRows (m + 1) (s.rows.drop (m + 1))) := by
  have h : (View.ofText "alpha beta\ngamma\n\nend".toList).typeAt { maxWidth := 10 } (5 : Nat) ['s']
      = .ok ⟨some ⟨5, 6, "s\nbeta ".toList, some 6⟩, [⟨.info, "texreflow.wrap.incremental",
        "Rewrapped lines 0-1 after insertion at offset 5"⟩]⟩ := by
    decide +kernel
  exact ⟨_, _, _, rfl, h, by decide +kernel, typed_edit_agrees_with_reflow h⟩

end HardWrap
