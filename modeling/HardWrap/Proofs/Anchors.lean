import HardWrap.Proofs.Writing

/-! Where a caret stands in words. In a text it stands in a word, right after it, or before the next
one with blanks between; in filled lines it is put at the same character of the same word. So the
words before the word, and those after it, are the same in both. -/

namespace HardWrap

open Text

/-! ### Carets in a text -/

theorem placedWords_cons_blank {c : Char} (h : isBlank c = true) (pos : Nat) (t : Text) :
    placedWords pos (c :: t) = placedWords (pos + 1) t := by
  simp [placedWords, h]

theorem placedWords_word_append {w t : Text} (hw : IsWord w) (ht : atGap t = true) (pos : Nat) :
    placedWords pos (w ++ t) = ⟨pos, w⟩ :: placedWords (pos + w.length) t := by
  obtain ⟨hne, hw⟩ := hw
  induction w generalizing pos with
  | nil => exact absurd rfl hne
  | cons c w ih =>
    have hc : isBlank c = false := hw c (by simp)
    cases w with
    | nil => simp [placedWords, hc, ht]
    | cons d w =>
      have hd : isBlank d = false := hw d (by simp)
      have hrest := ih (pos + 1) (by simp) fun e he => hw e (List.mem_cons_of_mem _ he)
      rw [List.cons_append, placedWords, hrest]
      simp [hc, hd, Nat.add_comm, Nat.add_left_comm]

theorem placedWords_start (pos : Nat) (t : Text) : ∀ w ∈ placedWords pos t, pos ≤ w.start := by
  induction t using word_induction generalizing pos with
  | nil => simp [placedWords]
  | blank c t hc ih =>
    intro w hw
    rw [placedWords_cons_blank hc] at hw
    have := ih (pos + 1) w hw
    omega
  | word v t hv ht ih =>
    intro w hw
    rw [placedWords_word_append hv ht] at hw
    rcases List.mem_cons.mp hw with rfl | hw
    · exact Nat.le_refl _
    · have := ih (pos + v.length) w hw
      omega

/-- A caret before all words is before the first one. -/
theorem anchorOf_ahead (caret : Nat) {ws : List PlacedWord} (h : ∀ w ∈ ws, caret ≤ w.start) :
    anchorOf ws caret = ws.head?.map fun _ => ⟨0, 0⟩ := by
  have hwithin : anchorWithin caret ws = none := by
    induction ws with
    | nil => rfl
    | cons w ws ih =>
      have := h w (by simp)
      rw [anchorWithin, if_neg (by omega), ih fun v hv => h v (List.mem_cons_of_mem _ hv)]
      rfl
  rw [anchorOf, hwithin]
  cases ws with
  | nil => rfl
  | cons w ws => simp [anchorBefore, h w (by simp)]

theorem anchorOf_behind {w : PlacedWord} {caret : Nat} (h : w.start + w.text.length < caret)
    (ws : List PlacedWord) : anchorOf (w :: ws) caret = (anchorOf ws caret).map Anchor.shift := by
  rw [anchorOf, anchorWithin, if_neg (by omega), anchorBefore, if_neg (by omega), anchorOf]
  cases anchorWithin caret ws with
  | none => rfl
  | some a => rfl

/-- The text on both sides of a caret at `n`. The caret is in the word `front ++ back`, or before it
with only blanks between. -/
structure CaretSplit (t : Text) (n : Nat) (a : Anchor) where
  before : Text
  front : Text
  skipped : Text
  back : Text
  after : Text
  take_eq : t.take n = before ++ front
  drop_eq : t.drop n = skipped ++ (back ++ after)
  before_gap : endsAtGap before = true
  skipped_blank : IsBlankText skipped
  front_or_skipped : front = [] ∨ skipped = []
  isWord : IsWord (front ++ back)
  after_gap : atGap after = true
  index_eq : a.index = (words before).length
  within_eq : a.within = front.length

theorem CaretSplit.words_eq {t : Text} {n : Nat} {a : Anchor} (x : CaretSplit t n a) :
    words t = words x.before ++ (x.front ++ x.back) :: words x.after := by
  have ht : t = x.before ++ (x.front ++ (x.skipped ++ (x.back ++ x.after))) := by
    conv_lhs => rw [← List.take_append_drop n t, x.take_eq, x.drop_eq]
    simp
  have hrest : words (x.front ++ (x.skipped ++ (x.back ++ x.after)))
      = (x.front ++ x.back) :: words x.after := by
    rcases x.front_or_skipped with hfront | hskip
    · have hword := x.isWord
      rw [hfront] at hword ⊢
      exact (words_blank_append x.skipped_blank).trans (words_word_append hword x.after_gap)
    · rw [hskip, List.nil_append, ← List.append_assoc]
      exact words_word_append x.isWord x.after_gap
  conv_lhs => rw [ht]
  rw [words_append_of_endsAtGap x.before_gap, hrest]

/-- The caret is in a word or right after one exactly if the text before it ends with the word. -/
theorem CaretSplit.endsAtGap_take {t : Text} {n : Nat} {a : Anchor} (x : CaretSplit t n a) :
    endsAtGap (t.take n) = x.front.isEmpty := by
  rw [x.take_eq]
  rcases List.eq_nil_or_concat' x.front with hnil | ⟨f, c, hf⟩
  · rw [hnil, List.append_nil]
    exact x.before_gap
  · have hc := x.isWord.2 c (by simp [hf])
    rw [hf, ← List.append_assoc, endsAtGap_concat, hc]
    simp

/-- A blank in front of the text, before the caret. -/
def CaretSplit.consBefore {t : Text} {n : Nat} {a : Anchor} (x : CaretSplit t n a) {c : Char}
    (hc : isBlank c = true) : CaretSplit (c :: t) (n + 1) a :=
  { x with
    before := c :: x.before
    take_eq := by simp [x.take_eq]
    drop_eq := by simp [x.drop_eq]
    before_gap := endsAtGap_append_of (a := [c]) (by simpa [endsAtGap] using hc) x.before_gap
    index_eq := by rw [words_cons_blank hc]; exact x.index_eq }

/-- A blank in front of the text, after a caret at its start. -/
def CaretSplit.consAfter {t : Text} {a : Anchor} (x : CaretSplit t 0 a) {c : Char}
    (hc : isBlank c = true) : CaretSplit (c :: t) 0 a :=
  have hnil := List.append_eq_nil_iff.mp x.take_eq.symm
  { x with
    skipped := c :: x.skipped
    take_eq := by simp [hnil.1, hnil.2]
    drop_eq := congrArg (List.cons c) x.drop_eq
    skipped_blank := by simpa [IsBlankText, hc] using x.skipped_blank
    front_or_skipped := Or.inl hnil.2 }

/-- A caret at the start of a word, in it or right after it. -/
def CaretSplit.inWord {w t : Text} (hw : IsWord w) (ht : atGap t = true) {n : Nat}
    (hn : n ≤ w.length) : CaretSplit (w ++ t) n ⟨0, n⟩ where
  before := []
  front := w.take n
  skipped := []
  back := w.drop n
  after := t
  take_eq := by rw [List.nil_append, List.take_append_of_le_length hn]
  drop_eq := by rw [List.nil_append, List.drop_append_of_le_length hn]
  before_gap := rfl
  skipped_blank := by simp [IsBlankText]
  front_or_skipped := Or.inr rfl
  isWord := by rwa [List.take_append_drop]
  after_gap := ht
  index_eq := rfl
  within_eq := by rw [List.length_take, Nat.min_eq_left hn]

/-- A caret past a gap has the gap on its left. -/
theorem CaretSplit.before_of_gap {t : Text} {n : Nat} {a : Anchor} (x : CaretSplit t n a)
    (ht : atGap t = true) (hn : 0 < n) : x.before ≠ [] ∧ atGap x.before = true := by
  have hgap : atGap (x.before ++ x.front) = true := by
    rw [← x.take_eq]
    cases t with
    | nil => simp
    | cons c t =>
      obtain ⟨m, rfl⟩ := Nat.exists_eq_succ_of_ne_zero hn.ne'
      simpa using ht
  have hne : x.before ≠ [] := by
    intro hnil
    rw [hnil, List.nil_append] at hgap
    have hfront : x.front = [] := by
      by_contra hf
      obtain ⟨c, f, hcf⟩ := List.exists_cons_of_ne_nil hf
      have hc := x.isWord.2 c (by simp [hcf])
      rw [hcf, atGap_cons, hc] at hgap
      cases hgap
    -- Then nothing is before the caret, so the text is empty, and there is no word in it.
    have htake := x.take_eq
    rw [hnil, hfront, List.append_nil, List.take_eq_nil_iff] at htake
    rcases htake with hz | rfl
    · omega
    · have hdrop := x.drop_eq
      rw [List.drop_nil, eq_comm, List.append_eq_nil_iff, List.append_eq_nil_iff] at hdrop
      exact x.isWord.1 (by rw [hfront, hdrop.2.1]; rfl)
  exact ⟨hne, by rwa [atGap_append hne] at hgap⟩

/-- A word in front of the text, with the caret past the gap between them. -/
def CaretSplit.wordBefore {t : Text} {n : Nat} {a : Anchor} (x : CaretSplit t n a) {w : Text}
    (hw : IsWord w) (ht : atGap t = true) (hn : 0 < n) :
    CaretSplit (w ++ t) (w.length + n) a.shift :=
  have hbefore := x.before_of_gap ht hn
  { x with
    before := w ++ x.before
    take_eq := by rw [List.take_length_add_append, x.take_eq, List.append_assoc]
    drop_eq := by rw [List.drop_length_add_append, x.drop_eq]
    before_gap := by rw [endsAtGap_append hbefore.1]; exact x.before_gap
    index_eq := by
      rw [words_word_append hw hbefore.2, List.length_cons, ← x.index_eq]
      rfl
    within_eq := x.within_eq }

/-- The place that is found for a caret is where it stands. -/
theorem caretSplit_of_anchorOf {t : Text} (pos : Nat) {n : Nat} {a : Anchor} (hn : n ≤ t.length)
    (h : anchorOf (placedWords pos t) (pos + n) = some a) : Nonempty (CaretSplit t n a) := by
  induction t using word_induction generalizing pos n a with
  | nil => simp [placedWords, anchorOf, anchorWithin, anchorBefore] at h
  | blank c t hc ih =>
    rw [placedWords_cons_blank hc] at h
    cases n with
    | zero =>
      -- Before the blank the caret stands as it does after it.
      have hahead : anchorOf (placedWords (pos + 1) t) (pos + 1 + 0) = some a := by
        have hstart := placedWords_start (pos + 1) t
        rw [anchorOf_ahead (pos + 0) fun w hw => Nat.le_of_succ_le (hstart w hw)] at h
        rwa [anchorOf_ahead (pos + 1 + 0) hstart]
      obtain ⟨x⟩ := ih (pos + 1) (Nat.zero_le _) hahead
      exact ⟨x.consAfter hc⟩
    | succ n =>
      rw [← Nat.add_assoc, Nat.add_right_comm] at h
      obtain ⟨x⟩ := ih (pos + 1) (by simpa using hn) h
      exact ⟨x.consBefore hc⟩
  | word w t hw ht ih =>
    by_cases hin : n ≤ w.length
    · have ha : anchorOf (placedWords pos (w ++ t)) (pos + n) = some ⟨0, n⟩ := by
        cases n with
        | zero =>
          rw [anchorOf_ahead (pos + 0) (placedWords_start pos (w ++ t)),
            placedWords_word_append hw ht]
          rfl
        | succ n =>
          have hcond : pos < pos + (n + 1) ∧ pos + (n + 1) ≤ pos + w.length := by omega
          rw [placedWords_word_append hw ht, anchorOf, anchorWithin, if_pos hcond, Option.some_or,
            Nat.add_sub_cancel_left]
      obtain rfl := Option.some.inj (ha.symm.trans h)
      exact ⟨.inWord hw ht hin⟩
    · obtain ⟨m, rfl⟩ := Nat.exists_eq_add_of_le (Nat.le_of_not_le hin)
      have hbehind : pos + w.length < pos + (w.length + m) := by omega
      rw [placedWords_word_append hw ht, anchorOf_behind hbehind, Option.map_eq_some_iff] at h
      obtain ⟨b, hb, rfl⟩ := h
      rw [← Nat.add_assoc] at hb
      obtain ⟨x⟩ := ih (pos + w.length) (by simpa using hn) hb
      exact ⟨x.wordBefore hw ht (by omega)⟩

/-! ### Carets in filled lines -/

theorem joinWords_split (ws vs : List Text) (w : Text) :
    joinWords (ws ++ w :: vs) =
      (ws.flatMap fun v => v ++ [' ']) ++ (w ++ vs.flatMap fun v => ' ' :: v) := by
  have hsingle : ∀ w, joinWords (w :: vs) = w ++ vs.flatMap fun v => ' ' :: v := by
    induction vs with
    | nil => simp
    | cons v vs ih =>
      intro w
      rw [joinWords_cons_cons, ih v]
      rfl
  induction ws with
  | nil => exact hsingle w
  | cons v ws ih =>
    obtain ⟨u, us, hu⟩ : ∃ u us, ws ++ w :: vs = u :: us :=
      List.exists_cons_of_ne_nil (by simp)
    rw [List.cons_append, hu, joinWords_cons_cons, ← hu, ih]
    simp

theorem words_spaced_after (ws : List Text) (h : ∀ w ∈ ws, IsWord w) :
    words (ws.flatMap fun w => w ++ [' ']) = ws := by
  induction ws with
  | nil => rfl
  | cons w ws ih =>
    rw [List.flatMap_cons, List.append_assoc, words_word_append (h w (by simp)) rfl,
      List.singleton_append, words_cons_blank isBlank_space,
      ih fun v hv => h v (List.mem_cons_of_mem _ hv)]

theorem words_spaced_before (ws : List Text) (h : ∀ w ∈ ws, IsWord w) :
    atGap (ws.flatMap fun w => ' ' :: w) = true ∧ words (ws.flatMap fun w => ' ' :: w) = ws := by
  induction ws with
  | nil => exact ⟨rfl, rfl⟩
  | cons w ws ih =>
    obtain ⟨hgap, hwords⟩ := ih fun v hv => h v (List.mem_cons_of_mem _ hv)
    refine ⟨rfl, ?_⟩
    rw [List.flatMap_cons, List.cons_append, words_cons_blank isBlank_space,
      words_word_append (h w (by simp)) hgap, hwords]

theorem length_spaced_after (ws : List Text) :
    (ws.flatMap fun w => w ++ [' ']).length = extraWidth ws := by
  induction ws with
  | nil => rfl
  | cons w ws ih =>
    rw [List.flatMap_cons, List.length_append, List.length_append, ih]
    rfl

theorem endsAtGap_spaced_after (ws : List Text) :
    endsAtGap (ws.flatMap fun w => w ++ [' ']) = true := by
  rcases List.eq_nil_or_concat' ws with rfl | ⟨ws, w, rfl⟩
  · rfl
  · rw [List.flatMap_append, List.flatMap_singleton, ← List.append_assoc, endsAtGap_concat]
    exact isBlank_space

theorem writeLines_cons (frame : Frame) (e : Text) (line : List Text) (more : List (List Text)) :
    writeLines frame e (line :: more) =
      frame.first ++ joinWords line ++ (e ++ writeLines (.even frame.later) e more) := by
  cases more <;> simp [writeLines, writeLine, Frame.even]

/-- What comes after a line is a gap, the words of the lines below it, and the last ending. -/
theorem writeLines_below {later e : Text} (he : IsEnding e) (hlater : IsBlankText (unmarked later))
    {groups : List (List Text)} (hwords : ∀ line ∈ groups, ∀ w ∈ line, IsWord w) :
    ∃ below, e ++ writeLines (.even later) e groups = below ++ e ∧ atGap below = true ∧
      bareWords below = bare groups.flatten := by
  induction groups with
  | nil => exact ⟨[], by simp [writeLines], rfl, rfl⟩
  | cons line more ih =>
    obtain ⟨below, hbelow, hgap, hbare⟩ := ih fun l hl => hwords l (List.mem_cons_of_mem _ hl)
    refine ⟨e ++ (later ++ joinWords line ++ below), ?_, ?_, ?_⟩
    · rw [writeLines_cons]
      simp [Frame.even, ← hbelow]
    · rw [atGap_append he.ne_nil]
      exact atGap_of_blank he.blank
    · rw [bareWords_of_words_eq (words_blank_append he.blank), bareWords_append_of_atGap hgap,
        bareWords_margin hlater, bareWords_joinWords (hwords line (by simp)), hbare]
      simp

/-- The caret is put at a character of its word, with the words before it on the left and the words
after it on the right. -/
theorem caretIn_split {margin later e : Text} (he : IsEnding e)
    (hmargin : IsBlankText (unmarked margin)) (hlater : IsBlankText (unmarked later))
    {groups : List (List Text)} (hwords : ∀ line ∈ groups, ∀ w ∈ line, IsWord w) {index : Nat}
    {w : Text} (hw : groups.flatten[index]? = some w) (within : Nat) :
    ∃ left right, writeLines ⟨margin, later⟩ e groups = left ++ (w ++ (right ++ e)) ∧
      caretIn margin later e.length groups index within = left.length + within ∧
      endsAtGap (unmarked left) = true ∧ bareWords left = bare (groups.flatten.take index) ∧
      atGap right = true ∧ bareWords right = bare (groups.flatten.drop (index + 1)) := by
  induction groups generalizing margin index with
  | nil => simp at hw
  | cons line more ih =>
    have hline := hwords line (by simp)
    have hmore : ∀ l ∈ more, ∀ w ∈ l, IsWord w := fun l hl => hwords l (List.mem_cons_of_mem _ hl)
    rw [List.flatten_cons] at hw ⊢
    by_cases hin : index < line.length
    · -- The word is on this line.
      rw [List.getElem?_append_left hin] at hw
      have hget := (List.getElem?_eq_some_iff.mp hw).2
      have hsplit : line = line.take index ++ w :: line.drop (index + 1) := by
        rw [← hget, ← List.drop_eq_getElem_cons hin, List.take_append_drop]
      obtain ⟨below, hbelow, hgap, hbare⟩ := writeLines_below he hlater hmore
      obtain ⟨hright, hrightwords⟩ := words_spaced_before (line.drop (index + 1))
        fun v hv => hline v (List.mem_of_mem_drop hv)
      have hleft := words_spaced_after (line.take index)
        fun v hv => hline v (List.mem_of_mem_take hv)
      refine ⟨margin ++ (line.take index).flatMap fun v => v ++ [' '],
        ((line.drop (index + 1)).flatMap fun v => ' ' :: v) ++ below, ?_, ?_, ?_, ?_, ?_, ?_⟩
      · rw [writeLines_cons, hbelow]
        conv_lhs => rw [hsplit, joinWords_split]
        simp
      · rw [caretIn, if_pos hin, List.length_append, length_spaced_after]
      · rw [unmarked_append]
        exact endsAtGap_append_of (endsAtGap_of_blank hmargin)
          (endsAtGap_unmarked (endsAtGap_spaced_after _))
      · rw [bareWords_margin hmargin, bareWords, hleft, List.take_append_of_le_length hin.le]
      · exact atGap_append_of hright hgap
      · rw [bareWords_append_of_atGap hgap, hbare, bareWords, hrightwords, ← bare_append,
          List.drop_append_of_le_length hin]
    · rw [List.getElem?_append_right (Nat.le_of_not_lt hin)] at hw
      obtain ⟨left, right, hwrite, hcaret, hends, hbefore, hgap, hafter⟩ := ih hlater hmore hw
      refine ⟨margin ++ joinWords line ++ e ++ left, right, ?_, ?_, ?_, ?_, hgap, ?_⟩
      · rw [writeLines_cons]
        simp [Frame.even, hwrite]
      · rw [caretIn, if_neg hin, hcaret]
        simp only [List.length_append]
        omega
      · rw [unmarked_append]
        exact endsAtGap_append_of (endsAtGap_unmarked (endsAtGap_ended he _)) hends
      · rw [bareWords_append (endsAtGap_ended he _), hbefore,
          bareWords_of_words_eq (words_append_blank he.blank), bareWords_margin hmargin,
          bareWords_joinWords hline, ← bare_append, List.take_append,
          List.take_of_length_le (Nat.le_of_not_lt hin)]
      · have hline : line.drop (index + 1) = [] := List.drop_eq_nil_of_le (by omega)
        have hindex : index + 1 - line.length = index - line.length + 1 := by omega
        rw [hafter, List.drop_append, hline, List.nil_append, hindex]

end HardWrap
