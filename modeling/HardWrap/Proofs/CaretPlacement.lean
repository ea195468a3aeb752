import HardWrap.Proofs.TypingSession

/-! The caret after one typed character. A character that is not blank is the last one before the
caret of the proposed edit, wherever its word has moved. On either side of the caret stand the
characters that stand there without refilling, but for blanks and percent signs: these are the
characters of the words, in order. -/

namespace HardWrap

open Text

/-- What a text shows: its characters without blanks and percent signs. -/
def Text.ink (t : Text) : Text :=
  t.filter fun c => !isBlank c && c != '%'

theorem flatten_words (t : Text) : (words t).flatten = t.filter fun c => !isBlank c := by
  induction t using word_induction with
  | nil => rfl
  | blank c t hc ih =>
    rw [words_cons_blank hc, ih, List.filter_cons_of_neg]
    simp [hc]
  | word w t hw ht ih =>
    have hkeep : w.filter (fun c => !isBlank c) = w := by
      rw [List.filter_eq_self]
      intro c hc
      simp [hw.2 c hc]
    rw [words_word_append hw ht, List.flatten_cons, ih, List.filter_append, hkeep]

theorem ink_eq (t : Text) : ink t = (bareWords t).flatten := by
  rw [bareWords_eq, flatten_words, unmarked, List.filter_filter, ink]

namespace Rewrap

variable {style : Style} {s : Text} {offset : Nat} {typed : Char}

/-- The word at the caret is cut right after the typed character. -/
theorem getLast?_before_caret (w : Rewrap style s offset typed) (htyped : isBlank typed = false) :
    (w.result.take w.caret).getLast? = some typed := by
  obtain ⟨a⟩ := w.around
  obtain ⟨hresult, hcaret⟩ := a.result_split
  have hfront : a.front ≠ [] := by
    intro hnil
    have hblank := a.typed_blank
    rw [htyped, hnil] at hblank
    cases hblank
  have hlast := congrArg List.getLast? a.above_eq
  rw [List.getLast?_concat, List.getLast?_append_of_ne_nil _ hfront] at hlast
  rw [hresult, hcaret, List.take_left, List.getLast?_append_of_ne_nil _ hfront, ← hlast]

theorem char_before_caret (w : Rewrap style s offset typed) (htyped : isBlank typed = false) :
    1 ≤ w.caret ∧ w.result[w.caret - 1]? = some typed := by
  have hlast := w.getLast?_before_caret htyped
  rw [List.getLast?_take] at hlast
  split at hlast
  · cases hlast
  next hpos =>
    have hle := w.caret_le
    have hin : w.caret - 1 < w.result.length := by omega
    rw [List.getElem?_eq_getElem hin, Option.some_or, ← List.getElem?_eq_getElem hin] at hlast
    exact ⟨Nat.one_le_iff_ne_zero.mpr hpos, hlast⟩

end Rewrap

/-- The caret of an edit proposed for a character that is not blank stands right after the
character. The text before it shows what the typed text shows up to the character, the text after
it shows the rest, and the words are those of plain typing. -/
theorem caret_follows_typed_character {style : Style} {s : Text} {o : Nat} {c : Char} {edit : Edit}
    {notes : List Note} (hc : isBlank c = false)
    (h : (View.ofText s).typeAt style o [c] = .ok ⟨some edit, notes⟩) :
    ∃ (t : Text) (k : Nat), edit.apply s = .ok t ∧ edit.caret = some (k : Int) ∧
      1 ≤ k ∧ k ≤ t.length ∧ t[k - 1]? = some c ∧
      ink (t.take k) = ink (s.take o ++ [c]) ∧ ink (t.drop k) = ink (s.drop o) ∧
      bareWords t = bareWords (s.take o ++ c :: s.drop o) := by
  obtain ⟨w, rfl⟩ := View.typeAt_edit h
  obtain ⟨hpos, hchar⟩ := w.char_before_caret hc
  refine ⟨w.result, w.caret, w.edit_apply, w.edit_caret, hpos, w.caret_le, hchar, ?_, ?_, ?_⟩
  · rw [ink_eq, ink_eq, w.before_caret.words_eq]
  · rw [ink_eq, ink_eq, w.words_after_caret]
  · -- Only a blank can cost the gap after the caret.
    have hkept : ¬ (losesGap c (s.drop o) = true ∧
        endsAtGap (unmarked (s.take o ++ [c])) = false) := by
      rw [losesGap, hc]
      simp
    rw [w.keepsWords.bareWords_eq_iff.mpr hkept, List.append_assoc, List.singleton_append]

/-- A character typed inside the last word of a comment moves the word to a line of its own, and the
tab of the comment line below becomes spaces. -/
theorem caret_follows_typed_character_comment :
    ∃ (s : Text) (edit : Edit) (notes : List Note), s = "  % one two\r\n\t% six\r\nend".toList ∧
      (View.ofText s).typeAt { maxWidth := 11, tabWidth := 2 } 9 ['x'] = .ok ⟨some edit, notes⟩ ∧
      edit.apply s = .ok "  % one\r\n  % txwo\r\n  % six\r\nend".toList ∧
      ∃ (t : Text) (k : Nat), edit.apply s = .ok t ∧ edit.caret = some (k : Int) ∧
        1 ≤ k ∧ k ≤ t.length ∧ t[k - 1]? = some 'x' ∧
        ink (t.take k) = ink (s.take 9 ++ ['x']) ∧ ink (t.drop k) = ink (s.drop 9) ∧
        bareWords t = bareWords (s.take 9 ++ 'x' :: s.drop 9) := by
  have h : (View.ofText "  % one two\r\n\t% six\r\nend".toList).typeAt
      { maxWidth := 11, tabWidth := 2 } (9 : Nat) ['x']
      = .ok ⟨some ⟨7, 7, "\r\n  % txwo\r\n  ".toList, some 15⟩, [⟨.info,
        "texreflow.wrap.incremental", "Rewrapped lines 0-1 after insertion at offset 9"⟩]⟩ := by
    decide +kernel
  exact ⟨_, _, _, rfl, h, by decide +kernel, caret_follows_typed_character (by decide) h⟩

end HardWrap
