import HardWrap.Proofs.WidthBound

/-! What the audit says about the widths of a reflowed text. It excuses lines of the source, lines
that hold one word and lines with an in-line comment, and it looks for the comment by the kind of
the finished line. The last line of a commented block can begin with the border of an environment or
hold nothing but commands, although the line that it comes from did not. Such a line counts as
markup, its comment is not looked for, and it is reported. No other line is. -/

namespace HardWrap

open Text

/-- Borders of environments and lines of commands, which are not searched for comments. -/
def LineKind.isMarkup : LineKind → Bool
  | begins _ | ends _ | command => true
  | blank | comment | item _ | prose _ => false

/-- A line that is neither blank nor a comment is searched for a comment unless it is markup. -/
theorem kindOf_markup_or_commentAt {line : Text} (hne : strip line ≠ [])
    (hplain : isCommentLine line = false) :
    (kindOf line).isMarkup = true ∨ (kindOf line).commentAt = commentAt? (strip line) := by
  have hstart : startsWith "%" (strip line) = false := hplain
  simp only [kindOf, List.isEmpty_iff, hne, hstart, Bool.false_eq_true, ↓reduceIte]
  split
  · exact Or.inl rfl
  · exact Or.inl rfl
  · rw [contentKind]
    split
    · exact Or.inr rfl
    · split
      · exact Or.inl rfl
      · exact Or.inr rfl

theorem LineKind.commentAt_of_isMarkup {kind : LineKind} (h : kind.isMarkup = true) :
    kind.commentAt = none := by
  cases kind with
  | blank => cases h
  | comment => cases h
  | begins name => rfl
  | ends name => rfl
  | item at? => cases h
  | command => rfl
  | prose at? => cases h

namespace Text.IsCommentOf

theorem ends_append {a tail : Text} (h : IsCommentOf a tail) (b : Text) :
    endsAtGap (b ++ tail) = false := by
  rw [endsAtGap_append, h.ends]
  intro hnil
  have hends := h.ends
  rw [hnil] at hends
  cases hends

/-- The comment is missed only if the line reads as markup. -/
theorem isMarkup {a tail : Text} (h : IsCommentOf a tail) (ha : words a ≠ [])
    (hplain : isCommentLine a = false) (hnone : (kindOf (a ++ tail)).commentAt = none) :
    (kindOf (a ++ tail)).isMarkup = true := by
  obtain ⟨gap, r, -, -, pos, -, hpos⟩ := h.commentAt ha
  have hstrip : strip (a ++ tail) = stripLeft a ++ tail := by
    rw [strip, stripLeft_append ha, stripRight_of_ends (h.ends_append _)]
  have hne : strip (a ++ tail) ≠ [] := by
    rw [hstrip]
    simp [stripLeft_ne_nil ha]
  rw [← isCommentLine_append ha tail] at hplain
  rcases kindOf_markup_or_commentAt hne hplain with hmarkup | hfound
  · exact hmarkup
  · rw [hnone, hstrip, hpos] at hfound
    cases hfound

end Text.IsCommentOf

namespace Audit

theorem isExcused_eq_false_iff (sources : List Text) (line : Text) :
    isExcused sources line = false ↔ line ∉ sources ∧ 1 < (Text.words (body line)).length ∧
      (kindOf line).commentAt = none := by
  simp [isExcused, and_assoc]

/-- What is found on a line that is too wide and not excused. -/
theorem width_eq_some_iff (most : Int) (sources : List Text) (line : Line) (f : Finding) :
    width most sources line = some f ↔
      most < (stripRight line.text).length ∧ isExcused sources line.text = false ∧
        .tooWide (line.number + 1) line.text = f := by
  simp [width, and_assoc]

end Audit

theorem audit_tooWide_iff (most : Int) (source result x : Text) :
    (∃ n, .tooWide n x ∈ audit most source result) ↔
      (∃ l ∈ result.lines, l.text = x) ∧ most < (stripRight x).length ∧
        x ∉ source.lines.map Line.text ∧ 1 < (words (Audit.body x)).length ∧
          (kindOf x).commentAt = none := by
  rw [← Audit.isExcused_eq_false_iff]
  have hwords : ∀ n, .tooWide n x ∉ Audit.words source result := by
    intro n
    simp only [Audit.words]
    split <;> simp
  have hblanks : ∀ n, .tooWide n x ∉ Audit.blanks source result := by
    intro n
    simp only [Audit.blanks]
    split <;> simp
  constructor
  · rintro ⟨n, hn⟩
    have hwide : Finding.tooWide n x ∈ Audit.widths most source result := by
      simpa [audit, hwords, hblanks] using hn
    obtain ⟨l, hl, hfound⟩ := List.mem_filterMap.mp hwide
    obtain ⟨hlong, hexcused, hsame⟩ := (Audit.width_eq_some_iff most _ l _).mp hfound
    obtain ⟨-, rfl⟩ := Finding.tooWide.inj hsame
    exact ⟨⟨l, hl, rfl⟩, hlong, hexcused⟩
  · rintro ⟨⟨l, hl, rfl⟩, hlong, hexcused⟩
    refine ⟨l.number + 1, List.mem_append_right _ (List.mem_filterMap.mpr ⟨l, hl, ?_⟩)⟩
    exact (Audit.width_eq_some_iff most _ l _).mpr ⟨hlong, hexcused, rfl⟩

/-! ### Lines that are reported -/

/-- A line is reported exactly if it is the last one of a commented block, does not stand in the
source, neither fits nor holds a single word, and now reads as markup. -/
theorem audit_reports_wide_iff (style : Style) (t x : Text) :
    (∃ n, .tooWide n x ∈ audit style.maxWidth t (reflow style t)) ↔
      ∃ c, .commented c ∈ blocksOf style t.lines ∧
        ((Block.commented c).contents style.maxWidth).getLast? = some x ∧
        x ∉ t.lines.map Line.text ∧ ¬ Fits style.maxWidth x ∧ (kindOf x).isMarkup = true := by
  rw [audit_tooWide_iff]
  constructor
  · rintro ⟨hline, hlong, hsource, hwords, hnone⟩
    have hnil : x ≠ [] := by
      rintro rfl
      exact absurd hwords (by decide)
    have hfits : ¬ Fits style.maxWidth x := by
      have hle := (stripRight_initial x).length_le
      rintro (hshort | hone) <;> omega
    obtain ⟨b, hb, hmem⟩ := (mem_reflow_lines style t hnil).mp hline
    obtain ⟨lines, hsub, hreads⟩ := block_reads hb
    cases hreads.blockLine style.maxWidth x hmem with
    | copied block source => exact absurd (List.mem_map_of_mem (hsub source)) hsource
    | filled fits => exact absurd fits hfits
    | commented block last fits nonempty plain comment =>
      subst block
      exact ⟨_, hb, last, hsource, hfits, comment.isMarkup nonempty plain hnone⟩
  · rintro ⟨c, hb, hlast, hsource, hfits, hmarkup⟩
    have hmem : x ∈ (Block.commented c).contents style.maxWidth := List.mem_of_getLast? hlast
    obtain ⟨lines, -, hreads⟩ := block_reads hb
    have hends : endsAtGap x = false := by
      obtain ⟨front, y, hcontents, -, -, -, hcomment⟩ := hreads.commented_lines style.maxWidth
      rw [hcontents, List.getLast?_concat] at hlast
      rw [← Option.some.inj hlast]
      exact hcomment.ends_append y
    have hnil : x ≠ [] := by
      rintro rfl
      cases hends
    rw [Fits, not_or, Int.not_le, Nat.not_le] at hfits
    refine ⟨(mem_reflow_lines style t hnil).mpr ⟨_, hb, hmem⟩, ?_, hsource, hfits.2,
      LineKind.commentAt_of_isMarkup hmarkup⟩
    rw [stripRight_of_ends hends]
    exact hfits.1

/-- The text before the comment is wrapped before the border of an environment, and the line that
the border opens is reported though nothing of it could be moved. -/
theorem audit_can_report_commented_line :
    ¬ ∀ (style : Style) (t : Text), style.Valid →
      ∀ n x, .tooWide n x ∉ audit style.maxWidth t (reflow style t) := by
  intro h
  have := h { maxWidth := 12 } "aaa \\begin\x7bx\x7d % long comment\n".toList (by decide) 2
    "\\begin\x7bx\x7d % long comment".toList
  revert this
  decide +kernel

end HardWrap
