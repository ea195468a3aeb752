import HardWrap.Proofs.Writing

/-! Percent signs and words. Whether a line is a comment is decided by its first word, and a line
without an in-line comment has no word that starts with a percent sign, its first word apart. -/

namespace HardWrap

open Text

/-! ### Comment lines -/

theorem startsWith_percent (t : Text) : startsWith "%" t = true ↔ t.head? = some '%' := by
  cases t with
  | nil => simp [startsWith]
  | cons c t =>
    simp only [startsWith, List.head?_cons, Option.some.injEq]
    constructor
    · intro h
      have : '%' = c := by simpa using h
      exact this.symm
    · rintro rfl
      simp

/-- The first character that is not blank is the first one of the first word. -/
theorem head?_strip (t : Text) : (strip t).head? = (words t).head?.bind List.head? := by
  by_cases hs : strip t = []
  · have hwords : words t = [] := by rw [← words_strip, hs]; rfl
    rw [hs, hwords]
    rfl
  · obtain ⟨w, r, hsplit, hw, hr⟩ := split_first_word (atGap_strip hs)
    obtain ⟨c, w, rfl⟩ := List.exists_cons_of_ne_nil hw.1
    have hwords : words t = (c :: w) :: words r := by
      rw [← words_strip, hsplit, words_word_append hw hr]
    rw [hsplit, hwords]
    rfl

theorem isCommentLine_iff (line : Text) :
    isCommentLine line = true ↔ (words line).head?.bind List.head? = some '%' := by
  rw [isCommentLine, startsWith_percent, head?_strip]

theorem kindOf_eq_comment_iff (line : Text) :
    kindOf line = .comment ↔ isCommentLine line = true := by
  constructor
  · intro h
    simp only [kindOf] at h
    split at h
    · cases h
    · split at h
      next hcomment => exact hcomment
      · split at h
        · cases h
        · cases h
        · simp only [contentKind] at h
          split at h
          · cases h
          · split at h <;> cases h
  · intro h
    have hne : strip line ≠ [] := by
      intro hnil
      rw [isCommentLine, startsWith_percent, hnil] at h
      cases h
    have hstart : startsWith "%" (strip line) = true := h
    simp [kindOf, hne, hstart]

/-! ### In-line comments -/

theorem commentAfter_some {before : Char} {start pos : Nat} {t : Text}
    (h : commentAfter before start t = some pos) :
    ∃ a r, t = a ++ '%' :: r ∧ pos = start + a.length ∧ commentAfter before start a = none ∧
      (before :: a).getLast? ≠ some '\\' := by
  induction t generalizing before start with
  | nil => cases h
  | cons c t ih =>
    simp only [commentAfter] at h
    split at h
    next hsign =>
      simp only [Bool.and_eq_true, decide_eq_true_eq, bne_iff_ne] at hsign
      obtain ⟨rfl, hbefore⟩ := hsign
      exact ⟨[], t, rfl, (Option.some.inj h).symm, rfl, by simpa using hbefore⟩
    next hsign =>
      obtain ⟨a, r, rfl, hpos, hnone, hlast⟩ := ih h
      refine ⟨c :: a, r, rfl, ?_, ?_, ?_⟩
      · rw [hpos, List.length_cons]
        omega
      · rw [commentAfter, if_neg hsign]
        exact hnone
      · rwa [List.getLast?_cons_cons]

/-- What stands before an in-line comment holds none itself and does not end with a backslash. -/
theorem commentAt?_some {t : Text} {pos : Nat} (h : commentAt? t = some pos) :
    ∃ r, t = t.take pos ++ '%' :: r ∧ commentAt? (t.take pos) = none ∧
      (t.take pos).getLast? ≠ some '\\' ∧ (t.take pos).head? = t.head? := by
  cases t with
  | nil => cases h
  | cons c t =>
    obtain ⟨a, r, rfl, rfl, hnone, hlast⟩ := commentAfter_some h
    have htake : (c :: (a ++ '%' :: r)).take (1 + a.length) = c :: a := by
      rw [Nat.add_comm, List.take_succ_cons, List.take_left]
    rw [htake]
    exact ⟨r, rfl, hnone, hlast, rfl⟩

theorem commentAfter_append_none {before : Char} {start : Nat} {w t : Text}
    (h : commentAfter before start (w ++ t) = none) :
    ∃ d k, commentAfter d k t = none := by
  induction w generalizing before start with
  | nil => exact ⟨before, start, h⟩
  | cons c w ih =>
    simp only [List.cons_append, commentAfter] at h
    split at h
    · cases h
    · exact ih h

/-- Without a sign every word starts with another character, unless a backslash comes before it. -/
theorem commentAfter_none_words {t : Text} : ∀ {before : Char} {start : Nat},
    commentAfter before start t = none → before ≠ '\\' ∨ atGap t = true →
      ∀ w ∈ words t, w.head? ≠ some '%' := by
  induction t using word_induction with
  | nil => simp
  | blank c t hc ih =>
    intro before start h _
    simp only [commentAfter] at h
    split at h
    · cases h
    · have hslash : c ≠ '\\' := by
        rintro rfl
        exact absurd hc (by decide)
      rw [words_cons_blank hc]
      exact ih h (Or.inl hslash)
  | word w t hw ht ih =>
    intro before start h hseam v hv
    obtain ⟨c, w, rfl⟩ := List.exists_cons_of_ne_nil hw.1
    rw [words_word_append hw ht] at hv
    rcases List.mem_cons.mp hv with rfl | hv
    · have hbefore : before ≠ '\\' := by
        rcases hseam with hseam | hgap
        · exact hseam
        · have hc := hw.2 c (by simp)
          rw [atGap_append hw.1, atGap_cons, hc] at hgap
          cases hgap
      intro hhead
      obtain rfl : c = '%' := by simpa using hhead
      simp [commentAfter, hbefore] at h
    · obtain ⟨d, k, hrest⟩ := commentAfter_append_none h
      exact ih hrest (Or.inr ht) v hv

theorem words_head_ne_percent {t : Text} (hnone : commentAt? t = none)
    (hfirst : t.head? ≠ some '%') : ∀ w ∈ words t, w.head? ≠ some '%' := by
  cases t with
  | nil => simp
  | cons c t =>
    have hc : c ≠ '%' := by simpa using hfirst
    have hall : commentAfter ' ' 0 (c :: t) = none := by
      rw [commentAfter, if_neg (by simp [hc])]
      exact hnone
    exact commentAfter_none_words hall (Or.inl (by decide))

/-! ### The lines of a paragraph -/

namespace Paragraph

/-- Every line after the first one continues the paragraph as it was opened: only its kind and its
margins count. -/
theorem Absorbs.joins {style : Style} {p q : Paragraph} {lines : List Text}
    (h : Absorbs style p lines q) : ∀ line ∈ lines, p.joins style line = true := by
  induction h with
  | done p => simp
  | step hj _ ih =>
    intro l hl
    rcases List.mem_cons.mp hl with rfl | hl
    · exact hj
    · exact ih l hl

theorem kindOf_of_joins {style : Style} {p : Paragraph} {line : Text} (hp : p.kind ≠ .comment)
    (h : p.joins style line = true) : kindOf line = .prose none := by
  unfold Paragraph.joins at h
  split at h
  next hcomment _ => exact absurd hcomment hp
  next hk => exact hk
  next hk => exact hk
  next => cases h

theorem comment_of_joins {style : Style} {p : Paragraph} {line : Text} (hp : p.kind = .comment)
    (h : p.joins style line = true) :
    isMergeableComment line = true ∧ p.admits (commentMargin style.tabWidth line) = true := by
  unfold Paragraph.joins at h
  split at h
  next => simpa [continuedByComment, hp] using h
  next hprose _ => rw [hp] at hprose; cases hprose
  next hitem _ => rw [hp] at hitem; cases hitem
  next => cases h

end Paragraph

/-- The lines of a paragraph, if none is a comment, hold no comments either. -/
theorem Section.Reads.plain_lines {style : Style} {lines : List Line} {q : Paragraph}
    (h : Reads style lines (.paragraph q)) (hplain : ∀ l ∈ lines, isCommentLine l.text = false) :
    q.kind ≠ .comment ∧ ∀ l ∈ lines, commentAt? (strip l.text) = none := by
  generalize hb : Block.paragraph q = b at h
  cases h with
  | copied line crossing => cases hb
  | commented line pos hk hbody => simp [commentedBlock, hbody] at hb
  | paragraph line rest p q' hp hrest =>
    obtain rfl := Block.paragraph.inj hb
    have hfirst : p.kind ≠ .comment ∧ commentAt? (strip line.text) = none := by
      unfold Paragraph.ofLine? at hp
      split at hp
      next hk =>
        obtain rfl := Option.some.inj hp
        exact ⟨by simp [proseParagraph], kindOf_commentAt (Or.inr hk)⟩
      next hk =>
        obtain rfl := Option.some.inj hp
        exact ⟨by simp [itemParagraph], kindOf_commentAt (Or.inl hk)⟩
      next hk =>
        have := hplain line (by simp)
        rw [(kindOf_eq_comment_iff line.text).mp hk] at this
        cases this
      next => cases hp
    refine ⟨by rw [hrest.spec.1]; exact hfirst.1, ?_⟩
    intro l hl
    rcases List.mem_cons.mp hl with rfl | hl
    · exact hfirst.2
    · have hjoin := hrest.joins l.text (List.mem_map_of_mem hl)
      exact kindOf_commentAt (Or.inr (Paragraph.kindOf_of_joins hfirst.1 hjoin))

end HardWrap
