import HardWrap.Proofs.CommentSigns

/-! Seams between lines. The lines before a seam and the lines after it are read apart from each
other if no environment is left open and no paragraph from before the seam goes on after it. Which
lines continue a paragraph is decided by its margins and by whether it is a comment, so it is enough
to look at the paragraphs that single lines open. -/

namespace HardWrap

open Text

namespace Paragraph

variable {style : Style} {p : Paragraph}

theorem prose_of_joins {line : Text} (hp : p.kind ≠ .comment) (h : p.joins style line = true) :
    opensParagraph line = false ∧ p.admits (margin style.tabWidth line) = true := by
  have hk := kindOf_of_joins hp h
  cases hpk : p.kind with
  | comment => exact absurd hpk hp
  | prose => simpa [joins, hpk, hk, continuedByProse] using h
  | item => simpa [joins, hpk, hk, continuedByProse] using h

theorem joins_of_prose {line : Text} (hp : p.kind ≠ .comment) (hk : kindOf line = .prose none)
    (hopens : opensParagraph line = false)
    (hadmits : p.admits (margin style.tabWidth line) = true) :
    p.joins style line = true := by
  cases hpk : p.kind with
  | comment => exact absurd hpk hp
  | prose => simp [joins, hpk, hk, continuedByProse, hopens, hadmits]
  | item => simp [joins, hpk, hk, continuedByProse, hopens, hadmits]

theorem joins_of_comment {line : Text} (hp : p.kind = .comment)
    (hmerge : isMergeableComment line = true)
    (hadmits : p.admits (commentMargin style.tabWidth line) = true) :
    p.joins style line = true := by
  have hline := hmerge
  rw [isMergeableComment, Bool.and_eq_true] at hline
  simp [joins, hp, (kindOf_eq_comment_iff line).mpr hline.1, hmerge, continuedByComment, hadmits]

theorem joins_mono {q : Paragraph} (hkind : p.kind = .comment ↔ q.kind = .comment)
    (hadmits : ∀ m, p.admits m = true → q.admits m = true) {line : Text}
    (h : p.joins style line = true) : q.joins style line = true := by
  by_cases hp : p.kind = .comment
  · obtain ⟨hmerge, hmargin⟩ := comment_of_joins hp h
    exact joins_of_comment (hkind.mp hp) hmerge (hadmits _ hmargin)
  · obtain ⟨hopens, hmargin⟩ := prose_of_joins hp h
    exact joins_of_prose (fun hq => hp (hkind.mpr hq)) (kindOf_of_joins hp h) hopens
      (hadmits _ hmargin)

/-- A line that continues a paragraph could open one. -/
theorem ofLine?_of_joins {line : Text} (h : p.joins style line = true) :
    ∃ q, ofLine? style line = some q := by
  by_cases hp : p.kind = .comment
  · obtain ⟨hmerge, -⟩ := comment_of_joins hp h
    have hline := hmerge
    rw [isMergeableComment, Bool.and_eq_true] at hline
    exact ⟨_, by rw [ofLine?, (kindOf_eq_comment_iff line).mpr hline.1]; exact if_pos hmerge⟩
  · exact ⟨_, by rw [ofLine?, kindOf_of_joins hp h]⟩

theorem joins_of_lone (p : Paragraph) {line : Text} (h : ofLine? style line = none) :
    p.joins style line = false := by
  by_contra hjoins
  rw [Bool.not_eq_false] at hjoins
  obtain ⟨q, hq⟩ := ofLine?_of_joins hjoins
  rw [h] at hq
  cases hq

/-! ### Where a paragraph ends -/

/-- A paragraph ends with a line that ends it or before a line that does not continue it. -/
theorem absorb_stops (p : Paragraph) (style : Style) (lines : List Text) :
    (∃ x ∈ (lines.take (p.absorb style lines).2).getLast?, p.isEndedBy x = true) ∨
      ∀ y ∈ (lines.drop (p.absorb style lines).2).head?, p.joins style y = false := by
  induction lines generalizing p with
  | nil => exact Or.inr (by simp [absorb])
  | cons line rest ih =>
    simp only [absorb]
    cases hjoins : p.joins style line with
    | false => exact Or.inr (by simpa using hjoins)
    | true =>
      cases hends : p.isEndedBy line with
      | true => exact Or.inl ⟨line, by simp, hends⟩
      | false =>
        simp only [↓reduceIte, Bool.false_eq_true, List.take_succ_cons, List.drop_succ_cons]
        rcases ih (p.extend line) with ⟨x, hx, hended⟩ | hno
        · refine Or.inl ⟨x, ?_, hended⟩
          rw [List.getLast?_cons, Option.mem_def.mp hx]
          rfl
        · exact Or.inr hno

theorem gather_stops (p : Paragraph) (style : Style) (line : Line) (rest : List Line) :
    (∃ l ∈ (line :: rest.take (p.gather style line rest).2).getLast?,
        (p.gather style line rest).1.isEndedBy l.text = true) ∨
      ∀ l ∈ (rest.drop (p.gather style line rest).2).head?,
        (p.gather style line rest).1.joins style l.text = false := by
  obtain ⟨hkind, hframe, -, -⟩ := (p.gather_absorbs style line rest).spec
  have hends : ∀ x, (p.gather style line rest).1.isEndedBy x = p.isEndedBy x := by
    intro x
    rw [isEndedBy, isEndedBy, hkind]
  have hjoins : ∀ x, p.joins style x = false →
      (p.gather style line rest).1.joins style x = false := by
    intro x hno
    rw [Bool.eq_false_iff] at hno ⊢
    refine fun hyes => hno (joins_mono (by rw [hkind]) (fun m hm => ?_) hyes)
    rwa [admits, hframe] at hm
  simp only [hends]
  unfold gather at hjoins ⊢
  split at hjoins
  next hended => exact Or.inl ⟨line, by simp [hended], hended⟩
  next hgoes =>
    simp only [hgoes, Bool.false_eq_true, ↓reduceIte]
    rcases absorb_stops p style (rest.map Line.text) with ⟨x, hx, hended⟩ | hno
    · rw [← List.map_take, List.getLast?_map] at hx
      obtain ⟨l, hl, rfl⟩ := Option.map_eq_some_iff.mp hx
      exact Or.inl ⟨l, by rw [List.getLast?_cons, hl]; rfl, hended⟩
    · refine Or.inr fun l hl => hjoins l.text (hno l.text ?_)
      rw [← List.map_drop, List.head?_map, Option.mem_def.mp hl]
      rfl

/-- Lines after a seam are not absorbed if the paragraph does not get past the seam. -/
theorem absorb_append {xs ys : List Text}
    (h : (∀ x ∈ xs, p.joins style x = true) → ∀ y ∈ ys.head?, p.joins style y = true →
      ∃ x ∈ xs.getLast?, p.isEndedBy x = true) :
    p.absorb style (xs ++ ys) = p.absorb style xs := by
  induction xs generalizing p with
  | nil =>
    cases ys with
    | nil => rfl
    | cons y ys =>
      have hno : p.joins style y = false := by
        by_contra hyes
        obtain ⟨x, hx, -⟩ := h (by simp) y (by simp) (by simpa using hyes)
        cases hx
      simp [absorb, hno]
  | cons x xs ih =>
    simp only [List.cons_append, absorb]
    cases hjoins : p.joins style x with
    | false => rfl
    | true =>
      cases hends : p.isEndedBy x with
      | true => rfl
      | false =>
        rw [ih]
        intro hall y hy hyes
        obtain ⟨l, hl, hended⟩ := h (List.forall_mem_cons.mpr ⟨hjoins, hall⟩) y hy hyes
        by_cases hnil : xs = []
        · subst hnil
          obtain rfl : x = l := by simpa using hl
          rw [hends] at hended
          cases hended
        · rw [List.getLast?_cons_of_ne_nil hnil] at hl
          exact ⟨l, hl, hended⟩

theorem gather_append {line : Line} {rest ys : List Line}
    (h : (∀ l ∈ rest, p.joins style l.text = true) → ∀ y ∈ ys.head?,
      p.joins style y.text = true → ∃ l ∈ (line :: rest).getLast?, p.isEndedBy l.text = true) :
    p.gather style line (rest ++ ys) = p.gather style line rest := by
  unfold gather
  split
  next => rfl
  next hgoes =>
    rw [List.map_append, absorb_append]
    intro hall y hy hyes
    rw [List.head?_map] at hy
    obtain ⟨l, hl, rfl⟩ := Option.map_eq_some_iff.mp hy
    obtain ⟨last, hlast, hended⟩ := h (List.forall_mem_map.mp hall) l hl hyes
    by_cases hnil : rest = []
    · subst hnil
      obtain rfl : line = last := by simpa using hlast
      exact absurd hended hgoes
    · rw [List.getLast?_cons_of_ne_nil hnil] at hlast
      exact ⟨last.text, by rw [List.getLast?_map, hlast]; rfl, hended⟩

end Paragraph

/-! ### Sections on both sides of a seam -/

/-- No paragraph that one of the lines opens goes on to the line after them. -/
def Closes (style : Style) (lines : List Text) (next : Text) : Prop :=
  ∀ line rest p, line :: rest <:+ lines → Paragraph.ofLine? style line = some p →
    (∀ l ∈ rest, p.joins style l = true) → p.joins style next = true →
      ∃ l ∈ (line :: rest).getLast?, p.isEndedBy l = true

theorem Closes.suffix {style : Style} {lines part : List Text} {next : Text}
    (h : Closes style lines next) (hpart : part <:+ lines) : Closes style part next :=
  fun line rest p hsuffix => h line rest p (hsuffix.trans hpart)

/-- A line that no paragraph takes up closes the lines before it. -/
theorem closes_of_lone {style : Style} {lines : List Text} {last : Text}
    (h : Paragraph.ofLine? style last = none) (next : Text) :
    Closes style (lines ++ [last]) next := by
  intro line rest p hsuffix hp hrest _
  exfalso
  obtain ⟨front, hfront⟩ := hsuffix
  have hmem : last ∈ line :: rest := by
    apply List.mem_of_getLast?
    rw [← List.getLast?_append_of_ne_nil front (List.cons_ne_nil line rest), hfront,
      List.getLast?_concat]
  rcases List.mem_cons.mp hmem with rfl | hmem
  · rw [h] at hp
    cases hp
  · have hjoins := hrest _ hmem
    rw [p.joins_of_lone h] at hjoins
    cases hjoins

theorem sectionsFrom_append {style : Style} {xs ys : List Line}
    (hopen : ∀ x ∈ xs, nextOpen style none x.text = none)
    (hcloses : ∀ y ∈ ys.head?, Closes style (xs.map Line.text) y.text) :
    sectionsFrom style none (xs ++ ys) =
      sectionsFrom style none xs ++ sectionsFrom style none ys := by
  generalize hisOpen : (none : Option Text) = isOpen
  fun_induction sectionsFrom style isOpen xs with
  | case1 isOpen => rfl
  | case2 name line rest ih => cases hisOpen
  | case3 line rest p hp ih =>
    have hgather : p.gather style line (rest ++ ys) = p.gather style line rest := by
      apply Paragraph.gather_append
      intro hall y hy hyes
      obtain ⟨l, hl, hended⟩ := hcloses y hy line.text (rest.map Line.text) p (by simp) hp
        (List.forall_mem_map.mpr hall) hyes
      rw [← List.map_cons, List.getLast?_map] at hl
      obtain ⟨last, hlast, rfl⟩ := Option.map_eq_some_iff.mp hl
      exact ⟨last, hlast, hended⟩
    have hle := p.gather_le style line rest
    rw [List.cons_append, sectionsFrom, hp]
    simp only [hgather, List.take_append_of_le_length hle, List.drop_append_of_le_length hle,
      List.cons_append]
    rw [ih (fun x hx => hopen x (List.mem_cons_of_mem _ (List.mem_of_mem_drop hx))) ?_ rfl]
    intro y hy
    refine (hcloses y hy).suffix ?_
    rw [List.map_drop]
    exact (List.drop_suffix _ _).trans (List.suffix_cons _ _)
  | case4 line rest hp ih =>
    have hline := hopen line (by simp)
    rw [List.cons_append, sectionsFrom, hp, List.cons_append]
    simp only [hline] at ih ⊢
    rw [ih (fun x hx => hopen x (List.mem_cons_of_mem _ hx)) ?_ trivial]
    intro y hy
    exact (hcloses y hy).suffix (by simp)

theorem sectionsFrom_concat {style : Style} {xs : List Line} {y : Line}
    (hopen : ∀ x ∈ xs, nextOpen style none x.text = none)
    (hlone : Paragraph.ofLine? style y.text = none) :
    sectionsFrom style none (xs ++ [y]) =
      sectionsFrom style none xs ++ [⟨[y], loneBlock style y⟩] := by
  rw [sectionsFrom_append hopen]
  · simp only [sectionsFrom, hlone]
  · intro z hz line rest p _ _ _ hjoins
    obtain rfl : y = z := by simpa using hz
    rw [p.joins_of_lone hlone] at hjoins
    cases hjoins

end HardWrap
