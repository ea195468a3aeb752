import HardWrap.Text.Blank
import Mathlib.Data.List.Basic
import Mathlib.Data.List.TakeWhile
import Mathlib.Tactic.Common

/-! Words of a text and of its parts. Two texts put together keep their words whenever one of them
has a gap at the seam; without a gap the last word of the first and the first of the second become
one. Percent signs can be left out of the words or out of the text, with the same result. -/

namespace HardWrap

@[simp] theorem isBlank_space : isBlank ' ' = true := by decide

@[simp] theorem isBlank_percent : isBlank '%' = false := by decide

@[simp] theorem isBlank_cr : isBlank '\r' = true := by decide

@[simp] theorem isBlank_lf : isBlank '\n' = true := by decide

namespace Text

def IsWord (w : Text) : Prop :=
  w ≠ [] ∧ ∀ c ∈ w, isBlank c = false

def IsBlankText (t : Text) : Prop :=
  ∀ c ∈ t, isBlank c = true

/-- Whether no word goes on at the end of the text. -/
def endsAtGap (t : Text) : Bool :=
  atGap t.reverse

@[simp] theorem atGap_nil : atGap [] = true := rfl

@[simp] theorem atGap_cons (c : Char) (t : Text) : atGap (c :: t) = isBlank c := rfl

@[simp] theorem endsAtGap_nil : endsAtGap [] = true := rfl

@[simp] theorem endsAtGap_concat (t : Text) (c : Char) : endsAtGap (t ++ [c]) = isBlank c := by
  simp [endsAtGap]

theorem endsAtGap_append {a b : Text} (h : b ≠ []) : endsAtGap (a ++ b) = endsAtGap b := by
  obtain ⟨b, c, rfl⟩ := (List.eq_nil_or_concat' b).resolve_left h
  rw [← List.append_assoc, endsAtGap_concat, endsAtGap_concat]

theorem atGap_append {a b : Text} (h : a ≠ []) : atGap (a ++ b) = atGap a := by
  obtain ⟨c, a, rfl⟩ := List.exists_cons_of_ne_nil h
  rfl

theorem endsAtGap_append_of {a b : Text} (ha : endsAtGap a = true) (hb : endsAtGap b = true) :
    endsAtGap (a ++ b) = true := by
  by_cases h : b = []
  · rwa [h, List.append_nil]
  · rwa [endsAtGap_append h]

theorem atGap_append_of {a b : Text} (ha : atGap a = true) (hb : atGap b = true) :
    atGap (a ++ b) = true := by
  by_cases h : a = []
  · rwa [h, List.nil_append]
  · rwa [atGap_append h]

theorem endsAtGap_of_blank {t : Text} (h : IsBlankText t) : endsAtGap t = true := by
  rcases List.eq_nil_or_concat' t with rfl | ⟨a, c, rfl⟩
  · rfl
  · rw [endsAtGap_concat]
    exact h c (by simp)

theorem atGap_of_blank {t : Text} (h : IsBlankText t) : atGap t = true := by
  cases t with
  | nil => rfl
  | cons c t => exact h c (by simp)

theorem IsBlankText.append {a b : Text} (ha : IsBlankText a) (hb : IsBlankText b) :
    IsBlankText (a ++ b) := by
  intro c hc
  rcases List.mem_append.mp hc with hc | hc
  · exact ha c hc
  · exact hb c hc

/-! ### Reading words -/

@[simp] theorem words_nil : words [] = [] := rfl

theorem words_cons_blank {c : Char} (h : isBlank c = true) (t : Text) :
    words (c :: t) = words t := by
  simp [words, h]

/-- A text that does not start at a gap starts with a word. -/
theorem words_of_not_atGap {t : Text} (h : atGap t = false) : ∃ w ws, words t = w :: ws := by
  cases t with
  | nil => simp at h
  | cons c t =>
    rw [atGap_cons] at h
    simp only [words, h, Bool.false_eq_true, ↓reduceIte]
    split
    · exact ⟨_, _, rfl⟩
    · cases words t with
      | nil => exact ⟨_, _, rfl⟩
      | cons w ws => exact ⟨_, _, rfl⟩

theorem extendFirst_append {c : Char} {ws vs : List Text} (h : ws ≠ []) :
    extendFirst c (ws ++ vs) = extendFirst c ws ++ vs := by
  obtain ⟨w, ws, rfl⟩ := List.exists_cons_of_ne_nil h
  rfl

theorem words_append_of_atGap {a b : Text} (h : atGap b = true) :
    words (a ++ b) = words a ++ words b := by
  induction a with
  | nil => rfl
  | cons c a ih =>
    have hg : atGap (a ++ b) = atGap a := by
      cases a with
      | nil => simpa using h
      | cons d a => rfl
    simp only [List.cons_append, words, hg, ih]
    split
    · rfl
    · cases hga : atGap a with
      | true => rfl
      | false =>
        obtain ⟨w, ws, hw⟩ := words_of_not_atGap hga
        exact extendFirst_append (by simp [hw])

theorem words_append_of_endsAtGap {a b : Text} (h : endsAtGap a = true) :
    words (a ++ b) = words a ++ words b := by
  induction a with
  | nil => rfl
  | cons c a ih =>
    by_cases ha : a = []
    · subst ha
      have hc : isBlank c = true := by simpa [endsAtGap] using h
      simp [words, hc]
    · have hr : endsAtGap a = true := by
        rw [← List.singleton_append, endsAtGap_append ha] at h
        exact h
      simp only [List.cons_append, words, atGap_append ha, ih hr]
      split
      · rfl
      · cases hga : atGap a with
        | true => rfl
        | false =>
          obtain ⟨w, ws, hw⟩ := words_of_not_atGap hga
          exact extendFirst_append (by simp [hw])

theorem words_of_isWord {w : Text} (h : IsWord w) : words w = [w] := by
  obtain ⟨hne, hw⟩ := h
  induction w with
  | nil => exact absurd rfl hne
  | cons c w ih =>
    have hc : isBlank c = false := hw c (by simp)
    cases w with
    | nil => simp [words, hc]
    | cons d w =>
      have hd : isBlank d = false := hw d (by simp)
      have hrest := ih (by simp) fun e he => hw e (List.mem_cons_of_mem _ he)
      rw [words, hrest]
      simp [hc, hd, extendFirst]

/-- Texts are built from blanks and from words that a gap follows. -/
theorem word_induction {motive : Text → Prop} (nil : motive [])
    (blank : ∀ c t, isBlank c = true → motive t → motive (c :: t))
    (word : ∀ w t, IsWord w → atGap t = true → motive t → motive (w ++ t)) (t : Text) :
    motive t := by
  induction hn : t.length using Nat.strong_induction_on generalizing t with
  | _ n ih =>
    cases t with
    | nil => exact nil
    | cons c t =>
      by_cases hc : isBlank c = true
      · exact blank c t hc (ih t.length (by simp [← hn]) t rfl)
      · -- The word is the longest start without a blank.
        have hsplit := List.takeWhile_append_dropWhile (p := fun d => !isBlank d) (l := t)
        rw [← hsplit, ← List.cons_append]
        refine word _ _ ⟨by simp, ?_⟩ ?_ (ih _ ?_ _ rfl)
        · intro d hd
          rcases List.mem_cons.mp hd with rfl | hd
          · simpa using hc
          · simpa using List.mem_takeWhile_imp hd
        · cases hr : t.dropWhile fun d => !isBlank d with
          | nil => rfl
          | cons d r =>
            have := List.head_dropWhile_not (fun d => !isBlank d) (l := t) (by simp [hr])
            simpa [hr] using this
        · have := List.length_dropWhile_le (fun d => !isBlank d) t
          simp only [List.length_cons] at hn
          omega

theorem words_word_append {w t : Text} (hw : IsWord w) (ht : atGap t = true) :
    words (w ++ t) = w :: words t := by
  rw [words_append_of_atGap ht, words_of_isWord hw]
  rfl

theorem words_isWord (t : Text) : ∀ w ∈ words t, IsWord w := by
  induction t using word_induction with
  | nil => simp
  | blank c t hc ih => rwa [words_cons_blank hc]
  | word w t hw ht ih =>
    intro v hv
    rw [words_word_append hw ht] at hv
    rcases List.mem_cons.mp hv with rfl | hv
    · exact hw
    · exact ih v hv

theorem words_of_blank {t : Text} (h : IsBlankText t) : words t = [] := by
  induction t with
  | nil => rfl
  | cons c t ih =>
    rw [words_cons_blank (h c (by simp))]
    exact ih fun d hd => h d (List.mem_cons_of_mem _ hd)

theorem words_eq_nil_iff {t : Text} : words t = [] ↔ IsBlankText t := by
  refine ⟨?_, words_of_blank⟩
  induction t using word_induction with
  | nil => intro _ c hc; simp at hc
  | blank c t hc ih =>
    intro h d hd
    rw [words_cons_blank hc] at h
    rcases List.mem_cons.mp hd with rfl | hd
    · exact hc
    · exact ih h d hd
  | word w t hw ht ih => simp [words_word_append hw ht]

theorem words_blank_append {a b : Text} (h : IsBlankText a) : words (a ++ b) = words b := by
  rw [words_append_of_endsAtGap (endsAtGap_of_blank h), words_of_blank h, List.nil_append]

theorem words_append_blank {a b : Text} (h : IsBlankText b) : words (a ++ b) = words a := by
  rw [words_append_of_atGap (atGap_of_blank h), words_of_blank h, List.append_nil]

/-- Without a gap at the seam two words become one. -/
theorem length_words_append {a b : Text} (ha : endsAtGap a = false) (hb : atGap b = false) :
    (words (a ++ b)).length + 1 = (words a).length + (words b).length := by
  induction a with
  | nil => simp at ha
  | cons c a ih =>
    by_cases hne : a = []
    · subst hne
      have hc : isBlank c = false := by simpa [endsAtGap] using ha
      obtain ⟨w, ws, hw⟩ := words_of_not_atGap hb
      simp [words, hc, hb, hw, extendFirst, Nat.add_comm]
    · have hr : endsAtGap a = false := by
        rw [← List.singleton_append, endsAtGap_append hne] at ha
        exact ha
      have hih := ih hr
      by_cases hc : isBlank c = true
      · simpa [words, hc] using hih
      · simp only [List.cons_append, words, hc, Bool.false_eq_true, ↓reduceIte, atGap_append hne]
        cases hga : atGap a with
        | true => simp only [↓reduceIte, List.length_cons]; omega
        | false =>
          obtain ⟨w, ws, hw⟩ := words_of_not_atGap hga
          obtain ⟨v, vs, hv⟩ := words_of_not_atGap (t := a ++ b) (by rw [atGap_append hne, hga])
          rw [hw, hv] at hih
          simpa [hw, hv, extendFirst] using hih

theorem length_words_le_append (a b : Text) : (words a).length ≤ (words (a ++ b)).length := by
  by_cases hb : atGap b = true
  · simp [words_append_of_atGap hb]
  · by_cases ha : endsAtGap a = true
    · simp [words_append_of_endsAtGap ha]
    · have hb' : atGap b = false := by simpa using hb
      obtain ⟨w, ws, hw⟩ := words_of_not_atGap hb'
      have hl := length_words_append (by simpa using ha) hb'
      simp only [hw, List.length_cons] at hl
      omega

theorem length_words_le_append_right (a b : Text) :
    (words b).length ≤ (words (a ++ b)).length := by
  by_cases hb : atGap b = true
  · simp [words_append_of_atGap hb]
  · by_cases ha : endsAtGap a = true
    · simp [words_append_of_endsAtGap ha]
    · have ha' : endsAtGap a = false := by simpa using ha
      have hne : words a ≠ [] := fun hnil =>
        ha (endsAtGap_of_blank (words_eq_nil_iff.mp hnil))
      have hpos := List.length_pos_of_ne_nil hne
      have hl := length_words_append ha' (by simpa using hb)
      omega

/-! ### Exchanging one side of a seam -/

theorem split_first_word {t : Text} (h : atGap t = false) :
    ∃ w r, t = w ++ r ∧ IsWord w ∧ atGap r = true := by
  induction t using word_induction with
  | nil => simp at h
  | blank c t hc _ => simp [hc] at h
  | word w t hw ht _ => exact ⟨w, t, rfl, hw, ht⟩

theorem IsWord.reverse {w : Text} (h : IsWord w) : IsWord w.reverse :=
  ⟨by simpa using h.1, fun c hc => h.2 c (List.mem_reverse.mp hc)⟩

theorem split_last_word {t : Text} (h : endsAtGap t = false) :
    ∃ r w, t = r ++ w ∧ IsWord w ∧ endsAtGap r = true := by
  obtain ⟨w, r, ht, hw, hr⟩ := split_first_word h
  refine ⟨r.reverse, w.reverse, ?_, hw.reverse, by simpa [endsAtGap] using hr⟩
  rw [← List.reverse_append, ← ht, List.reverse_reverse]

/-- What stands before a seam matters only by its words and by whether it ends at a gap. -/
theorem words_append_congr_left {a b : Text} (hw : words a = words b)
    (hg : endsAtGap a = endsAtGap b) (t : Text) : words (a ++ t) = words (b ++ t) := by
  cases ha : endsAtGap a with
  | true =>
    rw [words_append_of_endsAtGap ha, words_append_of_endsAtGap (hg ▸ ha), hw]
  | false =>
    obtain ⟨a, v, rfl, hv, hra⟩ := split_last_word ha
    obtain ⟨b, w, rfl, hw', hrb⟩ := split_last_word (hg ▸ ha)
    rw [words_append_of_endsAtGap hra, words_append_of_endsAtGap hrb, words_of_isWord hv,
      words_of_isWord hw'] at hw
    obtain ⟨hab, hvw⟩ := List.append_inj' hw rfl
    obtain rfl : v = w := by simpa using hvw
    rw [List.append_assoc, List.append_assoc, words_append_of_endsAtGap hra,
      words_append_of_endsAtGap hrb, hab]

/-- What stands after a seam matters only by its words and by whether it starts at a gap. -/
theorem words_append_congr_right {a b : Text} (hw : words a = words b)
    (hg : atGap a = atGap b) (t : Text) : words (t ++ a) = words (t ++ b) := by
  cases ha : atGap a with
  | true =>
    rw [words_append_of_atGap ha, words_append_of_atGap (hg ▸ ha), hw]
  | false =>
    obtain ⟨v, a, rfl, hv, hra⟩ := split_first_word ha
    obtain ⟨w, b, rfl, hw', hrb⟩ := split_first_word (hg ▸ ha)
    rw [words_word_append hv hra, words_word_append hw' hrb] at hw
    obtain ⟨rfl, hab⟩ := List.cons.inj hw
    rw [← List.append_assoc, ← List.append_assoc, words_append_of_atGap hra,
      words_append_of_atGap hrb, hab]

/-! ### Stripped texts -/

theorem stripLeft_split (t : Text) : ∃ b, IsBlankText b ∧ t = b ++ stripLeft t := by
  refine ⟨t.takeWhile isBlank, fun c hc => List.mem_takeWhile_imp hc, ?_⟩
  rw [stripLeft, List.takeWhile_append_dropWhile]

theorem stripRight_split (t : Text) : ∃ b, IsBlankText b ∧ t = stripRight t ++ b := by
  refine ⟨(t.reverse.takeWhile isBlank).reverse, fun c hc => ?_, ?_⟩
  · exact List.mem_takeWhile_imp (List.mem_reverse.mp hc)
  · rw [stripRight, ← List.reverse_append, List.takeWhile_append_dropWhile, List.reverse_reverse]

@[simp] theorem words_stripLeft (t : Text) : words (stripLeft t) = words t := by
  obtain ⟨b, hb, ht⟩ := stripLeft_split t
  conv_rhs => rw [ht, words_blank_append hb]

@[simp] theorem words_stripRight (t : Text) : words (stripRight t) = words t := by
  obtain ⟨b, hb, ht⟩ := stripRight_split t
  conv_rhs => rw [ht, words_append_blank hb]

@[simp] theorem words_strip (t : Text) : words (strip t) = words t := by
  simp [strip]

theorem mem_of_mem_strip {t : Text} {c : Char} (h : c ∈ strip t) : c ∈ t := by
  obtain ⟨b, -, hb⟩ := stripLeft_split t
  obtain ⟨d, -, hd⟩ := stripRight_split (stripLeft t)
  rw [hb, hd]
  exact List.mem_append_right b (List.mem_append_left d h)

/-- A text with its blanks at the end removed ends with a word or is empty. -/
theorem endsAtGap_stripRight {t : Text} (h : stripRight t ≠ []) :
    endsAtGap (stripRight t) = false := by
  rw [stripRight, ne_eq, List.reverse_eq_nil_iff] at h
  have := List.head_dropWhile_not isBlank h
  rw [endsAtGap, stripRight, List.reverse_reverse]
  cases hd : t.reverse.dropWhile isBlank with
  | nil => exact absurd hd h
  | cons c r => simpa [hd] using this

theorem stripRight_of_ends {t : Text} (h : endsAtGap t = false) : stripRight t = t := by
  obtain ⟨b, hb, ht⟩ := stripRight_split t
  by_cases hnil : b = []
  · rw [hnil, List.append_nil] at ht
    exact ht.symm
  · rw [ht, endsAtGap_append hnil, endsAtGap_of_blank hb] at h
    cases h

/-! ### Joined words -/

@[simp] theorem joinWords_nil : joinWords [] = [] := rfl

@[simp] theorem joinWords_singleton (w : Text) : joinWords [w] = w := by
  simp [joinWords, List.intercalate]

theorem joinWords_cons_cons (w v : Text) (ws : List Text) :
    joinWords (w :: v :: ws) = w ++ ' ' :: joinWords (v :: ws) := by
  simp [joinWords, List.intercalate]

theorem words_joinWords {ws : List Text} (h : ∀ w ∈ ws, IsWord w) : words (joinWords ws) = ws := by
  induction ws with
  | nil => rfl
  | cons w ws ih =>
    have hw : IsWord w := h w (by simp)
    cases ws with
    | nil => rw [joinWords_singleton, words_of_isWord hw]
    | cons v ws =>
      rw [joinWords_cons_cons, words_word_append hw (by simp), words_cons_blank isBlank_space,
        ih fun u hu => h u (List.mem_cons_of_mem _ hu)]

theorem joinWords_ends {ws : List Text} (h : ∀ w ∈ ws, IsWord w) (hne : ws ≠ []) :
    endsAtGap (joinWords ws) = false := by
  have hword : ∀ w, IsWord w → endsAtGap w = false := by
    intro w hw
    obtain ⟨r, c, rfl⟩ := (List.eq_nil_or_concat' w).resolve_left hw.1
    rw [endsAtGap_concat]
    exact hw.2 c (by simp)
  induction ws with
  | nil => exact absurd rfl hne
  | cons w ws ih =>
    cases ws with
    | nil => rw [joinWords_singleton]; exact hword w (h w (by simp))
    | cons v ws =>
      have hrest := ih (fun u hu => h u (List.mem_cons_of_mem _ hu)) (by simp)
      have hjoin : joinWords (v :: ws) ≠ [] := by
        intro hnil
        rw [hnil] at hrest
        cases hrest
      rw [joinWords_cons_cons, ← List.singleton_append, ← List.append_assoc,
        endsAtGap_append hjoin, hrest]

/-! ### Words without percent signs -/

/-- The text without its percent signs. -/
def unmarked (t : Text) : Text :=
  t.filter (· != '%')

/-- Words with their percent signs left out. A word of nothing else is dropped. -/
def bare (ws : List Text) : List Text :=
  (ws.map unmarked).filter fun w => !w.isEmpty

/-- The words of a text, percent signs left out. -/
def bareWords (t : Text) : List Text :=
  bare (words t)

@[simp] theorem bare_nil : bare [] = [] := rfl

@[simp] theorem bare_append (ws vs : List Text) : bare (ws ++ vs) = bare ws ++ bare vs := by
  simp [bare]

theorem bare_flatMap {α : Type} (f : α → List Text) (l : List α) :
    bare (l.flatMap f) = l.flatMap fun a => bare (f a) := by
  induction l with
  | nil => rfl
  | cons a l ih => simp [ih]

@[simp] theorem unmarked_nil : unmarked [] = [] := rfl

@[simp] theorem unmarked_append (a b : Text) : unmarked (a ++ b) = unmarked a ++ unmarked b := by
  simp [unmarked]

theorem unmarked_of_blank {t : Text} (h : IsBlankText t) : unmarked t = t := by
  apply List.filter_eq_self.mpr
  intro c hc
  have := h c hc
  rw [bne_iff_ne]
  rintro rfl
  simp at this

theorem atGap_unmarked {t : Text} (h : atGap t = true) : atGap (unmarked t) = true := by
  cases t with
  | nil => rfl
  | cons c t =>
    have hc : c ≠ '%' := by rintro rfl; simp at h
    simpa [unmarked, hc] using h

theorem endsAtGap_unmarked {t : Text} (h : endsAtGap t = true) : endsAtGap (unmarked t) = true := by
  have := atGap_unmarked (t := t.reverse) h
  simpa [endsAtGap, unmarked] using this

theorem isWord_unmarked {w : Text} (h : IsWord w) (hne : unmarked w ≠ []) :
    IsWord (unmarked w) :=
  ⟨hne, fun c hc => h.2 c (List.mem_of_mem_filter hc)⟩

/-- Leaving the percent signs out of the text is the same as leaving them out of its words. -/
theorem bareWords_eq (t : Text) : bareWords t = words (unmarked t) := by
  induction t using word_induction with
  | nil => rfl
  | blank c t hc ih =>
    have hone : unmarked (c :: t) = c :: unmarked t := by
      have hp : c ≠ '%' := by rintro rfl; simp at hc
      simp [unmarked, hp]
    rw [hone, words_cons_blank hc, ← ih, bareWords, bareWords, words_cons_blank hc]
  | word w t hw ht ih =>
    rw [unmarked_append, bareWords, words_word_append hw ht]
    by_cases hu : unmarked w = []
    · rw [hu, List.nil_append, ← ih]
      simp [bareWords, bare, hu]
    · rw [words_word_append (isWord_unmarked hw hu) (atGap_unmarked ht), ← ih]
      simp [bareWords, bare, hu]

theorem bareWords_append {a b : Text} (h : endsAtGap a = true) :
    bareWords (a ++ b) = bareWords a ++ bareWords b := by
  simp only [bareWords_eq, unmarked_append]
  exact words_append_of_endsAtGap (endsAtGap_unmarked h)

theorem bareWords_margin {margin t : Text} (h : IsBlankText (unmarked margin)) :
    bareWords (margin ++ t) = bareWords t := by
  rw [bareWords_eq, unmarked_append, words_blank_append h, ← bareWords_eq]

theorem bareWords_of_words_eq {a b : Text} (h : words a = words b) : bareWords a = bareWords b := by
  simp only [bareWords, h]

theorem bareWords_append_of_atGap {a b : Text} (h : atGap b = true) :
    bareWords (a ++ b) = bareWords a ++ bareWords b := by
  simp only [bareWords_eq, unmarked_append]
  exact words_append_of_atGap (atGap_unmarked h)

end Text

end HardWrap
