import HardWrap.Proofs.CommentSigns
import HardWrap.Proofs.Contents
import HardWrap.Proofs.UnchangedTexts

/-! Texts that were filled at one margin stay as they are when they are reflowed. Each of their
lines is read afresh: it can be taken for a command, a border, a forced break or a comment that
stands alone, and is then copied. All other lines are in paragraphs with the margin of the text, and
the lines of each paragraph are some of the filled lines in a row. Such a part of a greedy grouping
is greedy itself, so filling its words again gives the same lines. -/

namespace HardWrap

open Text

/-! ### Parts of a greedy grouping -/

theorem IsGreedy.of_append {later margin : Nat} {width : Int} {xs ys : List (List Text)}
    (h : IsGreedy later width margin (xs ++ ys)) : IsGreedy later width margin xs := by
  induction xs generalizing margin with
  | nil => trivial
  | cons line more ih =>
    rw [List.cons_append] at h
    obtain ⟨hne, hfits, hfull, hrest⟩ := h
    refine ⟨hne, hfits, ?_, ih hrest⟩
    intro next hnext
    apply hfull
    rw [List.head?_append, Option.mem_def.mp hnext]
    rfl

/-- With the same margin on every line a grouping may also start at a later line. -/
theorem IsGreedy.drop_append {m : Nat} {width : Int} {xs ys : List (List Text)}
    (h : IsGreedy m width m (xs ++ ys)) : IsGreedy m width m ys := by
  induction xs with
  | nil => exact h
  | cons line more ih => exact ih h.2.2.2

theorem IsGreedy.part {m : Nat} {width : Int} {part groups : List (List Text)}
    (h : IsGreedy m width m groups) (hpart : part <:+: groups) : IsGreedy m width m part := by
  obtain ⟨xs, ys, rfl⟩ := hpart
  exact h.of_append.drop_append

/-! ### The lines of a filled text -/

theorem layLines_even (m : Text) (groups : List (List Text)) :
    layLines (.even m) groups = groups.map fun g => m ++ joinWords g := by
  cases groups <;> rfl

theorem cut_fill {frame : Frame} (hframe : frame.IsUnbroken) (width : Int) {e : Text}
    (he : IsEnding e) {ws : List Text} (hws : ∀ w ∈ ws, IsWord w) :
    cut (fill frame width e ws) = (layLines frame (pack frame width ws)).map fun t => (t, e) := by
  have hunbroken := layLines_unbroken hframe (pack_isWord frame width hws)
  have hends := layLines_ends frame width hws
  have hne : ∀ t ∈ layLines frame (pack frame width ws), t ≠ [] := by
    rintro t ht rfl
    cases hends [] ht
  have hlined : IsLined ((layLines frame (pack frame width ws)).map fun t => (t, e)) := by
    rw [← List.append_nil (List.map _ _)]
    refine isLined_append ?_ trivial
    rw [List.forall_mem_map]
    exact fun t ht => ⟨hunbroken t ht, he⟩
  rw [fill, writeLines_eq]
  apply cut_joinLines
  · exact hlined.isCut (List.forall_mem_map.mpr hne)
  · rw [List.mem_map]
    rintro ⟨t, ht, hnil⟩
    exact hne t ht (Prod.mk.inj hnil).1

/-- The ending that a filled text is reflowed with is the one it was filled with. -/
theorem newEnding_fill {frame : Frame} (hframe : frame.IsUnbroken) (width : Int) {e : Text}
    (he : IsEnding e) {ws : List Text} (hws : ∀ w ∈ ws, IsWord w) (hne : ws ≠ []) :
    newEnding (fill frame width e ws) = e := by
  have hcut := cut_fill hframe width he hws
  have hiscut := cut_isCut (fill frame width e ws)
  obtain ⟨t, ts, hlay⟩ := List.exists_cons_of_ne_nil
    (layLines_ne_nil frame (pack_ne_nil frame width hws hne))
  rw [hcut, hlay, List.map_cons] at hiscut
  rw [newEnding, ← joinLines_cut (fill frame width e ws), hcut, hlay, List.map_cons, joinLines_cons,
    firstEnding?_line hiscut.1 he _ hiscut.2.2.1]
  rfl

theorem lines_infix_of_mem_sections {style : Style} {isOpen : Option Text} {lines : List Line}
    {s : Section} (hs : s ∈ sectionsFrom style isOpen lines) : s.lines <:+: lines := by
  rw [← sections_lines style isOpen lines, List.flatMap_def]
  exact List.infix_of_mem_flatten (List.mem_map_of_mem hs)

/-! ### Reading a filled line -/

/-- A line with a margin is read as one of its paragraph: it has no in-line comment, and if it opens
a paragraph that has the margin on every line, and the words are what stands after the margin. -/
structure ReadsAt (style : Style) (m line : Text) : Prop where
  uncommented : (kindOf line).commentAt = none
  frame_eq : ∀ p, Paragraph.ofLine? style line = some p → p.frame = .even m
  recovers : ∀ p, Paragraph.ofLine? style line = some p → p.Recovers m

theorem Paragraph.Recovers.congr {p q : Paragraph} {m : Text} (h : p.Recovers m)
    (hkind : q.kind = p.kind) : q.Recovers m := by
  intro line hline hne
  rw [Paragraph.content_congr hkind]
  exact h line hline hne

/-- Lines are settled if they are laid out at the margins of the paragraph they are read as. -/
theorem Section.settled_of_laid {lines : List Line} {p : Paragraph} {e : Text} {width : Int}
    {groups : List (List Text)} (hends : ∀ l ∈ lines, l.ending = e ∨ l.ending = [])
    (htexts : lines.map Line.text = layLines p.frame groups) (hfirst : p.Recovers p.frame.first)
    (hlater : p.Recovers p.frame.later) (hwords : ∀ g ∈ groups, ∀ w ∈ g, IsWord w)
    (hgreedy : IsGreedy p.frame.later.length width p.frame.first.length groups) :
    (Section.mk lines (.paragraph p)).IsSettled width e := by
  have hgroups : lines.map (fun l => Text.words (p.content l.text)) = groups := by
    rw [← layLines_content hfirst hlater hwords hgreedy.nonempty, ← htexts, List.map_map]
    rfl
  refine ⟨hends, ?_, ?_⟩
  · rw [hgroups, htexts]
  · rw [hgroups]
    exact hgreedy

/-- Filled lines in a row are settled, whatever block they are read as. -/
theorem Section.Reads.settled_of_filled {style : Style} {lines : List Line} {b : Block}
    (h : Reads style lines b) {m e : Text} {width : Int} {groups : List (List Text)}
    (hends : ∀ l ∈ lines, l.ending = e ∨ l.ending = [])
    (htexts : lines.map Line.text = groups.map fun g => m ++ joinWords g)
    (hwords : ∀ g ∈ groups, ∀ w ∈ g, IsWord w) (hgreedy : IsGreedy m.length width m.length groups)
    (hlines : ∀ l ∈ lines, ReadsAt style m l.text) : (Section.mk lines b).IsSettled width e := by
  cases h with
  | copied line crossing => trivial
  | commented line pos hk hbody =>
    have hnone := (hlines line (by simp)).uncommented
    rcases hk with hk | hk
    · rw [hk] at hnone
      cases hnone
    · rw [hk] at hnone
      cases hnone
  | paragraph line rest p q hp hrest =>
    obtain ⟨hkind, hframe, -, -⟩ := hrest.spec
    have hline := hlines line (by simp)
    have hrecovers := (hline.recovers p hp).congr hkind
    rw [hline.frame_eq p hp] at hframe
    refine settled_of_laid hends ?_ ?_ ?_ hwords ?_
    · rw [hframe, layLines_even, htexts]
    · rwa [hframe]
    · rwa [hframe]
    · rwa [hframe]

/-- Lines filled at a margin are settled if each of them is read at that margin. -/
theorem sections_settled_of_filled {style : Style} {ys : List Line} {m e : Text} {width : Int}
    {groups : List (List Text)} (hends : ∀ y ∈ ys, y.ending = e ∨ y.ending = [])
    (htexts : ys.map Line.text = groups.map fun g => m ++ joinWords g)
    (hwords : ∀ g ∈ groups, ∀ w ∈ g, IsWord w) (hgreedy : IsGreedy m.length width m.length groups)
    (hlines : ∀ y ∈ ys, ReadsAt style m y.text) :
    ∀ s ∈ sectionsFrom style none ys, s.IsSettled width e := by
  intro s hs
  have hreads := sections_read style none ys s hs
  -- The lines of the section are filled lines in a row.
  have hpart := lines_infix_of_mem_sections hs
  have hpart := hpart.map Line.text
  rw [htexts, List.infix_map_iff] at hpart
  obtain ⟨part, hgroups, hsame⟩ := hpart
  exact hreads.settled_of_filled (fun l hl => hends l (hpart.subset hl)) hsame
    (fun g hg => hwords g (hgroups.subset hg)) (hgreedy.part hgroups)
    fun l hl => hlines l (hpart.subset hl)

/-- A text filled at a margin stays if each of its lines is read at that margin. -/
theorem reflow_fill_of_readsAt {style : Style} {m e : Text} {ws : List Text} (hm : Unbroken m)
    (he : IsEnding e) (hws : ∀ w ∈ ws, IsWord w)
    (hlines : ∀ g, g ≠ [] → (∀ w ∈ g, w ∈ ws) → ReadsAt style m (m ++ joinWords g)) :
    reflow style (fill (.even m) style.maxWidth e ws) = fill (.even m) style.maxWidth e ws := by
  have hframe : (Frame.even m).IsUnbroken := ⟨hm, hm⟩
  have hcut := cut_fill hframe style.maxWidth he hws
  rw [layLines_even, List.map_map] at hcut
  have hflat := pack_flatten (.even m) style.maxWidth hws
  have hparts : (fill (.even m) style.maxWidth e ws).lines.map Line.parts =
      (pack (.even m) style.maxWidth ws).map fun g => (m ++ joinWords g, e) := by
    rw [lines_parts, hcut]
    rfl
  have htexts : (fill (.even m) style.maxWidth e ws).lines.map Line.text =
      (pack (.even m) style.maxWidth ws).map fun g => m ++ joinWords g := by
    have hfst := congrArg (List.map Prod.fst) hparts
    rwa [List.map_map, List.map_map] at hfst
  rw [reflow_eq_self_iff]
  refine sections_settled_of_filled ?_ htexts (pack_isWord (.even m) style.maxWidth hws)
    (pack_isGreedy (.even m) style.maxWidth ws) ?_
  · intro l hl
    have hmem : l.parts ∈ (pack (.even m) style.maxWidth ws).map _ :=
      hparts ▸ List.mem_map_of_mem hl
    obtain ⟨g, hg, hpair⟩ := List.mem_map.mp hmem
    have hne : ws ≠ [] := by
      rintro rfl
      cases hg
    rw [newEnding_fill hframe style.maxWidth he hws hne]
    exact Or.inl (Prod.mk.inj hpair).2.symm
  · intro l hl
    have hmem : l.text ∈ (pack (.even m) style.maxWidth ws).map _ :=
      htexts ▸ List.mem_map_of_mem hl
    obtain ⟨g, hg, hline⟩ := List.mem_map.mp hmem
    rw [← hline]
    refine hlines g (pack_nonempty (.even m) style.maxWidth ws g hg) ?_
    intro w hw
    rw [← hflat]
    exact List.mem_flatten.mpr ⟨g, hg, hw⟩

/-! ### Margins of spaces -/

theorem margin_spaces_append (tabWidth : Int) {s t : Text} (hs : ∀ c ∈ s, c = ' ')
    (ht : atGap t = false) : margin tabWidth (s ++ t) = s := by
  have hdrop := dropWhile_spaces hs ht
  have htake : (s ++ t).takeWhile isMarginChar = s := by
    have := List.takeWhile_append_dropWhile (p := isMarginChar) (l := s ++ t)
    rw [hdrop] at this
    exact List.append_cancel_right this
  have hall : ¬ (s ++ t).all isMarginChar = true := by
    rw [List.all_eq_true]
    intro h
    rw [List.dropWhile_eq_nil_iff.mpr h] at hdrop
    rw [← hdrop] at ht
    cases ht
  rw [margin, if_neg hall, htake]
  calc s.flatMap (expandTab tabWidth)
      = s.flatMap fun c => [c] := List.flatMap_congr fun c hc => by rw [hs c hc]; rfl
    _ = s := List.flatMap_singleton' s

theorem commentMargin_spaces_append (tabWidth : Int) {s : Text} (hs : ∀ c ∈ s, c = ' ')
    (t : Text) : commentMargin tabWidth (s ++ '%' :: t) = s ++ ['%', ' '] := by
  have hgap : atGap ('%' :: t) = false := by simp
  rw [commentMargin, dropWhile_spaces hs hgap, margin_spaces_append tabWidth hs hgap, if_pos]
  rw [startsWith_percent]
  rfl

/-! ### Escaped percent signs -/

/-- Every percent sign has a backslash right before it. -/
def Text.SignsEscaped (t : Text) : Prop :=
  ∀ a r, t = a ++ '%' :: r → a.getLast? = some '\\'

theorem commentAfter_none {before : Char} {start : Nat} {a r : Text}
    (h : commentAfter before start (a ++ '%' :: r) = none) :
    (before :: a).getLast? = some '\\' := by
  induction a generalizing before start with
  | nil =>
    by_contra hbefore
    have hslash : before ≠ '\\' := by simpa using hbefore
    simp [commentAfter, hslash] at h
  | cons c a ih =>
    rw [List.cons_append, commentAfter] at h
    split at h
    · cases h
    · rw [List.getLast?_cons_cons]
      exact ih h

theorem signsEscaped_iff (t : Text) : SignsEscaped t ↔ commentAfter ' ' 0 t = none := by
  constructor
  · intro h
    by_contra hsome
    obtain ⟨pos, hpos⟩ := Option.ne_none_iff_exists'.mp hsome
    obtain ⟨a, r, rfl, -, -, hlast⟩ := commentAfter_some hpos
    rw [List.getLast?_cons, h a r rfl] at hlast
    exact hlast rfl
  · rintro h a r rfl
    have hlast := commentAfter_none h
    cases a with
    | nil => simp at hlast
    | cons c a => rwa [List.getLast?_cons_cons] at hlast

instance (t : Text) : Decidable t.SignsEscaped :=
  decidable_of_iff _ (signsEscaped_iff t).symm

theorem Text.SignsEscaped.append_space {u v : Text} (hu : SignsEscaped u) (hv : SignsEscaped v) :
    SignsEscaped (u ++ ' ' :: v) := by
  intro a r h
  rcases List.append_eq_append_iff.mp h with ⟨b, rfl, hb⟩ | ⟨b, rfl, hb⟩
  · -- The sign stands in the second text.
    cases b with
    | nil => simp at hb
    | cons d b =>
      obtain ⟨rfl, htail⟩ := List.cons.inj hb
      rw [List.getLast?_append, List.getLast?_cons, hv b r htail]
      rfl
  · cases b with
    | nil => simp at hb
    | cons d b =>
      obtain ⟨rfl, -⟩ := List.cons.inj hb
      exact hu a b rfl

theorem signsEscaped_joinWords {ws : List Text} (h : ∀ w ∈ ws, SignsEscaped w) :
    SignsEscaped (joinWords ws) := by
  induction ws with
  | nil => intro a r hnil; simp [joinWords] at hnil
  | cons w ws ih =>
    have hw := h w (by simp)
    have hrest := ih fun v hv => h v (List.mem_cons_of_mem w hv)
    cases ws with
    | nil => rwa [joinWords_singleton]
    | cons v ws =>
      rw [joinWords_cons_cons]
      exact hw.append_space hrest

theorem Text.SignsEscaped.commentAt? {t : Text} (h : SignsEscaped t) :
    HardWrap.commentAt? t = none := by
  by_contra hsome
  obtain ⟨pos, hpos⟩ := Option.ne_none_iff_exists'.mp hsome
  obtain ⟨r, ht, -, hlast, -⟩ := commentAt?_some hpos
  exact hlast (h _ r ht)

theorem Text.SignsEscaped.head? {t : Text} (h : SignsEscaped t) : t.head? ≠ some '%' := by
  intro hhead
  obtain ⟨r, rfl⟩ : ∃ r, t = '%' :: r := by
    cases t with
    | nil => cases hhead
    | cons c r => exact ⟨r, by rw [Option.some.inj hhead]⟩
  cases h [] r rfl

/-- A text that neither opens with a sign nor has a comment in it. -/
theorem signsEscaped_of_commentAt? {t : Text} (hnone : commentAt? t = none)
    (hfirst : t.head? ≠ some '%') : SignsEscaped t := by
  intro a b hsplit
  cases a with
  | nil =>
    rw [hsplit] at hfirst
    exact absurd rfl hfirst
  | cons c a =>
    subst hsplit
    exact commentAfter_none hnone

/-- A word stands at the start of a text or after a blank. -/
theorem mem_words_split {t w : Text} (h : w ∈ words t) :
    ∃ x y, t = x ++ (w ++ y) ∧ endsAtGap x = true := by
  have hw := words_isWord t w h
  induction t using word_induction with
  | nil => cases h
  | blank c t hc ih =>
    rw [words_cons_blank hc] at h
    obtain ⟨x, y, rfl, hx⟩ := ih h
    exact ⟨[c] ++ x, y, rfl, endsAtGap_append_of (by simpa [endsAtGap] using hc) hx⟩
  | word v t hv ht ih =>
    rw [words_word_append hv ht] at h
    rcases List.mem_cons.mp h with rfl | h
    · exact ⟨[], t, rfl, rfl⟩
    · obtain ⟨x, y, rfl, hx⟩ := ih h
      have hne : x ≠ [] := by
        -- a gap stands between the two words
        rintro rfl
        obtain ⟨c, w, rfl⟩ := List.exists_cons_of_ne_nil hw.1
        rw [List.nil_append, List.cons_append, atGap_cons, hw.2 c List.mem_cons_self] at ht
        cases ht
      exact ⟨v ++ x, y, (List.append_assoc v x (w ++ y)).symm, by rwa [endsAtGap_append hne]⟩

theorem Text.SignsEscaped.words {t : Text} (h : SignsEscaped t) :
    ∀ w ∈ words t, SignsEscaped w := by
  rintro w hw a b rfl
  obtain ⟨x, y, rfl, hx⟩ := mem_words_split hw
  have hlast := h (x ++ a) (b ++ y) (by simp)
  by_cases ha : a = []
  · -- a blank stands before the word, and a backslash is none
    subst ha
    rw [List.append_nil] at hlast
    obtain ⟨x, rfl⟩ := List.getLast?_eq_some_iff.mp hlast
    rw [endsAtGap_concat] at hx
    exact absurd hx (by decide)
  · rwa [List.getLast?_append_of_ne_nil _ ha] at hlast

/-- The words of a line of prose, and of an item, that has no in-line comment. -/
theorem words_signsEscaped {line : Text}
    (h : kindOf line = .item none ∨ kindOf line = .prose none) :
    ∀ w ∈ words line, SignsEscaped w := by
  have hcomment : (strip line).head? ≠ some '%' := by
    intro hhead
    have hkind := (kindOf_eq_comment_iff line).mpr ((startsWith_percent _).mpr hhead)
    rcases h with h | h
    · rw [hkind] at h
      cases h
    · rw [hkind] at h
      cases h
  rw [← words_strip]
  exact (signsEscaped_of_commentAt? (kindOf_commentAt h) hcomment).words

/-! ### Filled lines are read at their margin -/

theorem readsAt_comment (style : Style) {s : Text} (hs : ∀ c ∈ s, c = ' ') (t : Text) :
    ReadsAt style (s ++ ['%', ' ']) (s ++ ['%', ' '] ++ t) := by
  have hline : s ++ ['%', ' '] ++ t = s ++ '%' :: ' ' :: t := by simp
  have hkind : kindOf (s ++ ['%', ' '] ++ t) = .comment := by
    have hsign : IsWord ['%'] := by simp [IsWord]
    have hgap : atGap (' ' :: t) = true := by simp
    rw [hline, kindOf_eq_comment_iff, isCommentLine_iff, words_blank_append (blank_of_spaces hs),
      ← List.singleton_append, words_word_append hsign hgap]
    rfl
  have hparagraph : ∀ p, Paragraph.ofLine? style (s ++ ['%', ' '] ++ t) = some p →
      p = commentParagraph style (s ++ ['%', ' '] ++ t) := by
    intro p hp
    rw [Paragraph.ofLine?, hkind] at hp
    simp only [Option.ite_none_right_eq_some, Option.some.injEq] at hp
    exact hp.2.symm
  refine ⟨by rw [hkind]; rfl, ?_, ?_⟩
  · intro p hp
    rw [hparagraph p hp, commentParagraph, hline, commentMargin_spaces_append _ hs]
  · intro p hp
    refine Paragraph.recovers_of_mark ?_ (blank_of_spaces hs)
    rw [hparagraph p hp]
    rfl

/-- A command at the start of a text is not changed by what comes after it, if that neither goes on
with the command nor with its name. -/
theorem opensWith_append {command : String} (w : Text) {r : Text}
    (hr : ∀ c ∈ r.head?, c ∉ command.toList ∧ isAsciiLetter c = false) :
    opensWith command (w ++ r) = opensWith command w := by
  rw [opensWith, opensWith, ← String.length_toList, Bool.eq_iff_iff, Bool.and_eq_true,
    Bool.and_eq_true, startsWith, startsWith, List.isPrefixOf_iff_prefix,
    List.isPrefixOf_iff_prefix]
  constructor
  · rintro ⟨hstart, hnext⟩
    have hword : command.toList <+: w := by
      rcases List.prefix_or_prefix_of_prefix hstart (List.prefix_append w r) with hw | ⟨x, hx⟩
      · exact hw
      · rw [← hx, List.prefix_append_right_inj] at hstart
        obtain ⟨y, rfl⟩ := hstart
        cases x with
        | nil =>
          have hsame : w = command.toList := by rw [← hx, List.append_nil]
          exact hsame ▸ List.prefix_rfl
        | cons c x =>
          have hno := (hr c (by simp)).1
          rw [← hx] at hno
          simp at hno
    obtain ⟨y, rfl⟩ := hword
    rw [List.append_assoc, List.drop_left] at hnext
    rw [List.drop_left]
    refine ⟨List.prefix_append _ y, ?_⟩
    cases y with
    | nil => rfl
    | cons c y => exact hnext
  · rintro ⟨⟨y, rfl⟩, hnext⟩
    rw [List.drop_left] at hnext
    rw [List.append_assoc, List.drop_left]
    refine ⟨List.prefix_append _ _, ?_⟩
    cases y with
    | cons c y => exact hnext
    | nil =>
      cases r with
      | nil => rfl
      | cons c r => simp [(hr c (by simp)).2]

theorem isAsciiLetter_of_isBlank {c : Char} (h : isBlank c = true) : isAsciiLetter c = false := by
  have hlower : ¬ ('a' ≤ c ∧ c ≤ 'z') := by
    rintro ⟨hlo, hhi⟩
    have hlo : 97 ≤ c.toNat := hlo
    have hhi : c.toNat ≤ 122 := hhi
    simp [isBlank, covers, blankRanges] at h
    omega
  have hupper : ¬ ('A' ≤ c ∧ c ≤ 'Z') := by
    rintro ⟨hlo, hhi⟩
    have hlo : 65 ≤ c.toNat := hlo
    have hhi : c.toNat ≤ 90 := hhi
    simp [isBlank, covers, blankRanges] at h
    omega
  simpa [isAsciiLetter] using And.intro (not_and.mp hlower) (not_and.mp hupper)

/-- A command at the start of a line stands in the line's first word. -/
theorem opensWith_word {command : String}
    (hcommand : command.toList.all (fun c => !isBlank c) = true) (w : Text) {r : Text}
    (hr : atGap r = true) : opensWith command (w ++ r) = opensWith command w := by
  apply opensWith_append
  intro c hc
  obtain ⟨r, rfl⟩ := List.head?_eq_some_iff.mp hc
  refine ⟨?_, isAsciiLetter_of_isBlank hr⟩
  intro hmem
  have hno := List.all_eq_true.mp hcommand c hmem
  rw [atGap_cons] at hr
  simp [hr] at hno

theorem isItemLine_of_kindOf {line : Text} {at? : Option Nat} (h : kindOf line = .item at?) :
    isItemLine (strip line) = true := by
  simp only [kindOf] at h
  split at h
  · cases h
  · split at h
    · cases h
    · split at h
      · cases h
      · cases h
      · rw [contentKind] at h
        split at h
        next hitem => exact hitem
        next => split at h <;> cases h

theorem joinWords_first (w : Text) (ws : List Text) :
    ∃ r, joinWords (w :: ws) = w ++ r ∧ atGap r = true := by
  cases ws with
  | nil => exact ⟨[], by simp, rfl⟩
  | cons v ws => exact ⟨' ' :: joinWords (v :: ws), joinWords_cons_cons w v ws, by simp⟩

theorem strip_blank_joinWords {b : Text} (hb : IsBlankText b) {ws : List Text}
    (hws : ∀ w ∈ ws, IsWord w) (hne : ws ≠ []) : strip (b ++ joinWords ws) = joinWords ws := by
  rw [strip, stripLeft_blank_append hb (atGap_joinWords hws hne),
    stripRight_of_ends (joinWords_ends hws hne)]

theorem readsAt_prose (style : Style) {s : Text} (hs : ∀ c ∈ s, c = ' ') {ws : List Text}
    (hws : ∀ w ∈ ws, IsWord w) (hne : ws ≠ []) (hescaped : ∀ w ∈ ws, SignsEscaped w)
    (hitem : ∀ w ∈ ws, opensWith "\\item" w = false) : ReadsAt style s (s ++ joinWords ws) := by
  have hstrip := strip_blank_joinWords (blank_of_spaces hs) hws hne
  have hsigns := signsEscaped_joinWords hescaped
  have hnotcomment : kindOf (s ++ joinWords ws) ≠ .comment := by
    intro h
    rw [kindOf_eq_comment_iff, isCommentLine, hstrip, startsWith_percent] at h
    exact hsigns.head? h
  have hnotitem : ∀ at?, kindOf (s ++ joinWords ws) ≠ .item at? := by
    intro at? h
    have hopens := isItemLine_of_kindOf h
    have hagain : strip (joinWords ws) = joinWords ws :=
      strip_blank_joinWords (b := []) (by simp [IsBlankText]) hws hne
    rw [hstrip, isItemLine, hagain] at hopens
    obtain ⟨w, ws, rfl⟩ := List.exists_cons_of_ne_nil hne
    obtain ⟨r, hsplit, hr⟩ := joinWords_first w ws
    rw [hsplit, opensWith_word (by decide) w hr, hitem w (by simp)] at hopens
    cases hopens
  have hparagraph : ∀ p, Paragraph.ofLine? style (s ++ joinWords ws) = some p →
      p = proseParagraph style (s ++ joinWords ws) := by
    intro p hp
    unfold Paragraph.ofLine? at hp
    split at hp
    · exact (Option.some.inj hp).symm
    next hk => exact absurd hk (hnotitem none)
    next hk => exact absurd hk hnotcomment
    · cases hp
  refine ⟨?_, ?_, ?_⟩
  · cases hk : kindOf (s ++ joinWords ws) with
    | item at? => exact absurd hk (hnotitem at?)
    | prose at? =>
      have hat := kindOf_commentAt (Or.inr hk)
      rw [hstrip, hsigns.commentAt?] at hat
      exact hat.symm
    | blank | comment | command => rfl
    | begins name | ends name => rfl
  · intro p hp
    rw [hparagraph p hp, proseParagraph, margin_spaces_append _ hs (atGap_joinWords hws hne)]
  · intro p hp
    refine Paragraph.recovers_of_blank ?_ (blank_of_spaces hs)
    rw [hparagraph p hp]
    simp [proseParagraph]

/-- Paragraphs filled at the width of the style stay as they are: comments behind a margin and a
sign, whatever their words are, and prose, if its percent signs are escaped and no word is an item
command. The lines that single words turn into commands, borders of environments, forced breaks or
comments of their own are copied. -/
theorem filled_paragraphs_stay (style : Style) (n : Nat) {e : Text} (he : IsEnding e)
    {ws : List Text} (hws : ∀ w ∈ ws, IsWord w) :
    let comment := fill (.even (List.replicate n ' ' ++ ['%', ' '])) style.maxWidth e ws
    let prose := fill (.even (List.replicate n ' ')) style.maxWidth e ws
    reflow style comment = comment ∧
      ((∀ w ∈ ws, SignsEscaped w ∧ opensWith "\\item" w = false) → reflow style prose = prose) := by
  have hspaces : ∀ c ∈ List.replicate n ' ', c = ' ' := fun c hc => List.eq_of_mem_replicate hc
  have hunbroken := Section.unbroken_of_spaces hspaces
  constructor
  · have hsign : Unbroken ['%', ' '] := by simp [Unbroken]
    apply reflow_fill_of_readsAt (hunbroken.append hsign) he hws
    intro g _ _
    exact readsAt_comment style hspaces (joinWords g)
  · intro hplain
    apply reflow_fill_of_readsAt hunbroken he hws
    intro g hne hg
    exact readsAt_prose style hspaces (fun w hw => hws w (hg w hw)) hne
      (fun w hw => (hplain w (hg w hw)).1) (fun w hw => (hplain w (hg w hw)).2)

/-- A comment of which single lines become a rule, a commented-out command and a commented-out item,
and prose of which single lines become a forced break, a command, an explicit paragraph and the
border of an environment, after which lines are copied. -/
theorem filled_paragraphs_stay_borders :
    let style : Style := { maxWidth := 14 }
    let comment := "  % a % of it\n  % %%%%%%%%%%\n  % \\clearpage\n  % \\item one\n".toList
    let prose := "  5\\% off\\\\\n  \\clearpage\n  \\par more\n  \\begin{a}\n  \\items x\n".toList
    comment = fill (.even "  % ".toList) style.maxWidth ['\n']
        (words "a % of it %%%%%%%%%% \\clearpage \\item one".toList) ∧
      prose = fill (.even "  ".toList) style.maxWidth ['\n'] (words prose) ∧
      reflow style comment = comment ∧ reflow style prose = prose := by
  intro style comment prose
  have hcomment : comment = fill (.even "  % ".toList) style.maxWidth ['\n']
      (words "a % of it %%%%%%%%%% \\clearpage \\item one".toList) := by decide +kernel
  have hprose : prose = fill (.even "  ".toList) style.maxWidth ['\n'] (words prose) := by
    decide +kernel
  have he : IsEnding ['\n'] := by simp [IsEnding]
  refine ⟨hcomment, hprose, ?_, ?_⟩
  · rw [hcomment]
    exact (filled_paragraphs_stay style 2 he (words_isWord _)).1
  · rw [hprose]
    exact (filled_paragraphs_stay style 2 he (words_isWord _)).2 (by decide +kernel)

end HardWrap
