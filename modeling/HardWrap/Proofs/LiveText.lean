import HardWrap.Proofs.CommentSigns
import HardWrap.Proofs.Contents

/-! Live text. A percent sign opens a comment if the run of backslashes directly before it is even:
a backslash before it takes its meaning away, and two of them are a line break of their own. What
stands on a line before the first such sign is live. Reflow takes every percent sign after a
backslash for text, so a word can hold an opening sign that it does not see. Such a word does no
harm where a paragraph ends with it, and only there. -/

namespace HardWrap

open Text

namespace Text

/-- The start of a text up to the first percent sign that opens a comment. The number of backslashes
directly before the text is `run`. -/
def liveAfter : (run : Nat) → Text → Text
  | _, [] => []
  | run, c :: rest =>
    if c = '%' ∧ run % 2 = 0 then []
    else c :: liveAfter (if c = '\\' then run + 1 else 0) rest

/-- What stands on a line before its comment. -/
def live (line : Text) : Text :=
  liveAfter 0 line

/-- The words of a text that are in no comment. -/
def liveWords (t : Text) : List Text :=
  t.lines.flatMap fun l => words (live l.text)

/-! ### Live words of a line -/

/-- The number of backslashes at the end of a text that comes after `run` of them. -/
def runAfter : (run : Nat) → Text → Nat
  | run, [] => run
  | run, c :: rest => runAfter (if c = '\\' then run + 1 else 0) rest

theorem liveAfter_append (run : Nat) (a b : Text) :
    liveAfter run (a ++ b) =
      if liveAfter run a = a then a ++ liveAfter (runAfter run a) b else liveAfter run a := by
  induction a generalizing run with
  | nil => simp [liveAfter, runAfter]
  | cons c a ih =>
    simp only [List.cons_append, liveAfter, runAfter]
    by_cases hopen : c = '%' ∧ run % 2 = 0
    · simp [hopen]
    · simp only [hopen, ↓reduceIte, List.cons.injEq, true_and, ih]
      generalize (if c = '\\' then run + 1 else 0) = next
      by_cases hlive : liveAfter next a = a
      · simp [hlive]
      · simp [hlive]

theorem mem_of_mem_liveAfter {run : Nat} {t : Text} {c : Char} (h : c ∈ liveAfter run t) :
    c ∈ t := by
  induction t generalizing run with
  | nil => cases h
  | cons d t ih =>
    simp only [liveAfter] at h
    split at h
    · cases h
    · rcases List.mem_cons.mp h with rfl | h
      · simp
      · exact List.mem_cons_of_mem _ (ih h)

theorem liveAfter_cons_blank {c : Char} (hc : isBlank c = true) (run : Nat) (t : Text) :
    liveAfter run (c :: t) = c :: live t := by
  have hmark : c ≠ '%' := by rintro rfl; simp at hc
  have hslash : c ≠ '\\' := by rintro rfl; exact absurd hc (by decide)
  simp [liveAfter, hmark, hslash, live]

/-- Backslashes before a gap do not count. -/
theorem liveAfter_of_atGap {t : Text} (h : atGap t = true) (run : Nat) :
    liveAfter run t = live t := by
  cases t with
  | nil => rfl
  | cons c t => rw [live, liveAfter_cons_blank h, liveAfter_cons_blank h]

theorem atGap_live {t : Text} (h : atGap t = true) : atGap (live t) = true := by
  cases t with
  | nil => rfl
  | cons c t =>
    rw [live, liveAfter_cons_blank h]
    exact h

/-- Of the words of a line those that are live. The first one that holds an opening sign is cut
there, and those after it are dead. -/
def liveOf : List Text → List Text
  | [] => []
  | w :: ws => if live w = w then w :: liveOf ws else words (live w)

theorem words_live (t : Text) : words (live t) = liveOf (words t) := by
  induction t using word_induction with
  | nil => rfl
  | blank c t hc ih =>
    rw [live, liveAfter_cons_blank hc, words_cons_blank hc, words_cons_blank hc, ih]
  | word w t hw ht ih =>
    rw [words_word_append hw ht, live, liveAfter_append, liveAfter_of_atGap ht, ← live, liveOf]
    split
    · rw [words_word_append hw (atGap_live ht), ih]
    · rfl

/-! ### Grouped words -/

theorem liveOf_append {ws : List Text} (h : ∀ w ∈ ws, live w = w) (vs : List Text) :
    liveOf (ws ++ vs) = ws ++ liveOf vs := by
  induction ws with
  | nil => rfl
  | cons w ws ih =>
    rw [List.cons_append, liveOf, if_pos (h w (by simp)),
      ih fun v hv => h v (List.mem_cons_of_mem _ hv)]
    rfl

/-- If only the last word may hold an opening sign, it does not matter how the words are grouped. -/
theorem flatMap_liveOf {groups : List (List Text)} (hne : ∀ g ∈ groups, g ≠ [])
    (h : ∀ w ∈ groups.flatten.dropLast, live w = w) :
    groups.flatMap liveOf = liveOf groups.flatten := by
  induction groups with
  | nil => rfl
  | cons g groups ih =>
    cases groups with
    | nil => simp
    | cons f groups =>
      have hrest : (f :: groups).flatten ≠ [] := by
        simp [hne f (by simp)]
      rw [List.flatten_cons, List.dropLast_append_of_ne_nil hrest] at h
      have hg : ∀ w ∈ g, live w = w := fun w hw => h w (List.mem_append_left _ hw)
      have hlive : liveOf g = g := by simpa [liveOf] using liveOf_append hg []
      rw [List.flatMap_cons, List.flatten_cons, liveOf_append hg, hlive,
        ih (fun f hf => hne f (List.mem_cons_of_mem _ hf))
          fun w hw => h w (List.mem_append_right _ hw)]

/-- The live part of a word is a word or nothing. -/
theorem words_live_word {w : Text} (hw : IsWord w) :
    (words (live w)).length ≤ 1 ∧ (w.head? ≠ some '%' → (words (live w)).length = 1) := by
  have hlive : live w ≠ [] → words (live w) = [live w] := fun hne =>
    words_of_isWord ⟨hne, fun c hc => hw.2 c (mem_of_mem_liveAfter hc)⟩
  constructor
  · by_cases hnil : live w = []
    · simp [hnil]
    · simp [hlive hnil]
  · intro hhead
    obtain ⟨c, w, rfl⟩ := List.exists_cons_of_ne_nil hw.1
    have hc : c ≠ '%' := by simpa using hhead
    rw [hlive (by simp [live, liveAfter, hc])]
    rfl

theorem length_liveOf_le {ws : List Text} (h : ∀ w ∈ ws, IsWord w) :
    (liveOf ws).length ≤ ws.length := by
  induction ws with
  | nil => simp [liveOf]
  | cons w ws ih =>
    have hrest := ih fun v hv => h v (List.mem_cons_of_mem _ hv)
    have hword := (words_live_word (h w (by simp))).1
    rw [liveOf]
    split
    · simpa using hrest
    · rw [List.length_cons]
      omega

theorem length_flatMap_liveOf_le {groups : List (List Text)}
    (h : ∀ g ∈ groups, ∀ w ∈ g, IsWord w) :
    (groups.flatMap liveOf).length ≤ groups.flatten.length := by
  induction groups with
  | nil => simp
  | cons g groups ih =>
    have hfirst := length_liveOf_le (h g (by simp))
    have hrest := ih fun f hf => h f (List.mem_cons_of_mem _ hf)
    simp only [List.flatMap_cons, List.flatten_cons, List.length_append]
    omega

/-- All words of a line count only if the sign that opens the comment is in the last one. -/
theorem live_of_length_liveOf {ws : List Text} (h : ∀ w ∈ ws, IsWord w)
    (hlen : (liveOf ws).length = ws.length) : ∀ w ∈ ws.dropLast, live w = w := by
  induction ws with
  | nil => simp
  | cons w ws ih =>
    have hword := (words_live_word (h w (by simp))).1
    rw [liveOf] at hlen
    cases ws with
    | nil => simp
    | cons v ws =>
      split at hlen
      next hw =>
        intro u hu
        rw [List.dropLast_cons_of_ne_nil (by simp)] at hu
        rcases List.mem_cons.mp hu with rfl | hu
        · exact hw
        · exact ih (fun x hx => h x (List.mem_cons_of_mem _ hx)) (by simpa using hlen) u hu
      next =>
        simp only [List.length_cons] at hlen
        omega

/-- One word to a line keeps all of them alive. -/
theorem length_liveOf_apart {ws : List Text} (h : ∀ w ∈ ws, IsWord w)
    (hhead : ∀ w ∈ ws, w.head? ≠ some '%') :
    ((ws.map fun w => [w]).flatMap liveOf).length = ws.length := by
  induction ws with
  | nil => rfl
  | cons w ws ih =>
    have hone : (liveOf [w]).length = 1 := by
      rw [liveOf]
      split
      · rfl
      · exact (words_live_word (h w (by simp))).2 (hhead w (by simp))
    rw [List.map_cons, List.flatMap_cons, List.length_append, hone,
      ih (fun v hv => h v (List.mem_cons_of_mem _ hv))
        fun v hv => hhead v (List.mem_cons_of_mem _ hv), List.length_cons]
    omega

/-! ### Comments at the end of a line -/

theorem runAfter_concat {c : Char} (hc : c ≠ '\\') (run : Nat) (t : Text) :
    runAfter run (t ++ [c]) = 0 := by
  induction t generalizing run with
  | nil => simp [runAfter, hc]
  | cons d t ih => exact ih _

theorem runAfter_of_last {t : Text} (h : t.getLast? ≠ some '\\') : runAfter 0 t = 0 := by
  rcases List.eq_nil_or_concat' t with rfl | ⟨a, c, rfl⟩
  · rfl
  · exact runAfter_concat (by simpa using h) 0 a

theorem live_gap {gap : Text} (h : IsBlankText gap) (r : Text) : live (gap ++ '%' :: r) = gap := by
  induction gap with
  | nil => rfl
  | cons c gap ih =>
    rw [List.cons_append, live, liveAfter_cons_blank (h c (by simp)),
      ih fun d hd => h d (List.mem_cons_of_mem _ hd)]

/-- A comment with a sign that no backslash precedes adds no live word to a line. -/
theorem words_live_comment {t gap : Text} (hgap : IsBlankText gap)
    (ht : gap = [] → t.getLast? ≠ some '\\') (r : Text) :
    words (live (t ++ (gap ++ '%' :: r))) = words (live t) := by
  rw [live, liveAfter_append, ← live]
  split
  next hlive =>
    have htail : liveAfter (runAfter 0 t) (gap ++ '%' :: r) = gap := by
      cases gap with
      | nil =>
        rw [runAfter_of_last (ht rfl)]
        rfl
      | cons c gap =>
        have hstart : atGap (c :: gap ++ '%' :: r) = true := hgap c (by simp)
        rw [liveAfter_of_atGap hstart, live_gap hgap]
    rw [htail, words_append_blank hgap, hlive]
  next => rfl

theorem getLast?_of_words {t : Text} (h : endsAtGap t = false) :
    t.getLast? = (words t).getLast?.bind List.getLast? := by
  obtain ⟨r, w, rfl, hw, hr⟩ := split_last_word h
  rw [words_append_of_endsAtGap hr, words_of_isWord hw, List.getLast?_append_of_ne_nil _ hw.1]
  simp

end Text

/-! ### Live words of a block -/

namespace Block

/-- The words that a block is filled with. -/
def words : Block → List Text
  | copied .. => []
  | paragraph p => p.words
  | commented c => c.words

/-- The words of each line that a block is filled to. -/
def groups (width : Int) : Block → List (List Text)
  | copied .. => []
  | paragraph p => pack p.frame width p.words
  | commented c => pack c.frame width c.words

end Block

theorem layLines_words {frame : Frame} (hfirst : IsBlankText frame.first)
    (hlater : IsBlankText frame.later) {groups : List (List Text)}
    (hwords : ∀ line ∈ groups, ∀ w ∈ line, IsWord w) :
    (layLines frame groups).map words = groups := by
  cases groups with
  | nil => rfl
  | cons line more =>
    simp only [layLines, List.map_cons, List.map_map, List.cons.injEq]
    refine ⟨by rw [words_blank_append hfirst, words_joinWords (hwords line (by simp))], ?_⟩
    conv_rhs => rw [← List.map_id more]
    apply List.map_congr_left
    intro l hl
    rw [Function.comp_apply, words_blank_append hlater,
      words_joinWords (hwords l (List.mem_cons_of_mem _ hl))]
    rfl

theorem layLines_live {frame : Frame} (hfirst : IsBlankText frame.first)
    (hlater : IsBlankText frame.later) {groups : List (List Text)}
    (hwords : ∀ line ∈ groups, ∀ w ∈ line, IsWord w) :
    (layLines frame groups).flatMap (fun t => words (live t)) = groups.flatMap liveOf := by
  conv_rhs => rw [← layLines_words hfirst hlater hwords, List.flatMap_map]
  apply List.flatMap_congr
  intro t _
  exact words_live t

theorem commentedBody_gap {line : Text} {pos : Nat} (h : commentAt? (strip line) = some pos) :
    ∃ gap r, IsBlankText gap ∧
      (strip line).drop (commentedBody line pos).length = gap ++ '%' :: r ∧
      (gap = [] → (commentedBody line pos).getLast? ≠ some '\\') := by
  obtain ⟨r, hsplit, -, hlast, -⟩ := commentAt?_some h
  obtain ⟨gap, hgap, htake⟩ := stripRight_split ((strip line).take pos)
  refine ⟨gap, r, hgap, ?_, ?_⟩
  · have : strip line = commentedBody line pos ++ (gap ++ '%' :: r) := by
      conv_lhs => rw [hsplit, htake]
      simp [commentedBody]
    conv_lhs => rw [this]
    rw [List.drop_left]
  · rintro rfl
    rw [List.append_nil] at htake
    rwa [commentedBody, ← htake]

theorem layLines_concat (frame : Frame) (groups : List (List Text)) (g : List Text) :
    ∃ m, (m = frame.first ∨ m = frame.later) ∧
      layLines frame (groups ++ [g]) = layLines frame groups ++ [m ++ joinWords g] := by
  cases groups with
  | nil => exact ⟨frame.first, Or.inl rfl, rfl⟩
  | cons line more => exact ⟨frame.later, Or.inr rfl, by simp [layLines]⟩

/-- A comment after the last of some filled lines adds no live word. -/
theorem layLines_comment_live {frame : Frame} (hfirst : IsBlankText frame.first)
    (hlater : IsBlankText frame.later) {groups : List (List Text)}
    (hwords : ∀ line ∈ groups, ∀ w ∈ line, IsWord w) (hlines : ∀ line ∈ groups, line ≠ [])
    (hne : groups ≠ []) {gap : Text} (hgap : IsBlankText gap)
    (hslash : gap = [] → groups.flatten.getLast?.bind List.getLast? ≠ some '\\') (r : Text) :
    (appendToLast (gap ++ '%' :: r) (layLines frame groups)).flatMap (fun t => words (live t)) =
      groups.flatMap liveOf := by
  obtain ⟨front, g, rfl⟩ := (List.eq_nil_or_concat' groups).resolve_left hne
  obtain ⟨m, hm, hlay⟩ := layLines_concat frame front g
  have hblank : IsBlankText m := by
    rcases hm with rfl | rfl
    · exact hfirst
    · exact hlater
  have hg := hwords g (by simp)
  have hends : endsAtGap (m ++ joinWords g) = false := by
    have hjoin := joinWords_ends hg (hlines g (by simp))
    rw [endsAtGap_append, hjoin]
    intro hnil
    rw [hnil] at hjoin
    cases hjoin
  have hlast : gap = [] → (m ++ joinWords g).getLast? ≠ some '\\' := by
    intro hnil
    rw [getLast?_of_words hends, words_blank_append hblank, words_joinWords hg]
    have := hslash hnil
    rwa [List.flatten_append, List.flatten_singleton,
      List.getLast?_append_of_ne_nil _ (hlines g (by simp))] at this
  rw [← layLines_live hfirst hlater hwords, hlay, appendToLast_concat, List.flatMap_append,
    List.flatMap_append, List.flatMap_singleton, List.flatMap_singleton,
    words_live_comment hgap hlast]

namespace Section

/-- A filled block has the live words of the groups that its words are packed into. -/
theorem Reads.live_contents {style : Style} {lines : List Line} {b : Block}
    (h : Reads style lines b) (hplain : ∀ l ∈ lines, isCommentLine l.text = false)
    (hb : b.isFilled = true) (width : Int) :
    (b.contents width).flatMap (fun t => Text.words (live t)) =
      (b.groups width).flatMap liveOf := by
  cases h with
  | copied line crossing => cases hb
  | commented line pos hk hbody =>
    have hword := words_isWord (commentedBody line.text pos)
    have hne := commentedBody_words hk
    have hmargin := blank_of_spaces (margin_spaces style.tabWidth line.text)
    have hhang := blank_of_spaces (hangingMargin_spaces style.tabWidth line.text)
    obtain ⟨gap, r, hgap, htail, hslash⟩ := commentedBody_gap (kindOf_commentAt hk)
    have hends : endsAtGap (commentedBody line.text pos) = false := by
      rcases commentedBody_ends line.text pos with hnil | hends
      · exact absurd (by rw [hnil]; rfl) hne
      · exact hends
    rw [getLast?_of_words hends] at hslash
    rw [commentedBlock_eq hbody]
    simp only [Block.contents, Block.groups, commentedLine, htail]
    refine layLines_comment_live hmargin hhang (pack_isWord _ width hword)
      (pack_nonempty _ width _) (pack_ne_nil _ width hword hne) hgap ?_ r
    rwa [pack_flatten _ width hword]
  | paragraph line rest p q hp hrest =>
    have hreads : Reads style (line :: rest) (.paragraph q) := .paragraph line rest p q hp hrest
    obtain ⟨hfirst, hlater⟩ : (∀ c ∈ q.frame.first, c = ' ') ∧ ∀ c ∈ q.frame.later, c = ' ' := by
      rcases hreads.frame_cases with ⟨-, hframe⟩ | ⟨hcomment, -⟩
      · exact hframe
      · exact absurd hcomment (hreads.plain_lines hplain).1
    exact layLines_live (blank_of_spaces hfirst) (blank_of_spaces hlater)
      (pack_isWord q.frame width hreads.isWord)

/-- The lines of a filled block have its words in groups of their own. -/
theorem Reads.live_source {style : Style} {lines : List Line} {b : Block}
    (h : Reads style lines b) (hplain : ∀ l ∈ lines, isCommentLine l.text = false)
    (hb : b.isFilled = true) :
    ∃ groups : List (List Text), groups.flatten = b.words ∧ (∀ g ∈ groups, g ≠ []) ∧
      lines.flatMap (fun l => Text.words (live l.text)) = groups.flatMap liveOf := by
  cases h with
  | copied line crossing => cases hb
  | commented line pos hk hbody =>
    obtain ⟨gap, r, hgap, htail, hslash⟩ := commentedBody_gap (kindOf_commentAt hk)
    refine ⟨[Text.words (commentedBody line.text pos)], ?_, ?_, ?_⟩
    · rw [commentedBlock_eq hbody]
      simp [Block.words, commentedLine]
    · simpa using commentedBody_words hk
    · rw [List.flatMap_singleton, List.flatMap_singleton, words_live, ← words_strip,
        ← words_live, ← commentedBody_split line.text pos, htail, words_live_comment hgap hslash,
        words_live]
  | paragraph line rest p q hp hrest =>
    have hreads : Reads style (line :: rest) (.paragraph q) := .paragraph line rest p q hp hrest
    obtain ⟨hwords, hne, -⟩ := hreads.words
    simp only [Paragraph.words_content (hreads.plain_lines hplain).1] at hwords hne
    refine ⟨(line :: rest).map fun l => Text.words l.text, ?_, ?_, ?_⟩
    · rw [Block.words, hwords, List.flatMap_def]
    · intro g hg
      obtain ⟨l, hl, rfl⟩ := List.mem_map.mp hg
      exact hne l hl
    · rw [List.flatMap_map]
      apply List.flatMap_congr
      intro l _
      exact words_live l.text

/-- The words of a block are no comments. -/
theorem Reads.words_plain {style : Style} {lines : List Line} {b : Block}
    (h : Reads style lines b) (hplain : ∀ l ∈ lines, isCommentLine l.text = false) :
    ∀ w ∈ b.words, IsWord w ∧ w.head? ≠ some '%' := by
  have hhead : ∀ l ∈ lines, (strip l.text).head? ≠ some '%' := by
    intro l hl hpercent
    have hno := hplain l hl
    rw [isCommentLine, (startsWith_percent _).mpr hpercent] at hno
    cases hno
  cases h with
  | copied line crossing => simp [Block.words]
  | commented line pos hk hbody =>
    obtain ⟨r, -, hnone, -, hfirst⟩ := commentAt?_some (kindOf_commentAt hk)
    rw [commentedBlock_eq hbody]
    intro w hw
    have hbody' : w ∈ Text.words ((strip line.text).take pos) := by
      have : w ∈ Text.words (commentedBody line.text pos) := hw
      rwa [commentedBody, words_stripRight] at this
    refine ⟨words_isWord _ w hbody', words_head_ne_percent hnone ?_ w hbody'⟩
    rw [hfirst]
    exact hhead line (by simp)
  | paragraph line rest p q hp hrest =>
    have hreads : Reads style (line :: rest) (.paragraph q) := .paragraph line rest p q hp hrest
    obtain ⟨hkind, hnone⟩ := hreads.plain_lines hplain
    intro w hw
    refine ⟨hreads.isWord w hw, ?_⟩
    rw [Block.words, hreads.words.1] at hw
    obtain ⟨l, hl, hw⟩ := List.mem_flatMap.mp hw
    rw [Paragraph.words_content hkind, ← words_strip] at hw
    exact words_head_ne_percent (hnone l hl) (hhead l hl) w hw

end Section

/-! ### Narrow and wide lines -/

theorem pack_apart (frame : Frame) {ws : List Text} (h : ∀ w ∈ ws, IsWord w) :
    pack frame 1 ws = ws.map fun w => [w] := by
  have hgreedy : ∀ margin, IsGreedy frame.later.length 1 margin (ws.map fun w => [w]) := by
    induction ws with
    | nil => intro margin; trivial
    | cons w ws ih =>
      intro margin
      have hw := List.length_pos_of_ne_nil (h w (by simp)).1
      refine ⟨by simp, Or.inl rfl, ?_, ih (fun v hv => h v (List.mem_cons_of_mem _ hv)) _⟩
      intro next hnext v hv
      rw [joinWords_singleton]
      omega
  have hflat : (ws.map fun w => [w]).flatten = ws := by
    rw [← List.flatMap_def, List.flatMap_singleton']
  have hpack := packWords_of_isGreedy (hgreedy frame.first.length)
  rwa [hflat, ← pack_eq_packWords frame 1 h] at hpack

theorem pack_whole {frame : Frame} {width : Int} {ws : List Text} (h : ∀ w ∈ ws, IsWord w)
    (hne : ws ≠ []) (hfit : (frame.first.length + (joinWords ws).length : Int) ≤ width) :
    pack frame width ws = [ws] := by
  have hgreedy : IsGreedy frame.later.length width frame.first.length [ws] :=
    ⟨hne, Or.inr hfit, by simp, trivial⟩
  have hpack := packWords_of_isGreedy hgreedy
  rwa [List.flatten_singleton, ← pack_eq_packWords frame width h] at hpack

/-- Where the reader of the lines takes the blocks apart does not depend on the width. -/
theorem blocksOf_width (style : Style) (width : Int) (lines : List Line) :
    blocksOf { style with maxWidth := width } lines = blocksOf style lines := by
  have hread : ∀ (stage : Stage) (line : Line),
      stage.read { style with maxWidth := width } line = stage.read style line := by
    intro stage line
    cases stage <;> rfl
  have hsegment : ∀ stage : Stage,
      stage.segment { style with maxWidth := width } lines = stage.segment style lines := by
    induction lines with
    | nil => intro stage; rfl
    | cons line lines ih =>
      intro stage
      rw [Stage.segment_cons, Stage.segment_cons, hread, ih]
  exact hsegment .idle

theorem Block.groups_eq {b : Block} (h : b.isFilled = true) :
    ∃ frame, ∀ width, b.groups width = pack frame width b.words := by
  cases b with
  | copied line crossing => cases h
  | paragraph p => exact ⟨p.frame, fun _ => rfl⟩
  | commented c => exact ⟨c.frame, fun _ => rfl⟩

namespace Section

/-- A block without opening signs, its last word apart, keeps the live words of its lines. -/
theorem Reads.live_kept {style : Style} {lines : List Line} {b : Block}
    (h : Reads style lines b) (hplain : ∀ l ∈ lines, isCommentLine l.text = false)
    (hlive : ∀ w ∈ b.words.dropLast, live w = w) (width : Int) :
    (b.contents width).flatMap (fun t => Text.words (live t)) =
      lines.flatMap fun l => Text.words (live l.text) := by
  rcases h.copied_or_filled with ⟨line, crossing, rfl, rfl⟩ | hb
  · rfl
  · have hword : ∀ w ∈ b.words, IsWord w := fun w hw => (h.words_plain hplain w hw).1
    obtain ⟨frame, hgroups⟩ := Block.groups_eq hb
    obtain ⟨source, hflat, hne, hsource⟩ := h.live_source hplain hb
    have hpack := pack_flatten frame width hword
    rw [h.live_contents hplain hb, hsource, hgroups,
      flatMap_liveOf (pack_nonempty frame width _) (by rwa [hpack]),
      flatMap_liveOf hne (by rwa [hflat]), hpack, hflat]

/-- No width gives a block more live words than one word to a line. -/
theorem Reads.length_live_le {style : Style} {lines : List Line} {b : Block}
    (h : Reads style lines b) (hplain : ∀ l ∈ lines, isCommentLine l.text = false) (width : Int) :
    ((b.contents width).flatMap fun t => Text.words (live t)).length ≤
      ((b.contents 1).flatMap fun t => Text.words (live t)).length := by
  rcases h.copied_or_filled with ⟨line, crossing, rfl, rfl⟩ | hb
  · exact le_rfl
  · have hword : ∀ w ∈ b.words, IsWord w := fun w hw => (h.words_plain hplain w hw).1
    have hhead : ∀ w ∈ b.words, w.head? ≠ some '%' := fun w hw => (h.words_plain hplain w hw).2
    obtain ⟨frame, hgroups⟩ := Block.groups_eq hb
    rw [h.live_contents hplain hb, h.live_contents hplain hb, hgroups, hgroups,
      pack_apart frame hword, length_liveOf_apart hword hhead]
    have hle := length_flatMap_liveOf_le (pack_isWord frame width hword)
    rwa [pack_flatten frame width hword] at hle

/-- A block that has as many live words on one line as on many has no hidden signs. -/
theorem Reads.live_of_length {style : Style} {lines : List Line} {b : Block}
    (h : Reads style lines b) (hplain : ∀ l ∈ lines, isCommentLine l.text = false)
    (hlen : ∀ width, 1 ≤ width → ((b.contents width).flatMap fun t => Text.words (live t)).length =
      ((b.contents 1).flatMap fun t => Text.words (live t)).length) :
    ∀ w ∈ b.words.dropLast, live w = w := by
  rcases h.copied_or_filled with ⟨line, crossing, rfl, rfl⟩ | hb
  · simp [Block.words]
  · have hword : ∀ w ∈ b.words, IsWord w := fun w hw => (h.words_plain hplain w hw).1
    have hhead : ∀ w ∈ b.words, w.head? ≠ some '%' := fun w hw => (h.words_plain hplain w hw).2
    obtain ⟨frame, hgroups⟩ := Block.groups_eq hb
    by_cases hne : b.words = []
    · simp [hne]
    · have hwide := hlen (frame.first.length + (joinWords b.words).length + 1) (by omega)
      rw [h.live_contents hplain hb, h.live_contents hplain hb, hgroups, hgroups,
        pack_apart frame hword, length_liveOf_apart hword hhead,
        pack_whole hword hne (by omega), List.flatMap_singleton] at hwide
      exact live_of_length_liveOf hword hwide

end Section

/-! ### Live words of a text -/

theorem length_flatMap_le {α β : Type} {f g : α → List β} {l : List α}
    (h : ∀ a ∈ l, (f a).length ≤ (g a).length) :
    (l.flatMap f).length ≤ (l.flatMap g).length := by
  induction l with
  | nil => exact le_rfl
  | cons a l ih =>
    have hfirst := h a (by simp)
    have hrest := ih fun b hb => h b (List.mem_cons_of_mem _ hb)
    simp only [List.flatMap_cons, List.length_append]
    omega

/-- Lists that are pointwise no longer and altogether as long are pointwise as long. -/
theorem length_eq_of_flatMap {α β : Type} {f g : α → List β} {l : List α}
    (hle : ∀ a ∈ l, (f a).length ≤ (g a).length)
    (heq : (l.flatMap f).length = (l.flatMap g).length) :
    ∀ a ∈ l, (f a).length = (g a).length := by
  induction l with
  | nil => simp
  | cons a l ih =>
    have hfirst := hle a (by simp)
    have hle' : ∀ b ∈ l, (f b).length ≤ (g b).length := fun b hb =>
      hle b (List.mem_cons_of_mem _ hb)
    have hrest := length_flatMap_le hle'
    simp only [List.flatMap_cons, List.length_append] at heq
    intro b hb
    rcases List.mem_cons.mp hb with rfl | hb
    · omega
    · exact ih hle' (by omega) b hb

theorem liveWords_reflow (style : Style) (width : Int) (t : Text) :
    liveWords (reflow { style with maxWidth := width } t) =
      (sectionsFrom style none t.lines).flatMap fun s =>
        (s.block.contents width).flatMap fun t => words (live t) := by
  rw [liveWords, flatMap_reflow (f := fun t => words (live t)) rfl, blocksOf_width, blocksOf_eq,
    List.flatMap_map]

theorem liveWords_sections (style : Style) (t : Text) :
    liveWords t = (sectionsFrom style none t.lines).flatMap fun s =>
      s.lines.flatMap fun l => words (live l.text) := by
  rw [liveWords, ← List.flatMap_assoc, sections_lines]

/-- Live text stays live and comments stay comments at every width exactly if no block has a word
with an opening sign before its last one. -/
theorem reflow_keeps_live_words_iff (style : Style) (t : Text)
    (h : ∀ l ∈ t.lines, isCommentLine l.text = false) :
    (∀ width, 1 ≤ width →
      liveWords (reflow { style with maxWidth := width } t) = liveWords t) ↔
        ∀ b ∈ blocksOf style t.lines, ∀ w ∈ b.words.dropLast, live w = w := by
  have hreads := sections_read style none t.lines
  have hplain := (forall_mem_sections style none).mp h
  rw [blocksOf_eq, List.forall_mem_map]
  constructor
  · intro hkept s hs
    -- One word to a line keeps all words alive, and so does any other width.
    apply (hreads s hs).live_of_length (hplain s hs)
    intro width hwidth
    refine length_eq_of_flatMap (f := fun s : Section =>
      (s.block.contents width).flatMap fun t => words (live t)) (g := fun s : Section =>
      (s.block.contents 1).flatMap fun t => words (live t)) ?_ ?_ s hs
    · intro r hr
      exact (hreads r hr).length_live_le (hplain r hr) width
    · rw [← liveWords_reflow, ← liveWords_reflow, hkept width hwidth, hkept 1 (Int.le_refl 1)]
  · intro hlive width _
    rw [liveWords_reflow, liveWords_sections style]
    apply List.flatMap_congr
    intro s hs
    exact (hreads s hs).live_kept (hplain s hs) (hlive s hs) width

/-- An escaped sign and an in-line comment are kept apart at every width, and so is a comment after
the break at the end of a paragraph. -/
theorem reflow_keeps_live_words_discount :
    ∃ t : Text, t = "20\\% off\nall hats % soon\nand\nscarves\\\\%\n".toList ∧
      (∀ l ∈ t.lines, isCommentLine l.text = false) ∧
      (∀ b ∈ blocksOf {} t.lines, ∀ w ∈ b.words.dropLast, live w = w) ∧
      liveWords t = ["20\\%", "off", "all", "hats", "and", "scarves\\\\"].map String.toList ∧
      ∀ width, 1 ≤ width → liveWords (reflow { maxWidth := width } t) = liveWords t :=
  ⟨_, rfl, by decide +kernel, by decide +kernel, by decide +kernel,
    (reflow_keeps_live_words_iff {} _ (by decide +kernel)).mpr (by decide +kernel)⟩

/-- A word after the line break that is a comment of its own is taken for text, and the next line
is put behind it. -/
theorem reflow_can_comment_out_text :
    ¬ ∀ (style : Style) (t : Text), style.Valid →
      (∀ l ∈ t.lines, isCommentLine l.text = false) →
        liveWords (reflow style t) = liveWords t := by
  intro h
  have := h {} "a \\\\% b\nc\n".toList (by decide) (by decide +kernel)
  revert this
  decide +kernel

end HardWrap
