import HardWrap.Proofs.BlankLines
import HardWrap.Proofs.Boundaries
import HardWrap.Proofs.Rewrap

/-! All rows of a document. A text is reflowed by its lines, a document by its rows, and there may
be one more, empty row at the end. That row is copied wherever it stands and takes no part in what
is written, and the ending for filled lines is the same in both. So the proposal for all rows gives
the reflowed text, which ends with a line ending exactly if the source does. -/

namespace HardWrap

open Text

/-! ### Rows and lines -/

namespace Text

theorem closeRows_cases {ps : List (Text × Text)} (h : IsCut ps) :
    (closeRows ps = ps ++ [([], [])] ∧ ∀ p ∈ ps, IsEnding p.2) ∨ closeRows ps = ps := by
  rcases List.eq_nil_or_concat' ps with rfl | ⟨front, ⟨t, e⟩, rfl⟩
  · exact Or.inl ⟨rfl, by simp⟩
  · have hfront := h.ending_of_append (by simp)
    rcases h.ending_or_nil (t, e) (by simp) with he | rfl
    · have hall : ∀ p ∈ front ++ [(t, e)], IsEnding p.2 := by
        intro p hp
        rcases List.mem_append.mp hp with hp | hp
        · exact hfront p hp
        · rwa [List.mem_singleton.mp hp]
      refine Or.inl ⟨?_, hall⟩
      conv_lhs => rw [← List.append_nil (front ++ [(t, e)]), closeRows_append hall]
      rfl
    · exact Or.inr (closeRows_append hfront [(t, [])])

theorem number_append (start : Nat) (ps qs : List (Text × Text)) :
    number start (ps ++ qs) = number start ps ++ number (start + ps.length) qs := by
  induction ps generalizing start with
  | nil => rfl
  | cons p ps ih =>
    rw [List.cons_append, number, number, ih, List.length_cons, Nat.add_right_comm start 1,
      Nat.add_assoc start]
    rfl

theorem numberRows_placeRows (start offset : Nat) (ps : List (Text × Text)) :
    numberRows start (placeRows offset ps) = number start ps := by
  induction ps generalizing start offset with
  | nil => rfl
  | cons p ps ih =>
    rw [placeRows, numberRows, number, ih]
    rfl

end Text

theorem blocksOf_append_empty (style : Style) (xs : List Line) (n : Nat) :
    blocksOf style (xs ++ [⟨[], n, []⟩]) = blocksOf style xs ++ blocksOf style [⟨[], n, []⟩] := by
  apply blocksOf_append
  cases Stage.idle.after style xs with
  | idle => rfl
  | gathering p =>
    have hjoins : p.joins style [] = false := by
      unfold Paragraph.joins
      cases p.kind <;> rfl
    rw [Stage.segment_cons, Stage.read_of_not_joins hjoins]
    rfl
  | copying name =>
    have hopen : closesEnvironment [] name = false := rfl
    rw [Stage.segment_cons, Stage.read_kept style hopen]
    rfl

/-- The rows of a document are reflowed like the lines of its text. -/
theorem reflowLines_rows_eq (style : Style) {e : Text} (he : e ≠ []) (s : Text) :
    reflowLines style e (numberRows 0 s.rows) = reflowLines style e s.lines := by
  rw [rows, numberRows_placeRows]
  rcases closeRows_cases (cut_isCut s) with ⟨hclose, hends⟩ | hclose
  · have hkeep : endsDropped style s.lines = false := by
      rw [endsDropped, Bool.and_eq_false_iff, endsOpen]
      left
      rw [Option.any_eq_false]
      intro l hl
      have hl' : IsEnding l.ending := hends l.parts (by
        rw [← lines_parts]
        exact List.mem_map_of_mem (List.mem_of_getLast? hl))
      simpa using hl'.ne_nil
    have hempty : reflowLines style e [⟨[], 0 + (cut s).length, []⟩] = [] := rfl
    rw [hclose, number_append]
    exact (reflowLines_append he (blocksOf_append_empty style s.lines _) hkeep).trans
      (by rw [hempty, List.append_nil])
  · rw [hclose]
    rfl

namespace View

theorem rows_head (s : Text) : ∃ top more, s.rows = top :: more ∧ top.offset = 0 := by
  obtain ⟨front, last, hrows, -⟩ := rows_ends s
  obtain ⟨top, more, hcons⟩ := List.exists_cons_of_ne_nil (show s.rows ≠ [] by simp [hrows])
  refine ⟨top, more, hcons, ?_⟩
  have hoffset := row_offset (t := s) (k := 0) (r := top) (by simp [hcons])
  simpa using hoffset

theorem rows_last (s : Text) :
    ∃ bottom, s.rows[s.rows.length - 1]? = some bottom ∧ bottom.stop = s.length := by
  obtain ⟨front, bottom, hrows, -⟩ := rows_ends s
  refine ⟨bottom, by simp [hrows], ?_⟩
  have hlength := length_ofText s
  simpa [length, ofText, hrows] using hlength

/-- The first row has the ending that new lines of the text get. -/
theorem endingAt_zero (s : Text) : (ofText s).endingAt 0 = s.newEnding := by
  obtain ⟨top, more, hrows, -⟩ := rows_head s
  have hcut := rows_isCut s
  have hjoin := joinLines_rows s
  rw [hrows, List.map_cons, Row.parts] at hcut hjoin
  have hfirst : (ofText s).endingOf? 0 = (some top.ending).filter fun e => !e.isEmpty := by
    simp [endingOf?, row?, ofText, hrows]
  have hbefore : (ofText s).endingOf? (0 - 1) = none := rfl
  rw [endingAt, hfirst, hbefore, Option.or_none]
  by_cases hend : top.ending = []
  · rw [hend]
    rfl
  · have hending : IsEnding top.ending := hcut.2.1.resolve_right fun hnil => hend hnil.1
    have hnew := firstEnding?_line hcut.1 hending _ hcut.2.2.1
    rw [← joinLines_cons, hjoin] at hnew
    have hsame : s.newEnding = top.ending := by rw [newEnding, hnew, Option.getD_some]
    rw [hsame, Option.filter_some, if_pos (by simpa using hend), Option.getD_some]

theorem reflowRange_whole (s : Text) (style : Style) :
    (ofText s).reflowRange style 0 ((ofText s).count - 1) =
      .ok ((ofText s).proposeRows style 0 ((ofText s).count - 1) 0 s.length) := by
  obtain ⟨top, more, hrows, htop⟩ := rows_head s
  obtain ⟨bottom, hbottom, hstop⟩ := rows_last s
  have hcount : ((ofText s).count : Int) - 1 = ((s.rows.length - 1 : Nat) : Int) := by
    rw [count, ofText, hrows, List.length_cons]
    omega
  have hfirst : (ofText s).row 0 = .ok top := row_of_getElem (k := 0) (by simp [hrows])
  have hlast := row_of_getElem hbottom
  have hle : ¬ (0 : Int) > ((s.rows.length - 1 : Nat) : Int) := by omega
  rw [reflowRange, hcount]
  simp only [hfirst, hlast, hle, htop, hstop, bind, Except.bind, pure, Except.pure, ↓reduceIte,
    Int.toNat_natCast, Int.toNat_zero]
  rfl

theorem proposeRows_whole (s : Text) (style : Style) :
    ((ofText s).proposeRows style 0 ((ofText s).count - 1) 0 s.length).edit =
      if reflow style s = s then none else some ⟨0, s.length, reflow style s, none⟩ := by
  have hlines : (ofText s).linesBetween 0 ((ofText s).count - 1) = numberRows 0 s.rows := by
    obtain ⟨top, more, hrows, -⟩ := rows_head s
    rw [linesBetween, count, ofText, List.drop_zero, List.take_of_length_le]
    rw [hrows, List.length_cons]
    omega
  have hbefore : (ofText s).between 0 s.length = s := by
    simp [between, ofText]
  have hafter : reflowLines style ((ofText s).endingAt (0 : Nat)) (numberRows 0 s.rows) =
      reflow style s := by
    rw [Int.natCast_zero, endingAt_zero, reflowLines_rows_eq style (newEnding_isEnding s).ne_nil]
    rfl
  simp only [proposeRows, hlines, hbefore, hafter]
  split <;> rfl

end View

/-! ### The end of the text -/

/-- Whether a text ends with a line ending. -/
def Text.EndsLine (t : Text) : Prop :=
  ∃ c, t.getLast? = some c ∧ (c = '\r' ∨ c = '\n')

theorem endsLine_joinLines (ps : List (Text × Text)) {t e : Text} (ht : Unbroken t)
    (he : IsEnding e ∨ e = []) (hne : (t, e) ≠ ([], [])) :
    (joinLines (ps ++ [(t, e)])).EndsLine ↔ IsEnding e := by
  have hjoin : joinLines (ps ++ [(t, e)]) = joinLines ps ++ t ++ e := by simp
  rw [hjoin, EndsLine]
  rcases he with he | rfl
  · refine ⟨fun _ => he, fun _ => ?_⟩
    rw [List.getLast?_append_of_ne_nil _ he.ne_nil]
    rcases he with rfl | rfl | rfl <;> simp
  · have hnil : t ≠ [] := by
      rintro rfl
      exact hne rfl
    rw [List.append_nil, List.getLast?_append_of_ne_nil _ hnil]
    constructor
    · rintro ⟨c, hc, hbreak⟩
      have hfree := ht c (List.mem_of_getLast? hc)
      rcases hbreak with rfl | rfl <;> simp at hfree
    · intro hno
      exact absurd rfl hno.ne_nil

/-- Unless its ending is dropped, a block ends with a line ending exactly if its source does. -/
theorem Section.Reads.lastEnding_iff {style : Style} {lines : List Line} {b : Block}
    (h : Reads style lines b) {e : Text} (he : IsEnding e)
    (hends : ∀ l ∈ lines, IsEnding l.ending ∨ l.ending = [])
    (hkeep : (endsOpen lines && b.isFilled) = false) :
    IsEnding (b.lastEnding e) ↔ endsOpen lines = false := by
  rcases h.copied_or_filled with ⟨line, crossing, rfl, rfl⟩ | hb
  · have hline := hends line (by simp)
    simp only [Block.lastEnding, endsOpen, List.getLast?_singleton, Option.any_some]
    constructor
    · intro hend
      simpa using hend.ne_nil
    · intro hopen
      exact hline.resolve_right (by simpa using hopen)
  · rw [hb, Bool.and_true] at hkeep
    have hlast := (h.lastEnding_cases he hends).2.1 (Or.inl hb)
    exact ⟨fun _ => hkeep, fun _ => hlast⟩

theorem writtenRows_concat {style : Style} (front : List Section) {last : Section}
    (h : Section.Reads style last.lines last.block) (width : Int) (e : Text) :
    ∃ ps t, writtenRows width e (front ++ [last]) = ps ++ [(t, last.block.lastEnding e)] := by
  obtain ⟨ps, t, hrows⟩ := h.rows_concat width e
  refine ⟨writtenRows width e front ++ ps, t, ?_⟩
  rw [writtenRows, List.flatMap_append, List.flatMap_singleton, hrows, ← List.append_assoc]
  rfl

/-- The last line that is written has an ending exactly if the last line of the source has one. -/
theorem reflowLines_last (style : Style) {e : Text} (he : IsEnding e) {lines : List Line}
    (hne : lines ≠ []) (hcut : IsCut (lines.map Line.parts))
    (hempty : ([], []) ∉ lines.map Line.parts) :
    ∃ ps t f, reflowLines style e lines = joinLines (ps ++ [(t, f)]) ∧ Unbroken t ∧
      (IsEnding f ∨ f = []) ∧ (t, f) ≠ ([], []) ∧ (IsEnding f ↔ endsOpen lines = false) := by
  have hreads := sections_read style none lines
  have hlines := sections_lines style none lines
  generalize hsections : sectionsFrom style none lines = sections at hreads hlines
  obtain ⟨front, last, rfl⟩ := (List.eq_nil_or_concat' sections).resolve_left (by
    rintro rfl
    exact hne hlines.symm)
  have hlast := hreads last (by simp)
  have hopen : endsOpen lines = endsOpen last.lines := by
    rw [← hlines, List.flatMap_append, List.flatMap_singleton,
      endsOpen_append hlast.lines_ne_nil]
  have hsource : ∀ l ∈ last.lines, l.parts ∈ lines.map Line.parts := by
    intro l hl
    rw [← hlines]
    exact List.mem_map_of_mem (List.mem_flatMap.mpr ⟨last, by simp, hl⟩)
  have hends := fun l hl => hcut.ending_or_nil l.parts (hsource l hl)
  rw [← hlines] at hcut hempty
  obtain ⟨hlined, hdropped⟩ := writtenRows_lined hreads hcut style.maxWidth he
  rw [reflowLines_eq, hsections, writeAll_rows hreads style.maxWidth he]
  split
  next hdrop =>
    obtain ⟨ps, t, ht, hconcat⟩ := hdropped hdrop
    have hisOpen : endsOpen lines = true := by
      simp only [dropsEnding, List.getLast?_append, List.getLast?_singleton, Option.some_or,
        Option.any_some, Bool.and_eq_true] at hdrop
      rw [hopen, hdrop.1]
    have hunbroken : Unbroken t := by
      have hrow : (t, e) ∈ writtenRows style.maxWidth e (front ++ [last]) := by simp [hconcat]
      exact (hlined.mem _ hrow).1
    have hjoin : joinLines (ps ++ [(t, e)]) = joinLines (ps ++ [(t, [])]) ++ e := by simp
    refine ⟨ps, t, [], ?_, hunbroken, Or.inr rfl, by simp [ht], ?_⟩
    · rw [hconcat, hjoin, dropEnding_append he.ne_nil]
    · rw [hisOpen]
      exact ⟨fun hno => absurd rfl hno.ne_nil, fun hno => by cases hno⟩
  next hdrop =>
    obtain ⟨ps, t, hwritten⟩ := writtenRows_concat front hlast style.maxWidth e
    have hkeep : (endsOpen last.lines && last.block.isFilled) = false := by
      simpa [dropsEnding] using hdrop
    have hrow : (t, last.block.lastEnding e) ∈ writtenRows style.maxWidth e (front ++ [last]) := by
      simp [hwritten]
    obtain ⟨hunbroken, hending⟩ := hlined.mem _ hrow
    refine ⟨ps, t, _, by rw [hwritten], hunbroken, hending, ?_, ?_⟩
    · intro hnil
      rw [hnil] at hrow
      exact writtenRows_ne_empty hreads style.maxWidth e hempty hrow
    · rw [hopen]
      exact hlast.lastEnding_iff he hends hkeep

theorem reflow_endsLine_iff (style : Style) (s : Text) :
    (reflow style s).EndsLine ↔ s.EndsLine := by
  rcases List.eq_nil_or_concat' (cut s) with hnil | ⟨ps, ⟨t, e⟩, hconcat⟩
  · have hs := joinLines_cut s
    rw [hnil] at hs
    rw [← hs]
    rfl
  · have hcut := cut_isCut s
    have hempty := cut_ne_empty s
    have hmem : (t, e) ∈ cut s := by simp [hconcat]
    have hsource := endsLine_joinLines ps (hcut.unbroken _ hmem) (hcut.ending_or_nil _ hmem)
      (fun h => hempty (h ▸ hmem))
    rw [← hconcat, joinLines_cut] at hsource
    have hopen : endsOpen s.lines = e.isEmpty := by
      have hlast := congrArg List.getLast? (lines_parts s)
      rw [List.getLast?_map, hconcat, List.getLast?_concat, Option.map_eq_some_iff] at hlast
      obtain ⟨l, hl, hparts⟩ := hlast
      rw [endsOpen, hl, Option.any_some, show l.ending = e from congrArg Prod.snd hparts]
    have hlines : s.lines ≠ [] := by
      intro hnil
      have hparts := lines_parts s
      rw [hnil, hconcat] at hparts
      simp at hparts
    rw [← lines_parts] at hcut hempty
    obtain ⟨qs, u, f, hreflow, hu, hf, hne, hiff⟩ :=
      reflowLines_last style (newEnding_isEnding s) hlines hcut hempty
    rw [reflow, hreflow, endsLine_joinLines qs hu hf hne, hiff, hsource, hopen]
    rcases (cut_isCut s).ending_or_nil _ hmem with he | rfl
    · simpa [he.ne_nil] using he
    · simpa using fun hno : IsEnding [] => hno.ne_nil rfl

/-- The proposal for all rows of a document makes of its text what reflow makes of it, and the
result ends with a line ending exactly if the text does. -/
theorem whole_range_agrees_with_reflow (style : Style) (s : Text) :
    ∃ proposal, (View.ofText s).reflowRange style 0 ((View.ofText s).count - 1) = .ok proposal ∧
      (proposal.edit = none → s = reflow style s) ∧
      (∀ edit, proposal.edit = some edit → edit.apply s = .ok (reflow style s)) ∧
      ((reflow style s).EndsLine ↔ s.EndsLine) := by
  refine ⟨_, View.reflowRange_whole s style, ?_, ?_, reflow_endsLine_iff style s⟩
  · intro hnone
    rw [View.proposeRows_whole] at hnone
    split at hnone
    next hsame => exact hsame.symm
    next => cases hnone
  · intro edit hsome
    rw [View.proposeRows_whole] at hsome
    split at hsome
    next => cases hsome
    next =>
      obtain rfl := Option.some.inj hsome
      simp [Edit.apply, Edit.stop]

end HardWrap
