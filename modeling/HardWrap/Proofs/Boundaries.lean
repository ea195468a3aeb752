import HardWrap.Proofs.Writing

/-! Where lines can be parted. If the blocks of some lines are those of a first part followed by
those of the rest, the lines are reflowed part by part, provided that no ending is dropped within
them. An environment that is copied is such a part: what comes before it is reflowed as if it ended
there, the environment stays as it is, and what comes after it starts afresh. -/

namespace HardWrap

open Text

namespace Stage

@[simp] theorem after_nil (style : Style) (stage : Stage) : stage.after style [] = stage := rfl

@[simp] theorem after_cons (style : Style) (stage : Stage) (line : Line) (lines : List Line) :
    stage.after style (line :: lines) = (stage.read style line).1.after style lines := rfl

/-- The blocks of two parts, if the reader has nothing in hand where they meet or hands it over
first. -/
theorem segment_append {style : Style} {stage : Stage} {xs ys : List Line}
    (h : (stage.after style xs).segment style ys =
      (stage.after style xs).flush ++ idle.segment style ys) :
    stage.segment style (xs ++ ys) = stage.segment style xs ++ idle.segment style ys := by
  induction xs generalizing stage with
  | nil => exact h
  | cons x xs ih =>
    rw [List.cons_append, segment_cons, segment_cons, List.append_assoc, ih h]

end Stage

theorem blocksOf_append {style : Style} {xs ys : List Line}
    (h : (Stage.idle.after style xs).segment style ys =
      (Stage.idle.after style xs).flush ++ blocksOf style ys) :
    blocksOf style (xs ++ ys) = blocksOf style xs ++ blocksOf style ys :=
  Stage.segment_append h

/-! ### Part by part -/

/-- Whether the ending of the last line that is written for some lines is dropped. -/
def endsDropped (style : Style) (lines : List Line) : Bool :=
  endsOpen lines && (blocksOf style lines).getLast?.any Block.isFilled

theorem endsDropped_eq (style : Style) (lines : List Line) :
    endsDropped style lines = dropsEnding (sectionsFrom style none lines) := by
  rw [dropsEnding_eq (sections_read style none lines), sections_lines, ← blocksOf_eq, endsDropped]

section Lines

variable {style : Style} {lines : List Line}

theorem flatMap_write_eq (e : Text) :
    (blocksOf style lines).flatMap (Block.write style.maxWidth e) =
      writeAll style.maxWidth e (sectionsFrom style none lines) := by
  rw [blocksOf_eq, List.flatMap_map]
  rfl

theorem reflowLines_of_kept (h : endsDropped style lines = false) (e : Text) :
    reflowLines style e lines = (blocksOf style lines).flatMap (Block.write style.maxWidth e) := by
  rw [endsDropped_eq] at h
  rw [reflowLines_eq, h, flatMap_write_eq]
  rfl

theorem reflowLines_of_dropped {e : Text} (he : e ≠ []) (h : endsDropped style lines = true) :
    (blocksOf style lines).flatMap (Block.write style.maxWidth e) =
      reflowLines style e lines ++ e := by
  rw [endsDropped_eq] at h
  obtain ⟨x, hx⟩ := writeAll_ends (sections_read style none lines) style.maxWidth e h
  rw [reflowLines_eq, if_pos h, flatMap_write_eq, hx, dropEnding_append he]

end Lines

theorem endsDropped_append {style : Style} {xs ys : List Line} (hne : ys ≠ [])
    (hblocks : blocksOf style (xs ++ ys) = blocksOf style xs ++ blocksOf style ys) :
    endsDropped style (xs ++ ys) = endsDropped style ys := by
  have hlast : blocksOf style ys ≠ [] := by
    intro hnil
    have hlines := sections_lines style none ys
    rw [blocksOf_eq, List.map_eq_nil_iff] at hnil
    rw [hnil] at hlines
    exact hne hlines.symm
  rw [endsDropped, endsDropped, hblocks, endsOpen_append hne,
    List.getLast?_append_of_ne_nil _ hlast]

/-- Two parts are reflowed one after the other. -/
theorem reflowLines_append {style : Style} {e : Text} (he : e ≠ []) {xs ys : List Line}
    (hblocks : blocksOf style (xs ++ ys) = blocksOf style xs ++ blocksOf style ys)
    (hkeep : endsDropped style xs = false) :
    reflowLines style e (xs ++ ys) = reflowLines style e xs ++ reflowLines style e ys := by
  by_cases hne : ys = []
  · subst hne
    have hempty : reflowLines style e [] = [] := rfl
    rw [hempty, List.append_nil, List.append_nil]
  · have hsame := endsDropped_append hne hblocks
    have hxs := reflowLines_of_kept hkeep e
    cases hys : endsDropped style ys with
    | false =>
      rw [reflowLines_of_kept (hsame.trans hys), reflowLines_of_kept hys, hxs, hblocks,
        List.flatMap_append]
    | true =>
      have hall := reflowLines_of_dropped he (hsame.trans hys)
      rw [hblocks, List.flatMap_append, ← hxs, reflowLines_of_dropped he hys,
        ← List.append_assoc] at hall
      exact (List.append_cancel_right hall).symm

/-! ### Copied environments -/

section Environment

variable {style : Style} {name : Text} {b : Line}

theorem Stage.read_begin (hb : kindOf b.text = .begins name)
    (hname : style.tracked.contains name = false) (stage : Stage) (hout : ∀ n, stage ≠ .copying n) :
    stage.read style b = (.copying name, stage.flush ++ [.copied b (.enters name)]) := by
  cases stage with
  | copying n => exact absurd rfl (hout n)
  | idle => simp only [read, readOutside, hb, readBegin, hname, Bool.false_eq_true, ↓reduceIte]
  | gathering p =>
    simp only [read, readOutside, hb, readBegin, hname, Bool.false_eq_true, ↓reduceIte]

theorem Stage.read_kept (style : Style) {line : Line}
    (h : closesEnvironment line.text name = false) :
    (copying name).read style line = (copying name, [insideBlock name line]) := by
  rw [read_copying, nextOpen, h]
  rfl

theorem Stage.read_closing (style : Style) {line : Line}
    (h : closesEnvironment line.text name = true) :
    (copying name).read style line = (idle, [insideBlock name line]) := by
  rw [read_copying, nextOpen, h]
  rfl

/-- Lines that do not close the environment are copied, and it stays open. -/
theorem Stage.segment_copying {zs : List Line}
    (hzs : ∀ l ∈ zs, closesEnvironment l.text name = false) (rest : List Line) :
    (copying name).segment style (zs ++ rest) =
      zs.map (insideBlock name) ++ (copying name).segment style rest := by
  induction zs with
  | nil => rfl
  | cons z zs ih =>
    have hrest := ih fun l hl => hzs l (List.mem_cons_of_mem _ hl)
    rw [List.cons_append, segment_cons, read_kept style (hzs z (by simp)), hrest]
    rfl

theorem Stage.after_copying {zs : List Line}
    (hzs : ∀ l ∈ zs, closesEnvironment l.text name = false) :
    (copying name).after style zs = copying name := by
  induction zs with
  | nil => rfl
  | cons z zs ih =>
    rw [after_cons, read_kept style (hzs z (by simp))]
    exact ih fun l hl => hzs l (List.mem_cons_of_mem _ hl)

theorem Stage.after_append (stage : Stage) (xs ys : List Line) :
    stage.after style (xs ++ ys) = (stage.after style xs).after style ys :=
  List.foldl_append

/-- Nothing is left in hand where an environment opens. -/
theorem blocksOf_append_begin (hb : kindOf b.text = .begins name)
    (hname : style.tracked.contains name = false) {xs : List Line}
    (hxs : ∀ n, Stage.idle.after style xs ≠ .copying n) (rest : List Line) :
    blocksOf style (xs ++ b :: rest) = blocksOf style xs ++ blocksOf style (b :: rest) := by
  apply blocksOf_append
  rw [blocksOf, Stage.segment_cons, Stage.segment_cons, Stage.read_begin hb hname _ hxs,
    Stage.read_begin hb hname .idle (by simp), List.append_assoc]
  rfl

/-- The lines of an environment are copied. -/
theorem blocksOf_environment (hb : kindOf b.text = .begins name)
    (hname : style.tracked.contains name = false) {zs : List Line}
    (hzs : ∀ l ∈ zs, closesEnvironment l.text name = false) (rest : List Line) :
    blocksOf style (b :: (zs ++ rest)) =
      .copied b (.enters name) :: (zs.map (insideBlock name) ++
        (Stage.copying name).segment style rest) := by
  have hread := Stage.read_begin hb hname .idle (by simp)
  rw [blocksOf, Stage.segment_cons, hread, Stage.segment_copying hzs]
  rfl

/-- Lines that are all copied stay as they are. -/
theorem reflowLines_of_copied {lines : List Line}
    (h : ∀ block ∈ blocksOf style lines, block.isFilled = false) (e : Text) :
    endsDropped style lines = false ∧ reflowLines style e lines = lines.flatMap Line.source := by
  have hkeep : endsDropped style lines = false := by
    rw [endsDropped, Bool.and_eq_false_iff]
    right
    cases hlast : (blocksOf style lines).getLast? with
    | none => rfl
    | some block => exact h block (List.mem_of_getLast? hlast)
  refine ⟨hkeep, ?_⟩
  rw [reflowLines_of_kept hkeep, blocksOf_eq, List.flatMap_map]
  conv_rhs => rw [← sections_lines style none lines, List.flatMap_assoc]
  apply List.flatMap_congr
  intro s hs
  have hblock := h s.block (by rw [blocksOf_eq]; exact List.mem_map_of_mem hs)
  obtain ⟨line, crossing, hlines, hcopied⟩ | hfilled :=
    (sections_read style none lines s hs).copied_or_filled
  · simp [hlines, hcopied]
  · rw [hblock] at hfilled
    cases hfilled

theorem environment_copied (hb : kindOf b.text = .begins name)
    (hname : style.tracked.contains name = false) {zs : List Line}
    (hzs : ∀ l ∈ zs, closesEnvironment l.text name = false) (rest : List Line)
    (hrest : (Stage.copying name).segment style rest = rest.map (insideBlock name)) :
    ∀ block ∈ blocksOf style (b :: (zs ++ rest)), block.isFilled = false := by
  rw [blocksOf_environment hb hname hzs, hrest, ← List.map_append]
  intro block hblock
  obtain rfl | hinside := List.mem_cons.mp hblock
  · rfl
  · obtain ⟨l, -, rfl⟩ := List.mem_map.mp hinside
    rfl

end Environment

/-- A copied environment stays as it is, whether or not it is closed, and what stands before it
and after it is reflowed as if it stood alone. -/
theorem copied_environment_leaves_no_trace {style : Style} {e : Text} (he : e ≠ [])
    {xs zs : List Line} {b : Line} {name : Text}
    (hout : ∀ n, Stage.idle.after style xs ≠ .copying n) (hxs : endsOpen xs = false)
    (hb : kindOf b.text = .begins name) (hname : style.tracked.contains name = false)
    (hzs : ∀ l ∈ zs, closesEnvironment l.text name = false) :
    (∀ close ys, closesEnvironment close.text name = true →
      reflowLines style e (xs ++ [b] ++ zs ++ [close] ++ ys) =
        reflowLines style e xs ++ ([b] ++ zs ++ [close]).flatMap Line.source ++
          reflowLines style e ys) ∧
    reflowLines style e (xs ++ [b] ++ zs) =
      reflowLines style e xs ++ ([b] ++ zs).flatMap Line.source := by
  have hkeep : endsDropped style xs = false := by rw [endsDropped, hxs, Bool.false_and]
  have hopening : ∀ rest, reflowLines style e (xs ++ b :: rest) =
      reflowLines style e xs ++ reflowLines style e (b :: rest) :=
    fun rest => reflowLines_append he (blocksOf_append_begin hb hname hout rest) hkeep
  constructor
  · intro close ys hclose
    have hlast : (Stage.copying name).segment style [close] = [close].map (insideBlock name) := by
      rw [Stage.segment_cons, Stage.read_closing style hclose]
      rfl
    obtain ⟨hkept, hwritten⟩ := reflowLines_of_copied (environment_copied hb hname hzs _ hlast) e
    -- The closing line leaves the reader between paragraphs, so the rest is read on its own.
    have hidle : Stage.idle.after style (b :: (zs ++ [close])) = .idle := by
      rw [Stage.after_cons, Stage.read_begin hb hname .idle (by simp), Stage.after_append,
        Stage.after_copying hzs, Stage.after_cons, Stage.read_closing style hclose, Stage.after_nil]
    have hparts : blocksOf style ((b :: (zs ++ [close])) ++ ys) =
        blocksOf style (b :: (zs ++ [close])) ++ blocksOf style ys := by
      apply blocksOf_append
      rw [hidle]
      rfl
    have hlines : xs ++ [b] ++ zs ++ [close] ++ ys = xs ++ b :: (zs ++ [close] ++ ys) := by simp
    rw [hlines, hopening, ← List.cons_append, reflowLines_append he hparts hkept, hwritten,
      ← List.append_assoc]
    rfl
  · have hall := environment_copied hb hname hzs [] rfl
    rw [List.append_nil] at hall
    have hlines : xs ++ [b] ++ zs = xs ++ b :: zs := by simp
    rw [hlines, hopening, (reflowLines_of_copied hall e).2]
    rfl

/-- A listing with a nested opening border, closed in the middle of a line of prose. -/
theorem copied_environment_leaves_no_trace_listing :
    ∃ (xs zs ys : List Line) (b close : Line),
      xs = lines "one\ntwo\n".toList ∧ b = ⟨"\\begin\x7blisting\x7d".toList, 2, ['\n']⟩ ∧
      zs = linesFrom 3 "  x   y\n\\begin\x7blisting\x7d\n\n% z\n".toList ∧
      close = ⟨"a  \\end\x7blisting\x7d b".toList, 7, ['\n']⟩ ∧
      ys = linesFrom 8 "three\nfour".toList ∧
      (∀ n, Stage.idle.after {} xs ≠ .copying n) ∧ endsOpen xs = false ∧
      kindOf b.text = .begins "listing".toList ∧
      (∀ l ∈ zs, closesEnvironment l.text "listing".toList = false) ∧
      closesEnvironment close.text "listing".toList = true ∧
      reflowLines {} ['\n'] (xs ++ [b] ++ zs ++ [close] ++ ys) =
        "one two\n".toList ++ ([b] ++ zs ++ [close]).flatMap Line.source ++
          "three four".toList ∧
      reflowLines {} ['\n'] (xs ++ [b] ++ zs) =
        "one two\n".toList ++ ([b] ++ zs).flatMap Line.source := by
  have hout : ∀ n, Stage.idle.after {} (lines "one\ntwo\n".toList) ≠ .copying n := by
    have hstage : Stage.idle.after {} (lines "one\ntwo\n".toList) =
        .gathering ((proseParagraph {} "one".toList).append ["two".toList]) := by
      decide +kernel
    intro n hn
    rw [hstage] at hn
    cases hn
  have hzs : ∀ l ∈ linesFrom 3 "  x   y\n\\begin\x7blisting\x7d\n\n% z\n".toList,
      closesEnvironment l.text "listing".toList = false := by
    decide +kernel
  have hcopied := copied_environment_leaves_no_trace (e := ['\n']) (by simp) hout
    (by decide +kernel) (b := ⟨"\\begin\x7blisting\x7d".toList, 2, ['\n']⟩) (by decide +kernel)
    (by decide +kernel) hzs
  refine ⟨_, _, _, _, _, rfl, rfl, rfl, rfl, rfl, hout, by decide +kernel, by decide +kernel, hzs,
    by decide +kernel, ?_, ?_⟩
  · rw [hcopied.1 _ _ (by decide +kernel)]
    decide +kernel
  · rw [hcopied.2]
    decide +kernel

end HardWrap
