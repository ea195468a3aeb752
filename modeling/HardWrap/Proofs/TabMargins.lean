import HardWrap.Engine
import HardWrap.Proofs.SelectedRows

/-! Tabs in margins. A reader looks at the margins of some lines only, and the tab width matters
only where such a margin holds a tab: lines without such a tab are laid out alike at every tab
width. -/

namespace HardWrap

variable {style : Style}

/-- A tab width that the machine cannot write as spaces. -/
def Limits.Exceeded (limits : Limits) (tabWidth : Int) : Prop :=
  limits.longest < tabWidth ∨ limits.memory < tabWidth

theorem checkTab_error_iff {limits : Limits} {n : Int} :
    (∃ fault, checkTab limits n = .error fault) ↔ limits.Exceeded n := by
  unfold checkTab Limits.Exceeded
  split
  next h => exact iff_of_true ⟨_, rfl⟩ (Or.inl h)
  next hshort =>
    split
    next h => exact iff_of_true ⟨_, rfl⟩ (Or.inr h)
    next hroom => exact iff_of_false nofun (not_or.mpr ⟨hshort, hroom⟩)

theorem checkTab_of_not_exceeded {limits : Limits} {n : Int} (h : ¬ limits.Exceeded n) :
    checkTab limits n = .ok n := by
  obtain ⟨hshort, hroom⟩ := not_or.mp h
  rw [checkTab, if_neg hshort, if_neg hroom]

/-- A margin is measured unless it holds a tab that the tab width is of no use for. -/
theorem measure_of_error {fault : TabFault} {line : Text} (h : holdsTab line = true)
    (marginOf : Int → Text → Text) : measure (.error fault) marginOf line = .error fault := by
  rw [measure, if_pos h]

theorem measure_of_usable {tab : Except TabFault Int} {line : Text}
    (h : ∀ fault, tab = .error fault → holdsTab line = false) (marginOf : Int → Text → Text) :
    measure tab marginOf line = .ok (marginOf (tab.toOption.getD 0) line) := by
  cases tab with
  | ok tabWidth => rfl
  | error fault =>
    rw [measure, h fault rfl]
    rfl

theorem margin_tabWidth {line : Text} (h : holdsTab line = false) (m n : Int) :
    margin m line = margin n line := by
  have hsame : ∀ c ∈ line.takeWhile isMarginChar, expandTab m c = expandTab n c := by
    intro c hc
    have hne : c ≠ '\t' := by
      rintro rfl
      simp [holdsTab, hc] at h
    rw [expandTab, expandTab, if_neg hne, if_neg hne]
  rw [margin, margin, List.flatMap_congr hsame]

namespace Stage

variable {stage : Stage}

/-- Whether the margin of a line is looked at. -/
def readsMargin (stage : Stage) (line : Text) : Bool :=
  match stage, kindOf line with
  | .copying _, _ => false
  | _, .prose none | _, .item none => true
  | _, .comment => isMergeableComment line
  | _, .prose (some pos) | _, .item (some pos) =>
    !isCommandLine (Text.stripRight ((Text.strip line).take pos))
  | _, _ => false

/-- Whether the margin of a line is looked at and holds a tab. -/
def meetsTab (stage : Stage) (line : Text) : Bool :=
  stage.readsMargin line && holdsTab line

/-- Only copied environments hide margins from the reader. -/
theorem readsMargin_eq (stage : Stage) (line : Text) :
    stage.readsMargin line = (stage.openName.isNone && idle.readsMargin line) := by
  cases stage with
  | copying name => rfl
  | idle => rfl
  | gathering p =>
    unfold readsMargin
    split <;> simp_all [openName]

theorem meetsTab_of_openName {s s' : Stage} (h : s.openName = s'.openName) (line : Text) :
    s.meetsTab line = s'.meetsTab line := by
  rw [meetsTab, meetsTab, readsMargin_eq, h, ← readsMargin_eq]

theorem margins_tabWidth {line : Text} (h : stage.meetsTab line = false)
    (hreads : stage.readsMargin line = true) (m n : Int) :
    margin m line = margin n line ∧ hangingMargin m line = hangingMargin n line ∧
      commentMargin m line = commentMargin n line := by
  have hmargin : margin m line = margin n line := by
    rw [meetsTab, hreads, Bool.true_and] at h
    exact margin_tabWidth h m n
  refine ⟨hmargin, ?_, ?_⟩
  · rw [hangingMargin, hangingMargin, hmargin]
  · rw [commentMargin, commentMargin, hmargin]

theorem readCommented_tabWidth {line : Line} {pos : Nat} (n : Int)
    (h : isCommandLine (Text.stripRight ((Text.strip line.text).take pos)) = false →
      margin n line.text = margin style.tabWidth line.text ∧
        hangingMargin n line.text = hangingMargin style.tabWidth line.text) :
    stage.readCommented { style with tabWidth := n } line pos =
      stage.readCommented style line pos := by
  rw [readCommented, readCommented, commentedBlock, commentedBlock]
  by_cases hcommands : isCommandLine (Text.stripRight ((Text.strip line.text).take pos)) = true
  · simp only [hcommands, ↓reduceIte]
  · obtain ⟨hmargin, hhanging⟩ := h (by simpa using hcommands)
    simp only [hmargin, hhanging]

theorem readOutside_tabWidth {line : Line} (hopen : stage.openName = none)
    (h : stage.meetsTab line.text = false) (n : Int) :
    stage.readOutside { style with tabWidth := n } line = stage.readOutside style line := by
  have hmargins : idle.readsMargin line.text = true → _ := fun hreads =>
    margins_tabWidth h (by rw [readsMargin_eq, hopen, hreads]; rfl) n style.tabWidth
  unfold readOutside
  unfold readsMargin at hmargins
  cases hkind : kindOf line.text with
  | begins name => rfl
  | ends name => rfl
  | blank => rfl
  | command => rfl
  | comment =>
    simp only [hkind] at hmargins ⊢
    by_cases hmerges : isMergeableComment line.text = true
    · obtain ⟨-, -, hcomment⟩ := hmargins hmerges
      have hfresh : commentParagraph { style with tabWidth := n } line.text =
          commentParagraph style line.text := by rw [commentParagraph, commentParagraph, hcomment]
      rw [readComment, readComment, hfresh]
    · simp only [readComment, hmerges, Bool.not_false, ↓reduceIte]
  | item pos =>
    simp only [hkind] at hmargins ⊢
    cases pos with
    | none =>
      obtain ⟨hmargin, hhanging, -⟩ := hmargins rfl
      simp only [readItem, itemParagraph, hmargin, hhanging]
    | some pos =>
      refine readCommented_tabWidth n fun hcommands => ?_
      obtain ⟨hmargin, hhanging, -⟩ := hmargins (by simpa using hcommands)
      exact ⟨hmargin, hhanging⟩
  | prose pos =>
    simp only [hkind] at hmargins ⊢
    cases pos with
    | none =>
      obtain ⟨hmargin, -⟩ := hmargins rfl
      have hfresh : proseParagraph { style with tabWidth := n } line.text =
          proseParagraph style line.text := by rw [proseParagraph, proseParagraph, hmargin]
      show stage.readProse _ line.text = stage.readProse style line.text
      unfold readProse
      rw [hfresh]
    | some pos =>
      refine readCommented_tabWidth n fun hcommands => ?_
      obtain ⟨hmargin, hhanging, -⟩ := hmargins (by simpa using hcommands)
      exact ⟨hmargin, hhanging⟩

theorem read_tabWidth {line : Line} (h : stage.meetsTab line.text = false) (n : Int) :
    stage.read { style with tabWidth := n } line = stage.read style line := by
  cases stage with
  | copying name => rfl
  | idle => exact readOutside_tabWidth rfl h n
  | gathering p => exact readOutside_tabWidth rfl h n

end Stage

/-- Whether a tab has to be written as spaces somewhere in lines that follow. -/
def Stage.MeetsTab (style : Style) (stage : Stage) (lines : List Line) : Prop :=
  ∃ front line back, lines = front ++ line :: back ∧
    (stage.after style front).meetsTab line.text = true

namespace Stage

theorem not_meetsTab_nil {style : Style} {stage : Stage} : ¬ stage.MeetsTab style [] := by
  rintro ⟨front, line, back, hsplit, -⟩
  cases front <;> cases hsplit

theorem meetsTab_cons_iff {stage : Stage} {line : Line} {rest : List Line} :
    stage.MeetsTab style (line :: rest) ↔
      stage.meetsTab line.text = true ∨ (stage.read style line).1.MeetsTab style rest := by
  constructor
  · rintro ⟨front, tabbed, back, hsplit, htab⟩
    cases front with
    | nil =>
      obtain ⟨rfl, rfl⟩ := List.cons.inj hsplit
      exact Or.inl htab
    | cons first front =>
      obtain ⟨rfl, rfl⟩ := List.cons.inj hsplit
      exact Or.inr ⟨front, tabbed, back, rfl, htab⟩
  · rintro (htab | ⟨front, tabbed, back, rfl, htab⟩)
    · exact ⟨[], line, rest, rfl, htab⟩
    · exact ⟨line :: front, tabbed, back, rfl, htab⟩

/-- Which margins are looked at depends on the tracked environments alone. -/
theorem meetsTab_tabWidth (stage : Stage) (lines : List Line) (n : Int) :
    stage.MeetsTab { style with tabWidth := n } lines ↔ stage.MeetsTab style lines := by
  unfold MeetsTab
  have hsame : ∀ front : List Line,
      (stage.after { style with tabWidth := n } front).openName =
        (stage.after style front).openName := by
    intro front
    rw [openName_after, openName_after]
    rfl
  simp only [meetsTab_of_openName (hsame _)]

theorem segment_tabWidth {stage : Stage} {lines : List Line} (h : ¬ stage.MeetsTab style lines)
    (n : Int) : stage.segment { style with tabWidth := n } lines = stage.segment style lines := by
  induction lines generalizing stage with
  | nil => rfl
  | cons line rest ih =>
    rw [meetsTab_cons_iff, not_or, Bool.not_eq_true] at h
    rw [segment, segment, read_tabWidth h.1 n]
    exact congrArg _ (ih h.2)

end Stage

/-- Whether a tab has to be written as spaces somewhere in the lines of a text. -/
abbrev MeetsTab (style : Style) (lines : List Line) : Prop :=
  Stage.idle.MeetsTab style lines

theorem blocksOf_tabWidth {lines : List Line} (h : ¬ MeetsTab style lines) (n : Int) :
    blocksOf { style with tabWidth := n } lines = blocksOf style lines :=
  Stage.segment_tabWidth h n

namespace View

variable {view : View}

/-- The lines of the paragraph around a row. -/
def paragraphLines (view : View) (style : Style) (index : Int) : List Line :=
  match view.paragraphAt style index with
  | .ok (some (first, last)) => view.linesBetween first last
  | _ => []

end View

end HardWrap
