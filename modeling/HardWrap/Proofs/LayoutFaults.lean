import HardWrap.CommandLine.Wrap
import HardWrap.Proofs.RangeFaults

/-! What becomes of a text that is laid out, whole or around one line. It gets its new text, or the
line is not there, or the layout itself fails: the tracked environments make no set, or a margin
holds a tab that cannot be written as spaces. -/

namespace HardWrap

theorem Style.layout_reflowLines {limits : Limits} {style : Style} {lines : List Line}
    (h : ¬ (style.layout limits).Stops lines) (ending : Text) :
    reflowLines (style.layout limits).style ending lines = reflowLines style ending lines := by
  have hwidth : (style.layout limits).style.maxWidth = style.maxWidth := rfl
  rw [reflowLines, reflowLines, layout_blocksOf h, hwidth]

namespace View

variable {limits : Limits} {style : Style} {view : View}

theorem reflowRange_layout {first last : Nat}
    (h : ¬ (style.layout limits).Stops (view.linesBetween first last)) :
    view.reflowRange (style.layout limits).style first last =
      view.reflowRange style first last := by
  have hrows : ∀ start stop,
      view.proposeRows (style.layout limits).style first last start stop =
        view.proposeRows style first last start stop := by
    intro start stop
    rw [proposeRows, proposeRows, reflowNotes, reflowNotes, Style.layout_reflowLines h,
      Style.layout_blocksOf h]
  unfold reflowRange
  refine bind_congr fun top => bind_congr fun bottom => ?_
  rw [Int.toNat_natCast, Int.toNat_natCast, hrows]

theorem reflowAround_layout {index : Int}
    (h : ¬ (style.layout limits).Stops (view.paragraphLines style index)) :
    view.reflowAround (style.layout limits).style index = view.reflowAround style index := by
  have hsame : view.paragraphAt (style.layout limits).style index =
      view.paragraphAt style index := rfl
  unfold reflowAround
  unfold paragraphLines at h
  rw [hsame]
  rcases hpar : view.paragraphAt style index with fault | _ | ⟨first, last⟩
  · simp only [bind, Except.bind]
  · simp only [ok_bind]
  · rw [hpar] at h
    rw [ok_bind]
    exact reflowRange_layout h

end View

namespace CommandLine

/-- The lines that are laid out: all of them, or those of the paragraph around one. -/
def linesToLay (style : Style) (line : Option Int) (t : Text) : List Line :=
  match line with
  | none => t.lines
  | some l => (View.ofText t).paragraphLines style (l - 1)

/-- The text with these lines laid out. -/
def newText (style : Style) (line : Option Int) (t : Text) : Text :=
  match line with
  | none => reflow style t
  | some l =>
    match (View.ofText t).reflowAround style (l - 1) with
    | .error _ => t
    | .ok proposal => proposal.applyTo t

/-- Whether a text has the line around which it is laid out. -/
def HasLine (line : Option Int) (t : Text) : Prop :=
  ∀ l, line = some l → (View.ofText t).HasRow (l - 1)

theorem hasLine_some_iff {l : Int} {t : Text} :
    HasLine (some l) t ↔ (View.ofText t).HasRow (l - 1) := by
  constructor
  · exact fun h => h l rfl
  · rintro h _ ⟨⟩
    exact h

theorem newText_layout {limits : Limits} {style : Style} {line : Option Int} {t : Text}
    (h : ¬ (style.layout limits).Stops (linesToLay style line t)) :
    newText (style.layout limits).style line t = newText style line t := by
  cases line with
  | none => exact Style.layout_reflowLines h t.newEnding
  | some l =>
    unfold newText
    dsimp only
    rw [View.reflowAround_layout h]

namespace Job

/-- Lays a text out, whole or around one line. -/
def laid (job : Job) (t : Text) : Noted Failure Text :=
  match job.options.line with
  | none => reflowWhole job.limits job.settings t
  | some l => reflowParagraph job.limits job.settings t (l - 1)

/-- The style of a run, for settings that name environments. -/
def style (job : Job) : Style :=
  (job.settings.layout job.limits ((Settings.trackedOf job.settings.tracked).getD [])).style

/-- Why a text cannot be laid out. -/
inductive LayoutFails (job : Job) (t : Text) : Prop
  /-- The environments make no set. They are not looked at for a line that is a boundary. -/
  | names (hnames : Settings.trackedOf job.settings.tracked = none)
    (hlooks : ∀ l, job.options.line = some l →
      ∃ row, (View.ofText t).row (l - 1) = .ok row ∧ View.isBoundary row = false)
  | tab {names : List Text} (hnames : Settings.trackedOf job.settings.tracked = some names)
    (hstops : (job.settings.layout job.limits names).Stops
      (linesToLay job.style job.options.line t))

variable {job : Job} {t : Text}

theorem layoutFails_iff_stops {names : List Text}
    (hnames : Settings.trackedOf job.settings.tracked = some names) :
    job.LayoutFails t ↔
      (job.settings.layout job.limits names).Stops
        (linesToLay job.style job.options.line t) := by
  constructor
  · rintro (⟨hnone, -⟩ | ⟨hsome, hstops⟩)
    · rw [hnames] at hnone
      cases hnone
    · obtain rfl := Option.some.inj (hnames.symm.trans hsome)
      exact hstops
  · exact fun hstops => .tab hnames hstops

theorem style_eq {names : List Text}
    (hnames : Settings.trackedOf job.settings.tracked = some names) :
    job.style = (job.settings.layout job.limits names).style := by
  rw [style, hnames]
  rfl

/-- What becomes of a text: its layout fails without an answer, or it lacks the line, or it gets its
new text. -/
inductive LaysOut (job : Job) (t : Text) : Prop
  | fails (hfails : job.LayoutFails t) (failure : Failure)
    (hresult : (job.laid t).result = .error failure) (hanswer : failure.answer? = none)
  | lacks (hlays : ¬ job.LayoutFails t) (hline : ¬ HasLine job.options.line t) (fault : RangeFault)
    (hresult : (job.laid t).result = .error (.range fault))
  | lays (hlays : ¬ job.LayoutFails t) (hline : HasLine job.options.line t)
    (hresult : (job.laid t).result = .ok (newText job.style job.options.line t))

theorem laysOut_whole (hwhole : job.options.line = none) : job.LaysOut t := by
  have hlaid : job.laid t = reflowWhole job.limits job.settings t := by rw [laid, hwhole]
  have hline : HasLine job.options.line t := by
    rw [hwhole]
    exact nofun
  cases hnames : Settings.trackedOf job.settings.tracked with
  | none =>
    refine .fails (.names hnames ?_) .wrongType ?_ rfl
    · rw [hwhole]
      exact nofun
    · rw [hlaid, reflowWhole, hnames]
      rfl
  | some names =>
    have hreflow : job.laid t =
        ((job.settings.layout job.limits names).reflow t).mapError .tab := by
      rw [hlaid, reflowWhole, hnames]
    by_cases hfails : job.LayoutFails t
    · have hstops := (layoutFails_iff_stops hnames).mp hfails
      rw [hwhole] at hstops
      obtain ⟨fault, hfault⟩ := Plan.reflow_of_stops
        (show (Plan.mk (job.settings.layout job.limits names) t.newEnding).Stops t.lines
          from hstops)
      refine .fails hfails (.tab fault) ?_ rfl
      rw [hreflow]
      exact Noted.mapError_of_error hfault _
    · refine .lays hfails hline ?_
      rw [layoutFails_iff_stops hnames, hwhole] at hfails
      rw [hreflow, Layout.reflow, Plan.reflow_eq hfails, hwhole, style_eq hnames]
      rfl

theorem laid_of_line {l : Int} (hline : job.options.line = some l) :
    job.laid t = reflowParagraph job.limits job.settings t (l - 1) := by
  rw [laid, hline]

/-- Without a set of environments a line that is a boundary is left alone, and no other can be laid
out. -/
theorem laysOut_unnamed {l : Int} (hline : job.options.line = some l)
    (hnames : Settings.trackedOf job.settings.tracked = none) : job.LaysOut t := by
  have hview : (Buffer.ofText t .writable).view = .ofText t := Buffer.view_ofText (by decide)
  have hfails : job.LayoutFails t ↔
      ∃ row, (View.ofText t).row (l - 1) = .ok row ∧ View.isBoundary row = false := by
    constructor
    · rintro (⟨-, hlooks⟩ | ⟨hsome, -⟩)
      · exact hlooks l hline
      · rw [hnames] at hsome
        cases hsome
    · intro hlooks
      refine .names hnames fun l' hl' => ?_
      obtain rfl := Option.some.inj (hline.symm.trans hl')
      exact hlooks
  have hlaid := laid_of_line (t := t) hline
  unfold reflowParagraph at hlaid
  rw [hnames, hview] at hlaid
  dsimp only at hlaid
  cases hrow : (View.ofText t).row (l - 1) with
  | error fault =>
    rw [hrow] at hfails hlaid
    refine .lacks (fun h => nomatch hfails.mp h) ?_ fault (by rw [hlaid]; rfl)
    rw [hline, hasLine_some_iff]
    exact View.row_error_iff.mp ⟨fault, hrow⟩
  | ok row =>
    rw [hrow] at hfails hlaid
    cases hboundary : View.isBoundary row with
    | false =>
      refine .fails (hfails.mpr ⟨row, rfl, hboundary⟩) .wrongType ?_ rfl
      rw [hlaid]
      show ((if View.isBoundary row = true then _ else _ : Noted Failure Text)).result = _
      rw [hboundary]
      rfl
    | true =>
      refine .lays (fun h => ?_) ?_ ?_
      · obtain ⟨row', hrow', hno⟩ := hfails.mp h
        obtain rfl := Except.ok.inj hrow'
        rw [hboundary] at hno
        cases hno
      · rw [hline, hasLine_some_iff]
        exact View.row_ok_iff.mp ⟨row, hrow⟩
      · have hsame : newText job.style job.options.line t = t := by
          rw [hline, newText, View.reflowAround, View.paragraphAt, hrow]
          simp only [ok_bind, hboundary, Bool.true_or, if_true]
          rfl
        rw [hlaid, hsame]
        show ((if View.isBoundary row = true then _ else _ : Noted Failure Text)).result = _
        rw [hboundary]
        rfl

theorem laysOut_named {l : Int} {names : List Text} (hline : job.options.line = some l)
    (hnames : Settings.trackedOf job.settings.tracked = some names) : job.LaysOut t := by
  have hview : (Buffer.ofText t .writable).view = .ofText t := Buffer.view_ofText (by decide)
  have hfails := layoutFails_iff_stops (t := t) hnames
  have hhas : HasLine job.options.line t ↔ (View.ofText t).HasRow (l - 1) := by
    rw [hline, hasLine_some_iff]
  have hlaid := laid_of_line (t := t) hline
  unfold reflowParagraph at hlaid
  rw [hnames, hview] at hlaid
  rw [hline, style_eq hnames] at hfails
  cases View.reflowAround_settles t (job.settings.layout job.limits names) (l - 1) with
  | bad hbad fault hresult =>
    refine .lacks ?_ (fun h => hbad (hhas.mp h)) fault ?_
    · -- no paragraph is found, so no line is looked at
      obtain ⟨missing, hpar⟩ := (View.paragraphAt_error_iff _).mpr hbad
      rw [hfails, linesToLay, View.paragraphLines, hpar]
      exact View.not_stops_nil
    · rw [hlaid]
      exact Noted.bind_of_error (Noted.mapError_of_error hresult _) _
  | stopped hgood hstops fault hresult =>
    refine .fails (hfails.mpr hstops) (.tab fault) ?_ rfl
    rw [hlaid]
    exact Noted.bind_of_error (Noted.mapError_of_error hresult _) _
  | answered hgood hstops edit hresult hfits =>
    have hrow := not_not.mp hgood
    refine .lays (fun h => hstops (hfails.mp h)) (hhas.mpr hrow) ?_
    obtain ⟨proposal, hproposal⟩ :
        ∃ proposal, (View.ofText t).reflowAround
          (job.settings.layout job.limits names).style (l - 1) = .ok proposal := by
      cases hanswer : (View.ofText t).reflowAround _ (l - 1) with
      | ok proposal => exact ⟨proposal, rfl⟩
      | error fault => exact absurd hrow (View.reflowAround_error_iff.mp ⟨fault, hanswer⟩)
    have hedit : proposal.edit = edit := by
      rw [View.reflowAroundChecked_eq hstops, hproposal] at hresult
      exact Except.ok.inj hresult
    have hnew : newText job.style job.options.line t = proposal.applyTo t := by
      rw [hline, style_eq hnames, newText, hproposal]
    rw [hlaid, hnew, Proposal.applyTo, hedit,
      Noted.bind_of_ok (Noted.mapError_of_ok hresult _)]
    cases edit with
    | none => rfl
    | some e =>
      obtain ⟨after, hafter⟩ := Edit.apply_ok_iff.mpr (hfits e rfl)
      simp only [hafter]
      rfl

theorem laysOut (job : Job) (t : Text) : job.LaysOut t := by
  cases hline : job.options.line with
  | none => exact laysOut_whole hline
  | some l =>
    cases hnames : Settings.trackedOf job.settings.tracked with
    | none => exact laysOut_unnamed hline hnames
    | some names => exact laysOut_named hline hnames

end Job

end CommandLine

end HardWrap
