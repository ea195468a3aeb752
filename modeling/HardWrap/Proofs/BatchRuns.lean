import HardWrap.Proofs.Reports
import HardWrap.Proofs.SteadyHosts
import HardWrap.Proofs.OptionSettings

/-! Runs of a batch on a host that can be relied on, with settings of plain types. Each file is left
alone or gets its new text, and the run goes on, unless a tab cannot be written as spaces or a file
that changes is locked; so a run reports on all files or is cut short. -/

namespace HardWrap

/-- Settings of plain types, and the style they come to. -/
structure Settings.Describe (settings : Settings) (style : Style) : Prop where
  maxWidth : settings.maxWidth = .int style.maxWidth
  tabWidth : settings.tabWidth = .int style.tabWidth
  tracked : settings.tracked.items? = some (style.tracked.map .text)

namespace Settings.Describe

variable {settings : Settings} {style : Style}

theorem trackedOf_eq (h : settings.Describe style) :
    trackedOf settings.tracked = some style.tracked := by
  have hplain : ((style.tracked.map Value.text).all isPlain) = true := by simp [isPlain]
  rw [trackedOf, h.tracked, Option.filter_some, if_pos hplain, Option.map_some,
    CommandLine.namesOf_texts]

theorem layout_eq (h : settings.Describe style) (limits : Limits) :
    settings.layout limits style.tracked = style.layout limits := by
  rw [layout, h.maxWidth, h.tabWidth]
  rfl

end Settings.Describe

namespace CommandLine

variable {σ : Type}

namespace Job

variable {job : Job} {style : Style} {t : Text}

/-! ### Texts -/

/-- Whether a tab stands in the way of a text. -/
def Stumbles (limits : Limits) (style : Style) (line : Option Int) (t : Text) : Prop :=
  limits.Exceeded style.tabWidth ∧ MeetsTab style (linesToLay style line t)

theorem layoutFails_iff_stumbles (h : job.settings.Describe style) :
    job.LayoutFails t ↔ Stumbles job.limits style job.options.line t := by
  have hlines : linesToLay job.style job.options.line t =
      linesToLay style job.options.line t := by
    rw [style_eq h.trackedOf_eq, h.layout_eq]
    rfl
  rw [layoutFails_iff_stops h.trackedOf_eq, h.layout_eq, hlines, Style.layout_stops_iff]
  rfl

theorem laid_of_stumbles (h : job.settings.Describe style)
    (hstumbles : Stumbles job.limits style job.options.line t) :
    ∃ failure, (job.laid t).result = .error failure := by
  have hfails := (layoutFails_iff_stumbles h).mpr hstumbles
  cases job.laysOut t with
  | fails _ failure hresult => exact ⟨failure, hresult⟩
  | lacks hno | lays hno => exact absurd hfails hno

theorem laid_of_not_stumbles (h : job.settings.Describe style)
    (hstumbles : ¬ Stumbles job.limits style job.options.line t)
    (hline : HasLine job.options.line t) :
    (job.laid t).result = .ok (newText style job.options.line t) := by
  rw [← layoutFails_iff_stumbles h] at hstumbles
  cases job.laysOut t with
  | fails hyes => exact absurd hyes hstumbles
  | lacks _ hno => exact absurd hline hno
  | lays _ _ hresult =>
    rw [layoutFails_iff_stops h.trackedOf_eq, h.layout_eq] at hstumbles
    rw [style_eq h.trackedOf_eq, h.layout_eq] at hresult hstumbles
    rw [hresult, newText_layout]
    exact hstumbles

/-! ### One file -/

variable {host : Host σ} {out : σ → String} {same : Path → Path → Prop} {writable : Path → Prop}
  {text : Path → Text} {p : Path} {s next : σ}

/-- The text of a file once it is laid out. -/
def newAt (job : Job) (style : Style) (text : Path → Text) (p : Path) : Text :=
  newText style job.options.line (text p)

def outcomeAt (job : Job) (style : Style) (text : Path → Text) (p : Path) : FileOutcome :=
  job.outcome p (text p) (job.newAt style text p)

/-- Whether a run gets no further than a file: a tab stands in the way, or the file is locked. -/
def BlockedAt (job : Job) (style : Style) (writable : Path → Prop) (text : Path → Text)
    (p : Path) : Prop :=
  Stumbles job.limits style job.options.line (text p) ∨
    job.options.inPlace = true ∧ job.newAt style text p ≠ text p ∧ ¬ writable p

/-- What a run does to the files when it finishes one: in place, that one gets its new text. -/
structure Stores (job : Job) (host : Host σ) (out : σ → String) (same : Path → Path → Prop)
    (p : Path) (before after : Text) (s next : σ) : Prop where
  out : out next = out s
  written : job.options.inPlace = true → host.read next p = .ok (Utf8.encode after)
  kept : ∀ q, (job.options.inPlace = true → after ≠ before → ¬ same p q) →
    host.read next q = host.read s q

section Stores

variable {before after : Text} {last : σ}

theorem Stores.keeps (h : job.Stores host out same p before after s next)
    (hkeeps : host.Keeps out next last) : job.Stores host out same p before after s last where
  out := hkeeps.out.trans h.out
  written hmode := (hkeeps.read p).trans (h.written hmode)
  kept q hq := (hkeeps.read q).trans (h.kept q hq)

theorem Stores.of_keeps (h : host.Keeps out s next)
    (hread : job.options.inPlace = true → host.read s p = .ok (Utf8.encode after)) :
    job.Stores host out same p before after s next where
  out := h.out
  written hmode := (h.read p).trans (hread hmode)
  kept q _ := h.read q

end Stores

section Steady

variable (hhost : host.Steady out same writable) (hsettings : job.settings.Describe style)
  (hread : host.read s p = .ok (Utf8.encode (text p)))

include hhost hread

theorem store_cases (job : Job) (after : Text) :
    (job.options.inPlace = true ∧ after ≠ text p ∧ ¬ writable p ∧
      ∃ failure next, job.store host p (text p) after s = (.error failure, next) ∧
        host.Keeps out s next) ∨
    (¬ (job.options.inPlace = true ∧ after ≠ text p ∧ ¬ writable p) ∧
      ∃ next, job.store host p (text p) after s = (.ok (), next) ∧
        job.Stores host out same p (text p) after s next) := by
  unfold store
  by_cases hwrites : after ≠ text p ∧ job.options.inPlace = true
  · rw [if_pos hwrites]
    by_cases hwritable : writable p
    · obtain ⟨next, hwrite, hsame, hothers, hout⟩ :=
        hhost.write (Utf8.encode after) hread hwritable
      have hstored : job.Stores host out same p (text p) after s next :=
        ⟨hout, fun _ => hsame, fun q hq => hothers q (hq hwrites.2 hwrites.1)⟩
      obtain ⟨last, hnote, hkeeps⟩ := hhost.note (job.rewroteNotes p) next
      refine Or.inr ⟨fun h => h.2.2 hwritable, last, ?_, hstored.keeps hkeeps⟩
      exact (Act.bind_of_ok hwrite).trans hnote
    · obtain ⟨fault, next, hwrite, hkeeps⟩ := hhost.locked (Utf8.encode after) hread hwritable
      exact Or.inl ⟨hwrites.2, hwrites.1, hwritable, _, next, Act.bind_of_error hwrite, hkeeps⟩
  · rw [if_neg hwrites]
    refine Or.inr ⟨fun h => hwrites ⟨h.2.1, h.1⟩, s, rfl, .of_keeps (.refl s) fun hmode => ?_⟩
    by_cases hsame : after = text p
    · rw [hread, hsame]
    · exact absurd ⟨hsame, hmode⟩ hwrites

include hsettings

/-- A file is finished, or the run gets no further and no file is touched. -/
theorem layFile_cases (hline : HasLine job.options.line (text p)) :
    (job.BlockedAt style writable text p ∧
      ∃ failure next, job.layFile host p s = (.error failure, next) ∧ host.Keeps out s next) ∨
    (¬ job.BlockedAt style writable text p ∧
      ∃ next, job.layFile host p s =
          (.ok (job.outcomeAt style text p, job.newAt style text p), next) ∧
        job.Stores host out same p (text p) (job.newAt style text p) s next) := by
  have hnotes := hhost.takeAll (job.laid (text p)).notes s
  by_cases hstumbles : Stumbles job.limits style job.options.line (text p)
  · obtain ⟨failure, hresult⟩ := laid_of_stumbles hsettings hstumbles
    exact Or.inl ⟨Or.inl hstumbles, failure, _, layFile_of_laid_error hread hresult, hnotes⟩
  · have hlaid := layFile_of_laid hread (laid_of_not_stumbles hsettings hstumbles hline)
    have hread' := (hnotes.read p).trans hread
    rcases store_cases hhost hread' job (job.newAt style text p) with
      ⟨hmode, hchanged, hlocked, failure, next, hstore, hkeeps⟩ | ⟨hnot, next, hstore, hstores⟩
    · refine Or.inl ⟨Or.inr ⟨hmode, hchanged, hlocked⟩, failure, next, ?_, hnotes.trans hkeeps⟩
      exact hlaid.trans (Act.bind_of_error hstore)
    · refine Or.inr ⟨fun h => h.elim hstumbles hnot, next, ?_, ?_⟩
      · exact hlaid.trans (Act.bind_of_ok hstore)
      · exact ⟨hstores.out.trans hnotes.out, hstores.written,
          fun q hq => (hstores.kept q hq).trans (hnotes.read q)⟩

end Steady

/-! ### Progress -/

section Progress

variable (hhost : host.Steady out same writable)

include hhost

theorem start_calm (reporter : Reporter) (total : Nat) :
    host.Calm out (reporter.start host total) := by
  unfold Reporter.start
  split
  · exact Host.calm_pure
  · split
    · exact hhost.openBar total
    · exact hhost.note _

theorem finish_calm (reporter : Reporter) (outcomes : List FileOutcome) :
    host.Calm out (reporter.finish host outcomes) := by
  unfold Reporter.finish
  split
  · exact Host.calm_pure
  · split
    · exact hhost.closeBar.bind (hhost.table _ _ _)
    · exact hhost.table _ _ _

/-- A finished file is shown without harm if the screen can show its line. -/
theorem advance_calm {reporter : Reporter} {outcome : FileOutcome} (count : Nat)
    (hshown : reporter.verbose = true → host.screen.isTerminal = true →
      host.Calm out (host.screen.dimmed (Reporter.detail outcome).toList)) :
    host.Calm out (reporter.advance host count outcome) := by
  unfold Reporter.advance
  split
  · exact Host.calm_pure
  · split
    next hterminal =>
      split
      next hverbose => exact (hhost.moveBar count).bind (hshown hverbose hterminal)
      next => exact (hhost.moveBar count).bind Host.calm_pure
    next => exact hhost.note _

theorem closeFile_calm {outcome : FileOutcome} (count : Nat) (t : Text)
    (hbatch : job.options.isBatch = true)
    (hshown : job.reporter.verbose = true → host.screen.isTerminal = true →
      host.Calm out (host.screen.dimmed (Reporter.detail outcome).toList)) :
    host.Calm out (job.closeFile host count p outcome t) := by
  have hdeliver : job.deliver host t = pure () := by
    rw [deliver, if_pos hbatch]
  rw [closeFile, hdeliver]
  exact (advance_calm hhost count hshown).bind (Host.calm_pure.bind (hhost.note _))

end Progress

/-! ### One file after the other -/

/-- What a run that started from `s` has made of the files: in place, the finished ones have their
new texts. -/
structure Leaves (job : Job) (host : Host σ) (same : Path → Path → Prop) (text new : Path → Text)
    (s : σ) (finished : List Path) (here : σ) : Prop where
  written : job.options.inPlace = true → ∀ p ∈ finished,
    host.read here p = .ok (Utf8.encode (new p))
  kept : ∀ q, (job.options.inPlace = true → ∀ p ∈ finished, new p ≠ text p → ¬ same p q) →
    host.read here q = host.read s q

/-- How far a run has come that has said nothing yet. -/
structure Progress (job : Job) (host : Host σ) (out : σ → String) (same : Path → Path → Prop)
    (text new : Path → Text) (s : σ) (finished : List Path) (here : σ) : Prop
    extends job.Leaves host same text new s finished here where
  out : out here = out s

section Progress

variable {new : Path → Text} {finished : List Path} {here last : σ}

theorem Leaves.of_read (h : job.Leaves host same text new s finished here)
    (hread : ∀ q, host.read last q = host.read here q) :
    job.Leaves host same text new s finished last :=
  ⟨fun hmode q hq => (hread q).trans (h.written hmode q hq),
    fun q hq => (hread q).trans (h.kept q hq)⟩

namespace Progress

theorem start (s : σ) : job.Progress host out same text new s [] s :=
  ⟨⟨nofun, fun _ _ => rfl⟩, rfl⟩

theorem keeps (h : job.Progress host out same text new s finished here)
    (hkeeps : host.Keeps out here last) : job.Progress host out same text new s finished last :=
  ⟨h.toLeaves.of_read hkeeps.read, hkeeps.out.trans h.out⟩

theorem finish (h : job.Progress host out same text new s finished here)
    (hstores : job.Stores host out same p (text p) (new p) here last)
    (hapart : ∀ q ∈ finished, ¬ same p q) :
    job.Progress host out same text new s (finished ++ [p]) last where
  out := hstores.out.trans h.out
  written := by
    intro hmode q hq
    rcases List.mem_append.mp hq with hq | hq
    · exact (hstores.kept q fun _ _ => hapart q hq).trans (h.written hmode q hq)
    · rw [List.mem_singleton.mp hq]
      exact hstores.written hmode
  kept := by
    intro q hq
    refine (hstores.kept q ?_).trans (h.kept q ?_)
    · exact fun hmode hchanged => hq hmode p (by simp) hchanged
    · exact fun hmode r hr => hq hmode r (List.mem_append_left _ hr)

end Progress

end Progress

/-- What both runs know of the files: their texts, that the line is there, that no two paths lead to
one file, and that the screen can show their lines. -/
structure Knows (job : Job) (host : Host σ) (out : σ → String) (same : Path → Path → Prop)
    (style : Style) (text : Path → Text) (paths : List Path) (s : σ) : Prop where
  batch : job.options.isBatch = true
  settings : job.settings.Describe style
  apart : paths.Pairwise fun p q => ¬ same p q
  read : ∀ p ∈ paths, host.read s p = .ok (Utf8.encode (text p))
  line : ∀ p ∈ paths, HasLine job.options.line (text p)
  shown : job.reporter.verbose = true → host.screen.isTerminal = true → ∀ p ∈ paths,
    host.Calm out (host.screen.dimmed (Reporter.detail (job.outcomeAt style text p)).toList)

/-- The outcome of a run over files: all of them are finished, or one of them blocks the run. -/
theorem wrapFiles_progress {paths finished rest : List Path} {here : σ}
    (hhost : host.Steady out same writable)
    (hknows : job.Knows host out same style text paths s) (hpaths : paths = finished ++ rest)
    (hprogress : job.Progress host out same text (job.newAt style text) s finished here)
    (hfree : ∀ p ∈ finished, ¬ job.BlockedAt style writable text p) :
    ∃ reached ended last,
      job.wrapFiles host (finished.map (job.outcomeAt style text)) rest here =
        ((reached.map (job.outcomeAt style text), ended), last) ∧
      job.Progress host out same text (job.newAt style text) s reached last ∧
      reached ⊆ paths ∧ (∀ p ∈ reached, ¬ job.BlockedAt style writable text p) ∧
      (ended = .ok () ∧ reached = paths ∨
        (∃ failure, ended = .error failure) ∧
          ∃ p ∈ paths, job.BlockedAt style writable text p) := by
  induction rest generalizing finished here with
  | nil =>
    rw [List.append_nil] at hpaths
    subst hpaths
    exact ⟨_, .ok (), here, rfl, hprogress, List.Subset.refl _, hfree, Or.inl ⟨rfl, rfl⟩⟩
  | cons p rest ih =>
    have hp : p ∈ paths := by simp [hpaths]
    have hapart := hknows.apart
    rw [hpaths, List.pairwise_append] at hapart
    have hbefore : ∀ q ∈ finished, ¬ same q p := fun q hq =>
      hapart.2.2 q hq p List.mem_cons_self
    have hread : host.read here p = .ok (Utf8.encode (text p)) :=
      (hprogress.kept p fun _ q hq _ => hbefore q hq).trans (hknows.read p hp)
    rcases layFile_cases hhost hknows.settings hread (hknows.line p hp) with
      ⟨hblocked, failure, last, hlay, hkeeps⟩ | ⟨hnot, laid, hlay, hstores⟩
    · refine ⟨finished, .error failure, last, wrapFiles_of_lay_error hlay,
        hprogress.keeps hkeeps, ?_, hfree, Or.inr ⟨⟨failure, rfl⟩, p, hp, hblocked⟩⟩
      rw [hpaths]
      exact List.subset_append_left _ _
    · obtain ⟨closed, hclose, hkeeps⟩ := closeFile_calm (p := p) hhost (finished.length + 1)
        (job.newAt style text p) hknows.batch (fun hv ht => hknows.shown hv ht p hp) laid
      have hnext :
          job.Progress host out same text (job.newAt style text) s (finished ++ [p]) closed :=
        (hprogress.finish hstores fun q hq hsame => hbefore q hq (hhost.symm hsame)).keeps hkeeps
      have hfree' : ∀ q ∈ finished ++ [p], ¬ job.BlockedAt style writable text q := by
        intro q hq
        rcases List.mem_append.mp hq with hq | hq
        · exact hfree q hq
        · rw [List.mem_singleton.mp hq]
          exact hnot
      have hrun : job.wrapFiles host (finished.map (job.outcomeAt style text)) (p :: rest) here =
          job.wrapFiles host ((finished ++ [p]).map (job.outcomeAt style text)) rest closed := by
        rw [wrapFiles_of_close hlay (by rwa [List.length_map]), List.map_append]
        rfl
      rw [hrun]
      exact ih (by rw [hpaths, List.append_assoc]; rfl) hnext hfree'

/-! ### Whole runs -/

variable {form : String → String} {paths : List Path}

/-- A run comes to outcomes and adds the report on them to the output. -/
def Reports (job : Job) (host : Host σ) (out : σ → String) (form : String → String)
    (paths : List Path) (s : σ) (outcomes : List FileOutcome) (last : σ) : Prop :=
  ∃ started wrapped time report, job.reporter.start host paths.length s = (.ok (), started) ∧
    job.wrapFiles host [] paths started = ((outcomes, .ok ()), wrapped) ∧
    Report.render job.options.format time job.settings outcomes = .ok report ∧
    out last = out s ++ form (report ++ "\n")

/-- How a run of a batch ends: cut short without a report, because a file blocks it or the report
cannot be made, or with the report on all files. -/
inductive Ends (job : Job) (host : Host σ) (out : σ → String) (form : String → String)
    (same : Path → Path → Prop) (writable : Path → Prop) (style : Style) (text : Path → Text)
    (paths : List Path) (s : σ) : Except Stop Bool × σ → Prop
  | cut {reached : List Path} {stop : Stop} {last : σ}
    (hleaves : job.Leaves host same text (job.newAt style text) s reached last)
    (hreached : reached ⊆ paths)
    (hfree : ∀ p ∈ reached, ¬ job.BlockedAt style writable text p)
    (hwhy : (∃ p ∈ paths, job.BlockedAt style writable text p) ∨ job.options.format = .json ∧
      ¬ Report.Shows job.settings (paths.map (job.outcomeAt style text)))
    (hnone : ∀ outcomes last, ¬ job.Reports host out form paths s outcomes last)
    (hout : out last = out s) (hcode : exitCode (.error stop) = 1) :
    Ends job host out form same writable style text paths s (.error stop, last)
  | reported {last : σ} (hleaves : job.Leaves host same text (job.newAt style text) s paths last)
    (hfree : ∀ p ∈ paths, ¬ job.BlockedAt style writable text p)
    (hshows : job.options.format = .json →
      Report.Shows job.settings (paths.map (job.outcomeAt style text)))
    (hreports : job.Reports host out form paths s (paths.map (job.outcomeAt style text)) last)
    (hshown : out last ≠ out s) : Ends job host out form same writable style text paths s
      (.ok (job.options.check && (paths.map (job.outcomeAt style text)).any (·.changed)), last)

theorem Reports.wrapFiles_eq {outcomes outcomes' : List FileOutcome} {ended : Except Failure Unit}
    {started wrapped last : σ} (h : job.Reports host out form paths s outcomes last)
    (hstart : job.reporter.start host paths.length s = (.ok (), started))
    (hfiles : job.wrapFiles host [] paths started = ((outcomes', ended), wrapped)) :
    ended = .ok () ∧ outcomes = outcomes' := by
  obtain ⟨started', wrapped', -, -, hstart', hfiles', -⟩ := h
  obtain ⟨-, rfl⟩ := Prod.mk.inj (hstart.symm.trans hstart')
  obtain ⟨⟨rfl, rfl⟩, -⟩ := by simpa using hfiles.symm.trans hfiles'
  exact ⟨rfl, rfl⟩

theorem exitCode_ofFailure (failure : Failure) : exitCode (.error (.ofFailure failure)) = 1 := by
  unfold Stop.ofFailure
  cases failure.answer? with
  | none => rfl
  | some message => rfl

theorem run_ends (hhost : host.Steady out same writable)
    (hknows : job.Knows host out same style text paths s) (hreport : job.options.report = none)
    (hsaid : ∀ time report, Report.render job.options.format time job.settings
        (paths.map (job.outcomeAt style text)) = .ok report →
      host.Says out form (report ++ "\n")) :
    job.Ends host out form same writable style text paths s (job.run host paths s) := by
  obtain ⟨started, hstart, hkeeps⟩ := start_calm hhost job.reporter paths.length s
  have hbegun : job.Progress host out same text (job.newAt style text) s [] started :=
    (Progress.start s).keeps hkeeps
  obtain ⟨reached, ended, wrapped, hfiles, hprogress, hsubset, hfree, hended⟩ :=
    wrapFiles_progress hhost hknows (List.nil_append paths).symm hbegun nofun
  obtain ⟨closed, hfinish, hkeeps'⟩ :=
    finish_calm hhost job.reporter (reached.map (job.outcomeAt style text)) wrapped
  have hclosed := hprogress.keeps hkeeps'
  rcases hended with ⟨rfl, rfl⟩ | ⟨⟨failure, rfl⟩, hblocked⟩
  · cases hrender : Report.render job.options.format (host.clock closed) job.settings
      (reached.map (job.outcomeAt style text)) with
    | error fault =>
      have hno : ¬ (job.options.format = .json →
          Report.Shows job.settings (reached.map (job.outcomeAt style text))) := by
        rw [← Report.render_ok_iff, hrender]
        exact nofun
      rw [Classical.not_imp] at hno
      obtain ⟨failure, hfails⟩ := report_to_output_of_render_error hreport hknows.batch hrender
      rw [run_of_report_error hstart hfinish hfiles hfails]
      refine .cut hclosed.toLeaves hsubset hfree (Or.inr hno) ?_ hclosed.out rfl
      intro outcomes last hmade
      obtain ⟨-, rfl⟩ := hmade.wrapFiles_eq hstart hfiles
      obtain ⟨-, -, time, report, -, -, hreport, -⟩ := hmade
      exact hno.2 (Report.render_ok_iff.mp ⟨report, hreport⟩ hno.1)
    | ok report =>
      obtain ⟨hshows, hsay⟩ := hsaid _ _ hrender
      obtain ⟨last, hsaid, hout, hsame⟩ := hsay closed
      have hmade := report_to_output_of_render hreport hknows.batch hrender
      rw [run_of_report hstart hfinish hfiles (hmade.trans hsaid)]
      have hadded : out last = out s ++ form (report ++ "\n") := by rw [hout, hclosed.out]
      refine .reported (hclosed.toLeaves.of_read hsame) hfree
        (Report.render_ok_iff.mp ⟨report, hrender⟩) ?_ ?_
      · exact ⟨started, wrapped, _, report, hstart, hfiles, hrender, hadded⟩
      · rw [hadded]
        exact fun hnone => hshows (by simpa using hnone)
  · rw [run_of_file_error hstart hfinish hfiles]
    refine .cut hclosed.toLeaves hsubset hfree (Or.inl hblocked) ?_ hclosed.out
      (exitCode_ofFailure failure)
    intro outcomes last hmade
    exact nomatch (hmade.wrapFiles_eq hstart hfiles).1

end Job

end CommandLine

end HardWrap
