import HardWrap.Proofs.FileRuns

/-! Reports on a run. One for people can always be made; one for programs shows numbers and
settings, each of which needs a form in JSON. A report fails where it cannot be made or the host
does not take it. -/

namespace HardWrap

namespace Json

theorem faultOfItems?_eq_none_iff {vs : List Value} :
    faultOfItems? vs = none ↔ ∀ v ∈ vs, fault? v = none := by
  induction vs with
  | nil => simp [faultOfItems?]
  | cons v vs ih => simp [faultOfItems?, Option.or_eq_none_iff, ih]

end Json

namespace Report

/-- Every value and number that a report for programs shows has a form in JSON. -/
structure Shows (settings : Settings) (outcomes : List FileOutcome) : Prop where
  maxWidth : Json.fault? settings.maxWidth = none
  tabWidth : Json.fault? settings.tabWidth = none
  tracked : ∃ items, settings.tracked.items? = some items ∧ ∀ v ∈ items, Json.fault? v = none
  files : outcomes.length < tenTo Numeral.maxDigits
  lines : ∀ o ∈ outcomes, o.linesBefore < tenTo Numeral.maxDigits ∧
    o.linesAfter < tenTo Numeral.maxDigits

theorem fault?_fileValue_eq_none_iff {o : FileOutcome} :
    Json.fault? (fileValue o) = none ↔
      o.linesBefore < tenTo Numeral.maxDigits ∧ o.linesAfter < tenTo Numeral.maxDigits := by
  have hissues : Json.faultOfItems? (o.issues.map .text) = none := by
    rw [Json.faultOfItems?_eq_none_iff]
    intro v hv
    obtain ⟨t, -, rfl⟩ := List.mem_map.mp hv
    rfl
  simp [fileValue, field, Json.fault?, Json.faultOfFields?, hissues, Option.or_eq_none_iff]

theorem fault?_summaryValue_eq_none_iff {outcomes : List FileOutcome} :
    Json.fault? (summaryValue (Summary.of outcomes)) = none ↔
      outcomes.length < tenTo Numeral.maxDigits := by
  have hchanged := List.countP_le_length (p := fun o : FileOutcome => o.changed) (l := outcomes)
  have hissues :=
    List.countP_le_length (p := fun o : FileOutcome => !o.issues.isEmpty) (l := outcomes)
  have hall : Json.fault? (summaryValue (Summary.of outcomes)) = none ↔
      outcomes.length < tenTo Numeral.maxDigits ∧
        outcomes.countP (·.changed) < tenTo Numeral.maxDigits ∧
        outcomes.length - outcomes.countP (·.changed) < tenTo Numeral.maxDigits ∧
        outcomes.countP (fun o => !o.issues.isEmpty) < tenTo Numeral.maxDigits := by
    simp [summaryValue, Summary.of, field, Json.fault?, Json.faultOfFields?,
      Option.or_eq_none_iff]
  rw [hall]
  constructor
  · exact And.left
  · intro hlength
    omega

theorem asJson_ok_iff {timestamp : Text} {settings : Settings} {outcomes : List FileOutcome} :
    (∃ text, asJson timestamp settings outcomes = .ok text) ↔ Shows settings outcomes := by
  unfold asJson
  cases htracked : settings.tracked.items? with
  | none =>
    simp only [reduceCtorEq, exists_false, false_iff]
    intro h
    obtain ⟨items, hitems, -⟩ := h.tracked
    rw [htracked] at hitems
    cases hitems
  | some items =>
    have hdocument : ∀ v, (∃ text, (Json.document v).mapError ReportFault.setting = .ok text) ↔
        Json.fault? v = none := by
      intro v
      unfold Json.document
      cases Json.fault? v with
      | none => simp [Except.mapError]
      | some fault => simp [Except.mapError]
    have hfiles : Json.faultOfItems? (outcomes.map fileValue) = none ↔
        ∀ o ∈ outcomes, o.linesBefore < tenTo Numeral.maxDigits ∧
          o.linesAfter < tenTo Numeral.maxDigits := by
      rw [Json.faultOfItems?_eq_none_iff, List.forall_mem_map]
      exact forall₂_congr fun o _ => fault?_fileValue_eq_none_iff
    rw [hdocument]
    simp only [field, Json.fault?, Json.faultOfFields?, Option.or_eq_none_iff, true_and, and_true,
      fault?_summaryValue_eq_none_iff, hfiles, @Json.faultOfItems?_eq_none_iff items]
    constructor
    · rintro ⟨hwidth, htab, hitems, hlength, hlines⟩
      exact ⟨hwidth, htab, ⟨items, htracked, hitems⟩, hlength, hlines⟩
    · rintro ⟨hwidth, htab, ⟨items', hitems', hall⟩, hlength, hlines⟩
      obtain rfl := Option.some.inj (htracked.symm.trans hitems')
      exact ⟨hwidth, htab, hall, hlength, hlines⟩

/-- A report for people can always be made. -/
theorem render_ok_iff {format : ReportFormat} {timestamp : Text} {settings : Settings}
    {outcomes : List FileOutcome} :
    (∃ text, render format timestamp settings outcomes = .ok text) ↔
      (format = .json → Shows settings outcomes) := by
  cases format with
  | json => simp [render, asJson_ok_iff]
  | text => simp [render]

end Report

namespace CommandLine.Job

variable {σ : Type} {job : Job} {host : Host σ} {outcomes : List FileOutcome} {s next : σ}

/-- Why the report on a run fails. -/
inductive ReportFails (job : Job) (host : Host σ) (outcomes : List FileOutcome) (s : σ) : Prop
  | form (hwanted : job.options.report.isSome = true ∨ job.options.isBatch = true)
    (hjson : job.options.format = .json) (hshows : ¬ Report.Shows job.settings outcomes)
  | write {path : Path} {text : String} {failure : Failure} (hpath : job.options.report = some path)
    (hrender : Report.render job.options.format (host.clock s) job.settings outcomes = .ok text)
    (hwrite : (host.writeText path text.toList s).1 = .error failure)
  | tell {path : Path} {text : String} {failure : Failure} {written : σ}
    (hpath : job.options.report = some path)
    (hrender : Report.render job.options.format (host.clock s) job.settings outcomes = .ok text)
    (hwrite : host.writeText path text.toList s = (.ok (), written))
    (hspeaks : job.verbosity ≠ .quiet)
    (htell : (host.tell s!"Report: {String.ofList path.shown}\n" written).1 = .error failure)
  | say {text : String} {failure : Failure} (hpath : job.options.report = none)
    (hbatch : job.options.isBatch = true)
    (hrender : Report.render job.options.format (host.clock s) job.settings outcomes = .ok text)
    (hsay : (host.say (text ++ "\n") s).1 = .error failure)

theorem render_of_ok {text : String}
    (h : Report.render job.options.format (host.clock s) job.settings outcomes = .ok text) :
    job.render host outcomes s = (.ok text, s) := by
  show ((Report.render _ _ _ _).mapError _, s) = _
  rw [h]
  rfl

theorem render_of_error {fault : ReportFault}
    (h : Report.render job.options.format (host.clock s) job.settings outcomes = .error fault) :
    ∃ failure, job.render host outcomes s = (.error failure, s) := by
  unfold render Act.look
  dsimp only
  rw [h]
  exact ⟨_, rfl⟩

/-- A report that is wanted and cannot be made fails the run. -/
theorem reportFails_of_render_error {fault : ReportFault}
    (hwanted : job.options.report.isSome = true ∨ job.options.isBatch = true)
    (h : Report.render job.options.format (host.clock s) job.settings outcomes = .error fault) :
    job.ReportFails host outcomes s := by
  have hno : ¬ (job.options.format = .json → Report.Shows job.settings outcomes) := by
    rw [← Report.render_ok_iff, h]
    exact nofun
  rw [Classical.not_imp] at hno
  exact .form hwanted hno.1 hno.2

theorem shows_of_render {text : String} (hjson : job.options.format = .json)
    (h : Report.render job.options.format (host.clock s) job.settings outcomes = .ok text) :
    Report.Shows job.settings outcomes :=
  Report.render_ok_iff.mp ⟨text, h⟩ hjson

section Output

variable (hpath : job.options.report = none) (hbatch : job.options.isBatch = true)

include hpath hbatch

theorem report_to_output :
    job.report host outcomes =
      job.render host outcomes >>= fun text => host.say (text ++ "\n") := by
  rw [report, hpath]
  exact if_pos hbatch

theorem report_to_output_of_render {text : String}
    (h : Report.render job.options.format (host.clock s) job.settings outcomes = .ok text) :
    job.report host outcomes s = host.say (text ++ "\n") s := by
  rw [report_to_output hpath hbatch, Act.bind_of_ok (render_of_ok h)]

theorem report_to_output_of_render_error {fault : ReportFault}
    (h : Report.render job.options.format (host.clock s) job.settings outcomes = .error fault) :
    ∃ failure, job.report host outcomes s = (.error failure, s) := by
  obtain ⟨failure, hmade⟩ := render_of_error h
  exact ⟨failure, by rw [report_to_output hpath hbatch, Act.bind_of_error hmade]⟩

end Output

theorem report_to_file {path : Path} (hpath : job.options.report = some path) :
    job.report host outcomes =
      job.render host outcomes >>= fun text => host.writeText path text.toList >>= fun _ =>
        if job.verbosity ≠ .quiet then host.tell s!"Report: {String.ofList path.shown}\n"
        else pure () := by
  rw [report, hpath]
  simp only [bne_iff_ne]

theorem report_to_file_error_iff {path : Path} (hpath : job.options.report = some path) :
    (∃ failure, (job.report host outcomes s).1 = .error failure) ↔
      job.ReportFails host outcomes s := by
  rw [report_to_file hpath]
  have hwanted : job.options.report.isSome = true ∨ job.options.isBatch = true := by simp [hpath]
  cases hrender : Report.render job.options.format (host.clock s) job.settings outcomes with
  | error fault =>
    obtain ⟨failure, hmade⟩ := render_of_error hrender
    rw [Act.bind_of_error hmade]
    exact iff_of_true ⟨failure, rfl⟩ (reportFails_of_render_error hwanted hrender)
  | ok text =>
    rw [Act.bind_of_ok (render_of_ok hrender)]
    simp only [Act.bind_error_iff]
    constructor
    · rintro ⟨failure, hwrite | ⟨⟨⟩, written, hwrite, htell⟩⟩
      · exact .write hpath hrender hwrite
      · by_cases hquiet : job.verbosity ≠ .quiet
        · rw [if_pos hquiet] at htell
          exact .tell hpath hrender hwrite hquiet htell
        · rw [if_neg hquiet] at htell
          cases htell
    · intro h
      cases h with
      | form _ hjson hno => exact absurd (shows_of_render hjson hrender) hno
      | write hpath' hrender' hwrite =>
        obtain rfl := Option.some.inj (hpath.symm.trans hpath')
        obtain rfl := Except.ok.inj (hrender.symm.trans hrender')
        exact ⟨_, Or.inl hwrite⟩
      | tell hpath' hrender' hwrite hspeaks htell =>
        obtain rfl := Option.some.inj (hpath.symm.trans hpath')
        obtain rfl := Except.ok.inj (hrender.symm.trans hrender')
        exact ⟨_, Or.inr ⟨(), _, hwrite, by rw [if_pos hspeaks]; exact htell⟩⟩
      | say hnone => cases hpath.symm.trans hnone

theorem report_to_output_error_iff (hpath : job.options.report = none)
    (hbatch : job.options.isBatch = true) :
    (∃ failure, (job.report host outcomes s).1 = .error failure) ↔
      job.ReportFails host outcomes s := by
  cases hrender : Report.render job.options.format (host.clock s) job.settings outcomes with
  | error fault =>
    obtain ⟨failure, hmade⟩ := report_to_output_of_render_error hpath hbatch hrender
    rw [hmade]
    exact iff_of_true ⟨failure, rfl⟩ (reportFails_of_render_error (Or.inr hbatch) hrender)
  | ok text =>
    rw [report_to_output_of_render hpath hbatch hrender]
    constructor
    · rintro ⟨failure, hsay⟩
      exact .say hpath hbatch hrender hsay
    · intro h
      cases h with
      | form _ hjson hno => exact absurd (shows_of_render hjson hrender) hno
      | write hsome | tell hsome => cases hpath.symm.trans hsome
      | say _ _ hrender' hsay =>
        obtain rfl := Except.ok.inj (hrender.symm.trans hrender')
        exact ⟨_, hsay⟩

theorem report_error_iff :
    (∃ failure, (job.report host outcomes s).1 = .error failure) ↔
      job.ReportFails host outcomes s := by
  cases hpath : job.options.report with
  | some path => exact report_to_file_error_iff hpath
  | none =>
    by_cases hbatch : job.options.isBatch = true
    · exact report_to_output_error_iff hpath hbatch
    · -- the text itself was delivered, and there is no report
      have hnone : job.report host outcomes = pure () := by
        rw [report, hpath]
        exact if_neg hbatch
      rw [hnone]
      refine iff_of_false nofun fun h => ?_
      cases h with
      | form hwanted => simp [hpath, hbatch] at hwanted
      | write hsome | tell hsome => cases hpath.symm.trans hsome
      | say _ hyes => exact hbatch hyes

/-! ### The end of a run -/

variable {paths : List Path} {started wrapped closed : σ}

theorem run_of_start_error {failure : Failure} {next : σ}
    (h : job.reporter.start host paths.length s = (.error failure, next)) :
    job.run host paths s = (.error (.failed failure), next) := by
  rw [run, h]

section Started

variable (hstart : job.reporter.start host paths.length s = (.ok (), started))

include hstart

theorem run_of_finish_error {ended : Except Failure Unit} {failure : Failure}
    (hfiles : job.wrapFiles host [] paths started = ((outcomes, ended), wrapped))
    (h : job.reporter.finish host outcomes wrapped = (.error failure, next)) :
    job.run host paths s = (.error (.failed failure), next) := by
  rw [run, hstart]
  simp only [hfiles, h]

variable (hfinish : job.reporter.finish host outcomes wrapped = (.ok (), closed))

include hfinish

theorem run_of_file_error {failure : Failure}
    (hfiles : job.wrapFiles host [] paths started = ((outcomes, .error failure), wrapped)) :
    job.run host paths s = (.error (.ofFailure failure), closed) := by
  rw [run, hstart]
  simp only [hfiles, hfinish]

theorem run_of_report_error {failure : Failure} {next : σ}
    (hfiles : job.wrapFiles host [] paths started = ((outcomes, .ok ()), wrapped))
    (hreport : job.report host outcomes closed = (.error failure, next)) :
    job.run host paths s = (.error (.failed failure), next) := by
  rw [run, hstart]
  simp only [hfiles, hfinish, hreport]

theorem run_of_report {next : σ}
    (hfiles : job.wrapFiles host [] paths started = ((outcomes, .ok ()), wrapped))
    (hreport : job.report host outcomes closed = (.ok (), next)) :
    job.run host paths s = (.ok (job.options.check && outcomes.any (·.changed)), next) := by
  rw [run, hstart]
  simp only [hfiles, hfinish, hreport]

end Started

end CommandLine.Job

end HardWrap
