import HardWrap.CommandLine.Workspace
import HardWrap.Proofs.Preparation
import HardWrap.Proofs.Reports

/-! How the command that wraps files ends. It should end with its work done, or with a message.
Whatever else happens escapes: settings of a wrong type, bytes that are no text, a tab that cannot
be written as spaces, a report that cannot be made or written, and whatever the host fails at where
nothing answers for it. -/

namespace HardWrap.CommandLine

variable {σ : Type}

/-- How the command ends as it should: with its work done, with a check that found files that would
change, or with a message. -/
inductive IsOrderly (check : Bool) : Except Stop Bool → Prop
  | done : IsOrderly check (.ok false)
  | found (hcheck : check = true) : IsOrderly check (.ok true)
  | refused (misuse : Misuse) : IsOrderly check (.error (.refused misuse))
  | reported (message : String) : IsOrderly check (.error (.reported message))

theorem not_isOrderly_failed {check : Bool} {failure : Failure} :
    ¬ IsOrderly check (.error (.failed failure)) := nofun

theorem isOrderly_ofFailure_iff {check : Bool} {failure : Failure} :
    IsOrderly check (.error (.ofFailure failure)) ↔ failure.answer? ≠ none := by
  unfold Stop.ofFailure
  cases failure.answer? with
  | none => exact iff_of_false not_isOrderly_failed fun h => h rfl
  | some message => exact iff_of_true (.reported message) nofun

namespace Job

variable {job : Job} {host : Host σ} {paths : List Path} {s : σ}

/-- Why a run over files ends without an answer. -/
inductive RunEscapes (job : Job) (host : Host σ) (paths : List Path) (s : σ) : Prop
  | start {failure : Failure}
    (hstart : (job.reporter.start host paths.length s).1 = .error failure)
  | file {started : σ} (hstart : job.reporter.start host paths.length s = (.ok (), started))
    (hfile : job.EscapesAmong host [] paths started)
  | finish {started wrapped : σ} {outcomes : List FileOutcome} {ended : Except Failure Unit}
    {failure : Failure} (hstart : job.reporter.start host paths.length s = (.ok (), started))
    (hfiles : job.wrapFiles host [] paths started = ((outcomes, ended), wrapped))
    (hfinish : (job.reporter.finish host outcomes wrapped).1 = .error failure)
  | report {started wrapped closed : σ} {outcomes : List FileOutcome}
    (hstart : job.reporter.start host paths.length s = (.ok (), started))
    (hfiles : job.wrapFiles host [] paths started = ((outcomes, .ok ()), wrapped))
    (hfinish : job.reporter.finish host outcomes wrapped = (.ok (), closed))
    (hreport : job.ReportFails host outcomes closed)

section Started

variable {started wrapped : σ} {outcomes : List FileOutcome} {ended : Except Failure Unit}
  (hstart : job.reporter.start host paths.length s = (.ok (), started))
  (hfiles : job.wrapFiles host [] paths started = ((outcomes, ended), wrapped))

include hstart hfiles

/-- Once started, a run escapes at a file, with its summary, or with its report. -/
theorem runEscapes_started_iff :
    job.RunEscapes host paths s ↔
      (∃ failure, ended = .error failure ∧ failure.answer? = none) ∨
      (∃ failure, (job.reporter.finish host outcomes wrapped).1 = .error failure) ∨
      ended = .ok () ∧ ∃ closed, job.reporter.finish host outcomes wrapped = (.ok (), closed) ∧
        job.ReportFails host outcomes closed := by
  have hescapes := @wrapFiles_escapes_iff _ job host started [] paths
  rw [hfiles] at hescapes
  constructor
  · intro h
    cases h with
    | start hfails =>
      rw [hstart] at hfails
      cases hfails
    | file hstart' hfile =>
      obtain ⟨-, rfl⟩ := Prod.mk.inj (hstart.symm.trans hstart')
      exact Or.inl (hescapes.mpr hfile)
    | finish hstart' hfiles' hfinish =>
      obtain ⟨-, rfl⟩ := Prod.mk.inj (hstart.symm.trans hstart')
      obtain ⟨⟨rfl, rfl⟩, rfl⟩ := by simpa using hfiles.symm.trans hfiles'
      exact Or.inr (Or.inl ⟨_, hfinish⟩)
    | report hstart' hfiles' hfinish hreport =>
      obtain ⟨-, rfl⟩ := Prod.mk.inj (hstart.symm.trans hstart')
      obtain ⟨⟨rfl, rfl⟩, rfl⟩ := by simpa using hfiles.symm.trans hfiles'
      exact Or.inr (Or.inr ⟨rfl, _, hfinish, hreport⟩)
  · rintro (hfile | ⟨failure, hfinish⟩ | ⟨rfl, closed, hfinish, hreport⟩)
    · exact .file hstart (hescapes.mp hfile)
    · exact .finish hstart hfiles hfinish
    · exact .report hstart hfiles hfinish hreport

end Started

theorem isOrderly_found (check found : Bool) : IsOrderly check (.ok (check && found)) := by
  cases check with
  | false => exact .done
  | true =>
    cases found with
    | false => exact .done
    | true => exact .found rfl

/-- A run ends as it should exactly if nothing escapes. -/
theorem run_isOrderly_iff :
    IsOrderly job.options.check (job.run host paths s).1 ↔ ¬ job.RunEscapes host paths s := by
  rcases (job.reporter.start host paths.length).cases s with ⟨⟨⟩, started, hstart⟩ |
    ⟨failure, next, hstart⟩
  · rcases hfiles : job.wrapFiles host [] paths started with ⟨⟨outcomes, ended⟩, wrapped⟩
    rw [runEscapes_started_iff hstart hfiles]
    rcases (job.reporter.finish host outcomes).cases wrapped with ⟨⟨⟩, closed, hfinish⟩ |
      ⟨failure, next, hfinish⟩
    · cases ended with
      | error failure =>
        rw [run_of_file_error hstart hfinish hfiles, isOrderly_ofFailure_iff, hfinish]
        simp
      | ok _ =>
        have hreports := @report_error_iff _ job host outcomes closed
        rcases (job.report host outcomes).cases closed with ⟨⟨⟩, next, hreport⟩ |
          ⟨failure, next, hreport⟩
        · rw [run_of_report hstart hfinish hfiles hreport, hfinish]
          rw [hreport] at hreports
          refine iff_of_true (isOrderly_found _ _) ?_
          rintro (⟨_, ⟨⟩, -⟩ | ⟨_, ⟨⟩⟩ | ⟨-, _, ⟨⟩, hfails⟩)
          exact nomatch hreports.mpr hfails
        · rw [run_of_report_error hstart hfinish hfiles hreport]
          rw [hreport] at hreports
          refine iff_of_false not_isOrderly_failed (not_not.mpr (Or.inr (Or.inr ?_)))
          exact ⟨rfl, closed, hfinish, hreports.mp ⟨failure, rfl⟩⟩
    · rw [run_of_finish_error hstart hfiles hfinish]
      refine iff_of_false not_isOrderly_failed (not_not.mpr (Or.inr (Or.inl ⟨failure, ?_⟩)))
      rw [hfinish]
  · rw [run_of_start_error hstart]
    exact iff_of_false not_isOrderly_failed (not_not.mpr (.start (congrArg Prod.fst hstart)))

end Job

/-- Why the command ends without an answer. -/
inductive Escapes (call : Call) (host : Host σ) (options : WrapOptions) (s : σ) : Prop
  | unprepared (hfails : PrepareFails call host options s)
  | run {job : Job} {paths : List Path} (hready : prepare call host options s = .ok (job, paths))
    (hescapes : job.RunEscapes host paths s)

variable {call : Call} {host : Host σ} {options : WrapOptions} {s : σ} {user : Table}

end HardWrap.CommandLine
