import HardWrap.Proofs.BatchRuns
import HardWrap.Proofs.Preparation
import Mathlib.Data.List.Pairwise

/-! Checks and runs in place. Both look at the same files in the same order and come to the same
outcomes, so a check foretells what a run in place does, unless something is in the way: a tab that
cannot be written as spaces or a number that is too long for a report, which end both of them, or a
locked file, which only a run in place stumbles over. -/

namespace HardWrap.CommandLine

variable {σ : Type}

/-- The options for a check, or else for a run in place. -/
def WrapOptions.inMode (common : WrapOptions) (checks : Bool) : WrapOptions :=
  { common with check := checks, inPlace := !checks }

def Call.job (call : Call) (effective : Settings) (options : WrapOptions) : Job :=
  ⟨call.limits, options, call.verbosity, effective⟩

/-- A check foretells a run in place: it touches no file, it ends with one exactly if the run in
place changes a file, it reports as changed exactly the files that change, and these are files that
it looked at and get their new texts. A check that reports nothing foretells that nothing
changes. -/
structure Predicts (host : Host σ) (out : σ → String) (form : String → String)
    (same : Path → Path → Prop) (job : Job) (paths : List Path) (new : Path → Text) (s : σ)
    (check change : Except Stop Bool × σ) : Prop where
  untouched : ∀ q, host.read check.2 q = host.read s q
  code : exitCode check.1 = 1 ↔ ∃ q, host.read change.2 q ≠ host.read s q
  tells : (out check.2 = out s ∧ ∀ p ∈ paths, host.read change.2 p = host.read s p) ∨
    ∃ outcomes, job.Reports host out form paths s outcomes check.2 ∧
      List.Forall₂ (fun p o => o.path = p.shown ∧
        (o.changed = true ↔ host.read change.2 p ≠ host.read s p)) paths outcomes
  others : ∀ q, host.read change.2 q ≠ host.read s q →
    ∃ p ∈ paths, same p q ∧ host.read change.2 p ≠ host.read s p
  written : ∀ p ∈ paths, host.read change.2 p ≠ host.read s p →
    host.read change.2 p = .ok (Utf8.encode (new p))

/-- Options that do not contradict each other in either mode. -/
def Consistent (host : Host σ) (common : WrapOptions) (s : σ) : Prop :=
  common.output = none ∧ (host.isFolder s common.input = .ok true → common.line = none)

/-- No number in a report has too many digits. -/
structure NumbersFit (style : Style) (text new : Path → Text) (paths : List Path) : Prop where
  maxWidth : style.maxWidth.natAbs < tenTo Numeral.maxDigits
  tabWidth : style.tabWidth.natAbs < tenTo Numeral.maxDigits
  files : paths.length < tenTo Numeral.maxDigits
  lines : ∀ p ∈ paths, (text p).lines.length < tenTo Numeral.maxDigits ∧
    (new p).lines.length < tenTo Numeral.maxDigits

/-- What keeps a check from foretelling a run in place. -/
inductive Stuck (limits : Limits) (style : Style) (common : WrapOptions) (writable : Path → Prop)
    (text : Path → Text) (paths : List Path) : Prop
  | tab {p : Path} (hp : p ∈ paths)
    (hstumbles : Job.Stumbles limits style common.line (text p))
  | number (hjson : common.format = .json)
    (hlong : ¬ NumbersFit style text (fun p => newText style common.line (text p)) paths)
  | locked {p : Path} (hp : p ∈ paths) (hchanged : newText style common.line (text p) ≠ text p)
    (hlocked : ¬ writable p)

theorem Job.shows_iff {job : Job} {style : Style} {text : Path → Text} {paths : List Path}
    (h : job.settings.Describe style) :
    Report.Shows job.settings (paths.map (job.outcomeAt style text)) ↔
      NumbersFit style text (job.newAt style text) paths := by
  have htexts : ∀ v ∈ style.tracked.map Value.text, Json.fault? v = none := by
    intro v hv
    obtain ⟨name, -, rfl⟩ := List.mem_map.mp hv
    rfl
  constructor
  · rintro ⟨hwidth, htab, -, hfiles, hlines⟩
    refine ⟨?_, ?_, by simpa using hfiles, ?_⟩
    · simpa [h.maxWidth, Json.fault?] using hwidth
    · simpa [h.tabWidth, Json.fault?] using htab
    · intro p hp
      exact hlines _ (List.mem_map.mpr ⟨p, hp, rfl⟩)
  · rintro ⟨hwidth, htab, hfiles, hlines⟩
    refine ⟨?_, ?_, ⟨_, h.tracked, htexts⟩, by simpa using hfiles, ?_⟩
    · simpa [h.maxWidth, Json.fault?] using hwidth
    · simpa [h.tabWidth, Json.fault?] using htab
    · intro o ho
      obtain ⟨p, hp, rfl⟩ := List.mem_map.mp ho
      exact hlines p hp

section TwoRuns

variable {host : Host σ} {out : σ → String} {form : String → String} {same : Path → Path → Prop}
  {writable : Path → Prop} {call : Call} {common : WrapOptions} {effective : Settings}
  {style : Style} {text : Path → Text} {paths : List Path} {s : σ} {checks : Bool}

theorem inMode_modesAgree (h : common.output = none) : (common.inMode checks).ModesAgree := by
  refine ⟨?_, fun _ => h⟩
  cases checks with
  | true => exact fun hboth => nomatch hboth.1
  | false => exact fun hboth => nomatch hboth.2

theorem inMode_isBatch : (common.inMode checks).isBatch = true := by
  cases checks with
  | true => exact Bool.or_true _
  | false => rfl

theorem exists_isFolder (h : inputFiles host effective common.input s = .ok paths) :
    ∃ isFolder, host.isFolder s common.input = .ok isFolder := by
  cases hlook : host.isFolder s common.input with
  | ok isFolder => exact ⟨isFolder, rfl⟩
  | error failure =>
    rw [inputFiles, hlook] at h
    cases h

section Prepared

variable (heffective : effectiveSettings call.limits (host.userTable s) call.settings common =
  .ok effective)

include heffective

theorem wrapCommand_of_inconsistent (h : ¬ Consistent host common s) (checks : Bool) :
    ∃ misuse, wrapCommand call host (common.inMode checks) s = (.error (.refused misuse), s) := by
  have hsettings : effectiveSettings call.limits (host.userTable s) call.settings
      (common.inMode checks) = .ok effective := heffective
  have hrefused : ∃ misuse,
      prepare call host (common.inMode checks) s = .error (.refused misuse) := by
    by_cases houtput : common.output = none
    · obtain ⟨hfolder, hline⟩ := Classical.not_imp.mp fun hfits => h ⟨houtput, hfits⟩
      refine prepare_of_folder hsettings (inMode_modesAgree houtput) ?_ hfolder
      exact fun hsuit => hline hsuit.line
    · exact prepare_of_disagree hsettings fun hmodes => houtput (hmodes.output inMode_isBatch)
  obtain ⟨misuse, hmisuse⟩ := hrefused
  exact ⟨misuse, by rw [wrapCommand, hmisuse]⟩

theorem wrapCommand_of_consistent
    (hpaths : inputFiles host effective common.input s = .ok paths)
    (h : Consistent host common s) (checks : Bool) :
    wrapCommand call host (common.inMode checks) s =
      (call.job effective (common.inMode checks)).run host paths s := by
  have hsettings : effectiveSettings call.limits (host.userTable s) call.settings
      (common.inMode checks) = .ok effective := heffective
  have hfiles : inputFiles host effective (common.inMode checks).input s = .ok paths := hpaths
  obtain ⟨isFolder, hlook⟩ := exists_isFolder hpaths
  have hready := prepare_eq hsettings (inMode_modesAgree h.1) hlook fun hyes =>
    ⟨inMode_isBatch, h.2 (hyes ▸ hlook)⟩
  rw [hfiles] at hready
  rw [wrapCommand, hready]
  rfl

end Prepared

/-! What the two runs make of the files, the second of them in place. -/

variable {new : Path → Text} {job : Job} {reached : List Path} {checked changed : σ} {p q : Path}
  {result : Except Stop Bool}

theorem changes_iff (hleaves : job.Leaves host same text new s reached changed)
    (hinPlace : job.options.inPlace = true) (hp : p ∈ reached)
    (hread : host.read s p = .ok (Utf8.encode (text p))) :
    host.read changed p ≠ host.read s p ↔ new p ≠ text p := by
  rw [hleaves.written hinPlace p hp, hread, ne_eq, Except.ok.injEq, Utf8.encode_inj]

theorem exists_of_changes (hleaves : job.Leaves host same text new s reached changed)
    (h : host.read changed q ≠ host.read s q) :
    job.options.inPlace = true ∧ ∃ p ∈ reached, new p ≠ text p ∧ same p q := by
  by_contra hnone
  refine h (hleaves.kept q fun hmode p hp hnew hsame => hnone ⟨hmode, p, hp, hnew, hsame⟩)

/-- A check that ends with one and says nothing foretells nothing. -/
theorem not_predicts_of_silent {checking : Except Stop Bool × σ} {changing : Except Stop Bool × σ}
    (hcode : exitCode checking.1 = 1)
    (hnone : ∀ outcomes last, ¬ job.Reports host out form paths s outcomes last) :
    ¬ Predicts host out form same job paths new s checking changing := by
  intro h
  rcases h.tells with ⟨-, hsame⟩ | ⟨outcomes, hreports, -⟩
  · obtain ⟨q, hq⟩ := h.code.mp hcode
    obtain ⟨p, hp, -, hchanges⟩ := h.others q hq
    exact hchanges (hsame p hp)
  · exact hnone outcomes _ hreports

/-- A report cannot be right about a file that would change and does not. -/
theorem not_predicts_of_locked {checking : Except Stop Bool × σ} {changing : Except Stop Bool × σ}
    (hreports : job.Reports host out form paths s (paths.map (job.outcomeAt style text)) checking.2)
    (hshown : out checking.2 ≠ out s) (hp : p ∈ paths) (hnew : job.newAt style text p ≠ text p)
    (hsame : host.read changing.2 p = host.read s p) :
    ¬ Predicts host out form same job paths new s checking changing := by
  intro h
  rcases h.tells with ⟨hsilent, -⟩ | ⟨outcomes, hreports', hall⟩
  · exact hshown hsilent
  · obtain ⟨started, wrapped, -, -, hstart, hfiles, -⟩ := hreports
    obtain ⟨-, rfl⟩ := hreports'.wrapFiles_eq hstart hfiles
    have hpair := List.forall₂_map_right_iff.mp hall
    have hflag := (List.forall₂_same.mp hpair p hp).2
    refine hflag.mp ?_ hsame
    exact decide_eq_true hnew

theorem exitCode_found_iff {found : Bool} : exitCode (.ok found) = 1 ↔ found = true := by
  cases found with
  | true => exact iff_of_true rfl rfl
  | false => exact iff_of_false nofun nofun

theorem predicts_of_reported {check change : Job} (hinPlace : change.options.inPlace = true)
    (hcheck : check.options.inPlace = false) (hmode : check.options.check = true)
    (hleaves : check.Leaves host same text (check.newAt style text) s paths checked)
    (hreports :
      check.Reports host out form paths s (paths.map (check.outcomeAt style text)) checked)
    (hchange : change.Leaves host same text (check.newAt style text) s paths changed)
    (hread : ∀ p ∈ paths, host.read s p = .ok (Utf8.encode (text p))) :
    Predicts host out form same check paths (check.newAt style text) s
      (.ok (check.options.check && (paths.map (check.outcomeAt style text)).any (·.changed)),
        checked) (result, changed) := by
  have hchanges : ∀ p ∈ paths, (host.read changed p ≠ host.read s p ↔
      check.newAt style text p ≠ text p) := fun p hp => changes_iff hchange hinPlace hp (hread p hp)
  refine ⟨?_, ?_, Or.inr ⟨_, hreports, ?_⟩, ?_, fun p hp _ => hchange.written hinPlace p hp⟩
  · intro q
    refine hleaves.kept q fun hyes => ?_
    rw [hcheck] at hyes
    cases hyes
  · rw [exitCode_found_iff, hmode, Bool.true_and, List.any_map, List.any_eq_true]
    constructor
    · rintro ⟨p, hp, hflag⟩
      exact ⟨p, (hchanges p hp).mpr (of_decide_eq_true hflag)⟩
    · rintro ⟨q, hq⟩
      obtain ⟨-, p, hp, hnew, -⟩ := exists_of_changes hchange hq
      exact ⟨p, hp, decide_eq_true hnew⟩
  · rw [List.forall₂_map_right_iff, List.forall₂_same]
    intro p hp
    refine ⟨rfl, ?_⟩
    rw [hchanges p hp]
    exact decide_eq_true_iff
  · intro q hq
    obtain ⟨-, p, hp, hnew, hsame⟩ := exists_of_changes hchange hq
    exact ⟨p, hp, hsame, (hchanges p hp).mpr hnew⟩

theorem predicts_of_refused {misuse misuse' : Misuse} :
    Predicts host out form same job paths new s (.error (.refused misuse), s)
      (.error (.refused misuse'), s) where
  untouched _ := rfl
  code := iff_of_false nofun fun ⟨_, hq⟩ => hq rfl
  tells := Or.inl ⟨rfl, fun _ _ => rfl⟩
  others _ hq := absurd rfl hq
  written _ _ hp := absurd rfl hp

/-- Two runs that were not refused. -/
theorem predicts_iff_not_stuck {checking changing : Except Stop Bool × σ}
    (hsymm : ∀ {p q}, same p q → same q p) (hsettings : effective.Describe style)
    (hapart : paths.Pairwise fun p q => ¬ same p q)
    (hread : ∀ p ∈ paths, host.read s p = .ok (Utf8.encode (text p)))
    (hcheck : (call.job effective (common.inMode true)).Ends host out form same writable style
      text paths s checking)
    (hchange : (call.job effective (common.inMode false)).Ends host out form same writable style
      text paths s changing) :
    Predicts host out form same (call.job effective (common.inMode true)) paths
        (fun p => newText style common.line (text p)) s checking changing ↔
      ¬ Stuck call.limits style common writable text paths := by
  have hshows := @Job.shows_iff (call.job effective (common.inMode true)) style text paths hsettings
  cases hcheck with
  | cut hleaves hreached hfree hwhy hnone hout hcode =>
    refine iff_of_false (not_predicts_of_silent hcode hnone) (not_not.mpr ?_)
    rcases hwhy with ⟨p, hp, hstumbles | ⟨hmode, -⟩⟩ | ⟨hjson, hno⟩
    · exact .tab hp hstumbles
    · cases hmode
    · exact .number hjson fun hfit => hno (hshows.mpr hfit)
  | reported hleaves hfree hshown hreports hheard =>
    cases hchange with
    | cut hleaves' hreached hfree' hwhy =>
      -- only a locked file can have cut the run in place short
      rcases hwhy with ⟨p, hp, hstumbles | hlocked⟩ | ⟨hjson, hno⟩
      · exact absurd (Or.inl hstumbles) (hfree p hp)
      · refine iff_of_false (not_predicts_of_locked hreports hheard hp hlocked.2.1 ?_)
          (not_not.mpr (.locked hp hlocked.2.1 hlocked.2.2))
        refine hleaves'.kept p fun _ r hr _ hsame => ?_
        have hne : r ≠ p := by
          rintro rfl
          exact hfree' r hr (Or.inr hlocked)
        have : Std.Symm fun p q => ¬ same p q := ⟨fun _ _ h h' => h (hsymm h')⟩
        exact hapart.forall (hreached hr) hp hne hsame
      · exact absurd (hshown hjson) hno
    | reported hleaves' hfree' =>
      refine iff_of_true ?_ ?_
      · exact predicts_of_reported rfl rfl rfl hleaves hreports hleaves' hread
      · intro hstuck
        cases hstuck with
        | tab hp hstumbles => exact hfree _ hp (Or.inl hstumbles)
        | number hjson hlong => exact hlong (hshows.mp (hshown hjson))
        | locked hp hchanged hlocked => exact hfree' _ hp (Or.inr ⟨rfl, hchanged, hlocked⟩)

end TwoRuns

end HardWrap.CommandLine
