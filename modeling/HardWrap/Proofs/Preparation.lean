import HardWrap.Proofs.OptionSettings

/-! What a run over files needs before it starts: settings with the options laid over them, options
that do not contradict each other, and files to run over. Contradictions are refused. What is left
to fail is a setting that has to list texts and does not, and the host. -/

namespace HardWrap

/-! ### Settings that list texts -/

/-- Whether a value can be run through and holds texts only. -/
def Value.ListsTexts (v : Value) : Prop :=
  ∃ names : List Text, v.items? = some (names.map .text)

def Value.isText : Value → Bool
  | .text _ => true
  | _ => false

theorem Value.all_isText_iff {vs : List Value} :
    vs.all Value.isText = true ↔ ∃ names : List Text, vs = names.map .text := by
  constructor
  · intro h
    induction vs with
    | nil => exact ⟨[], rfl⟩
    | cons v rest ih =>
      rw [List.all_cons, Bool.and_eq_true] at h
      obtain ⟨names, rfl⟩ := ih h.2
      cases v with
      | text t => exact ⟨t :: names, rfl⟩
      | _ => cases h.1
  · rintro ⟨names, rfl⟩
    simp [isText]

theorem Value.listsTexts_iff {v : Value} :
    v.ListsTexts ↔ ∃ items, v.items? = some items ∧ items.all isText = true := by
  simp only [ListsTexts, all_isText_iff]
  constructor
  · rintro ⟨names, h⟩
    exact ⟨_, h, names, rfl⟩
  · rintro ⟨_, h, names, rfl⟩
    exact ⟨names, h⟩

namespace CommandLine

section Settings

variable {limits : Limits} {user : Table} {settings : Settings} {options : WrapOptions}

theorem joinNames_error {tracked : List Value} (h : tracked.all Value.isText = false)
    (environments : List Text) : joinNames tracked environments = .error .wrongType := by
  have hnot : ¬ tracked.all Value.isText = true := by simp [h]
  exact if_neg hnot

/-- Names can be added to those of the settings only if these are texts. -/
theorem effectiveSettings_error (hnames : options.environments ≠ [])
    (htracked : ¬ settings.tracked.ListsTexts) (user : Except Failure Table) :
    effectiveSettings limits user settings options = .error .wrongType := by
  have hoverrides : optionOverrides settings options = .error .wrongType := by
    unfold optionOverrides
    simp only [List.isEmpty_eq_false_iff.mpr hnames, Bool.false_eq_true, ↓reduceIte]
    cases hitems : settings.tracked.items? with
    | none => rfl
    | some items =>
      have hall : items.all Value.isText = false := by
        rw [Bool.eq_false_iff]
        exact fun hall => htracked (Value.listsTexts_iff.mpr ⟨items, hitems, hall⟩)
      simp only [joinNames_error hall]
      rfl
  rw [effectiveSettings, hoverrides]
  rfl

theorem exists_effectiveSettings (hload : Settings.load limits user [] = .ok settings)
    (hrange : options.InRange)
    (hnames : options.environments ≠ [] → settings.tracked.ListsTexts) :
    ∃ effective, effectiveSettings limits (.ok user) settings options = .ok effective := by
  by_cases hnone : options.environments = []
  · exact ⟨_, @effectiveSettings_eq_withOptions limits user settings [] options
      hload (fun hsome => absurd hnone hsome) hrange⟩
  · obtain ⟨configured, hconfigured⟩ := hnames hnone
    exact ⟨_, effectiveSettings_eq hload hconfigured hrange⟩

end Settings

/-! ### Options that contradict each other -/

/-- The modes of a run do not contradict each other. -/
structure WrapOptions.ModesAgree (options : WrapOptions) : Prop where
  mode : ¬ (options.inPlace = true ∧ options.check = true)
  output : options.isBatch = true → options.output = none

/-- The options go with a folder. -/
structure WrapOptions.SuitFolder (options : WrapOptions) : Prop where
  batch : options.isBatch = true
  line : options.line = none

variable {options : WrapOptions}

theorem checkModes_of_agree (h : options.ModesAgree) : checkModes options = .ok () := by
  unfold checkModes
  rw [if_neg (by simpa using h.mode), if_neg]
  rw [Bool.and_eq_true]
  rintro ⟨houtput, hbatch⟩
  rw [h.output hbatch] at houtput
  cases houtput

theorem checkModes_of_not_agree (h : ¬ options.ModesAgree) :
    ∃ misuse, checkModes options = .error misuse := by
  unfold checkModes
  by_cases hmode : (options.inPlace && options.check) = true
  · exact ⟨_, if_pos hmode⟩
  · rw [if_neg hmode]
    refine ⟨.outputOfBatch, if_pos ?_⟩
    by_contra hno
    refine h ⟨by simpa using hmode, fun hbatch => ?_⟩
    simpa [hbatch] using hno

theorem checkFolder_of_suit (h : options.SuitFolder) : checkFolder options = .ok () := by
  unfold checkFolder
  rw [if_neg (by simp [h.batch]), if_neg (by simp [h.line])]

theorem checkFolder_of_not_suit (h : ¬ options.SuitFolder) :
    ∃ misuse, checkFolder options = .error misuse := by
  unfold checkFolder
  by_cases hbatch : options.isBatch = true
  · refine ⟨.lineOfFolder, ?_⟩
    rw [if_neg (by simp [hbatch]), if_pos]
    by_contra hno
    exact h ⟨hbatch, by simpa using hno⟩
  · exact ⟨.folderAlone, if_pos (by simp [hbatch])⟩

/-! ### The files to run over -/

variable {σ : Type} {host : Host σ} {settings : Settings} {input : Path} {s : σ}

theorem mapM_suffixOf_cases (items : List Value) :
    items.all Value.isText = true ∧ (∃ suffixes, items.mapM suffixOf = .ok suffixes) ∨
      items.all Value.isText = false ∧ items.mapM suffixOf = .error .notText := by
  induction items with
  | nil => exact Or.inl ⟨rfl, [], rfl⟩
  | cons v rest ih =>
    rw [List.mapM_cons, List.all_cons]
    cases v with
    | text t =>
      rcases ih with ⟨hall, suffixes, hok⟩ | ⟨hall, herror⟩
      · exact Or.inl ⟨hall, Text.lower t :: suffixes, by rw [hok]; rfl⟩
      · exact Or.inr ⟨hall, by rw [herror]; rfl⟩
    | _ => exact Or.inr ⟨rfl, rfl⟩

theorem suffixesOf_cases (settings : Settings) :
    settings.extensions.ListsTexts ∧ (∃ suffixes, suffixesOf settings = .ok suffixes) ∨
      ¬ settings.extensions.ListsTexts ∧ ∃ failure, suffixesOf settings = .error failure := by
  rw [Value.listsTexts_iff]
  unfold suffixesOf
  cases settings.extensions.items? with
  | none => exact Or.inr ⟨by simp, .wrongType, rfl⟩
  | some items =>
    rcases mapM_suffixOf_cases items with ⟨hall, hok⟩ | ⟨hall, herror⟩
    · exact Or.inl ⟨⟨items, rfl, hall⟩, hok⟩
    · refine Or.inr ⟨?_, .notText, herror⟩
      rintro ⟨_, ⟨⟩, htexts⟩
      rw [hall] at htexts
      cases htexts

theorem inputFiles_of_file (h : host.isFolder s input = .ok false) :
    inputFiles host settings input s = .ok [input] := by
  rw [inputFiles, h]
  rfl

/-- The files of a folder cannot be found if a suffix is no text or the folder cannot be listed. -/
theorem inputFiles_of_folder (h : host.isFolder s input = .ok true) :
    (¬ settings.extensions.ListsTexts ∨ ∃ failure, host.below s input = .error failure) ∧
      (∃ failure, inputFiles host settings input s = .error (.failed failure)) ∨
    (settings.extensions.ListsTexts ∧ ¬ ∃ failure, host.below s input = .error failure) ∧
      ((∃ misuse, inputFiles host settings input s = .error (.refused misuse)) ∨
        ∃ paths, inputFiles host settings input s = .ok paths) := by
  rw [inputFiles, h]
  rcases suffixesOf_cases settings with ⟨htexts, suffixes, hsuffixes⟩ |
    ⟨htexts, failure, hsuffixes⟩
  · cases hbelow : host.below s input with
    | error failure =>
      refine Or.inl ⟨Or.inr ⟨failure, rfl⟩, failure, ?_⟩
      rw [hsuffixes]
      rfl
    | ok below =>
      refine Or.inr ⟨⟨htexts, nofun⟩, ?_⟩
      rw [hsuffixes]
      by_cases hempty : (matching suffixes below).isEmpty = true
      · exact Or.inl ⟨.noFiles input, if_pos hempty⟩
      · exact Or.inr ⟨matching suffixes below, if_neg hempty⟩
  · refine Or.inl ⟨Or.inl htexts, failure, ?_⟩
    rw [hsuffixes]
    rfl

/-! ### All of it -/

variable {call : Call} {effective : Settings}

section Prepare

variable (heffective : effectiveSettings call.limits (host.userTable s) call.settings options =
  .ok effective)

include heffective

theorem prepare_of_disagree (hmodes : ¬ options.ModesAgree) :
    ∃ misuse, prepare call host options s = .error (.refused misuse) := by
  obtain ⟨misuse, hmisuse⟩ := checkModes_of_not_agree hmodes
  refine ⟨misuse, ?_⟩
  rw [prepare, heffective, hmisuse]
  rfl

theorem prepare_of_looking (hmodes : options.ModesAgree) {failure : Failure}
    (hlook : host.isFolder s options.input = .error failure) :
    prepare call host options s = .error (.failed failure) := by
  rw [prepare, heffective, checkModes_of_agree hmodes, hlook]
  rfl

theorem prepare_of_folder (hmodes : options.ModesAgree) (hsuit : ¬ options.SuitFolder)
    (hfolder : host.isFolder s options.input = .ok true) :
    ∃ misuse, prepare call host options s = .error (.refused misuse) := by
  obtain ⟨misuse, hmisuse⟩ := checkFolder_of_not_suit hsuit
  refine ⟨misuse, ?_⟩
  rw [prepare, heffective, checkModes_of_agree hmodes, hfolder, hmisuse]
  rfl

theorem prepare_eq {isFolder : Bool} (hmodes : options.ModesAgree)
    (hlook : host.isFolder s options.input = .ok isFolder)
    (hsuit : isFolder = true → options.SuitFolder) :
    prepare call host options s =
      (inputFiles host effective options.input s).map fun paths =>
        (⟨call.limits, options, call.verbosity, effective⟩, paths) := by
  have hfiles : ∀ x : Except Stop (List Path), (x >>= fun paths =>
      pure ((⟨call.limits, options, call.verbosity, effective⟩ : Job), paths)) =
        x.map fun paths => (⟨call.limits, options, call.verbosity, effective⟩, paths) := by
    intro x
    cases x <;> rfl
  rw [prepare, heffective, checkModes_of_agree hmodes, hlook, ← hfiles]
  cases isFolder with
  | false => rfl
  | true =>
    rw [checkFolder_of_suit (hsuit rfl)]
    rfl

end Prepare

/-- Why a run cannot be prepared, without an answer. -/
inductive PrepareFails (call : Call) (host : Host σ) (options : WrapOptions) (s : σ) : Prop
  | names (hgiven : options.environments ≠ []) (hnames : ¬ call.settings.tracked.ListsTexts)
  | looking (hmodes : options.ModesAgree) {failure : Failure}
    (hlook : host.isFolder s options.input = .error failure)
  | suffixes (hmodes : options.ModesAgree) (hfolder : host.isFolder s options.input = .ok true)
    (hsuit : options.SuitFolder) {effective : Settings}
    (heffective : effectiveSettings call.limits (host.userTable s) call.settings options =
      .ok effective)
    (hsuffixes : ¬ effective.extensions.ListsTexts)
  | listing (hmodes : options.ModesAgree) (hfolder : host.isFolder s options.input = .ok true)
    (hsuit : options.SuitFolder) {failure : Failure}
    (hlist : host.below s options.input = .error failure)

theorem prepareFails_iff {isFolder : Bool}
    (hnames : options.environments ≠ [] → call.settings.tracked.ListsTexts)
    (heffective : effectiveSettings call.limits (host.userTable s) call.settings options =
      .ok effective) (hmodes : options.ModesAgree)
    (hlook : host.isFolder s options.input = .ok isFolder) :
    PrepareFails call host options s ↔ isFolder = true ∧ options.SuitFolder ∧
      (¬ effective.extensions.ListsTexts ∨
        ∃ failure, host.below s options.input = .error failure) := by
  constructor
  · intro h
    cases h with
    | names hgiven hno => exact absurd (hnames hgiven) hno
    | looking _ hfails => cases hlook.symm.trans hfails
    | suffixes _ hfolder hsuit heffective' hsuffixes =>
      obtain rfl := Except.ok.inj (hlook.symm.trans hfolder)
      obtain rfl := Except.ok.inj (heffective.symm.trans heffective')
      exact ⟨rfl, hsuit, Or.inl hsuffixes⟩
    | listing _ hfolder hsuit hlist =>
      obtain rfl := Except.ok.inj (hlook.symm.trans hfolder)
      exact ⟨rfl, hsuit, Or.inr ⟨_, hlist⟩⟩
  · rintro ⟨rfl, hsuit, hsuffixes | ⟨failure, hlist⟩⟩
    · exact .suffixes hmodes hlook hsuit heffective hsuffixes
    · exact .listing hmodes hlook hsuit hlist

/-- How the preparation of a run ends. -/
inductive Prepares (call : Call) (host : Host σ) (options : WrapOptions) (s : σ) : Prop
  | fails (hfails : PrepareFails call host options s) (failure : Failure)
    (hresult : prepare call host options s = .error (.failed failure))
  | refuses (hno : ¬ PrepareFails call host options s) (misuse : Misuse)
    (hresult : prepare call host options s = .error (.refused misuse))
  | ready (hno : ¬ PrepareFails call host options s) (effective : Settings) (paths : List Path)
    (hresult : prepare call host options s =
      .ok (⟨call.limits, options, call.verbosity, effective⟩, paths))

theorem prepares_of_agree {isFolder : Bool}
    (hnames : options.environments ≠ [] → call.settings.tracked.ListsTexts)
    (heffective : effectiveSettings call.limits (host.userTable s) call.settings options =
      .ok effective) (hmodes : options.ModesAgree)
    (hlook : host.isFolder s options.input = .ok isFolder) : Prepares call host options s := by
  have hfails := prepareFails_iff hnames heffective hmodes hlook
  cases isFolder with
  | false =>
    refine .ready (fun h => nomatch (hfails.mp h).1) effective [options.input] ?_
    rw [prepare_eq heffective hmodes hlook nofun, inputFiles_of_file hlook]
    rfl
  | true =>
    by_cases hsuit : options.SuitFolder
    · have hprepare := prepare_eq heffective hmodes hlook fun _ => hsuit
      simp only [hsuit, true_and] at hfails
      rcases @inputFiles_of_folder _ _ effective _ _ hlook with ⟨hyes, failure, hfiles⟩ |
        ⟨hno, ⟨misuse, hfiles⟩ | ⟨paths, hfiles⟩⟩
      · exact .fails (hfails.mpr hyes) failure (by rw [hprepare, hfiles]; rfl)
      · refine .refuses (fun h => ?_) misuse (by rw [hprepare, hfiles]; rfl)
        exact (hfails.mp h).elim (absurd hno.1) hno.2
      · refine .ready (fun h => ?_) effective paths (by rw [hprepare, hfiles]; rfl)
        exact (hfails.mp h).elim (absurd hno.1) hno.2
    · obtain ⟨misuse, hmisuse⟩ := prepare_of_folder heffective hmodes hsuit hlook
      exact .refuses (fun h => hsuit (hfails.mp h).2.1) misuse hmisuse

/-- With settings that were accepted, a run fails to be prepared for the reasons given, or it is
refused, or it is ready. -/
theorem prepares {user : Table} (huser : host.userTable s = .ok user)
    (hload : Settings.load call.limits user [] = .ok call.settings) (hrange : options.InRange) :
    Prepares call host options s := by
  by_cases hnames : options.environments ≠ [] ∧ ¬ call.settings.tracked.ListsTexts
  · refine .fails (.names hnames.1 hnames.2) .wrongType ?_
    rw [prepare, effectiveSettings_error hnames.1 hnames.2]
    rfl
  · have htexts : options.environments ≠ [] → call.settings.tracked.ListsTexts := fun hgiven =>
      not_not.mp fun hno => hnames ⟨hgiven, hno⟩
    obtain ⟨effective, heffective⟩ := exists_effectiveSettings hload hrange htexts
    rw [← huser] at heffective
    by_cases hmodes : options.ModesAgree
    · cases hlook : host.isFolder s options.input with
      | error failure =>
        exact .fails (.looking hmodes hlook) failure (prepare_of_looking heffective hmodes hlook)
      | ok isFolder => exact prepares_of_agree htexts heffective hmodes hlook
    · obtain ⟨misuse, hmisuse⟩ := prepare_of_disagree heffective hmodes
      refine .refuses (fun hfails => ?_) misuse hmisuse
      cases hfails with
      | names hgiven hno => exact hno (htexts hgiven)
      | looking hyes | suffixes hyes | listing hyes => exact hmodes hyes

end CommandLine

end HardWrap
