import HardWrap.Proofs.FileTrees
import HardWrap.Proofs.LayoutFaults

/-! Runs over files. A file is read, laid out, written back if that is wanted, and closed, each of
which can fail. What becomes of it is said by what its host and its layout come to; the files after
the first one that fails are not looked at. -/

namespace HardWrap.CommandLine

variable {σ : Type}

namespace Act

variable {α β : Type} {x : Act σ α} {f : α → Act σ β} {s next : σ} {failure : Failure}

theorem bind_of_ok {a : α} (h : x s = (.ok a, next)) : (x >>= f) s = f a next := by
  show x.andThen f s = f a next
  rw [andThen, h]

theorem bind_of_error (h : x s = (.error failure, next)) :
    (x >>= f) s = (.error failure, next) := by
  show x.andThen f s = (.error failure, next)
  rw [andThen, h]

theorem pure_bind (a : α) (f : α → Act σ β) : (pure a >>= f) = f a := rfl

theorem bind_assoc {γ : Type} (x : Act σ α) (f : α → Act σ β) (g : β → Act σ γ) :
    (x >>= f) >>= g = x >>= fun a => f a >>= g := by
  funext s
  show (x.andThen f).andThen g s = x.andThen (fun a => (f a).andThen g) s
  unfold andThen
  rcases x s with ⟨failure | a, next⟩
  · rfl
  · rfl

theorem cases (x : Act σ α) (s : σ) :
    (∃ a next, x s = (.ok a, next)) ∨ ∃ failure next, x s = (.error failure, next) := by
  rcases hx : x s with ⟨failure | a, next⟩
  · exact Or.inr ⟨failure, next, rfl⟩
  · exact Or.inl ⟨a, next, rfl⟩

/-- What is done in two steps fails in the first or, once that is done, in the second. -/
theorem bind_error_iff :
    ((x >>= f) s).1 = .error failure ↔
      (x s).1 = .error failure ∨ ∃ a next, x s = (.ok a, next) ∧ (f a next).1 = .error failure := by
  rcases x.cases s with ⟨a, next, hx⟩ | ⟨other, next, hx⟩
  · rw [bind_of_ok hx, hx]
    simp
  · rw [bind_of_error hx, hx]
    simp

end Act

namespace Host

theorem readText_of_text {host : Host σ} {path : Path} {s : σ} {t : Text}
    (h : host.read s path = .ok (Utf8.encode t)) : host.readText path s = (.ok t, s) := by
  show ((host.read s path >>= fun bytes => (Utf8.decode bytes).mapError _), s) = (Except.ok t, s)
  rw [h, ok_bind, Utf8.decode_encode]
  rfl

end Host

namespace Job

variable {job : Job} {host : Host σ} {path : Path} {s next : σ}

/-! ### One file -/

def rewroteNotes (job : Job) (path : Path) : List Note :=
  match job.options.line with
  | none => [rewroteNote path]
  | some _ => []

/-- Writes a file back if it changed and the run is in place. -/
def store (job : Job) (host : Host σ) (path : Path) (before after : Text) : Act σ Unit :=
  if after ≠ before ∧ job.options.inPlace = true then do
    host.writeText path after
    host.note (job.rewroteNotes path)
  else pure ()

def outcome (job : Job) (path : Path) (before after : Text) : FileOutcome :=
  outcomeOf job.settings job.options.verify path before after

/-- Whole files and single paragraphs go the same way. -/
theorem layFile_eq (job : Job) (host : Host σ) (path : Path) :
    job.layFile host path =
      host.readText path >>= fun before => host.noted (job.laid before) >>= fun after =>
        job.store host path before after >>= fun _ =>
          pure (job.outcome path before after, after) := by
  have hchanged : ∀ before after,
      ((outcomeOf job.settings job.options.verify path before after).changed &&
        job.options.inPlace) = true ↔ after ≠ before ∧ job.options.inPlace = true := by
    intro before after
    simp [outcomeOf]
  have hstore : ∀ before after, job.store host path before after >>=
      (fun _ => pure (job.outcome path before after, after)) =
      if (outcomeOf job.settings job.options.verify path before after).changed &&
          job.options.inPlace then
        host.writeText path after >>= fun _ => host.note (job.rewroteNotes path) >>= fun _ =>
          pure (job.outcome path before after, after)
      else pure (job.outcome path before after, after) := by
    intro before after
    unfold store
    by_cases hwrites : after ≠ before ∧ job.options.inPlace = true
    · rw [if_pos hwrites, if_pos ((hchanged before after).mpr hwrites), Act.bind_assoc]
    · rw [if_neg hwrites, if_neg fun h => hwrites ((hchanged before after).mp h), Act.pure_bind]
  simp only [hstore]
  unfold layFile laid rewroteNotes outcome
  cases job.options.line with
  | none => rfl
  | some l =>
    dsimp only
    rw [reflowFileAt]
    simp only [Act.bind_assoc, Act.pure_bind]
    rfl

theorem store_error_iff {before after : Text} {failure : Failure} :
    (job.store host path before after s).1 = .error failure ↔
      after ≠ before ∧ job.options.inPlace = true ∧
        (host.writeText path after s).1 = .error failure := by
  unfold store
  by_cases hwrites : after ≠ before ∧ job.options.inPlace = true
  · rw [if_pos hwrites, Act.bind_error_iff]
    simp [hwrites, Host.note]
  · rw [if_neg hwrites]
    refine iff_of_false nofun ?_
    rintro ⟨hchanged, hinPlace, -⟩
    exact hwrites ⟨hchanged, hinPlace⟩

/-- Whether the run ends without an answer at a file that is being laid out. -/
inductive LosesFile (job : Job) (host : Host σ) (path : Path) (s : σ) : Prop
  | read {failure : Failure} (hread : host.read s path = .error failure)
    (hanswer : failure.answer? = none)
  | bytes {bytes : Bytes} (hread : host.read s path = .ok bytes)
    (hbytes : ∀ t, bytes ≠ Utf8.encode t)
  | layout {t : Text} (hread : host.read s path = .ok (Utf8.encode t))
    (hfails : job.LayoutFails t)
  | write {t : Text} {failure : Failure} (hread : host.read s path = .ok (Utf8.encode t))
    (hlays : ¬ job.LayoutFails t) (hline : HasLine job.options.line t)
    (hchanged : newText job.style job.options.line t ≠ t) (hinPlace : job.options.inPlace = true)
    (hwrite : (host.writeText path (newText job.style job.options.line t)
      (host.takeAll (job.laid t).notes s)).1 = .error failure)
    (hanswer : failure.answer? = none)

theorem layFile_of_read_error {failure : Failure} (h : host.read s path = .error failure) :
    job.layFile host path s = (.error failure, s) := by
  rw [layFile_eq]
  refine Act.bind_of_error ?_
  show ((host.read s path >>= fun bytes => (Utf8.decode bytes).mapError _), s) = _
  rw [h]
  rfl

theorem layFile_of_bytes {bytes : Bytes} (h : host.read s path = .ok bytes)
    (hbytes : ∀ t, bytes ≠ Utf8.encode t) :
    job.layFile host path s = (.error .undecodable, s) := by
  rw [layFile_eq]
  refine Act.bind_of_error ?_
  show ((host.read s path >>= fun bytes => (Utf8.decode bytes).mapError _), s) = _
  rw [h, ok_bind]
  cases hdecode : Utf8.decode bytes with
  | ok t => exact absurd (Utf8.decode_eq_ok_iff.mp hdecode) (hbytes t)
  | error fault => rfl

theorem layFile_of_text {t : Text} (h : host.read s path = .ok (Utf8.encode t)) :
    job.layFile host path s =
      (host.noted (job.laid t) >>= fun after => job.store host path t after >>= fun _ =>
        pure (job.outcome path t after, after)) s := by
  rw [layFile_eq, Act.bind_of_ok (Host.readText_of_text h)]

theorem layFile_of_laid_error {t : Text} {failure : Failure}
    (h : host.read s path = .ok (Utf8.encode t)) (hlaid : (job.laid t).result = .error failure) :
    job.layFile host path s = (.error failure, host.takeAll (job.laid t).notes s) := by
  rw [layFile_of_text h]
  refine Act.bind_of_error ?_
  rw [Host.noted, hlaid]

theorem layFile_of_laid {t after : Text} (h : host.read s path = .ok (Utf8.encode t))
    (hlaid : (job.laid t).result = .ok after) :
    job.layFile host path s =
      (job.store host path t after >>= fun _ => pure (job.outcome path t after, after))
        (host.takeAll (job.laid t).notes s) := by
  rw [layFile_of_text h]
  refine Act.bind_of_ok ?_
  rw [Host.noted, hlaid]

theorem losesFile_text_iff {t : Text} (h : host.read s path = .ok (Utf8.encode t)) :
    job.LosesFile host path s ↔ job.LayoutFails t ∨
      HasLine job.options.line t ∧ newText job.style job.options.line t ≠ t ∧
        job.options.inPlace = true ∧ ∃ failure,
          (host.writeText path (newText job.style job.options.line t)
            (host.takeAll (job.laid t).notes s)).1 = .error failure ∧ failure.answer? = none := by
  have hsame : ∀ {t' : Text}, host.read s path = .ok (Utf8.encode t') → t' = t := fun h' =>
    Utf8.encode_inj.mp (Except.ok.inj (h'.symm.trans h))
  constructor
  · intro hloses
    cases hloses with
    | read hread => cases h.symm.trans hread
    | bytes hread hbytes => exact absurd (Except.ok.inj (hread.symm.trans h)) (hbytes t)
    | layout hread hfails =>
      obtain rfl := hsame hread
      exact Or.inl hfails
    | write hread hlays hline hchanged hinPlace hwrite hanswer =>
      obtain rfl := hsame hread
      exact Or.inr ⟨hline, hchanged, hinPlace, _, hwrite, hanswer⟩
  · by_cases hfails : job.LayoutFails t
    · exact fun _ => .layout h hfails
    · rintro (hyes | ⟨hline, hchanged, hinPlace, failure, hwrite, hanswer⟩)
      · exact absurd hyes hfails
      · exact .write h hfails hline hchanged hinPlace hwrite hanswer

theorem layFile_escapes_iff :
    (∃ failure, (job.layFile host path s).1 = .error failure ∧ failure.answer? = none) ↔
      job.LosesFile host path s := by
  cases hread : host.read s path with
  | error failure =>
    rw [layFile_of_read_error hread]
    constructor
    · rintro ⟨_, ⟨⟩, hanswer⟩
      exact .read hread hanswer
    · intro h
      cases h with
      | read hread' hanswer =>
        obtain rfl := Except.error.inj (hread.symm.trans hread')
        exact ⟨_, rfl, hanswer⟩
      | bytes hread' | layout hread' | write hread' => cases hread.symm.trans hread'
  | ok bytes =>
    by_cases htext : ∃ t, bytes = Utf8.encode t
    · obtain ⟨t, rfl⟩ := htext
      rw [losesFile_text_iff hread]
      cases job.laysOut t with
      | fails hfails failure hresult hanswer =>
        rw [layFile_of_laid_error hread hresult]
        exact iff_of_true ⟨failure, rfl, hanswer⟩ (Or.inl hfails)
      | lacks hlays hline fault hresult =>
        rw [layFile_of_laid_error hread hresult]
        refine iff_of_false ?_ (not_or.mpr ⟨hlays, fun h => hline h.1⟩)
        rintro ⟨_, ⟨⟩, ⟨⟩⟩
      | lays hlays hline hresult =>
        rw [layFile_of_laid hread hresult]
        simp only [Act.bind_error_iff, store_error_iff, hlays, hline, true_and, false_or]
        constructor
        · rintro ⟨failure, ⟨hchanged, hinPlace, hwrite⟩ | ⟨_, _, _, ⟨⟩⟩, hanswer⟩
          exact ⟨hchanged, hinPlace, failure, hwrite, hanswer⟩
        · rintro ⟨hchanged, hinPlace, failure, hwrite, hanswer⟩
          exact ⟨failure, Or.inl ⟨hchanged, hinPlace, hwrite⟩, hanswer⟩
    · have hno := not_exists.mp htext
      rw [layFile_of_bytes hread hno]
      exact iff_of_true ⟨_, rfl, rfl⟩ (.bytes hread hno)

/-- Whether the run ends without an answer at a file, the `count`-th of the run. -/
inductive EscapesAt (job : Job) (host : Host σ) (count : Nat) (path : Path) (s : σ) : Prop
  | lay (hlose : job.LosesFile host path s)
  | advance {outcome : FileOutcome} {t : Text} {laid : σ} {failure : Failure}
    (hlay : job.layFile host path s = (.ok (outcome, t), laid))
    (hadvance : (job.reporter.advance host count outcome laid).1 = .error failure)
    (hanswer : failure.answer? = none)
  | deliver {outcome : FileOutcome} {t : Text} {laid shown : σ} {failure : Failure}
    (hlay : job.layFile host path s = (.ok (outcome, t), laid))
    (hadvance : job.reporter.advance host count outcome laid = (.ok (), shown))
    (hdeliver : (job.deliver host t shown).1 = .error failure)
    (hanswer : failure.answer? = none)

theorem closeFile_error_iff {count : Nat} {outcome : FileOutcome} {t : Text}
    {failure : Failure} :
    (job.closeFile host count path outcome t s).1 = .error failure ↔
      (job.reporter.advance host count outcome s).1 = .error failure ∨
        ∃ shown, job.reporter.advance host count outcome s = (.ok (), shown) ∧
          (job.deliver host t shown).1 = .error failure := by
  simp only [closeFile, Act.bind_error_iff, Host.note, reduceCtorEq, and_false, exists_false,
    or_false]
  constructor
  · exact Or.imp_right fun ⟨_, shown, h⟩ => ⟨shown, h⟩
  · exact Or.imp_right fun ⟨shown, h⟩ => ⟨(), shown, h⟩

theorem escapesAt_iff {count : Nat} :
    job.EscapesAt host count path s ↔
      ∃ failure, failure.answer? = none ∧ ((job.layFile host path s).1 = .error failure ∨
        ∃ outcome t laid, job.layFile host path s = (.ok (outcome, t), laid) ∧
          (job.closeFile host count path outcome t laid).1 = .error failure) := by
  constructor
  · intro h
    cases h with
    | lay hlose =>
      obtain ⟨failure, hlay, hanswer⟩ := layFile_escapes_iff.mpr hlose
      exact ⟨failure, hanswer, Or.inl hlay⟩
    | advance hlay hadvance hanswer =>
      exact ⟨_, hanswer, Or.inr ⟨_, _, _, hlay, closeFile_error_iff.mpr (Or.inl hadvance)⟩⟩
    | deliver hlay hadvance hdeliver hanswer =>
      exact ⟨_, hanswer, Or.inr ⟨_, _, _, hlay,
        closeFile_error_iff.mpr (Or.inr ⟨_, hadvance, hdeliver⟩)⟩⟩
  · rintro ⟨failure, hanswer, hlay | ⟨outcome, t, laid, hlay, hclose⟩⟩
    · exact .lay (layFile_escapes_iff.mp ⟨failure, hlay, hanswer⟩)
    · rcases closeFile_error_iff.mp hclose with hadvance | ⟨shown, hadvance, hdeliver⟩
      · exact .advance hlay hadvance hanswer
      · exact .deliver hlay hadvance hdeliver hanswer

/-! ### One file after the other -/

variable {done : List FileOutcome} {paths : List Path}

theorem wrapFiles_of_lay_error {failure : Failure} {rest : List Path}
    (h : job.layFile host path s = (.error failure, next)) :
    job.wrapFiles host done (path :: rest) s = ((done, .error failure), next) := by
  rw [wrapFiles, h]

section Laid

variable {outcome : FileOutcome} {t : Text} {rest : List Path} {laid : σ}
  (hlay : job.layFile host path s = (.ok (outcome, t), laid))

include hlay

theorem wrapFiles_of_close_error {failure : Failure} (hclose :
    job.closeFile host (done.length + 1) path outcome t laid = (.error failure, next)) :
    job.wrapFiles host done (path :: rest) s = ((done ++ [outcome], .error failure), next) := by
  simp [wrapFiles, hlay, hclose]

theorem wrapFiles_of_close
    (hclose : job.closeFile host (done.length + 1) path outcome t laid = (.ok (), next)) :
    job.wrapFiles host done (path :: rest) s =
      job.wrapFiles host (done ++ [outcome]) rest next := by
  simp [wrapFiles, hlay, hclose]

end Laid

/-- Whether a run over files ends without an answer at one of them, all before it being finished. -/
def EscapesAmong (job : Job) (host : Host σ) (done : List FileOutcome) (paths : List Path)
    (s : σ) : Prop :=
  ∃ front path back outcomes here, paths = front ++ path :: back ∧
    job.wrapFiles host done front s = ((outcomes, .ok ()), here) ∧
    job.EscapesAt host (outcomes.length + 1) path here

/-- If the first file is not finished, the run can only end there. -/
theorem escapesAmong_of_unfinished {rest : List Path}
    (h : ∀ front outcomes here,
      job.wrapFiles host done (path :: front) s ≠ ((outcomes, .ok ()), here)) :
    job.EscapesAmong host done (path :: rest) s ↔ job.EscapesAt host (done.length + 1) path s := by
  constructor
  · rintro ⟨front, last, back, outcomes, here, hsplit, hfront, hescapes⟩
    cases front with
    | nil =>
      obtain ⟨rfl, rfl⟩ := List.cons.inj hsplit
      obtain ⟨⟨rfl, -⟩, rfl⟩ := by simpa [wrapFiles] using hfront
      exact hescapes
    | cons first front =>
      obtain ⟨rfl, rfl⟩ := List.cons.inj hsplit
      exact absurd hfront (h front outcomes here)
  · exact fun hescapes => ⟨[], path, rest, done, s, rfl, rfl, hescapes⟩

theorem escapesAmong_of_finished {outcome : FileOutcome} {t : Text} {rest : List Path} {laid : σ}
    (hlay : job.layFile host path s = (.ok (outcome, t), laid))
    (hclose : job.closeFile host (done.length + 1) path outcome t laid = (.ok (), next)) :
    job.EscapesAmong host done (path :: rest) s ↔
      job.EscapesAmong host (done ++ [outcome]) rest next := by
  have hwrap : ∀ paths, job.wrapFiles host done (path :: paths) s =
      job.wrapFiles host (done ++ [outcome]) paths next :=
    fun _ => wrapFiles_of_close hlay hclose
  constructor
  · rintro ⟨front, last, back, outcomes, here, hsplit, hfront, hescapes⟩
    cases front with
    | nil =>
      obtain ⟨rfl, rfl⟩ := List.cons.inj hsplit
      obtain ⟨⟨rfl, -⟩, rfl⟩ := by simpa [wrapFiles] using hfront
      obtain ⟨failure, -, hfailure | ⟨_, _, _, hlay', hfailure⟩⟩ := escapesAt_iff.mp hescapes
      · rw [hlay] at hfailure
        cases hfailure
      · obtain ⟨⟨rfl, rfl⟩, rfl⟩ := by simpa using hlay.symm.trans hlay'
        rw [hclose] at hfailure
        cases hfailure
    | cons first front =>
      obtain ⟨rfl, rfl⟩ := List.cons.inj hsplit
      exact ⟨front, last, back, outcomes, here, rfl, (hwrap front).symm.trans hfront, hescapes⟩
  · rintro ⟨front, last, back, outcomes, here, rfl, hfront, hescapes⟩
    exact ⟨path :: front, last, back, outcomes, here, rfl, (hwrap front).trans hfront, hescapes⟩

theorem wrapFiles_escapes_iff :
    (∃ failure, (job.wrapFiles host done paths s).1.2 = .error failure ∧
        failure.answer? = none) ↔ job.EscapesAmong host done paths s := by
  induction paths generalizing done s with
  | nil =>
    refine iff_of_false ?_ ?_
    · rintro ⟨_, ⟨⟩, -⟩
    · rintro ⟨front, path, back, -, -, hsplit, -⟩
      cases front <;> cases hsplit
  | cons path rest ih =>
    rcases (job.layFile host path).cases s with ⟨⟨outcome, t⟩, laid, hlay⟩ | ⟨failure, next, hlay⟩
    · rcases (job.closeFile host (done.length + 1) path outcome t).cases laid with
        ⟨⟨⟩, next, hclose⟩ | ⟨failure, next, hclose⟩
      · rw [escapesAmong_of_finished hlay hclose, ← ih, wrapFiles_of_close hlay hclose]
      · have hends : ∀ paths, job.wrapFiles host done (path :: paths) s =
            ((done ++ [outcome], .error failure), next) :=
          fun _ => wrapFiles_of_close_error hlay hclose
        rw [escapesAmong_of_unfinished (fun front _ _ h => nomatch (hends front).symm.trans h),
          hends, escapesAt_iff, hlay]
        simp [hclose, and_comm]
    · rw [escapesAmong_of_unfinished
          (fun front _ _ h => nomatch (wrapFiles_of_lay_error hlay).symm.trans h),
        wrapFiles_of_lay_error hlay, escapesAt_iff, hlay]
      simp [and_comm]

end Job

end HardWrap.CommandLine
