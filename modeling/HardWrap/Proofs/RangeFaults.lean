import HardWrap.Proofs.CheckedLookups

/-! What can go wrong with a request to a document. A request names rows or an offset; if these are
in the document it is answered, unless a tab of a margin stands in the way, and the edit in the
answer can be applied to the document that the request was made to. -/

namespace HardWrap

open Text

namespace View

def HasRow (view : View) (index : Int) : Prop :=
  0 ≤ index ∧ index < view.count

end View

/-- Whether a request names something that the document does not have. -/
def Request.IsBad (view : View) : Request → Prop
  | around index => ¬ view.HasRow index
  | range first last => ¬ view.HasRow first ∨ ¬ view.HasRow last ∨ last < first
  | typed offset _ => offset < 0 ∨ view.length < offset

/-- Whether a tab of a margin is met on the way to an answer. -/
def Request.MeetsTab (view : View) (style : Style) : Request → Prop
  | around index => HardWrap.MeetsTab style (view.paragraphLines style index)
  | range first last => HardWrap.MeetsTab style (view.linesBetween first.toNat last.toNat)
  | typed offset text => style.incremental = true ∧ ∃ c k r, text = [c] ∧ c ≠ '\r' ∧ c ≠ '\n' ∧
      view.rowAt offset = .ok k ∧ view.rows[k]? = some r ∧
      view.typedMeetsTab style k r (offset.toNat - r.offset) c = true

theorem Edit.apply_ok_iff {edit : Edit} {t : Text} :
    (∃ after, edit.apply t = .ok after) ↔ edit.stop ≤ t.length := by
  unfold apply
  by_cases hout : t.length < edit.stop
  · simp only [if_pos hout, reduceCtorEq, exists_false, false_iff]
    omega
  · rw [if_neg hout]
    exact ⟨fun _ => by omega, fun _ => ⟨_, rfl⟩⟩

namespace View

/-! ### Faults -/

section Faults

variable {view : View} {style : Style}

theorem row_ok_iff {index : Int} : (∃ r, view.row index = .ok r) ↔ view.HasRow index := by
  constructor
  · rintro ⟨r, h⟩
    obtain ⟨hpos, hr⟩ := row_ok h
    obtain ⟨hlt, -⟩ := List.getElem?_eq_some_iff.mp hr
    refine ⟨hpos, ?_⟩
    rw [count]
    omega
  · rintro ⟨hpos, hlt⟩
    rw [count] at hlt
    have hr := List.getElem?_eq_getElem (show index.toNat < view.rows.length by omega)
    refine ⟨view.rows[index.toNat], ?_⟩
    rw [row, row?, if_neg (by omega), hr]

theorem row_error_iff {index : Int} :
    (∃ fault, view.row index = .error fault) ↔ ¬ view.HasRow index := by
  rw [← row_ok_iff]
  cases view.row index <;> simp

theorem reflowRange_error_iff {first last : Int} :
    (∃ fault, view.reflowRange style first last = .error fault) ↔
      ¬ view.HasRow first ∨ ¬ view.HasRow last ∨ last < first := by
  simp only [← row_error_iff]
  unfold reflowRange
  cases htop : view.row first with
  | error fault => simp [bind, Except.bind]
  | ok top =>
    cases hbottom : view.row last with
    | error fault => simp [bind, Except.bind]
    | ok bottom =>
      by_cases hrev : first > last
      · simp [hrev, bind, Except.bind, throw, throwThe, MonadExceptOf.throw]
      · simp [hrev, pure, Except.pure]

theorem IsPlainAt.hasRow {k : Nat} (h : view.IsPlainAt k) : view.HasRow k := by
  obtain ⟨r, hr, -⟩ := h
  obtain ⟨hlt, -⟩ := List.getElem?_eq_some_iff.mp hr
  refine ⟨by omega, ?_⟩
  rw [count]
  omega

theorem paragraphAt_error_iff (style : Style) {index : Int} :
    (∃ fault, view.paragraphAt style index = .error fault) ↔ ¬ view.HasRow index := by
  rw [← row_error_iff]
  unfold paragraphAt
  cases view.row index with
  | error fault => simp [bind, Except.bind]
  | ok r =>
    rw [ok_bind]
    split <;> simp [pure, Except.pure]

/-- The rows around a row are there, so only the row itself can be missing. -/
theorem reflowAround_error_iff {index : Int} :
    (∃ fault, view.reflowAround style index = .error fault) ↔ ¬ view.HasRow index := by
  rw [← paragraphAt_error_iff style]
  unfold reflowAround
  rcases hpar : view.paragraphAt style index with fault | _ | ⟨first, last⟩
  · simp [bind, Except.bind]
  · simp [pure, Except.pure]
  · obtain ⟨hfirst, hlast, hplain, -⟩ := paragraphAt_isAround hpar
    have htop := (hplain first (le_refl _) (by omega)).hasRow
    have hbottom := (hplain last (by omega) (le_refl _)).hasRow
    have hno : ¬ ∃ fault, view.reflowRange style first last = .error fault := by
      rw [reflowRange_error_iff, not_or, not_or, not_not, not_not]
      exact ⟨htop, hbottom, by omega⟩
    simpa using hno

/-- What is typed at an offset is a character for a row, or is not looked at. -/
theorem typeAt_cases (limits : Limits) (style : Style) {s : Text} {o : Nat} (ho : o ≤ s.length)
    (typed : Text) :
    (∃ c k r, style.incremental = true ∧ typed = [c] ∧ c ≠ '\r' ∧ c ≠ '\n' ∧
      (ofText s).rowAt o = .ok k ∧ s.rows[k]? = some r ∧
      (ofText s).typeAt style o typed = .ok ((ofText s).typeInRow style k r (o - r.offset) c) ∧
      (ofText s).typeAtChecked limits style o typed =
        (ofText s).typeInRowChecked limits style k r (o - r.offset) c) ∨
    (¬ (Request.typed o typed).MeetsTab (ofText s) style ∧
      (ofText s).typeAt style o typed = .ok ⟨none, []⟩ ∧
      (ofText s).typeAtChecked limits style o typed = pure none) := by
  by_cases hread : ∃ c, typed = [c] ∧ style.incremental = true ∧ c ≠ '\r' ∧ c ≠ '\n'
  · obtain ⟨c, rfl, hincremental, hc⟩ := hread
    obtain ⟨k, r, hk, hr, hplain, hchecked⟩ := typeAt_row hincremental ho hc
    exact Or.inl ⟨c, k, r, hincremental, rfl, hc.1, hc.2, hk, hr, hplain, hchecked⟩
  · refine Or.inr ⟨?_, typeAt_unread ho ?_⟩
    · rintro ⟨hincremental, c, k, r, rfl, hcr, hlf, -⟩
      exact hread ⟨c, rfl, hincremental, hcr, hlf⟩
    · rintro c rfl hincremental
      by_contra hc
      exact hread ⟨c, rfl, hincremental, not_or.mp hc⟩

theorem typeAt_outside {s : Text} {offset : Int} (limits : Limits) (style : Style) (typed : Text)
    (h : offset < 0 ∨ (ofText s).length < offset) :
    (ofText s).typeAt style offset typed = .error (.offset offset (ofText s).length) ∧
      (ofText s).typeAtChecked limits style offset typed =
        .fail (.range (.offset offset (ofText s).length)) := by
  have hrange : (decide (offset < 0) || decide (offset > (ofText s).length)) = true := by
    simpa using h
  exact ⟨if_pos hrange, if_pos hrange⟩

end Faults

/-! ### Edits -/

variable {s : Text} {style : Style} {edit : Edit} {notes : List Note}

theorem reflowRange_stop_le {first last : Int}
    (h : (ofText s).reflowRange style first last = .ok ⟨some edit, notes⟩) :
    edit.stop ≤ s.length := by
  unfold reflowRange at h
  cases htop : (ofText s).row first with
  | error fault =>
    rw [htop] at h
    cases h
  | ok top =>
    cases hbottom : (ofText s).row last with
    | error fault =>
      rw [htop, hbottom] at h
      cases h
    | ok bottom =>
      obtain ⟨i, rfl, hi⟩ := exists_of_row htop
      obtain ⟨j, rfl, hj⟩ := exists_of_row hbottom
      rw [htop, hbottom, ok_bind, ok_bind] at h
      split at h
      next => cases h
      next hij =>
        obtain ⟨hoffset, hlength⟩ := proposeRows_edit (Except.ok.inj h)
        have hspan := row_offset_le hi hj (by omega)
        have hstop := row_stop_le_length hj
        have := bottom.offset_le_stop
        rw [Edit.stop]
        omega

theorem reflowAround_stop_le {index : Int}
    (h : (ofText s).reflowAround style index = .ok ⟨some edit, notes⟩) :
    edit.stop ≤ s.length := by
  unfold reflowAround at h
  rcases hpar : (ofText s).paragraphAt style index with fault | _ | ⟨first, last⟩
  · rw [hpar] at h
    cases h
  · rw [hpar] at h
    cases h
  · rw [hpar] at h
    exact reflowRange_stop_le h

/-! ### Answers -/

/-- What becomes of a request: it names something that the document does not have, or a tab stands
in its way, or it is answered by no edit or one that fits the document. -/
inductive Settles (s : Text) (bad stopped : Prop) (answer : Lookup (Option Edit)) : Prop where
  | bad (named : bad) (fault : RangeFault) (result : answer.result = .error (.range fault))
  | stopped (named : ¬ bad) (met : stopped) (fault : TabFault)
      (result : answer.result = .error (.tab fault))
  | answered (named : ¬ bad) (met : ¬ stopped) (edit : Option Edit)
      (result : answer.result = .ok edit) (fits : ∀ e, edit = some e → e.stop ≤ s.length)

theorem settles_of_plain {bad stopped : Prop} {plain : Except RangeFault Proposal}
    {answer : Lookup (Option Edit)}
    (hbad : (∃ fault, plain = .error fault) ↔ bad)
    (hfails : ∀ fault, plain = .error fault → answer = .fail (.range fault))
    (hstops : ∀ proposal, plain = .ok proposal → stopped →
      ∃ fault, answer.result = .error (.tab fault))
    (hagrees : ¬ stopped → answer = .ofAnswer plain)
    (hfits : ∀ e notes, plain = .ok ⟨some e, notes⟩ → e.stop ≤ s.length) :
    Settles s bad stopped answer := by
  cases hplain : plain with
  | error fault => exact .bad (hbad.mp ⟨fault, hplain⟩) fault (by rw [hfails fault hplain]; rfl)
  | ok proposal =>
    have hnamed : ¬ bad := by
      rw [← hbad, hplain]
      exact nofun
    by_cases hmet : stopped
    · obtain ⟨fault, hresult⟩ := hstops proposal hplain hmet
      exact .stopped hnamed hmet fault hresult
    · refine .answered hnamed hmet proposal.edit (by rw [hagrees hmet, hplain]; rfl) ?_
      intro e he
      refine hfits e proposal.notes ?_
      rw [hplain, ← he]

namespace Settles

variable {bad stopped : Prop} {answer : Lookup (Option Edit)}

theorem fails_iff (h : Settles s bad stopped answer) :
    (∃ fault, answer.result = .error fault) ↔ bad ∨ stopped := by
  cases h with
  | bad named fault result => exact iff_of_true ⟨_, result⟩ (Or.inl named)
  | stopped named met fault result => exact iff_of_true ⟨_, result⟩ (Or.inr met)
  | answered named met edit result fits =>
    rw [result]
    exact iff_of_false nofun (not_or.mpr ⟨named, met⟩)

theorem range_iff (h : Settles s bad stopped answer) :
    (∃ fault, answer.result = .error (.range fault)) ↔ bad := by
  cases h with
  | bad named fault result => exact iff_of_true ⟨_, result⟩ named
  | stopped named met fault result =>
    rw [result]
    exact iff_of_false nofun named
  | answered named met edit result fits =>
    rw [result]
    exact iff_of_false nofun named

theorem fault_cases (h : Settles s bad stopped answer) {fault : LookupFault}
    (hfault : answer.result = .error fault) :
    (∃ f, fault = .range f) ∨ ∃ f, fault = .tab f := by
  cases h with
  | bad named f result => exact Or.inl ⟨f, Except.error.inj (hfault.symm.trans result)⟩
  | stopped named met f result => exact Or.inr ⟨f, Except.error.inj (hfault.symm.trans result)⟩
  | answered named met edit result fits => cases hfault.symm.trans result

theorem edit_fits (h : Settles s bad stopped answer) {edit : Edit}
    (hedit : answer.result = .ok (some edit)) : edit.stop ≤ s.length := by
  cases h with
  | bad named fault result => cases hedit.symm.trans result
  | stopped named met fault result => cases hedit.symm.trans result
  | answered named met e result fits => exact fits edit (Except.ok.inj (result.symm.trans hedit))

end Settles

variable {layout : Layout}

theorem reflowRange_settles (s : Text) (layout : Layout) (first last : Int) :
    Settles s ((Request.range first last).IsBad (ofText s))
      (layout.Stops ((ofText s).linesBetween first.toNat last.toNat))
      ((ofText s).reflowRangeChecked layout first last) :=
  settles_of_plain reflowRange_error_iff (fun _ => reflowRangeChecked_of_error)
    (fun _ => reflowRangeChecked_stops) reflowRangeChecked_eq (fun _ _ => reflowRange_stop_le)

theorem reflowAroundChecked_of_error {index : Int} {fault : RangeFault}
    (h : (ofText s).reflowAround layout.style index = .error fault) :
    (ofText s).reflowAroundChecked layout index = .fail (.range fault) := by
  unfold reflowAround at h
  unfold reflowAroundChecked
  rw [paragraphChecked_eq]
  rcases hparagraph : (ofText s).paragraphAt layout.style index with missing | _ | ⟨first, last⟩
  · rw [hparagraph] at h
    obtain rfl := Except.error.inj h
    rfl
  · rw [hparagraph] at h
    cases h
  · rw [hparagraph] at h
    exact reflowRangeChecked_of_error h

theorem reflowAround_settles (s : Text) (layout : Layout) (index : Int) :
    Settles s ((Request.around index).IsBad (ofText s))
      (layout.Stops ((ofText s).paragraphLines layout.style index))
      ((ofText s).reflowAroundChecked layout index) :=
  settles_of_plain reflowAround_error_iff (fun _ => reflowAroundChecked_of_error)
    (fun _ => reflowAroundChecked_stops) reflowAroundChecked_eq (fun _ _ => reflowAround_stop_le)

theorem typeAt_settles (s : Text) (limits : Limits) (style : Style) (offset : Int) (typed : Text) :
    Settles s ((Request.typed offset typed).IsBad (ofText s))
      (limits.Exceeded style.tabWidth ∧ (Request.typed offset typed).MeetsTab (ofText s) style)
      ((ofText s).typeAtChecked limits style offset typed) := by
  by_cases hbad : offset < 0 ∨ (ofText s).length < offset
  · refine .bad hbad (.offset offset (ofText s).length) ?_
    rw [(typeAt_outside limits style typed hbad).2]
    rfl
  · rw [length_ofText] at hbad
    obtain ⟨o, rfl⟩ := Int.eq_ofNat_of_zero_le (show 0 ≤ offset by omega)
    have ho : o ≤ s.length := by omega
    have hnamed : ¬ (Request.typed o typed).IsBad (ofText s) := by
      rwa [Request.IsBad, length_ofText]
    obtain ⟨c, k, r, hincremental, rfl, hcr, hlf, hk, hr, hplain, hchecked⟩ |
      ⟨hunmet, -, hchecked⟩ := typeAt_cases limits style ho typed
    · have hmeets : (Request.typed o [c]).MeetsTab (ofText s) style ↔
          (ofText s).typedMeetsTab style k r (o - r.offset) c = true := by
        constructor
        · rintro ⟨-, c', k', r', hc, -, -, hk', hr', hmet⟩
          obtain rfl := List.singleton_inj.mp hc
          obtain rfl := Except.ok.inj (hk.symm.trans hk')
          obtain rfl := Option.some.inj (hr.symm.trans hr')
          exact hmet
        · exact fun hmet => ⟨hincremental, c, k, r, rfl, hcr, hlf, hk, hr, hmet⟩
      rw [hchecked, hmeets]
      by_cases hmet : limits.Exceeded style.tabWidth ∧
          (ofText s).typedMeetsTab style k r (o - r.offset) c = true
      · obtain ⟨fault, hresult⟩ := typeInRowChecked_stops hr hmet.1 hmet.2
        exact .stopped hnamed hmet fault hresult
      · rw [typeInRowChecked_eq hr hmet]
        refine .answered hnamed hmet _ rfl fun e he => ?_
        have hedit : (ofText s).typeAt style o [c] =
            .ok ⟨some e, ((ofText s).typeInRow style k r (o - r.offset) c).notes⟩ := by
          rw [hplain, ← he]
        obtain ⟨w, rfl⟩ := typeAt_edit hedit
        exact Edit.apply_ok_iff.mp ⟨_, w.edit_apply⟩
    · rw [hchecked]
      exact .answered hnamed (fun hmet => hunmet hmet.2) none rfl nofun

theorem answerChecked_settles (s : Text) (limits : Limits) (style : Style) (request : Request) :
    Settles s (request.IsBad (ofText s))
      (limits.Exceeded style.tabWidth ∧ request.MeetsTab (ofText s) style)
      ((ofText s).answerChecked limits style request) := by
  cases request with
  | around index =>
    have hsettles := reflowAround_settles s (style.layout limits) index
    rwa [Style.layout_stops_iff] at hsettles
  | range first last =>
    have hsettles := reflowRange_settles s (style.layout limits) first last
    rwa [Style.layout_stops_iff] at hsettles
  | typed offset text => exact typeAt_settles s limits style offset text

end View

end HardWrap
