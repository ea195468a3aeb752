import HardWrap.Document.Edit
import Mathlib.Data.List.Basic
import Mathlib.Tactic.Common

/-! Trimmed edits. What two texts have in common at the start, and then at the end, is left out of
the edit that turns one into the other. The edit does what replacing the whole text would do, and no
edit with the same effect takes away less or puts in less. -/

namespace HardWrap

/-! ### Common starts -/

/-- Texts that do not begin with one and the same character. -/
def BeginApart (u v : Text) : Prop :=
  ∀ c, u.head? = some c → v.head? ≠ some c

theorem agreement_split (l m : Text) :
    ∃ x u v, l = x ++ u ∧ m = x ++ v ∧ agreement l m = x.length ∧ BeginApart u v := by
  fun_induction agreement l m with
  | case1 as b bs ih =>
    obtain ⟨x, u, v, rfl, rfl, hx, hapart⟩ := ih
    exact ⟨b :: x, u, v, rfl, rfl, by simp [hx], hapart⟩
  | case2 a as b bs hab =>
    refine ⟨[], a :: as, b :: bs, rfl, rfl, rfl, ?_⟩
    rintro c ⟨⟩ hc
    exact hab (Option.some.inj hc).symm
  | case3 l m hshort =>
    refine ⟨[], l, m, rfl, rfl, rfl, ?_⟩
    intro c hl hm
    obtain ⟨as, rfl⟩ := List.head?_eq_some_iff.mp hl
    obtain ⟨bs, rfl⟩ := List.head?_eq_some_iff.mp hm
    exact hshort c as c bs rfl rfl

theorem BeginApart.of_append {u v y : Text} (h : BeginApart (u ++ y) (v ++ y)) :
    BeginApart u v := by
  intro c hu hv
  exact h c (by simp [hu]) (by simp [hv])

/-- Two texts that part after `a` have no longer start in common. -/
theorem BeginApart.length_le {u v a b x s t : Text} (h : BeginApart u v) (hu : u ≠ [])
    (hv : v ≠ []) (hs : x ++ s = a ++ u ++ b) (ht : x ++ t = a ++ v ++ b) :
    x.length ≤ a.length := by
  obtain ⟨c, u, rfl⟩ := List.exists_cons_of_ne_nil hu
  obtain ⟨d, v, rfl⟩ := List.exists_cons_of_ne_nil hv
  rw [List.append_assoc] at hs ht
  rcases List.append_eq_append_iff.mp hs with ⟨m, rfl, -⟩ | ⟨m, rfl, hm⟩
  · simp
  · -- What the longer start adds would begin both texts.
    rw [List.append_assoc, List.append_cancel_left_eq] at ht
    cases m with
    | nil => simp
    | cons e m =>
      obtain rfl : c = e := (List.cons.inj hm).1
      obtain rfl : c = d := (List.cons.inj ht).1
      exact absurd rfl (h c rfl)

/-! ### What an edit does -/

namespace Edit

/-- The part of a text that an edit takes away. -/
def removed (edit : Edit) (before : Text) : Text :=
  (before.drop edit.offset).take edit.length

/-- An edit replaces the part between two others. -/
theorem apply_eq_ok_iff_split {edit : Edit} {before after : Text} :
    edit.apply before = .ok after ↔ ∃ a b, before = a ++ edit.removed before ++ b ∧
      after = a ++ edit.text ++ b ∧ a.length = edit.offset ∧
      (edit.removed before).length = edit.length := by
  unfold apply removed stop
  constructor
  · intro h
    split at h
    next => cases h
    next hin =>
      refine ⟨before.take edit.offset, before.drop (edit.offset + edit.length), ?_,
        (Except.ok.inj h).symm, ?_, ?_⟩
      · rw [← List.drop_drop, List.append_assoc, List.take_append_drop, List.take_append_drop]
      · rw [List.length_take]
        omega
      · rw [List.length_take, List.length_drop]
        omega
  · rintro ⟨a, b, hbefore, rfl, ha, hu⟩
    generalize (before.drop edit.offset).take edit.length = u at hbefore hu
    subst hbefore
    have hstop : edit.offset + edit.length = (a ++ u).length := by
      rw [List.length_append, ha, hu]
    rw [hstop, if_neg (by simp), ← ha, List.drop_left, List.append_assoc a u b, List.take_left]

theorem apply_split (a u b text : Text) (caret : Option Int) :
    removed ⟨a.length, u.length, text, caret⟩ (a ++ u ++ b) = u ∧
      apply ⟨a.length, u.length, text, caret⟩ (a ++ u ++ b) = .ok (a ++ text ++ b) := by
  have hremoved : removed ⟨a.length, u.length, text, caret⟩ (a ++ u ++ b) = u := by
    rw [removed, List.append_assoc, List.drop_left, List.take_left]
  refine ⟨hremoved, apply_eq_ok_iff_split.mpr ⟨a, b, ?_⟩⟩
  rw [hremoved]
  exact ⟨rfl, rfl, rfl, rfl⟩

/-- An edit that turns one text into another and cannot be made shorter. -/
structure IsTight (edit : Edit) (before after : Text) : Prop where
  result : edit.apply before = .ok after
  first : edit.removed before ≠ [] → edit.text ≠ [] →
    (edit.removed before).head? ≠ edit.text.head?
  last : edit.removed before ≠ [] → edit.text ≠ [] →
    (edit.removed before).getLast? ≠ edit.text.getLast?
  least : ∀ other : Edit, other.apply before = .ok after →
    edit.length ≤ other.length ∧ edit.text.length ≤ other.text.length

/-- An edit whose two texts begin and end apart is no longer than any other with its effect. -/
theorem least_of_apart {edit other : Edit} {before after : Text}
    (h : edit.apply before = .ok after) (hother : other.apply before = .ok after)
    (hfirst : BeginApart (edit.removed before) edit.text)
    (hlast : BeginApart (edit.removed before).reverse edit.text.reverse) :
    edit.length ≤ other.length ∧ edit.text.length ≤ other.text.length := by
  obtain ⟨a, b, hbefore, hafter, -, hlen⟩ := apply_eq_ok_iff_split.mp h
  obtain ⟨a', b', hbefore', hafter', -, hlen'⟩ := apply_eq_ok_iff_split.mp hother
  generalize edit.removed before = u at *
  generalize other.removed before = u' at *
  have hold := congrArg List.length (hbefore.symm.trans hbefore')
  have hnew := congrArg List.length (hafter.symm.trans hafter')
  simp only [List.length_append] at hold hnew
  -- Both edits change the length by as much, so it is enough to compare one of the two parts.
  by_cases hu : u = []
  · rw [hu, List.length_nil] at hlen hold
    omega
  by_cases hv : edit.text = []
  · rw [hv, List.length_nil] at hnew ⊢
    omega
  have hstart : a'.length ≤ a.length :=
    hfirst.length_le hu hv (s := u' ++ b') (t := other.text ++ b')
      (by rw [← hbefore, hbefore', List.append_assoc])
      (by rw [← hafter, hafter', List.append_assoc])
  have hend : b'.reverse.length ≤ b.reverse.length :=
    hlast.length_le (by simpa using hu) (by simpa using hv) (b := a.reverse)
      (s := (a' ++ u').reverse) (t := (a' ++ other.text).reverse)
      (by simpa using congrArg List.reverse (hbefore'.symm.trans hbefore))
      (by simpa using congrArg List.reverse (hafter'.symm.trans hafter))
  rw [List.length_reverse, List.length_reverse] at hend
  omega

theorem isTight_of_apart {edit : Edit} {before after : Text} (h : edit.apply before = .ok after)
    (hfirst : BeginApart (edit.removed before) edit.text)
    (hlast : BeginApart (edit.removed before).reverse edit.text.reverse) :
    edit.IsTight before after := by
  refine ⟨h, ?_, ?_, fun other hother => least_of_apart h hother hfirst hlast⟩
  · intro hu hv
    obtain ⟨c, u, hcons⟩ := List.exists_cons_of_ne_nil hu
    rw [hcons] at hfirst ⊢
    exact (hfirst c rfl).symm
  · intro hu hv
    obtain ⟨u, c, hconcat⟩ := (List.eq_nil_or_concat' _).resolve_left hu
    rw [hconcat] at hlast ⊢
    have hne := hlast c (by simp)
    rw [List.head?_reverse] at hne
    rw [List.getLast?_concat]
    exact hne.symm

/-! ### Trimming -/

/-- What is left of two texts after trimming begins and ends apart. -/
theorem trimmed_split (offset : Nat) (old new : Text) (caret : Option Int) :
    ∃ x u v y, old = x ++ u ++ y ∧ new = x ++ v ++ y ∧
      trimmed offset old new caret = ⟨offset + x.length, u.length, v, caret⟩ ∧
      BeginApart u v ∧ BeginApart u.reverse v.reverse := by
  obtain ⟨x, u, v, rfl, rfl, hx, hfirst⟩ := agreement_split old new
  obtain ⟨y, u', v', hu, hv, hy, hlast⟩ := agreement_split u.reverse v.reverse
  obtain rfl : u = u'.reverse ++ y.reverse := by simpa using congrArg List.reverse hu
  obtain rfl : v = v'.reverse ++ y.reverse := by simpa using congrArg List.reverse hv
  refine ⟨x, u'.reverse, v'.reverse, y.reverse, by simp, by simp, ?_, hfirst.of_append,
    by simpa using hlast⟩
  simp only [trimmed, hx, List.drop_left, hy, Edit.mk.injEq, List.length_append,
    List.length_reverse, true_and, and_true]
  refine ⟨by omega, ?_⟩
  rw [List.take_append_of_le_length (by simp)]
  exact List.take_of_length_le (by simp)

/-- What two texts have in common at both ends may be left out of an edit. -/
theorem trimmed_apply (above old below new : Text) (caret : Option Int) :
    (trimmed above.length old new caret).apply (above ++ old ++ below)
      = .ok (above ++ new ++ below) := by
  obtain ⟨x, u, v, y, rfl, rfl, hedit, -, -⟩ := trimmed_split above.length old new caret
  rw [hedit, ← List.length_append]
  simpa using (apply_split (above ++ x) u (y ++ below) v caret).2

end Edit

/-- A trimmed edit replaces the old text, which may stand anywhere, by the new one, keeps the caret
and stays within the old text. If it takes something away and puts something in, the two begin and
end with different characters, and no edit with the same effect is shorter. -/
theorem trimmed_edit_is_tight (above old new below : Text) (caret : Option Int) :
    (Edit.trimmed above.length old new caret).IsTight (above ++ old ++ below)
        (above ++ new ++ below) ∧
      (Edit.trimmed above.length old new caret).caret = caret ∧
      above.length ≤ (Edit.trimmed above.length old new caret).offset ∧
      (Edit.trimmed above.length old new caret).stop ≤ above.length + old.length := by
  have happly := Edit.trimmed_apply above old below new caret
  obtain ⟨x, u, v, y, rfl, rfl, hedit, hfirst, hlast⟩ :=
    Edit.trimmed_split above.length old new caret
  have hremoved : (Edit.mk (above.length + x.length) u.length v caret).removed
      (above ++ (x ++ u ++ y) ++ below) = u := by
    rw [← List.length_append]
    simpa using (Edit.apply_split (above ++ x) u (y ++ below) v caret).1
  rw [hedit] at happly ⊢
  refine ⟨Edit.isTight_of_apart happly ?_ ?_, rfl, ?_, ?_⟩
  · rwa [hremoved]
  · rwa [hremoved]
  · exact Nat.le_add_right _ _
  · simp only [Edit.stop, List.length_append]
    omega

/-- A repeated character is typed: the common start leaves nothing for the common end. -/
example : Edit.trimmed 1 "aa".toList "aaa".toList (some 3) = ⟨3, 0, ['a'], some 3⟩ := by decide

end HardWrap
