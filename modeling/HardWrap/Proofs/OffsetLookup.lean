import HardWrap.Proofs.LineTable
import HardWrap.Proofs.SelectedRows

/-! Looking up offsets. Every row but the last has an ending, so rows start at strictly increasing
offsets, and each offset of a document belongs to exactly one row. The lookup finds it, inside a
line ending and at the very end too, and a search that halves the table of starts finds the same. -/

namespace HardWrap

open Text

/-- Even an empty row stops before the next one starts. -/
theorem row_textEnd_lt {t : Text} {i j : Nat} {q r : Row} (hq : t.rows[i]? = some q)
    (hr : t.rows[j]? = some r) (hij : i < j) : q.textEnd < r.offset := by
  obtain ⟨hj, -⟩ := List.getElem?_eq_some_iff.mp hr
  have hending : q.ending ≠ [] := ((rows_isTable t).ended i q hq (by omega)).ne_nil
  have hpos := List.length_pos_of_ne_nil hending
  have hstop := row_stop_le hq hr hij
  rw [Row.stop] at hstop
  rw [Row.textEnd]
  omega

/-! ### Rows that hold an offset -/

namespace View

/-- Whether an offset belongs to a row: the row starts at it or before it, and either it is the last
one or the next row starts after the offset. -/
def Holds (view : View) (index : Nat) (offset : Int) : Prop :=
  ∃ r, view.row index = .ok r ∧ (r.offset : Int) ≤ offset ∧
    (index + 1 = view.count ∨
      ∃ below, view.row (index + 1 : Nat) = .ok below ∧ offset < below.offset)

variable {t : Text}

theorem row_eq_ok_iff {k : Nat} {r : Row} : (ofText t).row k = .ok r ↔ t.rows[k]? = some r := by
  constructor
  · intro h
    obtain ⟨i, hi, hr⟩ := exists_of_row h
    rwa [show k = i by omega]
  · exact row_of_getElem

theorem holds_iff {k : Nat} {offset : Int} :
    (ofText t).Holds k offset ↔ ∃ r, t.rows[k]? = some r ∧ (r.offset : Int) ≤ offset ∧
      ∀ below, t.rows[k + 1]? = some below → offset < below.offset := by
  simp only [Holds, row_eq_ok_iff, count_ofText]
  constructor
  · rintro ⟨r, hr, hle, hnext⟩
    refine ⟨r, hr, hle, ?_⟩
    intro below hbelow
    rcases hnext with hlast | ⟨next, hget, hlt⟩
    · rw [hlast, List.getElem?_eq_none (le_refl _)] at hbelow
      cases hbelow
    · rw [hget] at hbelow
      rwa [← Option.some.inj hbelow]
  · rintro ⟨r, hr, hle, hnext⟩
    refine ⟨r, hr, hle, ?_⟩
    obtain ⟨hk, -⟩ := List.getElem?_eq_some_iff.mp hr
    by_cases hlast : k + 1 = t.rows.length
    · exact Or.inl hlast
    · have hbelow := List.getElem?_eq_getElem (show k + 1 < t.rows.length by omega)
      exact Or.inr ⟨_, hbelow, hnext _ hbelow⟩

/-- The rows up to the one that holds an offset, and no others, start at it or before it. -/
theorem Holds.offset_le_iff {k i : Nat} {offset : Int} {r : Row} (h : (ofText t).Holds k offset)
    (hr : t.rows[i]? = some r) : (r.offset : Int) ≤ offset ↔ i ≤ k := by
  obtain ⟨q, hq, hle, hnext⟩ := holds_iff.mp h
  constructor
  · intro hstart
    by_contra hik
    obtain ⟨hi, -⟩ := List.getElem?_eq_some_iff.mp hr
    have hbelow := List.getElem?_eq_getElem (show k + 1 < t.rows.length by omega)
    have hlt := hnext _ hbelow
    have := row_offset_le hbelow hr (by omega)
    omega
  · intro hik
    have := row_offset_le hr hq hik
    omega

theorem Holds.unique {k i : Nat} {offset : Int} (hk : (ofText t).Holds k offset)
    (hi : (ofText t).Holds i offset) : i = k := by
  obtain ⟨r, hr, hle, -⟩ := holds_iff.mp hk
  obtain ⟨q, hq, hle', -⟩ := holds_iff.mp hi
  have := (hk.offset_le_iff hq).mp hle'
  have := (hi.offset_le_iff hr).mp hle
  omega

theorem rowAt_holds {o : Nat} (ho : o ≤ t.length) :
    ∃ k, (ofText t).rowAt o = .ok k ∧ (ofText t).Holds k o := by
  obtain ⟨k, r, hk, hr, hle, hnext⟩ := rowAt_ofText ho
  refine ⟨k, hk, holds_iff.mpr ⟨r, hr, by omega, ?_⟩⟩
  intro below hbelow
  have := hnext below hbelow
  omega

/-- The columns of a row, the one behind its last character included, belong to the row. -/
theorem holds_column {k column : Nat} {r : Row} (hr : t.rows[k]? = some r)
    (hcolumn : column ≤ r.text.length) : (ofText t).Holds k (r.offset + column : Nat) := by
  refine holds_iff.mpr ⟨r, hr, by omega, ?_⟩
  intro below hbelow
  have := row_textEnd_lt hr hbelow (Nat.lt_succ_self k)
  rw [Row.textEnd] at this
  omega

end View

/-! ### Searching by halves -/

theorem View.Holds.bisect_eq {t : Text} {k : Nat} {offset : Int}
    (h : (View.ofText t).Holds k offset) :
    bisect (t.rows.map Row.offset) offset 0 t.rows.length = k + 1 := by
  obtain ⟨r, hr, hle, hnext⟩ := holds_iff.mp h
  exact bisect_rows hr hle hnext

/-! ### The lookup -/

/-- What looking up offsets has to do in a view of a text. -/
structure View.LooksUp (view : View) (content : Text) : Prop where
  length : view.length = content.length
  /-- An offset of the text is held by one row, which both searches find. -/
  inside : ∀ offset : Int, 0 ≤ offset → offset ≤ view.length →
    ∃ index, view.rowAt offset = .ok index ∧ (∀ other, view.Holds other offset ↔ other = index) ∧
      bisect (view.rows.map Row.offset) offset 0 view.count = index + 1
  /-- A column of a row, the one behind its last character included, leads back to the row. -/
  column : ∀ (index : Nat) (r : Row) (column : Nat), view.row index = .ok r →
    column ≤ r.text.length → view.rowAt (r.offset + column) = .ok index
  outside : ∀ offset : Int, ¬ (0 ≤ offset ∧ offset ≤ view.length) →
    view.rowAt offset = .error (.offset offset view.length)

theorem View.ofText_looksUp (t : Text) : (ofText t).LooksUp t where
  length := length_ofText t
  inside := by
    intro offset hpos hle
    obtain ⟨o, rfl⟩ := Int.eq_ofNat_of_zero_le hpos
    rw [length_ofText] at hle
    obtain ⟨k, hk, hholds⟩ := rowAt_holds (show o ≤ t.length by omega)
    refine ⟨k, hk, ?_, hholds.bisect_eq⟩
    intro other
    constructor
    · intro hother
      exact hholds.unique hother
    · rintro rfl
      exact hholds
  column := by
    intro index r column hrow hcolumn
    have hr := row_eq_ok_iff.mp hrow
    have hend := row_textEnd_le hr
    rw [Row.textEnd] at hend
    obtain ⟨k, hk, hholds⟩ := rowAt_holds (show r.offset + column ≤ t.length by omega)
    rw [← Int.natCast_add, hk, hholds.unique (holds_column hr hcolumn)]
  outside := by
    intro offset hout
    rw [rowAt, if_pos]
    simp only [Bool.or_eq_true, decide_eq_true_eq]
    omega

/-- A document looks up offsets exactly after every sequence of changes, with failing ones among
them. -/
theorem offset_lookup_is_exact {access : Access} (h : access ≠ .detached) (content : Text)
    (changes : List Change) :
    let buffer := (Buffer.ofText content access).run changes
    buffer.view.LooksUp buffer.content := by
  intro buffer
  have hshown : buffer.access ≠ .detached := by
    rwa [Buffer.run_access]
  have hcurrent : buffer.IsCurrent := (Buffer.isCurrent_ofText content access).run changes
  rw [hcurrent.view_eq hshown]
  exact View.ofText_looksUp _

/-- An edit puts a line ending behind the last row. The offset 2 lies inside CR LF, the offset 7 at
the very end, in an empty row. -/
theorem offset_lookup_is_exact_ended :
    ∃ (buffer : Buffer) (changes : List Change), buffer = .ofText "a\r\n\r\nb".toList .writable ∧
      changes = [.replace 9 0 [], .replace 6 0 ['\n']] ∧ buffer.access ≠ .detached ∧
      (buffer.run changes).view.length = 7 ∧
      (buffer.run changes).view.rowAt 2 = .ok 0 ∧
      (∀ other, (buffer.run changes).view.Holds other 2 ↔ other = 0) ∧
      (buffer.run changes).view.rowAt 7 = .ok 3 ∧
      (buffer.run changes).view.rowAt 8 = .error (.offset 8 7) := by
  let buffer : Buffer := .ofText "a\r\n\r\nb".toList .writable
  let changes : List Change := [.replace 9 0 [], .replace 6 0 ['\n']]
  have hshown : buffer.access ≠ .detached := by decide
  have hexact : (buffer.run changes).view.LooksUp (buffer.run changes).content :=
    offset_lookup_is_exact hshown "a\r\n\r\nb".toList changes
  have hlength : (buffer.run changes).view.length = 7 := by decide +kernel
  obtain ⟨index, hindex, hunique, -⟩ := hexact.inside 2 (by decide) (by rw [hlength]; decide)
  have houtside := hexact.outside 8 (by rw [hlength]; decide)
  rw [hlength] at houtside
  have hfirst : (buffer.run changes).view.rowAt 2 = .ok 0 := by decide +kernel
  rw [hfirst] at hindex
  obtain rfl : 0 = index := Except.ok.inj hindex
  refine ⟨buffer, changes, rfl, rfl, hshown, hlength, hfirst, hunique, ?_, houtside⟩
  exact hexact.column 3 ⟨[], 7, []⟩ 0 (by decide +kernel) (by decide)

end HardWrap
