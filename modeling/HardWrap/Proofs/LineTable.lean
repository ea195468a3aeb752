import HardWrap.Proofs.Rows

/-! The line table of a document. What it has to say about a text is put down without reference to
how it is made, and there is exactly one table that says it: the rows. A buffer shows this table
after any sequence of replacements and edits, and one that fails changes nothing. -/

namespace HardWrap

open Text

/-- A table that shows a text line by line. -/
structure IsTable (t : Text) (rows : List Row) : Prop where
  nonempty : rows ≠ []
  content : joinLines (rows.map Row.parts) = t
  offset : ∀ k r, rows[k]? = some r →
    r.offset = (joinLines ((rows.take k).map Row.parts)).length
  unbroken : ∀ r ∈ rows, Unbroken r.text
  ended : ∀ k r, rows[k]? = some r → k + 1 < rows.length → IsEnding r.ending
  last : ∀ k r, rows[k]? = some r → k + 1 = rows.length → r.ending = []
  whole : ∀ r ∈ rows, r.ending = ['\r'] → t[r.stop]? ≠ some '\n'

/-! ### The rows are such a table -/

theorem drop_stop {t : Text} {rows : List Row} {k : Nat} {r : Row} (hr : rows[k]? = some r)
    (hcontent : joinLines (rows.map Row.parts) = t)
    (hoffset : r.offset = (joinLines ((rows.take k).map Row.parts)).length) :
    t.drop r.stop = joinLines ((rows.drop (k + 1)).map Row.parts) := by
  have hsplit : t = joinLines ((rows.take k).map Row.parts) ++ (r.text ++ r.ending) ++
      joinLines ((rows.drop (k + 1)).map Row.parts) := by
    rw [← hcontent]
    conv_lhs => rw [← List.take_append_drop k rows, drop_eq_cons hr]
    simp [Row.parts]
  have hstop :
      r.stop = (joinLines ((rows.take k).map Row.parts) ++ (r.text ++ r.ending)).length := by
    rw [Row.stop, hoffset, List.length_append, List.length_append]
    omega
  conv_lhs => rw [hsplit, hstop]
  rw [List.drop_left]

theorem rows_isTable (t : Text) : IsTable t t.rows := by
  have hcut := rows_isCut t
  obtain ⟨front, r₀, hrows, hr₀⟩ := rows_ends t
  refine ⟨by simp [hrows], joinLines_rows t, fun k r hr => row_offset hr, ?_, ?_, ?_, ?_⟩
  · intro r hr
    exact hcut.unbroken r.parts (List.mem_map_of_mem hr)
  · intro k r hr hk
    rw [← List.take_append_drop (k + 1) t.rows, List.map_append] at hcut
    refine hcut.ending_of_append ?_ r.parts (List.mem_map_of_mem ?_)
    · rw [ne_eq, List.map_eq_nil_iff, List.drop_eq_nil_iff]
      omega
    · rw [List.take_add_one, hr]
      simp
  · intro k r hr hk
    rw [hrows, List.length_append, List.length_singleton] at hk
    obtain rfl : k = front.length := by omega
    rw [hrows, List.getElem?_concat_length] at hr
    rw [← Option.some.inj hr, hr₀]
  · intro r hr hcr
    obtain ⟨k, hk⟩ := List.getElem?_of_mem hr
    have hrest := hcut.drop k
    rw [← List.map_drop, drop_eq_cons hk, List.map_cons] at hrest
    rw [← List.head?_drop, drop_stop hk (joinLines_rows t) (row_offset hk)]
    exact hrest.2.2.1 hcr

/-! ### There is no other -/

namespace IsTable

variable {t : Text} {rows : List Row}

theorem isCut_drop (h : IsTable t rows) (k : Nat) : IsCut ((rows.drop k).map Row.parts) := by
  induction hn : rows.length - k generalizing k with
  | zero =>
    rw [List.drop_eq_nil_of_le (by omega)]
    trivial
  | succ n ih =>
    have hk : k < rows.length := by omega
    have hr := List.getElem?_eq_getElem hk
    rw [drop_eq_cons hr, List.map_cons]
    refine ⟨h.unbroken _ (List.getElem_mem hk), ?_, ?_, ih (k + 1) (by omega)⟩
    · by_cases hlast : k + 1 = rows.length
      · right
        rw [List.drop_eq_nil_of_le (by omega)]
        exact ⟨h.last k _ hr hlast, rfl⟩
      · left
        exact h.ended k _ hr (by omega)
    · intro hcr
      have hwhole := h.whole _ (List.getElem_mem hk) hcr
      rwa [← List.head?_drop, drop_stop hr h.content (h.offset k _ hr)] at hwhole

theorem parts_eq (h : IsTable t rows) : rows.map Row.parts = closeRows (cut t) := by
  have hcut := h.isCut_drop 0
  rw [List.drop_zero] at hcut
  obtain ⟨front, r, rfl⟩ := (List.eq_nil_or_concat' rows).resolve_left h.nonempty
  have hlast : r.ending = [] := h.last front.length r (by simp) (by simp)
  have hcontent := h.content
  simp only [List.map_append, List.map_cons, List.map_nil, Row.parts, hlast] at hcut hcontent ⊢
  have hends : ∀ p ∈ front.map Row.parts, IsEnding p.2 :=
    hcut.ending_of_append (by simp)
  have hne : ([], []) ∉ front.map Row.parts := fun hmem => (hends _ hmem).ne_nil rfl
  by_cases htext : r.text = []
  · -- The last row is empty: it stands for the ending before it.
    rw [htext] at hcut hcontent ⊢
    have hfront := hcut.of_append
    rw [joinLines_append, joinLines_cons, joinLines_nil, List.append_nil, List.append_nil,
      List.append_nil] at hcontent
    rw [← hcontent, cut_joinLines hfront hne, ← List.append_nil (front.map Row.parts),
      closeRows_append hends, List.append_nil]
    rfl
  · have hcut' := cut_joinLines hcut (by simpa [htext, eq_comm] using hne)
    rw [← hcontent, hcut', closeRows_append hends]
    rfl

end IsTable

theorem eq_placeRows {rows : List Row} {start : Nat} (h : ∀ k r, rows[k]? = some r →
      r.offset = start + (joinLines ((rows.take k).map Row.parts)).length) :
    rows = placeRows start (rows.map Row.parts) := by
  induction rows generalizing start with
  | nil => rfl
  | cons r rows ih =>
    have hfirst : r.offset = start := h 0 r rfl
    have hrest : rows = placeRows (start + r.text.length + r.ending.length)
        (rows.map Row.parts) := by
      apply ih
      intro k q hq
      rw [h (k + 1) q hq, List.take_succ_cons, List.map_cons, Row.parts, joinLines_cons,
        List.length_append, List.length_append]
      omega
    rw [List.map_cons, Row.parts, placeRows, ← hrest, ← hfirst]

/-- The rows of a text, and nothing else, are a table of it. -/
theorem isTable_iff {t : Text} {rows : List Row} : IsTable t rows ↔ rows = t.rows := by
  constructor
  · intro h
    rw [Text.rows, ← h.parts_eq]
    apply eq_placeRows
    intro k r hr
    rw [h.offset k r hr, Nat.zero_add]
  · rintro rfl
    exact rows_isTable t

/-! ### Changes of a buffer -/

theorem mapError_ok {ε δ α : Type} {x : Except ε α} {f : ε → δ} {a : α} :
    x.mapError f = .ok a ↔ x = .ok a := by
  cases x <;> simp [Except.mapError]

namespace Buffer

variable {buffer : Buffer}

/-- A buffer whose table is that of its content. -/
def IsCurrent (buffer : Buffer) : Prop :=
  buffer = ofText buffer.content buffer.access

theorem isCurrent_ofText (content : Text) (access : Access) : (ofText content access).IsCurrent :=
  rfl

/-- Everything that a replacement can do. -/
theorem replace_ok {offset length : Int} {text : Text} {changed : Buffer}
    (h : buffer.replace offset length text = .ok changed) :
    buffer.access = .writable ∧ 0 ≤ offset ∧ 0 ≤ length ∧
      offset + length ≤ buffer.content.length ∧
      changed = ofText (buffer.content.take offset.toNat ++ text ++
        buffer.content.drop (offset + length).toNat) buffer.access := by
  unfold replace at h
  split at h
  next => cases h
  next hwritable =>
    split at h
    next => cases h
    next hin =>
      simp only [Bool.or_eq_true, decide_eq_true_eq, not_or] at hin
      exact ⟨by simpa using hwritable, by omega, by omega, by omega, (Except.ok.inj h).symm⟩

/-- Everything that a change can do. -/
theorem change_ok {c : Change} {changed : Buffer} (h : buffer.change c = .ok changed) :
    ∃ content, changed = ofText content buffer.access := by
  cases c with
  | replace offset length text =>
    obtain ⟨-, -, -, -, rfl⟩ := replace_ok (mapError_ok.mp h)
    exact ⟨_, rfl⟩
  | apply edit =>
    obtain ⟨-, -, -, -, rfl⟩ := replace_ok (mapError_ok.mp (mapError_ok.mp h))
    exact ⟨_, rfl⟩

theorem next_of_error {c : Change} {fault : ChangeFault} (h : buffer.change c = .error fault) :
    buffer.next c = buffer := by
  rw [next, h]

theorem next_access (buffer : Buffer) (c : Change) : (buffer.next c).access = buffer.access := by
  unfold next
  split
  next changed h =>
    obtain ⟨content, rfl⟩ := change_ok h
    rfl
  next => rfl

/-- A change makes a new table or keeps the old one together with the old content. -/
theorem IsCurrent.next (h : buffer.IsCurrent) (c : Change) : (buffer.next c).IsCurrent := by
  unfold Buffer.next
  split
  next changed hchange =>
    obtain ⟨content, rfl⟩ := change_ok hchange
    exact isCurrent_ofText content buffer.access
  next => exact h

theorem run_access (buffer : Buffer) (changes : List Change) :
    (buffer.run changes).access = buffer.access := by
  induction changes generalizing buffer with
  | nil => rfl
  | cons c changes ih =>
    exact (ih (buffer.next c)).trans (buffer.next_access c)

theorem IsCurrent.run (h : buffer.IsCurrent) (changes : List Change) :
    (buffer.run changes).IsCurrent := by
  induction changes generalizing buffer with
  | nil => exact h
  | cons c changes ih => exact ih (h.next c)

theorem IsCurrent.view_eq (h : buffer.IsCurrent) (hshown : buffer.access ≠ .detached) :
    buffer.view = .ofText buffer.content := by
  rw [h]
  exact view_ofText hshown

/-- A writable buffer takes an edit exactly if the edit can be applied to its content. -/
theorem apply_eq_ok_iff {edit : Edit} {changed : Buffer} :
    buffer.apply edit = .ok changed ↔ buffer.access = .writable ∧
      edit.apply buffer.content = .ok changed.content ∧
      changed = ofText changed.content buffer.access := by
  rw [apply, mapError_ok]
  constructor
  · intro h
    obtain ⟨hwritable, -, -, hin, rfl⟩ := replace_ok h
    have hstop : ¬ buffer.content.length < edit.stop := by
      rw [Edit.stop]
      omega
    refine ⟨hwritable, ?_, rfl⟩
    rw [Edit.apply, if_neg hstop]
    rfl
  · rintro ⟨hwritable, happly, hchanged⟩
    unfold Edit.apply at happly
    split at happly
    next => cases happly
    next hin =>
      have hok : ¬ ((decide ((edit.offset : Int) < 0) || decide ((edit.length : Int) < 0) ||
          decide ((edit.offset : Int) + edit.length > buffer.content.length)) = true) := by
        simp only [Edit.stop, Bool.or_eq_true, decide_eq_true_eq] at hin ⊢
        omega
      rw [hchanged, ← Except.ok.inj happly, replace, if_neg (by simp [hwritable]), if_neg hok]
      rfl

theorem apply_error_iff (h : buffer.access ≠ .detached) (edit : Edit) :
    (∃ fault, buffer.apply edit = .error fault) ↔
      buffer.access = .readOnly ∨ buffer.content.length < edit.stop := by
  constructor
  · rintro ⟨fault, herror⟩
    by_contra hno
    rw [not_or] at hno
    have hwritable : buffer.access = .writable := by
      cases hacc : buffer.access with
      | writable => rfl
      | readOnly => exact absurd hacc hno.1
      | detached => exact absurd hacc h
    have happly : edit.apply buffer.content =
        .ok (buffer.content.take edit.offset ++ edit.text ++ buffer.content.drop edit.stop) := by
      rw [Edit.apply, if_neg hno.2]
    have hok : buffer.apply edit = .ok (ofText _ buffer.access) :=
      apply_eq_ok_iff.mpr ⟨hwritable, happly, rfl⟩
    rw [herror] at hok
    cases hok
  · intro hbad
    cases hresult : buffer.apply edit with
    | error fault => exact ⟨fault, rfl⟩
    | ok changed =>
      obtain ⟨hwritable, happly, -⟩ := apply_eq_ok_iff.mp hresult
      rcases hbad with hreadOnly | hout
      · rw [hreadOnly] at hwritable
        cases hwritable
      · rw [Edit.apply, if_pos hout] at happly
        cases happly

end Buffer

/-- After every sequence of changes, with failing ones among them, a document shows the one table
that fits its content. A change that fails leaves the document as it is. An edit fails exactly if
the document is read-only or the edit reaches beyond its end; any other edit does to the document
what it does to the text. -/
theorem runs_keep_line_table {access : Access} (h : access ≠ .detached) (content : Text)
    (changes : List Change) :
    let buffer := (Buffer.ofText content access).run changes
    IsTable buffer.content buffer.view.rows ∧
      (∀ rows, IsTable buffer.content rows → rows = buffer.view.rows) ∧
      (∀ c fault, buffer.change c = .error fault →
        (Buffer.ofText content access).run (changes ++ [c]) = buffer) ∧
      ∀ edit, ((∃ fault, buffer.apply edit = .error fault) ↔
          access = .readOnly ∨ buffer.content.length < edit.stop) ∧
        ∀ changed, buffer.apply edit = .ok changed →
          edit.apply buffer.content = .ok changed.content := by
  intro buffer
  have haccess : buffer.access = access := Buffer.run_access (.ofText content access) changes
  have hshown : buffer.access ≠ .detached := by rwa [haccess]
  have hcurrent : buffer.IsCurrent := (Buffer.isCurrent_ofText content access).run changes
  rw [hcurrent.view_eq hshown]
  refine ⟨isTable_iff.mpr rfl, ?_, ?_, ?_⟩
  · intro rows htable
    exact isTable_iff.mp htable
  · intro c fault hfault
    rw [Buffer.run, List.foldl_append]
    exact Buffer.next_of_error hfault
  · intro edit
    refine ⟨?_, ?_⟩
    · rw [Buffer.apply_error_iff hshown, haccess]
    · intro changed hok
      exact (Buffer.apply_eq_ok_iff.mp hok).2.1

/-- A replacement out of range, and then one that tears CR LF apart. -/
theorem runs_keep_line_table_torn :
    ∃ (buffer : Buffer) (changes : List Change), buffer = .ofText "a\r\nb".toList .writable ∧
      changes = [.replace 4 1 [], .replace 2 0 ['x']] ∧ buffer.access ≠ .detached ∧
      (buffer.run changes).content = "a\rx\nb".toList ∧
      (buffer.run changes).view.rows = [⟨['a'], 0, ['\r']⟩, ⟨['x'], 2, ['\n']⟩, ⟨['b'], 4, []⟩] ∧
      IsTable (buffer.run changes).content (buffer.run changes).view.rows ∧
      ∃ fault, (buffer.run changes).apply ⟨4, 2, [], none⟩ = .error fault := by
  have hshown : Access.writable ≠ .detached := by decide
  obtain ⟨htable, -, -, hedits⟩ :=
    runs_keep_line_table hshown "a\r\nb".toList [.replace 4 1 [], .replace 2 0 ['x']]
  refine ⟨_, _, rfl, rfl, hshown, by decide +kernel, by decide +kernel, htable, ?_⟩
  exact (hedits _).1.mpr (Or.inr (by decide +kernel))

end HardWrap
