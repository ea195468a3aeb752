import HardWrap.Document.Buffer
import HardWrap.Proofs.Lines

/-! Rows of a document. They are the cut lines of its text, with one more, empty row after a final
line ending. A row starts where what stands above it ends, and every offset of the document belongs
to a row at or before it. -/

namespace HardWrap

/-- A row without its offset. -/
def Row.parts (row : Row) : Text × Text :=
  (row.text, row.ending)

namespace Text

/-! ### Contents and endings -/

theorem closeRows_cons {e : Text} (he : IsEnding e) (t : Text) (ps : List (Text × Text)) :
    closeRows ((t, e) :: ps) = (t, e) :: closeRows ps := by
  simp [closeRows, he.ne_nil]

theorem closeRows_append {ps : List (Text × Text)} (h : ∀ p ∈ ps, IsEnding p.2)
    (qs : List (Text × Text)) : closeRows (ps ++ qs) = ps ++ closeRows qs := by
  induction ps with
  | nil => rfl
  | cons p ps ih =>
    rw [List.cons_append, closeRows_cons (h p (by simp)),
      ih fun q hq => h q (List.mem_cons_of_mem _ hq)]
    rfl

theorem joinLines_closeRows {ps : List (Text × Text)} (h : IsCut ps) :
    joinLines (closeRows ps) = joinLines ps := by
  induction ps with
  | nil => rfl
  | cons p ps ih =>
    obtain ⟨t, e⟩ := p
    rcases h.2.1 with he | ⟨rfl, rfl⟩
    · rw [closeRows_cons he, joinLines_cons, joinLines_cons, ih h.tail]
    · rfl

theorem closeRows_isCut {ps : List (Text × Text)} (h : IsCut ps) : IsCut (closeRows ps) := by
  induction ps with
  | nil => exact ⟨by simp [Unbroken], Or.inr ⟨rfl, rfl⟩, by simp, trivial⟩
  | cons p ps ih =>
    obtain ⟨t, e⟩ := p
    rcases h.2.1 with he | ⟨rfl, rfl⟩
    · rw [closeRows_cons he]
      refine ⟨h.1, Or.inl he, ?_, ih h.tail⟩
      rw [joinLines_closeRows h.tail]
      exact h.2.2.1
    · exact h

theorem closeRows_ends (ps : List (Text × Text)) :
    ∃ front t, closeRows ps = front ++ [(t, [])] := by
  induction ps with
  | nil => exact ⟨[], [], rfl⟩
  | cons p ps ih =>
    obtain ⟨t, e⟩ := p
    obtain ⟨front, u, hu⟩ := ih
    simp only [closeRows]
    split
    next he => exact ⟨[], t, by rw [List.isEmpty_iff.mp he]; rfl⟩
    next => exact ⟨(t, e) :: front, u, by rw [hu]; rfl⟩

@[simp] theorem placeRows_parts (offset : Nat) (ps : List (Text × Text)) :
    (placeRows offset ps).map Row.parts = ps := by
  induction ps generalizing offset with
  | nil => rfl
  | cons p ps ih => simp [placeRows, Row.parts, ih]

/-- Closing a cut text adds at most one row, after all others. -/
theorem take_closeRows {ps : List (Text × Text)} (h : IsCut ps) {k : Nat}
    (hk : k < (closeRows ps).length) : (closeRows ps).take k = ps.take k := by
  induction ps generalizing k with
  | nil =>
    obtain rfl : k = 0 := by simpa [closeRows] using hk
    rfl
  | cons p ps ih =>
    obtain ⟨t, e⟩ := p
    rcases h.2.1 with he | ⟨rfl, rfl⟩
    · rw [closeRows_cons he] at hk ⊢
      cases k with
      | zero => rfl
      | succ k =>
        rw [List.take_succ_cons, List.take_succ_cons, ih h.tail (Nat.lt_of_succ_lt_succ hk)]
    · rfl

theorem placeRows_offset {offset k : Nat} {ps : List (Text × Text)} {r : Row}
    (h : (placeRows offset ps)[k]? = some r) :
    r.offset = offset + (joinLines (ps.take k)).length := by
  induction ps generalizing offset k with
  | nil => simp [placeRows] at h
  | cons p ps ih =>
    obtain ⟨t, e⟩ := p
    cases k with
    | zero =>
      obtain rfl : ⟨t, offset, e⟩ = r := by simpa [placeRows] using h
      simp
    | succ k =>
      rw [ih (by simpa [placeRows] using h), List.take_succ_cons, joinLines_cons,
        List.length_append, List.length_append]
      omega

theorem rows_isCut (t : Text) : IsCut (t.rows.map Row.parts) := by
  rw [rows, placeRows_parts]
  exact closeRows_isCut (cut_isCut t)

theorem joinLines_rows (t : Text) : joinLines (t.rows.map Row.parts) = t := by
  rw [rows, placeRows_parts, joinLines_closeRows (cut_isCut t), joinLines_cut]

/-- The last row has no ending. -/
theorem rows_ends (t : Text) : ∃ front r, t.rows = front ++ [r] ∧ r.ending = [] := by
  obtain ⟨front, u, hu⟩ := closeRows_ends (cut t)
  have hparts : t.rows.map Row.parts = front ++ [(u, [])] := by rw [rows, placeRows_parts, hu]
  obtain ⟨rs, ls, hrows, -, hls⟩ := List.map_eq_append_iff.mp hparts
  obtain ⟨r, rfl, hr⟩ := List.map_eq_singleton_iff.mp hls
  exact ⟨rs, r, hrows, congrArg Prod.snd hr⟩

/-- Above any row the rows are the lines. -/
theorem take_rows_text {t : Text} {k : Nat} (hk : k < t.rows.length) :
    (t.rows.take k).map Row.text = (t.lines.take k).map Line.text := by
  have hrows : t.rows.map Row.text = (closeRows (cut t)).map Prod.fst := by
    conv_rhs => rw [← placeRows_parts 0 (closeRows (cut t)), List.map_map]
    rfl
  have hlines : t.lines.map Line.text = (cut t).map Prod.fst := by
    rw [← lines_parts, List.map_map]
    rfl
  have hclose : k < (closeRows (cut t)).length := by
    have := congrArg List.length hrows
    rw [List.length_map, List.length_map] at this
    omega
  rw [List.map_take, List.map_take, hrows, hlines, ← List.map_take, ← List.map_take,
    take_closeRows (cut_isCut t) hclose]

/-! ### Where a row stands -/

theorem drop_eq_cons {α : Type} {l : List α} {k : Nat} {a : α} (h : l[k]? = some a) :
    l.drop k = a :: l.drop (k + 1) := by
  obtain ⟨hk, ha⟩ := List.getElem?_eq_some_iff.mp h
  rw [List.drop_eq_getElem_cons hk, ha]

section Position

variable {t : Text} {k : Nat} {r : Row} (h : t.rows[k]? = some r)
include h

theorem row_offset : r.offset = (joinLines ((t.rows.take k).map Row.parts)).length := by
  have := placeRows_offset h
  rw [Nat.zero_add] at this
  rw [this, rows, List.map_take, placeRows_parts]

theorem take_row_offset : t.take r.offset = joinLines ((t.rows.take k).map Row.parts) := by
  conv_lhs => rw [← joinLines_rows t, ← List.take_append_drop k t.rows]
  rw [List.map_append, joinLines_append, row_offset h, List.take_left]

theorem drop_row_offset : t.drop r.offset = joinLines ((t.rows.drop k).map Row.parts) := by
  conv_lhs => rw [← joinLines_rows t, ← List.take_append_drop k t.rows]
  rw [List.map_append, joinLines_append, row_offset h, List.drop_left]

theorem drop_row_textEnd :
    t.drop r.textEnd = r.ending ++ joinLines ((t.rows.drop (k + 1)).map Row.parts) := by
  rw [Row.textEnd, ← List.drop_drop, drop_row_offset h, drop_eq_cons h, List.map_cons, Row.parts,
    joinLines_cons, List.drop_left]

theorem row_textEnd_le : r.textEnd ≤ t.length := by
  have hoff : r.offset ≤ t.length := by
    have := congrArg List.length (joinLines_rows t)
    rw [← List.take_append_drop k t.rows, List.map_append, joinLines_append, List.length_append,
      ← row_offset h] at this
    omega
  have := congrArg List.length (drop_row_offset h)
  rw [drop_eq_cons h, List.map_cons, Row.parts, joinLines_cons, List.length_append,
    List.length_drop] at this
  rw [Row.textEnd]
  omega

theorem row_stop_le_length : r.stop ≤ t.length := by
  have hend := row_textEnd_le h
  have hrest := congrArg List.length (drop_row_textEnd h)
  rw [List.length_drop, List.length_append] at hrest
  rw [Row.textEnd] at hend hrest
  rw [Row.stop]
  omega

/-- What stands above a row ends with a line ending. -/
theorem above_row_endsAtGap : endsAtGap (t.take r.offset) = true := by
  rw [take_row_offset h]
  rcases List.eq_nil_or_concat' (t.rows.take k) with hnil | ⟨front, q, hq⟩
  · rw [hnil]
    rfl
  · have hcut := rows_isCut t
    rw [← List.take_append_drop k t.rows, List.map_append] at hcut
    have hend := hcut.ending_of_append (by simp [drop_eq_cons h]) q.parts (by simp [hq])
    rw [hq, List.map_append, joinLines_append]
    simp only [List.map_cons, List.map_nil, Row.parts, joinLines_cons, joinLines_nil,
      List.append_nil]
    rw [← List.append_assoc]
    exact endsAtGap_ended hend _

/-- What stands below a row starts at a gap and has the words of the rows there. -/
theorem below_row :
    atGap (t.drop r.textEnd) = true ∧ bareWords (t.drop r.textEnd) =
      (t.rows.drop (k + 1)).flatMap fun q => bareWords q.text := by
  have hcut := (rows_isCut t).drop k
  rw [← List.map_drop, drop_eq_cons h, List.map_cons] at hcut
  rw [drop_row_textEnd h]
  rcases hcut.2.1 with he | ⟨he, hnil⟩
  · rw [atGap_append he.ne_nil, bareWords_of_words_eq (words_blank_append he.blank),
      hcut.tail.bareWords_eq, List.flatMap_map]
    exact ⟨atGap_of_blank he.blank, rfl⟩
  · rw [List.map_eq_nil_iff] at hnil
    rw [show r.ending = [] from he, hnil]
    exact ⟨rfl, rfl⟩

/-- An offset in the text of a row cuts the document there. -/
theorem split_in_row {o : Nat} (hle : r.offset ≤ o) (ho : o - r.offset ≤ r.text.length) :
    t.take o = t.take r.offset ++ r.text.take (o - r.offset) ∧
      t.drop o = r.text.drop (o - r.offset) ++ t.drop r.textEnd := by
  have hdrop := drop_row_offset h
  rw [drop_eq_cons h, List.map_cons, Row.parts, joinLines_cons, ← drop_row_textEnd h] at hdrop
  have hadd : o = r.offset + (o - r.offset) := by omega
  constructor
  · conv_lhs => rw [hadd, List.take_add, hdrop]
    rw [List.take_append_of_le_length ho]
  · conv_lhs => rw [hadd, ← List.drop_drop, hdrop]
    rw [List.drop_append_of_le_length ho]

end Position

theorem row_offset_le {t : Text} {i j : Nat} {q r : Row} (hq : t.rows[i]? = some q)
    (hr : t.rows[j]? = some r) (hij : i ≤ j) : q.offset ≤ r.offset := by
  obtain ⟨more, hmore⟩ := List.take_prefix_take_left (l := t.rows) hij
  rw [row_offset hq, row_offset hr, ← hmore, List.map_append, joinLines_append, List.length_append]
  omega

theorem row_stop_le {t : Text} {i j : Nat} {q r : Row} (hq : t.rows[i]? = some q)
    (hr : t.rows[j]? = some r) (hij : i < j) : q.stop ≤ r.offset := by
  have hstop : q.stop = (joinLines ((t.rows.take (i + 1)).map Row.parts)).length := by
    rw [List.take_add_one, hq, List.map_append, joinLines_append, List.length_append,
      ← row_offset hq]
    simp [Row.stop, Row.parts, Nat.add_assoc]
  obtain ⟨more, hmore⟩ := List.take_prefix_take_left (l := t.rows) (show i + 1 ≤ j from hij)
  rw [hstop, row_offset hr, ← hmore, List.map_append, joinLines_append, List.length_append]
  omega

end Text

/-! ### Looking up offsets -/

namespace View

open Text

theorem rows_ofText (t : Text) : (ofText t).rows = t.rows := rfl

theorem count_ofText (t : Text) : (ofText t).count = t.rows.length := rfl

theorem row_of_getElem {t : Text} {k : Nat} {r : Row} (h : t.rows[k]? = some r) :
    (ofText t).row k = .ok r := by
  have hk : ¬ (k : Int) < 0 := by omega
  simp [row, row?, ofText, h, hk]

@[simp] theorem length_ofText (t : Text) : (ofText t).length = t.length := by
  obtain ⟨front, r, hrows, hr⟩ := rows_ends t
  have hget : t.rows[front.length]? = some r := by simp [hrows]
  have hdrop := congrArg List.length (drop_row_offset hget)
  have hle := row_textEnd_le hget
  rw [Row.textEnd] at hle
  simp only [hrows, List.drop_left, List.map_cons, List.map_nil, Row.parts, hr, joinLines_cons,
    joinLines_nil, List.append_nil, List.length_drop] at hdrop
  simp only [length, ofText, hrows, List.getLast?_append, List.getLast?_singleton, Option.some_or,
    Option.map_some, Option.getD_some, Row.stop, hr, List.length_nil]
  omega

/-- If the first `k` starts, and no others, are at most the offset, the search ends at `k`. -/
theorem bisect_of_partition {starts : List Nat} {offset : Int} {k low high : Nat} (hlow : low ≤ k)
    (hhigh : k ≤ high) (h : ∀ i < high, (starts.getD i 0 : Int) ≤ offset ↔ i < k) :
    bisect starts offset low high = k := by
  fun_induction bisect starts offset low high with
  | case1 low high hlt hbeyond ih =>
    have hmiddle := h ((low + high) / 2) (by omega)
    exact ih hlow (by omega) fun i hi => h i (by omega)
  | case2 low high hlt hstart ih =>
    have hmiddle := h ((low + high) / 2) (by omega)
    exact ih (by omega) hhigh h
  | case3 low high hdone => omega

/-- The search ends right after the last row that starts at an offset or before it. -/
theorem bisect_rows {t : Text} {k : Nat} {r : Row} {offset : Int} (hr : t.rows[k]? = some r)
    (hle : (r.offset : Int) ≤ offset)
    (hnext : ∀ below, t.rows[k + 1]? = some below → offset < below.offset) :
    bisect (t.rows.map Row.offset) offset 0 t.rows.length = k + 1 := by
  obtain ⟨hk, -⟩ := List.getElem?_eq_some_iff.mp hr
  apply bisect_of_partition (Nat.zero_le _) (by omega)
  intro i hi
  have hget := List.getElem?_eq_getElem hi
  have hstart : (t.rows.map Row.offset).getD i 0 = t.rows[i].offset := by
    simp [List.getD_eq_getElem?_getD, hget]
  rw [hstart]
  constructor
  · intro hbefore
    by_contra hik
    have hbelow := List.getElem?_eq_getElem (show k + 1 < t.rows.length by omega)
    have := hnext _ hbelow
    have := row_offset_le hbelow hget (by omega)
    omega
  · intro hik
    have := row_offset_le hget hr (by omega)
    omega

/-- Every offset of a document has its row, the last one that starts at it or before it. -/
theorem rowAt_ofText {t : Text} {o : Nat} (ho : o ≤ t.length) :
    ∃ k r, (ofText t).rowAt o = .ok k ∧ t.rows[k]? = some r ∧ r.offset ≤ o ∧
      ∀ below, t.rows[k + 1]? = some below → o < below.offset := by
  have hne : t.rows ≠ [] := by
    obtain ⟨front, r, hrows, -⟩ := rows_ends t
    simp [hrows]
  obtain ⟨r₀, rest, hrows⟩ := List.exists_cons_of_ne_nil hne
  have hfirst : r₀.offset = 0 := by
    have := row_offset (t := t) (k := 0) (r := r₀) (by simp [hrows])
    simpa using this
  -- The rows that start at the offset or before it; the first row is one of them.
  let starts : Row → Bool := fun r => decide ((r.offset : Int) ≤ o)
  have hsplit := List.takeWhile_append_dropWhile (p := starts) (l := t.rows)
  have hfound : t.rows.takeWhile starts ≠ [] := by
    simp [starts, hrows, hfirst]
  obtain ⟨before, r, hlast⟩ := (List.eq_nil_or_concat' _).resolve_left hfound
  obtain ⟨tail, htail⟩ : ∃ tail, t.rows.dropWhile starts = tail := ⟨_, rfl⟩
  rw [hlast, htail] at hsplit
  have hr : t.rows[before.length]? = some r := by simp [← hsplit]
  have hle : r.offset ≤ o := by
    have hmem : r ∈ t.rows.takeWhile starts := by
      rw [hlast]
      exact List.mem_append_right _ (List.mem_singleton_self r)
    simpa [starts] using List.mem_takeWhile_imp hmem
  have hnext : ∀ below, t.rows[before.length + 1]? = some below → o < below.offset := by
    intro below hbelow
    have hhead : tail.head? = some below := by
      rw [← hsplit, List.append_assoc, List.getElem?_append_right (Nat.le_add_right _ _)] at hbelow
      simpa [List.head?_eq_getElem?] using hbelow
    have hnot := List.head?_dropWhile_not starts t.rows
    rw [htail, hhead] at hnot
    simpa [starts] using hnot
  refine ⟨before.length, r, ?_, hr, hle, hnext⟩
  have hok : ¬ ((decide ((o : Int) < 0) || decide ((o : Int) > (ofText t).length) ||
      (ofText t).rows.isEmpty) = true) := by
    have hshown : (ofText t).rows.isEmpty = false := by simpa [ofText] using hne
    simpa [hshown] using ho
  have hsearch := bisect_rows hr (show (r.offset : Int) ≤ o by omega) fun below hbelow => by
    have := hnext below hbelow
    omega
  rw [rowAt, if_neg hok, rows_ofText, count_ofText, hsearch, Nat.add_sub_cancel]

end View

/-! ### The table of a buffer -/

theorem tableRows_lines (offset : Nat) (lines : List (Text × Text)) :
    tableRows (lines.map Prod.fst) (startsFrom offset lines) (lines.map Prod.snd) =
      Text.placeRows offset lines := by
  induction lines generalizing offset with
  | nil => rfl
  | cons line more ih =>
    obtain ⟨t, e⟩ := line
    exact congrArg _ (ih (offset + t.length + e.length))

namespace Buffer

variable {content : Text} {access : Access}

@[simp] theorem content_ofText : (ofText content access).content = content := rfl

@[simp] theorem access_ofText : (ofText content access).access = access := rfl

theorem view_ofText (h : access ≠ .detached) : (ofText content access).view = .ofText content := by
  have hrows := tableRows_lines 0 (Text.closeRows (Text.cut content))
  cases access with
  | detached => exact absurd rfl h
  | writable => exact congrArg (View.mk content) hrows
  | readOnly => exact congrArg (View.mk content) hrows

theorem view_of_row {k : Nat} {r : Row} (h : (ofText content access).view.rows[k]? = some r) :
    (ofText content access).view = .ofText content := by
  apply view_ofText
  rintro rfl
  cases h

end Buffer

end HardWrap
