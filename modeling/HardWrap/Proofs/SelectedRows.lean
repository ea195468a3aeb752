import HardWrap.Document.Selection
import HardWrap.Proofs.Rows
import HardWrap.Proofs.Sections

/-! The rows that are reflowed around a cursor. The search stops at blank rows and at borders of
environments, and it looks at the open environment only where the cursor is. A copied environment
that is closed within a row of prose has no border there, so the search upwards can walk into it.
It stays outside copied environments if and only if no row between the first one and the cursor
closes one. -/

namespace HardWrap

open Text

/-! ### The open environment -/

/-- The copied environment that a reader is in. -/
def Stage.openName : Stage → Option Text
  | copying name => some name
  | idle | gathering _ => none

@[simp] theorem Stage.openName_ofOpen (isOpen : Option Text) :
    (ofOpen isOpen).openName = isOpen := by
  cases isOpen <;> rfl

theorem nextOpen_of_opening {style : Style} {line : Text} {p : Paragraph}
    (h : Paragraph.ofLine? style line = some p) : nextOpen style none line = none := by
  unfold Paragraph.ofLine? at h
  split at h
  next hk => simp [nextOpen, hk]
  next hk => simp [nextOpen, hk]
  next hk => simp [nextOpen, hk]
  next => cases h

theorem nextOpen_of_joins {style : Style} {p : Paragraph} {line : Text}
    (h : p.joins style line = true) : nextOpen style none line = none := by
  unfold Paragraph.joins at h
  split at h
  next hk => simp [nextOpen, hk]
  next hk => simp [nextOpen, hk]
  next hk => simp [nextOpen, hk]
  next => cases h

/-- What a line does to the open environment does not depend on paragraphs. -/
theorem Stage.openName_read (style : Style) (stage : Stage) (line : Line) :
    (stage.read style line).1.openName = nextOpen style stage.openName line.text := by
  have hidle : (idle.read style line).1.openName = nextOpen style none line.text := by
    cases hp : Paragraph.ofLine? style line.text with
    | none => rw [read_lone hp, openName_ofOpen]
    | some p =>
      rw [read_opening hp, nextOpen_of_opening hp]
      split <;> rfl
  cases stage with
  | copying name =>
    rw [read_copying, openName_ofOpen]
    rfl
  | idle => exact hidle
  | gathering p =>
    cases hj : p.joins style line.text with
    | false =>
      rw [read_of_not_joins hj]
      exact hidle
    | true =>
      rw [read_of_joins hj]
      refine Eq.trans ?_ (nextOpen_of_joins hj).symm
      split <;> rfl

theorem Stage.openName_after (style : Style) (stage : Stage) (lines : List Line) :
    (stage.after style lines).openName =
      (lines.map Line.text).foldl (nextOpen style) stage.openName := by
  induction lines generalizing stage with
  | nil => rfl
  | cons line lines ih =>
    rw [List.map_cons, List.foldl_cons, ← openName_read]
    exact ih _

theorem Stage.copying_iff_openName (stage : Stage) (name : Text) :
    stage = .copying name ↔ stage.openName = some name := by
  cases stage <;> simp [openName]

namespace View

variable {view : View} {style : Style}

/-- Whether a row closes a copied environment. -/
def ClosesAt (view : View) (style : Style) (k : Nat) : Prop :=
  ∃ name r, view.openBefore style k = some name ∧ view.rows[k]? = some r ∧
    closesEnvironment r.text name = true

/-- Whether a row is there and may belong to a paragraph. -/
def IsPlainAt (view : View) (k : Nat) : Prop :=
  ∃ r, view.rows[k]? = some r ∧ isBoundary r = false

theorem openBefore_succ {k : Nat} {r : Row} (h : view.rows[k]? = some r) :
    view.openBefore style (k + 1) = nextOpen style (view.openBefore style k) r.text := by
  simp [openBefore, List.take_add_one, h]

theorem isInside_eq_false_iff {k : Nat} {r : Row} (h : view.rows[k]? = some r) :
    view.isInside style k = .ok false ↔ view.openBefore style k = none := by
  obtain ⟨hlt, -⟩ := List.getElem?_eq_some_iff.mp h
  have hin : ¬ (k : Int) > view.count := by
    rw [count]
    omega
  simp [isInside, hin]

/-- Nothing is opened by rows that are no borders. -/
theorem openBefore_of_plain {i j : Nat} (hij : i ≤ j)
    (hplain : ∀ k, i ≤ k → k < j → view.IsPlainAt k) (hi : view.openBefore style i = none) :
    view.openBefore style j = none := by
  induction j, hij using Nat.le_induction with
  | base => exact hi
  | succ j hij ih =>
    obtain ⟨r, hr, hb⟩ := hplain j hij (Nat.lt_succ_self j)
    rw [openBefore_succ hr, ih fun k hik hkj => hplain k hik (by omega)]
    unfold isBoundary at hb
    cases hk : kindOf r.text with
    | begins name => simp [hk] at hb
    | _ => simp [nextOpen, hk]

/-- An environment stays open over rows that do not close it. -/
theorem openBefore_of_not_closed {i j : Nat} {name : Text} (hij : i ≤ j)
    (hrows : ∀ k, i ≤ k → k < j → view.IsPlainAt k)
    (hclosed : ∀ k, i ≤ k → k < j → ¬ view.ClosesAt style k)
    (hi : view.openBefore style i = some name) : view.openBefore style j = some name := by
  induction j, hij using Nat.le_induction with
  | base => exact hi
  | succ j hij ih =>
    obtain ⟨r, hr, -⟩ := hrows j hij (Nat.lt_succ_self j)
    have hj := ih (fun k hik hkj => hrows k hik (by omega))
      (fun k hik hkj => hclosed k hik (by omega))
    have hopen : closesEnvironment r.text name = false := by
      rw [← Bool.not_eq_true]
      exact fun hc => hclosed j hij (Nat.lt_succ_self j) ⟨name, r, hj, hr, hc⟩
    rw [openBefore_succ hr, hj, nextOpen, hopen]
    rfl

/-! ### The rows around a cursor -/

/-- What is known of the rows around a cursor. -/
structure IsAround (view : View) (style : Style) (index : Int) (first last : Nat) : Prop where
  first_le : (first : Int) ≤ index
  le_last : index ≤ last
  plain : ∀ k, first ≤ k → k ≤ last → view.IsPlainAt k
  outside : view.openBefore style index.toNat = none

theorem getElem?_of_lt_takeWhile {α : Type} {p : α → Bool} {l : List α} {n : Nat}
    (h : n < (l.takeWhile p).length) : ∃ a, l[n]? = some a ∧ p a = true := by
  refine ⟨(l.takeWhile p)[n], ?_, List.mem_takeWhile_imp (List.getElem_mem h)⟩
  obtain ⟨more, hmore⟩ := List.takeWhile_prefix (l := l) p
  conv_lhs => rw [← hmore]
  rw [List.getElem?_append_left h, List.getElem?_eq_getElem h]

theorem around_plain {index : Nat} (h : view.IsPlainAt index) :
    ∀ k, (view.around index).1 ≤ k → k ≤ (view.around index).2 → view.IsPlainAt k := by
  intro k hfirst hlast
  simp only [around] at hfirst hlast
  obtain hk | rfl | hk := Nat.lt_trichotomy k index
  · -- The rows above are searched upwards: row `k` comes `index - 1 - k` steps after the first.
    obtain ⟨r₀, hr₀, -⟩ := h
    obtain ⟨hlt, -⟩ := List.getElem?_eq_some_iff.mp hr₀
    have hlen : (view.rows.take index).length = index := by
      rw [List.length_take]
      omega
    obtain ⟨r, hr, hb⟩ := getElem?_of_lt_takeWhile (show index - 1 - k <
      ((view.rows.take index).reverse.takeWhile fun r => !isBoundary r).length by omega)
    rw [List.getElem?_reverse (by omega), hlen,
      show index - 1 - (index - 1 - k) = k by omega, List.getElem?_take_of_lt hk] at hr
    exact ⟨r, hr, by simpa using hb⟩
  · exact h
  · obtain ⟨r, hr, hb⟩ := getElem?_of_lt_takeWhile (show k - (index + 1) <
      ((view.rows.drop (index + 1)).takeWhile fun r => !isBoundary r).length by omega)
    rw [List.getElem?_drop, show index + 1 + (k - (index + 1)) = k by omega] at hr
    exact ⟨r, hr, by simpa using hb⟩

theorem row_ok {index : Int} {r : Row} (h : view.row index = .ok r) :
    0 ≤ index ∧ view.rows[index.toNat]? = some r := by
  unfold row row? at h
  by_cases hneg : index < 0
  · simp [hneg] at h
  · refine ⟨by omega, ?_⟩
    cases hr : view.rows[index.toNat]? with
    | none => simp [hneg, hr] at h
    | some q => simpa [hneg, hr] using h

theorem exists_of_row {s : Text} {index : Int} {r : Row} (h : (ofText s).row index = .ok r) :
    ∃ k : Nat, index = k ∧ s.rows[k]? = some r := by
  obtain ⟨hpos, hr⟩ := row_ok h
  obtain ⟨k, rfl⟩ := Int.eq_ofNat_of_zero_le hpos
  exact ⟨k, rfl, hr⟩

theorem paragraphAt_isAround {index : Int} {first last : Nat}
    (h : view.paragraphAt style index = .ok (some (first, last))) :
    view.IsAround style index first last := by
  unfold paragraphAt at h
  cases hrow : view.row index with
  | error fault => simp [hrow, bind, Except.bind] at h
  | ok r =>
    obtain ⟨hpos, hr⟩ := row_ok hrow
    simp only [hrow, bind, Except.bind, pure, Except.pure] at h
    split at h
    next => cases h
    next hfree =>
      simp only [Bool.or_eq_true, not_or, Bool.not_eq_true, Option.isSome_eq_false_iff,
        Option.isNone_iff_eq_none] at hfree
      have haround : view.around index.toNat = (first, last) := by simpa using h
      have hbounds : (view.around index.toNat).1 ≤ index.toNat ∧
          index.toNat ≤ (view.around index.toNat).2 := by
        simp only [around]
        omega
      have hplain := around_plain ⟨r, hr, hfree.1⟩
      rw [haround] at hbounds hplain
      exact ⟨by omega, by omega, hplain, hfree.2⟩

/-- The rows around a cursor lie outside copied environments exactly if none of them above the
cursor closes one. -/
theorem IsAround.outside_iff {index : Int} {first last : Nat}
    (h : view.IsAround style index first last) :
    (∀ j, first ≤ j → j ≤ last → view.openBefore style j = none) ↔
      ∀ k : Nat, first ≤ k → (k : Int) < index → ¬ view.ClosesAt style k := by
  have hfirst := h.first_le
  have hlast := h.le_last
  constructor
  · rintro hout k hk hindex ⟨name, r, hopen, -⟩
    rw [hout k hk (by omega)] at hopen
    cases hopen
  · intro hclosed j hj hjlast
    by_cases hindex : (j : Int) < index
    · -- An environment that is open here would still be open at the cursor.
      cases hopen : view.openBefore style j with
      | none => rfl
      | some name =>
        have := openBefore_of_not_closed (j := index.toNat) (by omega)
          (fun k hjk hk => h.plain k (by omega) (by omega))
          (fun k hjk hk => hclosed k (by omega) (by omega)) hopen
        rw [h.outside] at this
        cases this
    · exact openBefore_of_plain (by omega) (fun k hik hkj => h.plain k (by omega) (by omega))
        h.outside

/-! ### The proposed edit -/

theorem proposeRows_edit {first last start stop : Nat} {edit : Edit} {notes : List Note}
    (h : view.proposeRows style first last start stop = ⟨some edit, notes⟩) :
    edit.offset = start ∧ edit.length = stop - start := by
  simp only [proposeRows] at h
  split at h
  next => cases h
  next =>
    cases h
    exact ⟨rfl, rfl⟩

/-- The edit reaches from the first row around the cursor to the end of the last one. -/
theorem reflowAround_edit {index : Int} {first last : Nat}
    (h : view.paragraphAt style index = .ok (some (first, last))) {edit : Edit} {notes : List Note}
    (hedit : view.reflowAround style index = .ok ⟨some edit, notes⟩) :
    ∃ top bottom, view.rows[first]? = some top ∧ view.rows[last]? = some bottom ∧
      edit.offset = top.offset ∧ edit.length = bottom.stop - top.offset := by
  obtain ⟨hfirst, hlast, hplain, -⟩ := paragraphAt_isAround h
  obtain ⟨top, htop, -⟩ := hplain first (le_refl _) (by omega)
  obtain ⟨bottom, hbottom, -⟩ := hplain last (by omega) (le_refl _)
  refine ⟨top, bottom, htop, hbottom, ?_⟩
  have hneg : ∀ n : Nat, ¬ (n : Int) < 0 := by omega
  have hle : ¬ (first : Int) > (last : Int) := by omega
  have hrows : view.row first = .ok top ∧ view.row last = .ok bottom := by
    simp [row, row?, hneg, htop, hbottom]
  simp only [reflowAround, h, reflowRange, hrows, hle, bind, Except.bind, pure, Except.pure,
    ↓reduceIte, Int.toNat_natCast, Except.ok.injEq] at hedit
  exact proposeRows_edit hedit

end View

/-- Whether an edit replaces some of a row. -/
def Edit.Touches (edit : Edit) (r : Row) : Prop :=
  edit.offset < r.stop ∧ r.offset < edit.stop

theorem Row.offset_le_stop (r : Row) : r.offset ≤ r.stop := by
  rw [stop]
  omega

theorem Row.offset_lt_stop {r : Row} (h : View.isBoundary r = false) : r.offset < r.stop := by
  have hne : r.text ≠ [] := by
    intro hnil
    rw [View.isBoundary, hnil] at h
    cases h
  have := List.length_pos_iff.mpr hne
  rw [stop]
  omega

/-- The edit replaces some of each row that it reaches, and nothing of the others. -/
theorem touches_iff {t : Text} {style : Style} {index : Int} {first last : Nat}
    (h : (View.ofText t).paragraphAt style index = .ok (some (first, last))) {edit : Edit}
    {notes : List Note}
    (hedit : (View.ofText t).reflowAround style index = .ok ⟨some edit, notes⟩) {j : Nat} {r : Row}
    (hr : t.rows[j]? = some r) : edit.Touches r ↔ first ≤ j ∧ j ≤ last := by
  obtain ⟨hlow, hhigh, hplain, -⟩ := View.paragraphAt_isAround h
  obtain ⟨top, bottom, htop, hbottom, hoffset, hlength⟩ := View.reflowAround_edit h hedit
  have hstop : edit.stop = bottom.stop := by
    have := row_offset_le htop hbottom (by omega)
    have := bottom.offset_le_stop
    rw [Edit.stop]
    omega
  rw [Edit.Touches, hstop, hoffset]
  constructor
  · rintro ⟨habove, hbelow⟩
    constructor
    · by_contra hlt
      have := row_stop_le hr htop (Nat.lt_of_not_le hlt)
      omega
    · by_contra hlt
      have := row_stop_le hbottom hr (Nat.lt_of_not_le hlt)
      omega
  · rintro ⟨hfirst, hlast⟩
    have habove := row_offset_le htop hr hfirst
    have hbelow : r.stop ≤ bottom.stop := by
      rcases Nat.lt_or_eq_of_le hlast with hlt | rfl
      · exact (row_stop_le hr hbottom hlt).trans bottom.offset_le_stop
      · obtain rfl : r = bottom := Option.some.inj (hr.symm.trans hbottom)
        exact le_refl _
    obtain ⟨q, hq, hb⟩ := hplain j hfirst hlast
    obtain rfl : r = q := Option.some.inj (hr.symm.trans hq)
    have := Row.offset_lt_stop hb
    omega

/-- The reader of a whole document has the environments that the rows show. -/
theorem outside_at_row_iff (style : Style) {t : Text} {j : Nat} {r : Row}
    (hr : t.rows[j]? = some r) :
    (∀ name, Stage.idle.after style (t.lines.take j) ≠ .copying name) ↔
      (View.ofText t).openBefore style j = none := by
  obtain ⟨hlt, -⟩ := List.getElem?_eq_some_iff.mp hr
  have hopen : (Stage.idle.after style (t.lines.take j)).openName =
      (View.ofText t).openBefore style j := by
    rw [Stage.openName_after, ← take_rows_text hlt]
    rfl
  simp only [ne_eq, Stage.copying_iff_openName, hopen, Option.eq_none_iff_forall_ne_some]

/-- The rows around a cursor lie outside copied environments if and only if no row from the first
one up to the cursor closes such an environment. The same condition decides whether the proposed
edit keeps off every row that a reader of the whole document copies as part of an environment. -/
theorem selection_avoids_copied_rows_iff {content : Text} {access : Access} {style : Style}
    {index : Int} {first last : Nat}
    (h : (Buffer.ofText content access).view.paragraphAt style index = .ok (some (first, last))) :
    let view := (Buffer.ofText content access).view
    ((∀ j : Nat, first ≤ j → j ≤ last → view.isInside style j = .ok false) ↔
      ∀ k : Nat, first ≤ k → (k : Int) < index → ¬ view.ClosesAt style k) ∧
    ∀ edit notes, view.reflowAround style index = .ok ⟨some edit, notes⟩ →
      ((∀ (j : Nat) (r : Row), view.row j = .ok r → edit.Touches r →
          ∀ name, Stage.idle.after style (content.lines.take j) ≠ .copying name) ↔
        ∀ k : Nat, first ≤ k → (k : Int) < index → ¬ view.ClosesAt style k) := by
  intro view
  change view.paragraphAt style index = _ at h
  have haround := View.paragraphAt_isAround h
  have hfirst := haround.first_le
  have hlast := haround.le_last
  rw [← haround.outside_iff]
  constructor
  · apply forall₃_congr
    intro j hj hjlast
    obtain ⟨r, hr, -⟩ := haround.plain j hj hjlast
    exact View.isInside_eq_false_iff hr
  · intro edit notes hedit
    obtain ⟨top, htop, -⟩ := haround.plain first (le_refl _) (by omega)
    have hview : view = .ofText content := Buffer.view_of_row htop
    rw [hview] at h hedit haround ⊢
    constructor
    · intro hkept j hj hjlast
      obtain ⟨r, hr, -⟩ := haround.plain j hj hjlast
      have htouched := (touches_iff h hedit hr).mpr ⟨hj, hjlast⟩
      exact (outside_at_row_iff style hr).mp (hkept j r (View.row_of_getElem hr) htouched)
    · intro hout j r hrow htouched
      obtain ⟨-, hr⟩ := View.row_ok hrow
      obtain ⟨hj, hjlast⟩ := (touches_iff h hedit hr).mp htouched
      exact (outside_at_row_iff style hr).mpr (hout j hj hjlast)

/-- Prose below a listing whose closing border stands on a row of its own. -/
theorem selection_avoids_copied_rows_listing :
    ∃ (buffer : Buffer) (edit : Edit) (notes : List Note),
      buffer = .ofText "\\begin\x7blisting\x7d\nx\n\\end\x7blisting\x7d\na b\nc\n".toList
        .writable ∧
      buffer.view.paragraphAt {} 4 = .ok (some (3, 4)) ∧
      (∀ k : Nat, 3 ≤ k → (k : Int) < 4 → ¬ buffer.view.ClosesAt {} k) ∧
      (∀ j : Nat, 3 ≤ j → j ≤ 4 → buffer.view.isInside {} j = .ok false) ∧
      buffer.view.reflowAround {} 4 = .ok ⟨some edit, notes⟩ ∧
      edit.text = "a b c\n".toList ∧
      ∀ (j : Nat) (r : Row), buffer.view.row j = .ok r → edit.Touches r →
        ∀ name, Stage.idle.after {} (buffer.content.lines.take j) ≠ .copying name := by
  let buffer : Buffer :=
    .ofText "\\begin\x7blisting\x7d\nx\n\\end\x7blisting\x7d\na b\nc\n".toList .writable
  have hrows : buffer.view.paragraphAt {} 4 = .ok (some (3, 4)) := by decide +kernel
  have hopen : buffer.view.openBefore {} 3 = none := by decide +kernel
  have hclosed : ∀ k : Nat, 3 ≤ k → (k : Int) < 4 → ¬ buffer.view.ClosesAt {} k := by
    rintro k hlow hhigh ⟨name, r, hname, -⟩
    obtain rfl : k = 3 := by omega
    rw [hopen] at hname
    cases hname
  obtain ⟨hinside, hedits⟩ := selection_avoids_copied_rows_iff hrows
  have hedit : buffer.view.reflowAround {} 4 = .ok ⟨some ⟨32, 6, "a b c\n".toList, none⟩,
      [Block.note "Flushing 3 words at indentation ''",
        View.pipelineNote .info "Reflowed lines 3-4"]⟩ := by
    decide +kernel
  exact ⟨buffer, _, _, rfl, hrows, hclosed, hinside.mpr hclosed, hedit, rfl,
    (hedits _ _ hedit).mpr hclosed⟩

/-- A listing that is closed in the middle of a row of prose: the rows around the cursor include
the inside of the listing, and the proposed edit joins it with the prose. -/
theorem selection_can_reach_into_copied :
    (¬ ∀ (content : Text) (access : Access) (style : Style) (index : Int) (first last : Nat),
      style.Valid →
      (Buffer.ofText content access).view.paragraphAt style index = .ok (some (first, last)) →
      ∀ j : Nat, first ≤ j → j ≤ last →
        (Buffer.ofText content access).view.isInside style j = .ok false) ∧
    ¬ ∀ (content : Text) (access : Access) (style : Style) (index : Int) (edit : Edit)
        (notes : List Note), style.Valid →
      (Buffer.ofText content access).view.reflowAround style index = .ok ⟨some edit, notes⟩ →
      ∀ (j : Nat) (r : Row), (Buffer.ofText content access).view.row j = .ok r →
        edit.Touches r →
        ∀ name, Stage.idle.after style (content.lines.take j) ≠ .copying name := by
  let buffer : Buffer :=
    .ofText "\\begin\x7bverbatim\x7d\nfoo\nbar \\end\x7bverbatim\x7d baz\ncursor\n".toList
      .writable
  constructor
  · intro h
    have := h buffer.content .writable {} 3 1 3 (by decide) (by decide +kernel) 1 (by decide)
      (by decide)
    revert this
    decide +kernel
  · intro h
    have hedit : buffer.view.reflowAround {} 3 =
        .ok ⟨some ⟨17, 34, "foo bar \\end\x7bverbatim\x7d baz cursor\n".toList, none⟩,
          [Block.note "Flushing 5 words at indentation ''",
            View.pipelineNote .info "Reflowed lines 1-3"]⟩ := by
      decide +kernel
    have hrow : buffer.view.row (1 : Nat) = .ok ⟨"foo".toList, 17, ['\n']⟩ := by decide +kernel
    exact h buffer.content .writable {} 3 _ _ (by decide) hedit 1 _ hrow ⟨by decide, by decide⟩
      "verbatim".toList (by decide +kernel)

end HardWrap
