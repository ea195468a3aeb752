import HardWrap.Document.Request
import HardWrap.Proofs.EngineState
import HardWrap.Proofs.LineTable
import HardWrap.Proofs.Rewrap

/-! Checked lookups. In a document a row, a range, a line or an edit that is looked up or made on
the way to an answer is there and well formed unless the request itself names something that is
not. What is left to fail is a tab in a margin: if the tab width can be used, or no margin with a
tab is looked at, the checked answers are the plain ones. -/

namespace HardWrap

open Text

@[simp] theorem ok_bind {ε α β : Type} (a : α) (f : α → Except ε β) :
    (Except.ok a >>= f) = f a := rfl

namespace Noted

variable {ε α β : Type}

@[simp] theorem pure_bind (a : α) (f : α → Noted ε β) : (pure a >>= f) = f a := rfl

theorem bind_of_error {x : Noted ε α} {fault : ε} (h : x.result = .error fault)
    (f : α → Noted ε β) : (x >>= f).result = .error fault := by
  show (x.andThen f).result = .error fault
  rw [andThen, h]

theorem bind_of_ok {x : Noted ε α} {a : α} (h : x.result = .ok a) (f : α → Noted ε β) :
    (x >>= f).result = (f a).result := by
  show (x.andThen f).result = (f a).result
  rw [andThen, h]

theorem mapError_of_ok {δ : Type} {x : Noted ε α} {a : α} (h : x.result = .ok a) (f : ε → δ) :
    (x.mapError f).result = .ok a := by
  rw [mapError, h]
  rfl

theorem mapError_of_error {δ : Type} {x : Noted ε α} {fault : ε} (h : x.result = .error fault)
    (f : ε → δ) : (x.mapError f).result = .error (f fault) := by
  rw [mapError, h]
  rfl

end Noted

theorem measured_ok {α : Type} (a : α) : measured (.ok a) = pure a := rfl

/-- A plain answer, as a checked function gives it. -/
def Lookup.ofAnswer : Except RangeFault Proposal → Lookup (Option Edit)
  | .ok proposal => ⟨proposal.notes, .ok proposal.edit⟩
  | .error fault => .fail (.range fault)

theorem agreement_le (l m : Text) : agreement l m ≤ l.length := by
  obtain ⟨x, u, v, rfl, -, hx, -⟩ := agreement_split l m
  rw [hx, List.length_append]
  omega

theorem Edit.makeChecked_eq {start stop : Nat} (h : start ≤ stop) (text : Text)
    (caret : Option Int) :
    makeChecked start (stop - start) text caret = pure ⟨start, stop - start, text, caret⟩ := by
  have hoffset : ¬ (start : Int) < 0 := by omega
  rw [makeChecked, make, if_neg hoffset, if_neg (by omega), Int.toNat_natCast, Int.toNat_sub]
  rfl

theorem Edit.trimmedChecked_eq (offset : Nat) (old new : Text) (caret : Option Int) :
    trimmedChecked offset old new caret = pure (trimmed offset old new caret) := by
  have hhead := agreement_le old new
  have htail := agreement_le (old.drop (agreement old new)).reverse
    (new.drop (agreement old new)).reverse
  rw [List.length_reverse, List.length_drop] at htail
  have hoffset : ¬ ((offset : Int) + agreement old new < 0) := by omega
  have hedit : make (offset + agreement old new)
      (old.length - agreement old new -
        agreement (old.drop (agreement old new)).reverse (new.drop (agreement old new)).reverse)
      (trimmed offset old new caret).text caret = .ok (trimmed offset old new caret) := by
    rw [make, if_neg hoffset, if_neg (by omega)]
    simp only [trimmed, Except.ok.injEq, Edit.mk.injEq, and_true]
    omega
  exact congrArg (fun x => Noted.ofExcept (x.mapError LookupFault.edit)) hedit

namespace View

variable {s : Text} {style : Style}

/-! ### The lookups succeed -/

theorem rowChecked_eq {k : Nat} {r : Row} (h : s.rows[k]? = some r) :
    (ofText s).rowChecked k = pure r := by
  rw [rowChecked, row_of_getElem h]
  rfl

theorem rowChecked_of_error {index : Int} {fault : RangeFault}
    (h : (ofText s).row index = .error fault) :
    (ofText s).rowChecked index = .fail (.range fault) := by
  rw [rowChecked, h]
  rfl

theorem sliceChecked_eq {start stop : Nat} (hle : start ≤ stop) (hstop : stop ≤ s.length) :
    (ofText s).sliceChecked start (stop - start) = pure ((ofText s).between start stop) := by
  have hin : ¬ ((decide ((start : Int) < 0) || decide ((stop : Int) - start < 0) ||
      decide ((start : Int) + (stop - start) > (ofText s).content.length)) = true) := by
    have hlength : (ofText s).content.length = s.length := rfl
    simp only [hlength, Bool.or_eq_true, decide_eq_true_eq]
    omega
  have hend : ((start : Int) + (stop - start)).toNat = stop := by omega
  rw [sliceChecked, slice, if_neg hin, hend]
  rfl

theorem isInsideChecked_eq {k : Nat} (h : k ≤ s.rows.length) :
    (ofText s).isInsideChecked style k = pure ((ofText s).openBefore style k).isSome := by
  have hin : ¬ (k : Int) > (ofText s).count := by
    rw [count_ofText]
    omega
  rw [isInsideChecked, isInside, if_neg hin]
  rfl

theorem endingChecked_eq (s : Text) (index : Int) :
    (ofText s).endingChecked index = pure ((ofText s).endingAt index) := by
  unfold endingChecked endingAt
  cases ((ofText s).endingOf? index).or ((ofText s).endingOf? (index - 1)) with
  | some e => rfl
  | none =>
    have hall : (ofText s).sliceChecked 0 s.length = pure s := by
      simpa [between, ofText] using sliceChecked_eq (Nat.zero_le s.length) (le_refl s.length)
    simp only [length_ofText, hall]
    rfl

theorem linesChecked_eq {first n : Nat} (h : first + n ≤ s.rows.length) :
    (ofText s).linesChecked first n =
      pure (numberRows first (((ofText s).rows.drop first).take n)) := by
  induction n generalizing first with
  | zero => rfl
  | succ n ih =>
    have hr := List.getElem?_eq_getElem (show first < s.rows.length by omega)
    have hnumber : ¬ (first : Int) < 0 := by omega
    have hnext : first + 1 + n ≤ s.rows.length := by omega
    have hrest : (ofText s).linesChecked ((first : Int) + 1) n =
        pure (numberRows (first + 1) ((s.rows.drop (first + 1)).take n)) := ih hnext
    rw [linesChecked, rowChecked_eq hr, Noted.pure_bind, Line.numbered, if_neg hnumber, hrest,
      rows_ofText, drop_eq_cons hr]
    rfl

/-! ### Rows around a cursor -/

theorem firstChecked_eq {k : Nat} (h : k ≤ s.rows.length) :
    (ofText s).firstChecked k = pure ((ofText s).around k).1 := by
  induction k with
  | zero => rfl
  | succ k ih =>
    have hr := List.getElem?_eq_getElem (show k < s.rows.length by omega)
    have habove : (s.rows.take (k + 1)).reverse = s.rows[k] :: (s.rows.take k).reverse := by
      rw [List.take_add_one, hr]
      simp
    rw [firstChecked, rowChecked_eq hr, Noted.pure_bind, ih (by omega)]
    simp only [around, rows_ofText, habove, List.takeWhile_cons]
    cases isBoundary s.rows[k] with
    | true => rfl
    | false => simp

theorem lastChecked_eq {k : Nat} (h : k < s.rows.length) :
    (ofText s).lastChecked k = pure ((ofText s).around k).2 := by
  induction hn : s.rows.length - k generalizing k with
  | zero => omega
  | succ n ih =>
    rw [lastChecked, count_ofText]
    by_cases hk : k + 1 < s.rows.length
    · have hr := List.getElem?_eq_getElem hk
      rw [if_pos hk, rowChecked_eq hr, Noted.pure_bind, ih hk (by omega)]
      simp only [around, rows_ofText, drop_eq_cons hr, List.takeWhile_cons]
      cases isBoundary s.rows[k + 1] with
      | true => rfl
      | false => simp [Nat.add_comm, Nat.add_assoc]
    · rw [if_neg hk]
      simp only [around, rows_ofText, List.drop_eq_nil_of_le (Nat.le_of_not_lt hk)]
      rfl

theorem paragraphChecked_eq (s : Text) (style : Style) (index : Int) :
    (ofText s).paragraphChecked style index =
      .ofExcept (((ofText s).paragraphAt style index).mapError .range) := by
  unfold paragraphChecked paragraphAt
  cases hrow : (ofText s).row index with
  | error fault =>
    rw [rowChecked_of_error hrow]
    rfl
  | ok r =>
    obtain ⟨k, rfl, hr⟩ := exists_of_row hrow
    obtain ⟨hk, -⟩ := List.getElem?_eq_some_iff.mp hr
    rw [rowChecked_eq hr, isInsideChecked_eq (Nat.le_of_lt hk), Int.toNat_natCast,
      firstChecked_eq (Nat.le_of_lt hk), lastChecked_eq hk]
    simp only [Noted.pure_bind, ok_bind]
    cases isBoundary r with
    | true => rfl
    | false =>
      cases ((ofText s).openBefore style k).isSome with
      | true => rfl
      | false => rfl

/-! ### Ranges of rows -/

variable {limits : Limits} {layout : Layout}

section Rows

variable {i j : Nat} {top bottom : Row}

/-- The lookups before and after the lines are reflowed succeed. -/
theorem proposeRowsChecked_reflow (layout : Layout) (hi : s.rows[i]? = some top)
    (hj : s.rows[j]? = some bottom) (hij : i ≤ j) :
    (ofText s).proposeRowsChecked layout i j top bottom =
      ((Plan.reflow ⟨layout, (ofText s).endingAt i⟩ ((ofText s).linesBetween i j)).mapError .tab >>=
        fun after =>
          if after = (ofText s).between top.offset bottom.stop then
            ⟨[pipelineNote .debug s!"Lines {(i : Int)}-{(j : Int)} already wrapped"], .ok none⟩
          else
            ⟨[pipelineNote .info s!"Reflowed lines {(i : Int)}-{(j : Int)}"],
              .ok (some ⟨top.offset, bottom.stop - top.offset, after, none⟩)⟩) := by
  obtain ⟨hlt, -⟩ := List.getElem?_eq_some_iff.mp hj
  have hspan : top.offset ≤ bottom.stop :=
    (row_offset_le hi hj hij).trans bottom.offset_le_stop
  have hcount : ((j : Int) + 1 - i).toNat = j + 1 - i := by omega
  have hlines : (ofText s).linesChecked i (j + 1 - i) = pure ((ofText s).linesBetween i j) :=
    linesChecked_eq (by omega)
  rw [proposeRowsChecked, hcount, hlines, sliceChecked_eq hspan (row_stop_le_length hj),
    endingChecked_eq]
  simp only [Noted.pure_bind, Edit.makeChecked_eq hspan]
  refine congrArg _ (funext fun after => ?_)
  split
  · rfl
  · rfl

theorem proposeRowsChecked_eq (hi : s.rows[i]? = some top) (hj : s.rows[j]? = some bottom)
    (hij : i ≤ j) (htab : ¬ layout.Stops ((ofText s).linesBetween i j)) :
    (ofText s).proposeRowsChecked layout i j top bottom =
      .ofAnswer (.ok ((ofText s).proposeRows layout.style i j top.offset bottom.stop)) := by
  rw [proposeRowsChecked_reflow _ hi hj hij, Plan.reflow_eq htab, proposeRows]
  show Noted.andThen _ _ = _
  simp only [Noted.mapError, Noted.andThen, Except.mapError, Lookup.ofAnswer]
  split
  · rfl
  · rfl

theorem proposeRowsChecked_stops (hi : s.rows[i]? = some top) (hj : s.rows[j]? = some bottom)
    (hij : i ≤ j) (hstops : layout.Stops ((ofText s).linesBetween i j)) :
    ∃ fault, ((ofText s).proposeRowsChecked layout i j top bottom).result =
      .error (.tab fault) := by
  have hplan : (Plan.mk layout ((ofText s).endingAt i)).Stops ((ofText s).linesBetween i j) :=
    hstops
  obtain ⟨fault, hresult⟩ := Plan.reflow_of_stops hplan
  refine ⟨fault, ?_⟩
  rw [proposeRowsChecked_reflow _ hi hj hij]
  exact Noted.bind_of_error (Noted.mapError_of_error hresult _) _

end Rows

theorem reflowRangeChecked_of_error {layout : Layout} {first last : Int} {fault : RangeFault}
    (h : (ofText s).reflowRange style first last = .error fault) :
    (ofText s).reflowRangeChecked layout first last = .fail (.range fault) := by
  unfold reflowRange at h
  rw [reflowRangeChecked]
  cases htop : (ofText s).row first with
  | error missing =>
    rw [htop] at h
    obtain rfl := Except.error.inj h
    rw [rowChecked_of_error htop]
    rfl
  | ok top =>
    cases hbottom : (ofText s).row last with
    | error missing =>
      rw [htop, hbottom] at h
      obtain rfl := Except.error.inj h
      rw [rowChecked, htop, rowChecked_of_error hbottom]
      rfl
    | ok bottom =>
      rw [htop, hbottom] at h
      rw [rowChecked, rowChecked, htop, hbottom]
      by_cases hrev : first > last
      · simp only [ok_bind, if_pos hrev] at h
        obtain rfl := Except.error.inj h
        exact if_pos hrev
      · simp only [ok_bind, if_neg hrev] at h
        cases h

/-- A range that is there is reflowed between its first and its last row. -/
theorem exists_of_reflowRange {first last : Int} {proposal : Proposal}
    (h : (ofText s).reflowRange style first last = .ok proposal) :
    ∃ (i j : Nat) (top bottom : Row), first = i ∧ last = j ∧ i ≤ j ∧ s.rows[i]? = some top ∧
      s.rows[j]? = some bottom ∧
      proposal = (ofText s).proposeRows style i j top.offset bottom.stop ∧
      ∀ layout, (ofText s).reflowRangeChecked layout first last =
        (ofText s).proposeRowsChecked layout i j top bottom := by
  unfold reflowRange at h
  cases htop : (ofText s).row first with
  | error missing =>
    rw [htop] at h
    cases h
  | ok top =>
    cases hbottom : (ofText s).row last with
    | error missing =>
      rw [htop, hbottom] at h
      cases h
    | ok bottom =>
      rw [htop, hbottom] at h
      obtain ⟨i, rfl, hi⟩ := exists_of_row htop
      obtain ⟨j, rfl, hj⟩ := exists_of_row hbottom
      by_cases hrev : (i : Int) > j
      · simp only [ok_bind, if_pos hrev] at h
        cases h
      · simp only [ok_bind, if_neg hrev, Int.toNat_natCast] at h
        refine ⟨i, j, top, bottom, rfl, rfl, by omega, hi, hj, (Except.ok.inj h).symm, ?_⟩
        intro layout
        rw [reflowRangeChecked, rowChecked_eq hi, rowChecked_eq hj]
        exact if_neg hrev

theorem reflowRangeChecked_eq {first last : Int}
    (htab : ¬ layout.Stops ((ofText s).linesBetween first.toNat last.toNat)) :
    (ofText s).reflowRangeChecked layout first last =
      .ofAnswer ((ofText s).reflowRange layout.style first last) := by
  cases hrange : (ofText s).reflowRange layout.style first last with
  | error fault => exact reflowRangeChecked_of_error hrange
  | ok proposal =>
    obtain ⟨i, j, top, bottom, rfl, rfl, hij, hi, hj, rfl, hchecked⟩ :=
      exists_of_reflowRange hrange
    rw [hchecked]
    exact proposeRowsChecked_eq hi hj hij htab

theorem reflowRangeChecked_stops {first last : Int} {proposal : Proposal}
    (h : (ofText s).reflowRange layout.style first last = .ok proposal)
    (hstops : layout.Stops ((ofText s).linesBetween first.toNat last.toNat)) :
    ∃ fault, ((ofText s).reflowRangeChecked layout first last).result = .error (.tab fault) := by
  obtain ⟨i, j, top, bottom, rfl, rfl, hij, hi, hj, -, hchecked⟩ := exists_of_reflowRange h
  rw [hchecked]
  exact proposeRowsChecked_stops hi hj hij hstops

theorem not_stops_nil : ¬ layout.Stops [] :=
  fun h => Stage.not_meetsTab_nil h.2

theorem reflowAroundChecked_eq {index : Int}
    (htab : ¬ layout.Stops ((ofText s).paragraphLines layout.style index)) :
    (ofText s).reflowAroundChecked layout index =
      .ofAnswer ((ofText s).reflowAround layout.style index) := by
  unfold reflowAroundChecked reflowAround
  unfold paragraphLines at htab
  rw [paragraphChecked_eq]
  rcases hparagraph : (ofText s).paragraphAt layout.style index with fault | _ | ⟨first, last⟩
  · rfl
  · rfl
  · rw [hparagraph] at htab
    exact reflowRangeChecked_eq htab

theorem reflowAroundChecked_stops {index : Int} {proposal : Proposal}
    (h : (ofText s).reflowAround layout.style index = .ok proposal)
    (hstops : layout.Stops ((ofText s).paragraphLines layout.style index)) :
    ∃ fault, ((ofText s).reflowAroundChecked layout index).result = .error (.tab fault) := by
  unfold reflowAround at h
  unfold paragraphLines at hstops
  unfold reflowAroundChecked
  rw [paragraphChecked_eq]
  rcases hparagraph : (ofText s).paragraphAt layout.style index with fault | _ | ⟨first, last⟩
  · rw [hparagraph] at h
    cases h
  · rw [hparagraph] at hstops
    exact absurd hstops not_stops_nil
  · rw [hparagraph] at h hstops
    exact reflowRangeChecked_stops h hstops

end View

/-! ### Margins -/

section Margins

variable {limits : Limits} {n : Int} {line : Text}

theorem hangingMargin_tabWidth (h : holdsTab line = false) (m n : Int) :
    hangingMargin m line = hangingMargin n line := by
  rw [hangingMargin, hangingMargin, margin_tabWidth h m n]

theorem commentMargin_tabWidth (h : holdsTab line = false) (m n : Int) :
    commentMargin m line = commentMargin n line := by
  rw [commentMargin, commentMargin, margin_tabWidth h m n]

theorem measure_checkTab {marginOf : Int → Text → Text}
    (hsame : holdsTab line = false → ∀ m n, marginOf m line = marginOf n line)
    (htab : ¬ (limits.Exceeded n ∧ holdsTab line = true)) :
    measure (checkTab limits n) marginOf line = .ok (marginOf n line) := by
  by_cases hexceeded : limits.Exceeded n
  · have hholds : holdsTab line = false := by
      rw [← Bool.not_eq_true]
      exact fun hholds => htab ⟨hexceeded, hholds⟩
    rw [measure_of_usable fun _ _ => hholds, hsame hholds]
  · rw [checkTab_of_not_exceeded hexceeded]
    rfl

end Margins

namespace Paragraph

variable {limits : Limits} {style : Style} {p : Paragraph} {line : Text} {fault : TabFault}

theorem kindFor?_eq (style : Style) (line : Text) :
    kindFor? line = (ofLine? style line).map Paragraph.kind := by
  unfold kindFor? ofLine?
  cases kindOf line with
  | prose pos => cases pos <;> rfl
  | item pos => cases pos <;> rfl
  | comment =>
    dsimp only
    split <;> rfl
  | _ => rfl

theorem frameChecked_eq (h : ofLine? style line = some p)
    (htab : ¬ (limits.Exceeded style.tabWidth ∧ holdsTab line = true)) :
    frameChecked (checkTab limits style.tabWidth) p.kind line = .ok p.frame := by
  unfold ofLine? at h
  split at h
  · obtain rfl := Option.some.inj h
    rw [proseParagraph, frameChecked, measure_checkTab margin_tabWidth htab]
    rfl
  · obtain rfl := Option.some.inj h
    rw [itemParagraph, frameChecked, measure_checkTab margin_tabWidth htab,
      measure_checkTab hangingMargin_tabWidth htab]
    rfl
  · split at h
    · obtain rfl := Option.some.inj h
      rw [commentParagraph, frameChecked, measure_checkTab commentMargin_tabWidth htab]
      rfl
    · cases h
  · cases h

theorem frameChecked_stops (htab : holdsTab line = true) (kind : ParagraphKind) :
    frameChecked (.error fault) kind line = .error fault := by
  cases kind <;> rw [frameChecked, measure_of_error htab] <;> rfl

/-- A paragraph is opened by its frame and the words of its first line. -/
theorem extend_of_ofLine? (h : ofLine? style line = some p) :
    (Paragraph.mk p.kind p.frame []).extend line = p := by
  have hwords := (ofLine?_words h).1
  obtain ⟨kind, frame, words⟩ := p
  exact congrArg (Paragraph.mk kind frame) hwords.symm

/-- Whether the margin of the line after a paragraph is looked at and holds a tab. -/
def joinMeetsTab (p : Paragraph) (line : Text) : Bool :=
  holdsTab line &&
    match p.kind, kindOf line with
    | .comment, .comment => isMergeableComment line
    | .prose, .prose none | .item, .prose none => !opensParagraph line
    | _, _ => false

/-- Whether a tab is met among the lines that may continue a paragraph. -/
def absorbMeetsTab (p : Paragraph) (style : Style) : List Text → Bool
  | [] => false
  | line :: rest =>
    p.joinMeetsTab line ||
      p.joins style line && !p.isEndedBy line && (p.extend line).absorbMeetsTab style rest

theorem joinsChecked_eq (htab : ¬ (limits.Exceeded style.tabWidth ∧ p.joinMeetsTab line = true)) :
    p.joinsChecked (checkTab limits style.tabWidth) line = .ok (p.joins style line) := by
  have hprose : ¬ (limits.Exceeded style.tabWidth ∧
      (holdsTab line && !opensParagraph line) = true) →
      (if opensParagraph line then return false
        else return p.continuedByProse (← measure (checkTab limits style.tabWidth) margin line)) =
        Except.ok (!opensParagraph line && p.continuedByProse (margin style.tabWidth line)) := by
    intro htab
    cases hopens : opensParagraph line with
    | true => rfl
    | false =>
      rw [hopens, Bool.not_false, Bool.and_true] at htab
      rw [measure_checkTab margin_tabWidth htab]
      rfl
  revert htab
  unfold joinMeetsTab joinsChecked joins
  cases p.kind with
  | comment =>
    cases kindOf line with
    | comment =>
      dsimp only
      cases isMergeableComment line with
      | false => exact fun _ => rfl
      | true =>
        intro htab
        rw [Bool.and_true] at htab
        rw [measure_checkTab commentMargin_tabWidth htab]
        rfl
    | _ => exact fun _ => rfl
  | prose =>
    cases kindOf line with
    | prose pos =>
      cases pos with
      | none => exact hprose
      | some pos => exact fun _ => rfl
    | _ => exact fun _ => rfl
  | item =>
    cases kindOf line with
    | prose pos =>
      cases pos with
      | none => exact hprose
      | some pos => exact fun _ => rfl
    | _ => exact fun _ => rfl

theorem joinsChecked_stops (htab : p.joinMeetsTab line = true) :
    p.joinsChecked (.error fault) line = .error fault := by
  rw [joinMeetsTab, Bool.and_eq_true] at htab
  obtain ⟨hholds, hcompares⟩ := htab
  split at hcompares
  next hkind hline =>
    simp only [joinsChecked, hkind, hline, hcompares, if_true, measure_of_error hholds]
    rfl
  next hkind hline =>
    have hopens : opensParagraph line = false := by simpa using hcompares
    simp only [joinsChecked, hkind, hline, hopens, measure_of_error hholds]
    rfl
  next hkind hline =>
    have hopens : opensParagraph line = false := by simpa using hcompares
    simp only [joinsChecked, hkind, hline, hopens, measure_of_error hholds]
    rfl
  next => cases hcompares

end Paragraph

namespace View

variable {s : Text} {style : Style} {limits : Limits}

/-- The lines below a row. -/
def below (view : View) (k : Nat) : List Text :=
  (view.rows.drop (k + 1)).map Row.text

theorem below_cons {k : Nat} {r : Row} (h : s.rows[k + 1]? = some r) :
    (ofText s).below k = r.text :: (ofText s).below (k + 1) := by
  rw [below, rows_ofText, drop_eq_cons h]
  rfl

theorem below_nil {k : Nat} (h : ¬ k + 1 < s.rows.length) : (ofText s).below k = [] := by
  rw [below, rows_ofText, List.drop_eq_nil_of_le (Nat.le_of_not_lt h)]
  rfl

theorem absorbChecked_eq (p : Paragraph) (k : Nat)
    (htab : ¬ (limits.Exceeded style.tabWidth ∧
      p.absorbMeetsTab style ((ofText s).below k) = true)) :
    (ofText s).absorbChecked (checkTab limits style.tabWidth) p k =
      pure ((p.absorb style ((ofText s).below k)).1,
        k + (p.absorb style ((ofText s).below k)).2) := by
  by_cases hk : k + 1 < s.rows.length
  · have hr := List.getElem?_eq_getElem hk
    rw [below_cons hr] at htab ⊢
    rw [Paragraph.absorbMeetsTab, Bool.or_eq_true, and_or_left, not_or] at htab
    rw [absorbChecked, count_ofText, if_pos hk, rowChecked_eq hr, Noted.pure_bind,
      Paragraph.joinsChecked_eq htab.1, Paragraph.absorb]
    show (if !p.joins style s.rows[k + 1].text then _ else _) = _
    cases hjoins : p.joins style s.rows[k + 1].text with
    | false => rfl
    | true =>
      show (if p.isEndedBy s.rows[k + 1].text then _ else _) = _
      cases hends : p.isEndedBy s.rows[k + 1].text with
      | true => rfl
      | false =>
        have hrest := htab.2
        rw [hjoins, hends, Bool.not_false, Bool.true_and, Bool.true_and] at hrest
        rw [if_neg Bool.false_ne_true, absorbChecked_eq _ (k + 1) hrest]
        simp [Nat.add_comm, Nat.add_assoc]
  · rw [absorbChecked, count_ofText, if_neg hk, below_nil hk]
    rfl
termination_by s.rows.length - k

theorem absorbChecked_stops (p : Paragraph) (k : Nat) {fault : TabFault}
    (hfault : checkTab limits style.tabWidth = .error fault)
    (hmeets : p.absorbMeetsTab style ((ofText s).below k) = true) :
    ((ofText s).absorbChecked (.error fault) p k).result = .error (.tab fault) := by
  by_cases hk : k + 1 < s.rows.length
  · have hr := List.getElem?_eq_getElem hk
    rw [below_cons hr, Paragraph.absorbMeetsTab, Bool.or_eq_true] at hmeets
    rw [absorbChecked, count_ofText, if_pos hk, rowChecked_eq hr, Noted.pure_bind]
    cases hfirst : p.joinMeetsTab s.rows[k + 1].text with
    | true =>
      rw [Paragraph.joinsChecked_stops hfirst]
      rfl
    | false =>
      rw [hfirst, Bool.and_eq_true, Bool.and_eq_true, Bool.not_eq_true'] at hmeets
      obtain ⟨⟨hjoins, hends⟩, hrest⟩ := hmeets.resolve_left Bool.false_ne_true
      have hchecked : p.joinsChecked (.error fault) s.rows[k + 1].text =
          .ok (p.joins style s.rows[k + 1].text) := by
        rw [← hfault]
        exact Paragraph.joinsChecked_eq (by simp [hfirst])
      rw [hchecked, hjoins]
      show (if p.isEndedBy s.rows[k + 1].text then _ else _ : Lookup _).result = _
      rw [hends]
      exact absorbChecked_stops _ (k + 1) hfault hrest
  · rw [below_nil hk] at hmeets
    cases hmeets
termination_by s.rows.length - k

/-- The rows that belong to the paragraph are rows of the document. -/
theorem gatherChecked_eq {k : Nat} (hk : k < s.rows.length) (p : Paragraph) (line : Text)
    (htab : ¬ (limits.Exceeded style.tabWidth ∧ p.isEndedBy line = false ∧
      p.absorbMeetsTab style ((ofText s).below k) = true)) :
    ∃ whole joined,
      (if p.isEndedBy line then (p, 0) else p.absorb style ((ofText s).below k)) =
        (whole, joined) ∧
      (ofText s).gatherChecked (checkTab limits style.tabWidth) p line k =
        pure (whole, k + joined) ∧
      k + joined < s.rows.length := by
  cases hends : p.isEndedBy line with
  | true =>
    refine ⟨p, 0, rfl, ?_, hk⟩
    rw [gatherChecked, if_pos hends]
    rfl
  | false =>
    refine ⟨_, _, rfl, ?_, ?_⟩
    · rw [gatherChecked, hends, if_neg Bool.false_ne_true, absorbChecked_eq]
      exact fun hmeets => htab ⟨hmeets.1, hends, hmeets.2⟩
    · have hle := p.absorb_le style ((ofText s).below k)
      rw [below, List.length_map, List.length_drop, rows_ofText] at hle
      rw [below, rows_ofText]
      omega

section Typed

variable {k : Nat} {r : Row} {column : Nat} {typed : Char}

theorem proposeTypedChecked_eq (hr : s.rows[k]? = some r) (p : Paragraph) (anchor : Anchor)
    (htab : ¬ (limits.Exceeded style.tabWidth ∧
      p.isEndedBy (r.text.take column ++ typed :: r.text.drop column) = false ∧
      p.absorbMeetsTab style ((ofText s).below k) = true)) :
    (ofText s).proposeTypedChecked (checkTab limits style.tabWidth) style.maxWidth k r column typed
        p anchor =
      .ofAnswer (.ok ((ofText s).proposeTyped style k r column typed p anchor)) := by
  obtain ⟨hk, -⟩ := List.getElem?_eq_some_iff.mp hr
  obtain ⟨whole, joined, hjoined, hgather, hlast⟩ := gatherChecked_eq hk p _ htab
  have hbottom := List.getElem?_eq_getElem hlast
  have hspan : r.offset ≤ s.rows[k + joined].textEnd :=
    (row_offset_le hr hbottom (Nat.le_add_right k joined)).trans (Nat.le_add_right _ _)
  have hrow : (ofText s).row? (k + joined : Nat) = some s.rows[k + joined] := by
    rw [row?, if_neg (by omega), Int.toNat_natCast]
    exact hbottom
  unfold proposeTypedChecked proposeTyped
  rw [below] at hjoined
  simp only [hgather, Noted.pure_bind, endingChecked_eq, rowChecked_eq hbottom,
    sliceChecked_eq hspan (row_textEnd_le hbottom), Edit.trimmedChecked_eq, hjoined, hrow,
    Option.map_some, Option.getD_some]
  split
  · rfl
  · rfl

theorem proposeTypedChecked_stops {p : Paragraph} (anchor : Anchor) {fault : TabFault}
    (hfault : checkTab limits style.tabWidth = .error fault)
    (hends : p.isEndedBy (r.text.take column ++ typed :: r.text.drop column) = false)
    (hmeets : p.absorbMeetsTab style ((ofText s).below k) = true) :
    ((ofText s).proposeTypedChecked (.error fault) style.maxWidth k r column typed p
      anchor).result = .error (.tab fault) := by
  unfold proposeTypedChecked
  apply Noted.bind_of_error
  rw [gatherChecked, hends, if_neg Bool.false_ne_true]
  exact absorbChecked_stops p k hfault hmeets

/-- Whether a tab is met when a character is typed at a column of a row: in the edited row, or among
the rows that may continue its paragraph. -/
def typedMeetsTab (view : View) (style : Style) (index : Nat) (r : Row) (column : Nat)
    (typed : Char) : Bool :=
  let edited := r.text.take column ++ typed :: r.text.drop column
  if r.text.length < column || (stripRight edited).length ≤ style.maxWidth
      || (view.openBefore style index).isSome then false
  else match Paragraph.ofLine? style edited with
    | none => false
    | some p =>
      let start := edited.length - (p.content edited).length
      holdsTab edited ||
        (anchorOf (placedWords start (p.content edited)) (column + 1)).isSome &&
          decide (start ≤ column) && !p.isEndedBy edited &&
          p.absorbMeetsTab style (view.below index)

theorem typeInRowChecked_eq (hr : s.rows[k]? = some r)
    (htab : ¬ (limits.Exceeded style.tabWidth ∧
      (ofText s).typedMeetsTab style k r column typed = true)) :
    (ofText s).typeInRowChecked limits style k r column typed =
      .ofAnswer (.ok ((ofText s).typeInRow style k r column typed)) := by
  obtain ⟨hk, -⟩ := List.getElem?_eq_some_iff.mp hr
  revert htab
  unfold typeInRowChecked typeInRow typedMeetsTab
  simp only [isInsideChecked_eq (Nat.le_of_lt hk), Noted.pure_bind]
  rw [Paragraph.kindFor?_eq style]
  cases decide (r.text.length < column) ||
      decide ((stripRight (r.text.take column ++ typed :: r.text.drop column)).length ≤
        style.maxWidth) with
  | true => exact fun _ => rfl
  | false =>
    rw [Bool.false_or]
    cases hline : Paragraph.ofLine? style (r.text.take column ++ typed :: r.text.drop column) with
    | none =>
      cases ((ofText s).openBefore style k).isSome with
      | true => exact fun _ => rfl
      | false => exact fun _ => rfl
    | some p =>
      cases ((ofText s).openBefore style k).isSome with
      | true => exact fun _ => rfl
      | false =>
        dsimp only
        rw [if_neg Bool.false_ne_true, if_neg Bool.false_ne_true, if_neg Bool.false_ne_true,
          Bool.or_eq_true, and_or_left, not_or]
        rintro ⟨hedited, hbelow⟩
        simp only [Option.map_some, Bool.false_eq_true, if_false,
          Paragraph.frameChecked_eq hline hedited, measured_ok, Noted.pure_bind,
          Paragraph.extend_of_ofLine? hline]
        cases hanchor : anchorOf (placedWords _ (p.content
            (r.text.take column ++ typed :: r.text.drop column))) (column + 1) with
        | none => rfl
        | some anchor =>
          dsimp only
          split
          · rfl
          next hstart =>
            refine proposeTypedChecked_eq hr p anchor fun hmeets => hbelow ⟨hmeets.1, ?_⟩
            rw [hanchor, hmeets.2.1, hmeets.2.2, decide_eq_true (Nat.le_of_not_lt hstart)]
            rfl

theorem typeInRowChecked_stops (hr : s.rows[k]? = some r)
    (hexceeded : limits.Exceeded style.tabWidth)
    (hmeets : (ofText s).typedMeetsTab style k r column typed = true) :
    ∃ fault, ((ofText s).typeInRowChecked limits style k r column typed).result =
      .error (.tab fault) := by
  obtain ⟨hk, -⟩ := List.getElem?_eq_some_iff.mp hr
  obtain ⟨fault, hfault⟩ := checkTab_error_iff.mpr hexceeded
  refine ⟨fault, ?_⟩
  revert hmeets
  unfold typeInRowChecked typedMeetsTab
  simp only [isInsideChecked_eq (Nat.le_of_lt hk), Noted.pure_bind, hfault]
  rw [Paragraph.kindFor?_eq style]
  cases decide (r.text.length < column) ||
      decide ((stripRight (r.text.take column ++ typed :: r.text.drop column)).length ≤
        style.maxWidth) with
  | true => exact nofun
  | false =>
    rw [Bool.false_or]
    cases ((ofText s).openBefore style k).isSome with
    | true => exact nofun
    | false =>
      cases hline : Paragraph.ofLine? style (r.text.take column ++ typed :: r.text.drop column) with
      | none => exact nofun
      | some p =>
        dsimp only
        simp only [Option.map_some, Bool.false_eq_true, if_false]
        cases hholds : holdsTab (r.text.take column ++ typed :: r.text.drop column) with
        | true =>
          rw [Paragraph.frameChecked_stops hholds]
          exact fun _ => rfl
        | false =>
          have hframe : Paragraph.frameChecked (.error fault) p.kind
              (r.text.take column ++ typed :: r.text.drop column) = .ok p.frame := by
            rw [← hfault]
            exact Paragraph.frameChecked_eq hline (by simp [hholds])
          simp only [hframe, measured_ok, Noted.pure_bind, Paragraph.extend_of_ofLine? hline,
            Bool.false_or, Bool.and_eq_true, decide_eq_true_eq, Bool.not_eq_true']
          rintro ⟨⟨⟨hanchor, hstart⟩, hends⟩, hbelow⟩
          obtain ⟨anchor, hanchor⟩ := Option.isSome_iff_exists.mp hanchor
          rw [hanchor]
          dsimp only
          rw [if_neg (Nat.not_lt.mpr hstart)]
          exact proposeTypedChecked_stops anchor hfault hends hbelow

end Typed

/-- A character that is typed into a document is typed into a row. -/
theorem typeAt_row (hincremental : style.incremental = true) {o : Nat} (ho : o ≤ s.length)
    {c : Char} (hc : c ≠ '\r' ∧ c ≠ '\n') :
    ∃ (k : Nat) (r : Row), (ofText s).rowAt o = .ok k ∧ s.rows[k]? = some r ∧
      (ofText s).typeAt style o [c] = .ok ((ofText s).typeInRow style k r (o - r.offset) c) ∧
      (ofText s).typeAtChecked limits style o [c] =
        (ofText s).typeInRowChecked limits style k r (o - r.offset) c := by
  obtain ⟨k, r, hk, hr, -⟩ := rowAt_ofText (t := s) ho
  have hrange : ¬ ((decide ((o : Int) < 0) || decide ((o : Int) > (ofText s).length)) = true) := by
    simpa using ho
  have hplain : ¬ ((decide (c = '\r') || decide (c = '\n')) = true) := by simpa using hc
  refine ⟨k, r, hk, hr, ?_, ?_⟩
  · unfold typeAt
    rw [if_neg hrange, hincremental]
    dsimp only
    rw [if_neg hplain, hk, ok_bind, row_of_getElem hr]
    rfl
  · unfold typeAtChecked
    rw [if_neg hrange, hincremental]
    dsimp only
    rw [if_neg hplain, hk]
    show ((ofText s).rowChecked k >>= _) = _
    rw [rowChecked_eq hr]
    rfl

/-- What is no single character, or a line ending, or not to be refilled, is not looked at. -/
theorem typeAt_unread {o : Nat} (ho : o ≤ s.length) {typed : Text}
    (h : ∀ c, typed = [c] → style.incremental = true → c = '\r' ∨ c = '\n') :
    (ofText s).typeAt style o typed = .ok ⟨none, []⟩ ∧
      (ofText s).typeAtChecked limits style o typed = pure none := by
  have hrange : ¬ ((decide ((o : Int) < 0) || decide ((o : Int) > (ofText s).length)) = true) := by
    simpa using ho
  unfold typeAt typeAtChecked
  rw [if_neg hrange, if_neg hrange]
  cases hincremental : style.incremental with
  | false => exact ⟨rfl, rfl⟩
  | true =>
    rcases typed with _ | ⟨c, _ | ⟨d, rest⟩⟩
    · exact ⟨rfl, rfl⟩
    · have hending : (decide (c = '\r') || decide (c = '\n')) = true := by
        simpa using h c rfl hincremental
      dsimp only
      rw [if_pos hending, if_pos hending]
      exact ⟨rfl, rfl⟩
    · exact ⟨rfl, rfl⟩

end View

end HardWrap
