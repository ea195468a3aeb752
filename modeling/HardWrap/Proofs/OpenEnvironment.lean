import HardWrap.Proofs.SelectedRows
import HardWrap.Proofs.WholeRange

/-! The open environment, found twice. A document looks it up from the rows above an index and keeps
nothing but a name; the reader of lines carries it along with the paragraph that it gathers. Both
come to the same name before every row and after the last one. -/

namespace HardWrap

open Text

theorem nextOpen_empty (style : Style) (isOpen : Option Text) :
    nextOpen style isOpen [] = isOpen := by
  cases isOpen <;> rfl

/-- The rows show the lines, and one more, empty line after a final line ending. -/
theorem rows_text_cases (t : Text) :
    t.rows.map Row.text = t.lines.map Line.text ++ [[]] ∨
      t.rows.map Row.text = t.lines.map Line.text := by
  rw [← numberRows_text 0, rows, numberRows_placeRows]
  rcases closeRows_cases (cut_isCut t) with ⟨hclose, -⟩ | hclose
  · rw [hclose, number_append, List.map_append]
    exact Or.inl rfl
  · rw [hclose]
    exact Or.inr rfl

/-- The reader of the first rows has the environment that they leave open. -/
theorem View.openName_after_rows (view : View) (style : Style) (k : Nat) :
    (Stage.idle.after style (numberRows 0 (view.rows.take k))).openName =
      view.openBefore style k := by
  rw [Stage.openName_after, numberRows_text]
  rfl

/-- So has the reader of the first lines, since an empty row changes nothing. -/
theorem View.openName_after_lines (style : Style) (t : Text) (k : Nat) :
    (Stage.idle.after style (t.lines.take k)).openName = (ofText t).openBefore style k := by
  have hrows : (ofText t).rows = t.rows := rfl
  rw [Stage.openName_after, openBefore, hrows, List.map_take, List.map_take]
  rcases rows_text_cases t with h | h
  · rw [h, List.take_append, List.foldl_append]
    cases k - (t.lines.map Line.text).length with
    | zero => rfl
    | succ n =>
      rw [List.take_succ_cons, List.take_nil, List.foldl_cons, nextOpen_empty]
      rfl
  · rw [h]
    rfl

/-- Wherever a document is asked for the open environment, from its first row to below its last one,
it answers, and the answer is the environment that the reader of the rows above is copying, its name
included. The reader of the text's lines comes to the same, with one row less to read at the end. -/
theorem open_environment_agrees_with_reader (content : Text) (access : Access) (style : Style)
    {index : Int} (h : index ≤ (Buffer.ofText content access).view.count) :
    let view := (Buffer.ofText content access).view
    let reader := Stage.idle.after style (numberRows 0 (view.rows.take index.toNat))
    view.isInside style index = .ok reader.openName.isSome ∧
    (∀ name, view.openBefore style index.toNat = some name ↔ reader = .copying name) ∧
    ∀ name, Stage.idle.after style (content.lines.take index.toNat) = .copying name ↔
      reader = .copying name := by
  intro view reader
  have hname : reader.openName = view.openBefore style index.toNat :=
    View.openName_after_rows view style index.toNat
  have hin : ¬ index > view.count := by
    change index ≤ view.count at h
    omega
  refine ⟨?_, fun name => ?_, fun name => ?_⟩
  · rw [View.isInside, if_neg hin, hname]
  · rw [Stage.copying_iff_openName, hname]
  · rw [Stage.copying_iff_openName, Stage.copying_iff_openName, hname]
    by_cases hshown : access = .detached
    · -- A document that shows nothing can only be asked before its first line.
      subst hshown
      have hzero : index.toNat = 0 := by
        change index ≤ (0 : Nat) at h
        omega
      rw [hzero]
      rfl
    · have hview : view = .ofText content := Buffer.view_ofText hshown
      rw [View.openName_after_lines, hview]

/-- A listing with another environment of its name and an end token of another name inside, below a
row that holds two tokens. -/
theorem open_environment_agrees_with_reader_nested :
    ∃ (buffer : Buffer) (reader : Stage),
      buffer = .ofText ("a \\begin\x7bitemize\x7d\n\\begin\x7b b \x7d \\end\x7bb\x7d\n".toList ++
        "\\begin\x7bb\x7d\n\\end\x7bdocument\x7d\n".toList) .writable ∧
      (4 : Int) ≤ buffer.view.count ∧
      reader = Stage.idle.after {} (numberRows 0 (buffer.view.rows.take 4)) ∧
      reader = .copying ['b'] ∧ buffer.view.isInside {} 4 = .ok true ∧
      buffer.view.openBefore {} 4 = some ['b'] ∧
      Stage.idle.after {} (buffer.content.lines.take 4) = .copying ['b'] := by
  let buffer : Buffer :=
    .ofText ("a \\begin\x7bitemize\x7d\n\\begin\x7b b \x7d \\end\x7bb\x7d\n".toList ++
      "\\begin\x7bb\x7d\n\\end\x7bdocument\x7d\n".toList) .writable
  have hcount : (4 : Int) ≤ buffer.view.count := by decide +kernel
  have hreader : Stage.idle.after {} (numberRows 0 (buffer.view.rows.take 4)) = .copying ['b'] := by
    decide +kernel
  obtain ⟨hinside, hopen, hlines⟩ :=
    open_environment_agrees_with_reader buffer.content .writable {} hcount
  refine ⟨buffer, _, rfl, hcount, rfl, hreader, ?_, (hopen _).mpr hreader, (hlines _).mpr hreader⟩
  exact hinside.trans (congrArg (fun s : Stage => Except.ok s.openName.isSome) hreader)

end HardWrap
