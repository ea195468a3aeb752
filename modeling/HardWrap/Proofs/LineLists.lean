import HardWrap.Proofs.BlankLines

/-! Lists of lines. What a list of lines has to be like to come from a text is put down line by
line, and splitting a text and joining such lines undo each other. The only condition on neighbours
is that a CR is not followed by a line that is nothing but LF, because the two would be read as one
ending. -/

namespace HardWrap

open Text

/-- Lines as they stand in a text, numbered from `start` on. -/
structure IsLineList (start : Nat) (lines : List Line) : Prop where
  numbered : ∀ k l, lines[k]? = some l → l.number = start + k
  unbroken : ∀ l ∈ lines, Unbroken l.text
  ended : ∀ k l, lines[k]? = some l →
    IsEnding l.ending ∨ l.ending = [] ∧ l.text ≠ [] ∧ k + 1 = lines.length
  whole : ∀ k a b, lines[k]? = some a → lines[k + 1]? = some b →
    ¬ (a.ending = ['\r'] ∧ b.text = [] ∧ b.ending = ['\n'])

/-! ### Line by line -/

theorem isLineList_nil (start : Nat) : IsLineList start [] :=
  ⟨nofun, nofun, nofun, nofun⟩

theorem isLineList_cons_iff {start : Nat} {l : Line} {rest : List Line} :
    IsLineList start (l :: rest) ↔
      l.number = start ∧ Unbroken l.text ∧
        (IsEnding l.ending ∨ l.ending = [] ∧ l.text ≠ [] ∧ rest = []) ∧
        (∀ b, rest.head? = some b → ¬ (l.ending = ['\r'] ∧ b.text = [] ∧ b.ending = ['\n'])) ∧
        IsLineList (start + 1) rest := by
  constructor
  · intro h
    refine ⟨h.numbered 0 l rfl, h.unbroken l List.mem_cons_self, ?_, ?_, ?_, ?_, ?_, ?_⟩
    · refine (h.ended 0 l rfl).imp_right fun ⟨he, ht, hk⟩ => ⟨he, ht, ?_⟩
      exact List.length_eq_zero_iff.mp (by simpa using hk.symm)
    · intro b hb
      exact h.whole 0 l b rfl (by rwa [List.getElem?_cons_succ, ← List.head?_eq_getElem?])
    · intro k m hm
      rw [h.numbered (k + 1) m hm]
      omega
    · intro m hm
      exact h.unbroken m (List.mem_cons_of_mem _ hm)
    · intro k m hm
      exact (h.ended (k + 1) m hm).imp_right fun ⟨he, ht, hk⟩ => ⟨he, ht, by simpa using hk⟩
    · intro k a b ha hb
      exact h.whole (k + 1) a b ha hb
  · rintro ⟨hnumber, htext, hend, hseam, h⟩
    constructor
    · intro k m hm
      cases k with
      | zero =>
        obtain rfl := Option.some.inj hm
        exact hnumber
      | succ k =>
        rw [h.numbered k m hm]
        omega
    · intro m hm
      rcases List.mem_cons.mp hm with rfl | hm
      · exact htext
      · exact h.unbroken m hm
    · intro k m hm
      cases k with
      | zero =>
        obtain rfl := Option.some.inj hm
        exact hend.imp_right fun ⟨he, ht, hrest⟩ => ⟨he, ht, by simp [hrest]⟩
      | succ k =>
        exact (h.ended k m hm).imp_right fun ⟨he, ht, hk⟩ => ⟨he, ht, by simp [hk]⟩
    · intro k a b ha hb
      cases k with
      | zero =>
        obtain rfl := Option.some.inj ha
        exact hseam b (by rwa [List.head?_eq_getElem?])
      | succ k => exact h.whole k a b ha hb

theorem flatMap_source (lines : List Line) :
    lines.flatMap Line.source = joinLines (lines.map Line.parts) := by
  rw [joinLines, List.flatMap_map]
  rfl

/-! ### From lines to a text and back -/

namespace IsLineList

variable {start : Nat} {lines : List Line}

theorem isLined (h : IsLineList start lines) : IsLined (lines.map Line.parts) := by
  induction lines generalizing start with
  | nil => trivial
  | cons l rest ih =>
    obtain ⟨-, htext, hend, -, hrest⟩ := isLineList_cons_iff.mp h
    refine ⟨htext, ?_, ih hrest⟩
    exact hend.imp_right fun ⟨he, _, hnil⟩ => ⟨he, by rw [hnil]; rfl⟩

theorem isCut (h : IsLineList start lines) : IsCut (lines.map Line.parts) := by
  rw [h.isLined.isCut_iff, List.isChain_map]
  induction lines generalizing start with
  | nil => exact .nil
  | cons l rest ih =>
    obtain ⟨-, -, -, hseam, hrest⟩ := isLineList_cons_iff.mp h
    refine List.isChain_cons.mpr ⟨?_, ih hrest⟩
    intro b hb htorn
    exact hseam b hb ⟨htorn.1, congrArg Prod.fst htorn.2, congrArg Prod.snd htorn.2⟩

theorem not_mem_empty (h : IsLineList start lines) : ([], []) ∉ lines.map Line.parts := by
  intro hmem
  obtain ⟨l, hl, hparts⟩ := List.mem_map.mp hmem
  obtain ⟨k, hk⟩ := List.getElem?_of_mem hl
  have htext : l.text = [] := congrArg Prod.fst hparts
  have hending : l.ending = [] := congrArg Prod.snd hparts
  rcases h.ended k l hk with he | ⟨-, hne, -⟩
  · exact he.ne_nil hending
  · exact hne htext

theorem number_parts_eq (h : IsLineList start lines) :
    number start (lines.map Line.parts) = lines := by
  induction lines generalizing start with
  | nil => rfl
  | cons l rest ih =>
    obtain ⟨rfl, -, -, -, hrest⟩ := isLineList_cons_iff.mp h
    rw [List.map_cons, Line.parts, number, ih hrest]

end IsLineList

/-- The lines of a text are such a list: no line is empty without an ending, and endings are not
torn apart. -/
theorem isLineList_number {ps : List (Text × Text)} (h : IsCut ps) (hne : ([], []) ∉ ps)
    (start : Nat) : IsLineList start (number start ps) := by
  induction ps generalizing start with
  | nil => exact isLineList_nil start
  | cons p rest ih =>
    obtain ⟨t, e⟩ := p
    obtain ⟨ht, he, hseam, hrest⟩ := h
    have hmore := ih hrest (fun hp => hne (List.mem_cons_of_mem _ hp)) (start + 1)
    refine isLineList_cons_iff.mpr ⟨rfl, ht, ?_, ?_, hmore⟩
    · refine he.imp_right fun ⟨he, hnil⟩ => ⟨he, ?_, by rw [hnil]; rfl⟩
      rintro rfl
      exact hne (by simp [he])
    · rintro b hb ⟨hcr, htext, hending⟩
      cases rest with
      | nil => cases hb
      | cons q more =>
        obtain rfl := Option.some.inj hb
        obtain ⟨u, f⟩ := q
        obtain rfl : u = [] := htext
        obtain rfl : f = ['\n'] := hending
        exact hseam hcr (by simp)

theorem linesFrom?_nat (start : Nat) (t : Text) : linesFrom? start t = .ok (linesFrom start t) := by
  simp [linesFrom?]

/-- Splitting never fails on a number from zero on and gives a list of lines that joins to the text;
and every such list comes back when the text that it joins to is split. -/
theorem lines_invert_joining (start : Nat) :
    (∀ t, ∃ lines, linesFrom? start t = .ok lines ∧ lines.flatMap Line.source = t ∧
      IsLineList start lines) ∧
    ∀ lines, IsLineList start lines →
      linesFrom? start (lines.flatMap Line.source) = .ok lines := by
  constructor
  · intro t
    refine ⟨linesFrom start t, linesFrom?_nat start t, ?_, ?_⟩
    · rw [flatMap_source, linesFrom, number_parts, joinLines_cut]
    · exact isLineList_number (cut_isCut t) (cut_ne_empty t) start
  · intro lines h
    rw [linesFrom?_nat, flatMap_source, linesFrom, cut_joinLines h.isCut h.not_mem_empty,
      h.number_parts_eq]

/-- A CR before an empty line is a whole ending if that line does not end with LF alone. -/
theorem lines_invert_joining_mixed :
    IsLineList 3 [⟨['a'], 3, ['\r']⟩, ⟨[], 4, ['\r', '\n']⟩, ⟨[], 5, ['\n']⟩, ⟨['b'], 6, []⟩] ∧
      linesFrom? 3 ['a', '\r', '\r', '\n', '\n', 'b'] =
        .ok [⟨['a'], 3, ['\r']⟩, ⟨[], 4, ['\r', '\n']⟩, ⟨[], 5, ['\n']⟩, ⟨['b'], 6, []⟩] := by
  have h : IsLineList 3
      [⟨['a'], 3, ['\r']⟩, ⟨[], 4, ['\r', '\n']⟩, ⟨[], 5, ['\n']⟩, ⟨['b'], 6, []⟩] := by
    simp [isLineList_cons_iff, isLineList_nil, Unbroken, IsEnding]
  exact ⟨h, (lines_invert_joining 3).2 _ h⟩

end HardWrap
