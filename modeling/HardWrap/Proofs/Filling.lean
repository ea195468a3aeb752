import HardWrap.Fill
import HardWrap.Proofs.Lines

/-! Filled lines. Packing keeps the words in order, puts at least one on every line, and is the only
grouping in which each line holds one word or fits and has no room for the word after it. -/

namespace HardWrap

open Text

@[simp] theorem extraWidth_nil : extraWidth [] = 0 := rfl

@[simp] theorem extraWidth_cons (w : Text) (ws : List Text) :
    extraWidth (w :: ws) = w.length + 1 + extraWidth ws := rfl

theorem length_joinWords (w : Text) (ws : List Text) :
    (joinWords (w :: ws)).length = w.length + extraWidth ws := by
  induction ws generalizing w with
  | nil => simp
  | cons v ws ih =>
    rw [joinWords_cons_cons, List.length_append, List.length_cons, ih, extraWidth_cons]
    omega

/-- Grouped words of which each line holds one word or fits, and has no room for the first word of
the next one. The first line starts after `margin` characters, the others after `later`. -/
def IsGreedy (later : Nat) (width : Int) : (margin : Nat) → List (List Text) → Prop
  | _, [] => True
  | margin, line :: more =>
    line ≠ [] ∧ (line.length = 1 ∨ (margin + (joinWords line).length : Int) ≤ width) ∧
      (∀ next ∈ more.head?, ∀ w ∈ next.head?,
        width < margin + (joinWords line).length + 1 + w.length) ∧
      IsGreedy later width later more

instance isGreedyDecidable (later : Nat) (width : Int) :
    (margin : Nat) → (groups : List (List Text)) → Decidable (IsGreedy later width margin groups)
  | _, [] => inferInstanceAs (Decidable True)
  | _, _ :: more =>
    have := isGreedyDecidable later width later more
    inferInstanceAs (Decidable (_ ∧ _ ∧ _ ∧ _))

theorem IsGreedy.nonempty {later margin : Nat} {width : Int} {groups : List (List Text)}
    (h : IsGreedy later width margin groups) : ∀ line ∈ groups, line ≠ [] := by
  induction groups generalizing margin with
  | nil => simp
  | cons line more ih =>
    intro l hl
    rcases List.mem_cons.mp hl with rfl | hl
    · exact h.1
    · exact ih h.2.2.2 l hl

theorem continueLine_flatten (later : Nat) (width : Int) (length : Nat) (ws : List Text) :
    (continueLine later width length ws).1 ++ (continueLine later width length ws).2.flatten
      = ws := by
  induction ws generalizing length with
  | nil => rfl
  | cons w ws ih =>
    simp only [continueLine]
    split
    · simpa using ih (length + 1 + w.length)
    · simpa using ih (later + w.length)

/-- What the words that still go onto a line and the lines after it are like. -/
theorem continueLine_greedy (later : Nat) (width : Int) (length : Nat) (ws : List Text) :
    let r := continueLine later width length ws
    (r.1 = [] ∨ (length + extraWidth r.1 : Int) ≤ width) ∧
      (∀ next ∈ r.2.head?, ∀ w ∈ next.head?,
        width < length + extraWidth r.1 + 1 + w.length) ∧
      IsGreedy later width later r.2 := by
  induction ws generalizing length with
  | nil => simp [continueLine, IsGreedy]
  | cons w ws ih =>
    simp only [continueLine]
    split
    next hfit =>
      obtain ⟨hline, hfull, hmore⟩ := ih (length + 1 + w.length)
      refine ⟨Or.inr ?_, ?_, hmore⟩
      · rcases hline with hnil | hle
        · simp only [hnil, extraWidth_cons, extraWidth_nil]
          omega
        · simp only [extraWidth_cons]
          omega
      · intro next hnext v hv
        have := hfull next hnext v hv
        simp only [extraWidth_cons]
        omega
    next hwide =>
      obtain ⟨hline, hfull, hmore⟩ := ih (later + w.length)
      refine ⟨Or.inl rfl, ?_, by simp, ?_, ?_, hmore⟩
      · intro next hnext v hv
        simp only [List.head?_cons, Option.mem_def, Option.some.injEq] at hnext
        subst hnext
        simp only [List.head?_cons, Option.mem_def, Option.some.injEq] at hv
        subst hv
        simp only [extraWidth_nil]
        omega
      · rcases hline with hnil | hle
        · exact Or.inl (by simp [hnil])
        · rw [length_joinWords]
          exact Or.inr (by omega)
      · intro next hnext v hv
        have := hfull next hnext v hv
        rw [length_joinWords]
        omega

/-- There is only one such way to go on. -/
theorem continueLine_eq {later : Nat} {width : Int} {length : Nat} {line : List Text}
    {more : List (List Text)}
    (hline : line = [] ∨ (length + extraWidth line : Int) ≤ width)
    (hfull : ∀ next ∈ more.head?, ∀ w ∈ next.head?,
      width < length + extraWidth line + 1 + w.length)
    (hmore : IsGreedy later width later more) :
    continueLine later width length (line ++ more.flatten) = (line, more) := by
  induction more generalizing line length with
  | nil =>
    induction line generalizing length with
    | nil => rfl
    | cons w line ih =>
      simp only [reduceCtorEq, extraWidth_cons, false_or] at hline
      have hfit : (length + 1 + w.length : Int) ≤ width := by omega
      have hrest : continueLine later width (length + 1 + w.length) (line ++ [].flatten)
          = (line, []) := ih (Or.inr (by omega)) (by simp)
      simp only [List.cons_append, continueLine, hfit, ↓reduceIte]
      rw [hrest]
  | cons next more ihm =>
    induction line generalizing length with
    | nil =>
      obtain ⟨hne, hfits, hnext, hrest⟩ := hmore
      obtain ⟨w, ws, rfl⟩ := List.exists_cons_of_ne_nil hne
      have hwide := hfull (w :: ws) rfl w rfl
      have hno : ¬ (length + 1 + w.length : Int) ≤ width := by
        simp only [extraWidth_nil] at hwide
        omega
      rw [length_joinWords] at hfits hnext
      have hcont : continueLine later width (later + w.length) (ws ++ more.flatten)
          = (ws, more) := by
        refine ihm ?_ ?_ hrest
        · rcases hfits with hone | hle
          · exact Or.inl (by simpa using hone)
          · exact Or.inr (by omega)
        · intro l hl v hv
          have := hnext l hl v hv
          omega
      simp [continueLine, hno, hcont]
    | cons w line ih =>
      simp only [reduceCtorEq, extraWidth_cons, false_or] at hline
      have hfit : (length + 1 + w.length : Int) ≤ width := by omega
      have hrest : continueLine later width (length + 1 + w.length)
          (line ++ (next :: more).flatten) = (line, next :: more) := by
        refine ih (Or.inr (by omega)) ?_
        intro l hl v hv
        have := hfull l hl v hv
        simp only [extraWidth_cons] at this
        omega
      simp only [List.cons_append, continueLine, hfit, ↓reduceIte]
      rw [hrest]

theorem packWords_flatten (frame : Frame) (width : Int) (ws : List Text) :
    (packWords frame width ws).flatten = ws := by
  cases ws with
  | nil => rfl
  | cons w ws => simp [packWords, continueLine_flatten]

theorem packWords_isGreedy (frame : Frame) (width : Int) (ws : List Text) :
    IsGreedy frame.later.length width frame.first.length (packWords frame width ws) := by
  cases ws with
  | nil => trivial
  | cons w ws =>
    obtain ⟨hline, hfull, hmore⟩ :=
      continueLine_greedy frame.later.length width (frame.first.length + w.length) ws
    refine ⟨by simp, ?_, ?_, hmore⟩
    · rcases hline with hnil | hle
      · exact Or.inl (by simp [hnil])
      · rw [length_joinWords]
        exact Or.inr (by omega)
    · intro next hnext v hv
      have := hfull next hnext v hv
      rw [length_joinWords]
      omega

theorem packWords_of_isGreedy {frame : Frame} {width : Int} {groups : List (List Text)}
    (h : IsGreedy frame.later.length width frame.first.length groups) :
    packWords frame width groups.flatten = groups := by
  cases groups with
  | nil => rfl
  | cons line more =>
    obtain ⟨hne, hfits, hnext, hmore⟩ := h
    obtain ⟨w, ws, rfl⟩ := List.exists_cons_of_ne_nil hne
    rw [length_joinWords] at hfits hnext
    have hcont : continueLine frame.later.length width (frame.first.length + w.length)
        (ws ++ more.flatten) = (ws, more) := by
      refine continueLine_eq ?_ ?_ hmore
      · rcases hfits with hone | hle
        · exact Or.inl (by simpa using hone)
        · exact Or.inr (by omega)
      · intro l hl v hv
        have := hnext l hl v hv
        omega
    simp [packWords, hcont]

/-- Words that are not empty are packed as they are. -/
theorem pack_eq_packWords (frame : Frame) (width : Int) {ws : List Text}
    (h : ∀ w ∈ ws, IsWord w) : pack frame width ws = packWords frame width ws := by
  rw [pack, List.filter_eq_self.mpr]
  intro w hw
  simpa using (h w hw).1

theorem pack_flatten (frame : Frame) (width : Int) {ws : List Text} (h : ∀ w ∈ ws, IsWord w) :
    (pack frame width ws).flatten = ws := by
  rw [pack_eq_packWords frame width h, packWords_flatten]

theorem pack_isGreedy (frame : Frame) (width : Int) (ws : List Text) :
    IsGreedy frame.later.length width frame.first.length (pack frame width ws) :=
  packWords_isGreedy frame width _

theorem pack_nonempty (frame : Frame) (width : Int) (ws : List Text) :
    ∀ line ∈ pack frame width ws, line ≠ [] :=
  (pack_isGreedy frame width ws).nonempty

theorem pack_isWord (frame : Frame) (width : Int) {ws : List Text} (h : ∀ w ∈ ws, IsWord w) :
    ∀ line ∈ pack frame width ws, ∀ w ∈ line, IsWord w := by
  intro line hl w hw
  apply h
  rw [← pack_flatten frame width h]
  exact List.mem_flatten.mpr ⟨line, hl, hw⟩

theorem pack_ne_nil (frame : Frame) (width : Int) {ws : List Text} (h : ∀ w ∈ ws, IsWord w)
    (hne : ws ≠ []) : pack frame width ws ≠ [] := by
  intro hnil
  apply hne
  rw [← pack_flatten frame width h, hnil, List.flatten_nil]

/-! ### Filled lines as written -/

/-- The contents of filled lines. -/
def layLines (frame : Frame) : List (List Text) → List Text
  | [] => []
  | line :: more => (frame.first ++ joinWords line) :: more.map fun l => frame.later ++ joinWords l

theorem writeLines_eq (frame : Frame) (ending : Text) (groups : List (List Text)) :
    writeLines frame ending groups
      = joinLines ((layLines frame groups).map fun t => (t, ending)) := by
  cases groups with
  | nil => rfl
  | cons line more =>
    have hmore : more.flatMap (writeLine frame.later ending)
        = joinLines (more.map fun l => (frame.later ++ joinWords l, ending)) := by
      rw [joinLines, List.flatMap_map]
      rfl
    simp [writeLines, layLines, writeLine, List.map_map, Function.comp_def, hmore]

theorem writeLines_cons_cons (frame : Frame) (ending : Text) (line next : List Text)
    (more : List (List Text)) :
    ∃ x, writeLines frame ending (line :: next :: more) =
      frame.first ++ joinWords line ++ (ending ++ x) ++ ending := by
  obtain ⟨front, last, hm⟩ := (List.eq_nil_or_concat' (next :: more)).resolve_left (by simp)
  refine ⟨front.flatMap (writeLine frame.later ending) ++ (frame.later ++ joinWords last), ?_⟩
  rw [hm]
  simp [writeLines, writeLine]

end HardWrap
