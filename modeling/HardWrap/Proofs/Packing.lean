import HardWrap.Proofs.Filling

/-! Packing is exact and needs the fewest lines. It gives the one grouping of the words in which
every line holds one word or fits, and has no room for the word after it. A grouping in which every
line fits never gets ahead of it: whatever such a grouping has put onto its first lines, packing has
put onto as many lines. -/

namespace HardWrap

open Text

/-- Grouped words of which each line holds at least one word, and holds only one or fits. The first
line starts after `margin` characters, the others after `later`. -/
def IsFitting (later : Nat) (width : Int) : (margin : Nat) → List (List Text) → Prop
  | _, [] => True
  | margin, line :: more =>
    line ≠ [] ∧ (line.length = 1 ∨ (margin + (joinWords line).length : Int) ≤ width) ∧
      IsFitting later width later more

instance isFittingDecidable (later : Nat) (width : Int) :
    (margin : Nat) → (groups : List (List Text)) → Decidable (IsFitting later width margin groups)
  | _, [] => inferInstanceAs (Decidable True)
  | _, _ :: more =>
    have := isFittingDecidable later width later more
    inferInstanceAs (Decidable (_ ∧ _ ∧ _))

theorem extraWidth_append (ws vs : List Text) :
    extraWidth (ws ++ vs) = extraWidth ws + extraWidth vs := by
  induction ws with
  | nil => simp
  | cons w ws ih =>
    rw [List.cons_append, extraWidth_cons, extraWidth_cons, ih]
    omega

/-- A line is as wide as its words, each with a space, less one space. -/
theorem length_joinWords_succ {line : List Text} (h : line ≠ []) :
    (joinWords line).length + 1 = extraWidth line := by
  obtain ⟨w, ws, rfl⟩ := List.exists_cons_of_ne_nil h
  rw [length_joinWords, extraWidth_cons]
  omega

theorem head?_flatten_of_nonempty {groups : List (List Text)} (h : ∀ line ∈ groups, line ≠ [])
    {w : Text} {ws : List Text} (hflat : groups.flatten = w :: ws) :
    ∃ line, groups.head? = some line ∧ line.head? = some w := by
  cases groups with
  | nil => cases hflat
  | cons line more =>
    obtain ⟨v, vs, rfl⟩ := List.exists_cons_of_ne_nil (h line (by simp))
    rw [List.flatten_cons, List.cons_append] at hflat
    obtain ⟨rfl, -⟩ := List.cons.inj hflat
    exact ⟨v :: vs, rfl, rfl⟩

/-- A line that starts no later than a greedy line does not reach beyond it, unless it is too
wide. -/
theorem IsGreedy.length_le {later margin : Nat} {width : Int} {line : List Text}
    {more : List (List Text)} (h : IsGreedy later width margin (line :: more))
    {ahead other rest : List Text} (hother : other.length = 1 ∨
      (margin + (joinWords other).length : Int) ≤ width)
    (hwords : other ++ rest = ahead ++ line ++ more.flatten) :
    other.length ≤ (ahead ++ line).length := by
  obtain ⟨hne, -, hfull, hmore⟩ := h
  by_contra hlong
  -- Then it holds the greedy line and the word after it, for which there was no room.
  obtain ⟨beyond, rfl, hrest⟩ : ∃ beyond, other = (ahead ++ line) ++ beyond ∧
      more.flatten = beyond ++ rest := by
    rcases List.append_eq_append_iff.mp hwords with ⟨as, hahead, -⟩ | ⟨bs, hother, hflat⟩
    · rw [hahead, List.length_append] at hlong
      omega
    · exact ⟨bs, hother, hflat⟩
  cases beyond with
  | nil => simp at hlong
  | cons w ws =>
    obtain ⟨next, hnext, hw⟩ := head?_flatten_of_nonempty hmore.nonempty hrest
    have hwide := hfull next hnext w hw
    have hline := length_joinWords_succ hne
    have hall : (joinWords (ahead ++ line ++ w :: ws)).length + 1 = _ :=
      length_joinWords_succ (by simp)
    rw [extraWidth_append, extraWidth_append, extraWidth_cons] at hall
    have hpos := List.length_pos_of_ne_nil hne
    rcases hother with hone | hfits
    · simp only [List.length_append, List.length_cons] at hone
      omega
    · omega

/-- The words that a greedy grouping has still to place are always among those that another one has
still to place, so it is finished first. -/
theorem IsGreedy.length_le_of_ahead {later margin : Nat} {width : Int}
    {groups others : List (List Text)} (h : IsGreedy later width margin groups)
    (hothers : IsFitting later width margin others) {ahead : List Text}
    (hwords : others.flatten = ahead ++ groups.flatten) : groups.length ≤ others.length := by
  induction groups generalizing margin others ahead with
  | nil => exact Nat.zero_le _
  | cons line more ih =>
    cases others with
    | nil =>
      rw [List.flatten_nil, List.flatten_cons, eq_comm, List.append_eq_nil_iff,
        List.append_eq_nil_iff] at hwords
      exact absurd hwords.2.1 h.1
    | cons other others =>
      obtain ⟨-, hfits, hrest⟩ := hothers
      rw [List.flatten_cons, List.flatten_cons, ← List.append_assoc] at hwords
      have hreach := h.length_le hfits hwords
      obtain ⟨left, hleft⟩ : ∃ left, others.flatten = left ++ more.flatten := by
        rcases List.append_eq_append_iff.mp hwords with ⟨left, -, hflat⟩ | ⟨beyond, hother, hflat⟩
        · exact ⟨left, hflat⟩
        · rw [hother, List.length_append] at hreach
          have hnil : beyond = [] := List.length_eq_zero_iff.mp (by omega)
          exact ⟨[], by rw [hflat, hnil]; rfl⟩
      exact Nat.succ_le_succ (ih h.2.2.2 hrest hleft)

/-- Packing gives the one greedy grouping of the words that are not empty, in order: each line holds
one word or fits, and the first word of the next line would not have fitted on it. No grouping whose
lines hold one word or fit has fewer lines. -/
theorem pack_is_greedy_and_least (frame : Frame) (width : Int) (ws : List Text) :
    (∀ groups, groups = pack frame width ws ↔
      groups.flatten = ws.filter (fun w => !w.isEmpty) ∧
        IsGreedy frame.later.length width frame.first.length groups) ∧
    ∀ groups, groups.flatten = ws.filter (fun w => !w.isEmpty) →
      IsFitting frame.later.length width frame.first.length groups →
        (pack frame width ws).length ≤ groups.length := by
  have hwords : (pack frame width ws).flatten = ws.filter fun w => !w.isEmpty :=
    packWords_flatten frame width _
  have hgreedy := pack_isGreedy frame width ws
  constructor
  · intro groups
    constructor
    · rintro rfl
      exact ⟨hwords, hgreedy⟩
    · rintro ⟨hflat, h⟩
      rw [pack, ← hflat, packWords_of_isGreedy h]
  · intro groups hflat hfits
    have hahead : groups.flatten = [] ++ (pack frame width ws).flatten := by
      rw [hflat, hwords]
      rfl
    exact hgreedy.length_le_of_ahead hfits hahead

/-- The word of twelve letters overflows on a line of its own, and the empty word is not placed. -/
theorem pack_is_greedy_and_least_overlong :
    ∃ (frame : Frame) (ws : List Text) (groups : List (List Text)),
      frame = ⟨"  ".toList, "    ".toList⟩ ∧
      ws = ["aa", "", "bbb", "twelve-wide!", "d", "ee"].map String.toList ∧
      groups = [["aa"], ["bbb"], ["twelve-wide!"], ["d", "ee"]].map (List.map String.toList) ∧
      groups.flatten = ws.filter (fun w => !w.isEmpty) ∧
      IsFitting frame.later.length 9 frame.first.length groups ∧
      pack frame 9 ws =
        [["aa", "bbb"], ["twelve-wide!"], ["d", "ee"]].map (List.map String.toList) ∧
      (pack frame 9 ws).length ≤ groups.length := by
  refine ⟨_, _, _, rfl, rfl, rfl, by decide +kernel, by decide +kernel, ?_, ?_⟩
  · exact (((pack_is_greedy_and_least _ 9 _).1 _).mpr
      ⟨by decide +kernel, by decide +kernel⟩).symm
  · exact (pack_is_greedy_and_least _ 9 _).2 _ (by decide +kernel) (by decide +kernel)

end HardWrap
