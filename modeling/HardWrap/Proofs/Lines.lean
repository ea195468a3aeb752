import HardWrap.Line.Basic
import HardWrap.Proofs.Words

/-! Cut lines. Putting the cut lines of a text together gives the text back. No content holds a line
ending, only the last line may lack one, and a line that ends with CR is never followed by LF. Lines
like that, put together, are cut the same way again. -/

namespace HardWrap

/-- A line ending: CR LF, CR or LF. -/
def IsEnding (e : Text) : Prop :=
  e = ['\r', '\n'] ∨ e = ['\r'] ∨ e = ['\n']

/-- A text without line endings. -/
def Unbroken (t : Text) : Prop :=
  ∀ c ∈ t, c ≠ '\r' ∧ c ≠ '\n'

theorem IsEnding.ne_nil {e : Text} (h : IsEnding e) : e ≠ [] := by
  rcases h with rfl | rfl | rfl <;> simp

theorem IsEnding.blank {e : Text} (h : IsEnding e) : Text.IsBlankText e := by
  intro c hc
  rcases h with rfl | rfl | rfl
  · rcases List.mem_cons.mp hc with rfl | hc
    · exact isBlank_cr
    · rw [List.mem_singleton.mp hc]
      exact isBlank_lf
  · rw [List.mem_singleton.mp hc]
    exact isBlank_cr
  · rw [List.mem_singleton.mp hc]
    exact isBlank_lf

theorem IsEnding.head {e : Text} (h : IsEnding e) :
    ∃ c r, e = c :: r ∧ (c = '\r' ∨ c = '\n') := by
  rcases h with rfl | rfl | rfl
  · exact ⟨_, _, rfl, Or.inl rfl⟩
  · exact ⟨_, _, rfl, Or.inl rfl⟩
  · exact ⟨_, _, rfl, Or.inr rfl⟩

theorem Unbroken.append {a b : Text} (ha : Unbroken a) (hb : Unbroken b) : Unbroken (a ++ b) := by
  intro c hc
  rcases List.mem_append.mp hc with hc | hc
  · exact ha c hc
  · exact hb c hc

/-- The content of a first line and what follows it are determined by the text. -/
theorem Unbroken.first_line_unique {a b e f x y : Text} (ha : Unbroken a) (hb : Unbroken b)
    (he : IsEnding e) (hf : IsEnding f) (h : a ++ (e ++ x) = b ++ (f ++ y)) :
    a = b ∧ e ++ x = f ++ y := by
  induction a generalizing b with
  | nil =>
    cases b with
    | nil => exact ⟨rfl, h⟩
    | cons d b =>
      obtain ⟨c, r, rfl, hc⟩ := he.head
      have hd := hb d (by simp)
      obtain ⟨rfl, -⟩ := List.cons.inj h
      rcases hc with rfl | rfl <;> simp at hd
  | cons c a ih =>
    cases b with
    | nil =>
      obtain ⟨d, r, rfl, hd⟩ := hf.head
      have hc := ha c (by simp)
      obtain ⟨rfl, -⟩ := List.cons.inj h
      rcases hd with rfl | rfl <;> simp at hc
    | cons d b =>
      obtain ⟨rfl, hrest⟩ := List.cons.inj h
      obtain ⟨rfl, hend⟩ := ih (fun e he => ha e (List.mem_cons_of_mem _ he))
        (fun e he => hb e (List.mem_cons_of_mem _ he)) hrest
      exact ⟨rfl, hend⟩

namespace Text

/-- Contents and endings put together. -/
def joinLines (ps : List (Text × Text)) : Text :=
  ps.flatMap fun p => p.1 ++ p.2

@[simp] theorem joinLines_nil : joinLines [] = [] := rfl

@[simp] theorem joinLines_cons (t e : Text) (ps : List (Text × Text)) :
    joinLines ((t, e) :: ps) = t ++ (e ++ joinLines ps) := by
  simp [joinLines]

@[simp] theorem joinLines_append (ps qs : List (Text × Text)) :
    joinLines (ps ++ qs) = joinLines ps ++ joinLines qs := by
  simp [joinLines]

/-- Lines as they come out of one text. -/
def IsCut : List (Text × Text) → Prop
  | [] => True
  | (t, e) :: more =>
    Unbroken t ∧ (IsEnding e ∨ e = [] ∧ more = []) ∧
      (e = ['\r'] → (joinLines more).head? ≠ some '\n') ∧ IsCut more

theorem IsCut.tail {p : Text × Text} {ps : List (Text × Text)} (h : IsCut (p :: ps)) : IsCut ps :=
  h.2.2.2

theorem IsCut.drop {ps : List (Text × Text)} (h : IsCut ps) (n : Nat) : IsCut (ps.drop n) := by
  induction n generalizing ps with
  | zero => exact h
  | succ n ih =>
    cases ps with
    | nil => exact h
    | cons p ps => exact ih h.tail

theorem IsCut.of_append {ps qs : List (Text × Text)} (h : IsCut (ps ++ qs)) : IsCut ps := by
  induction ps with
  | nil => trivial
  | cons p ps ih =>
    obtain ⟨t, e⟩ := p
    rw [List.cons_append] at h
    obtain ⟨ht, he, hwhole, hrest⟩ := h
    have hlast : IsEnding e ∨ e = [] ∧ ps = [] := by
      rcases he with he | ⟨he, hnil⟩
      · exact Or.inl he
      · exact Or.inr ⟨he, (List.append_eq_nil_iff.mp hnil).1⟩
    refine ⟨ht, hlast, ?_, ih hrest⟩
    intro hcr hlf
    apply hwhole hcr
    rw [joinLines_append, List.head?_append, hlf]
    rfl

/-- A line that another one follows has an ending. -/
theorem IsCut.ending_of_append {ps qs : List (Text × Text)} (h : IsCut (ps ++ qs)) (hq : qs ≠ []) :
    ∀ p ∈ ps, IsEnding p.2 := by
  induction ps with
  | nil => simp
  | cons p ps ih =>
    intro q hq'
    rcases List.mem_cons.mp hq' with rfl | hq'
    · rcases h.2.1 with he | ⟨-, hnil⟩
      · exact he
      · exact absurd (List.append_eq_nil_iff.mp hnil).2 hq
    · exact ih h.tail q hq'

theorem IsCut.unbroken {ps : List (Text × Text)} (h : IsCut ps) : ∀ p ∈ ps, Unbroken p.1 := by
  induction ps with
  | nil => simp
  | cons p ps ih =>
    intro q hq
    rcases List.mem_cons.mp hq with rfl | hq
    · exact h.1
    · exact ih h.tail q hq

theorem IsCut.ending_or_nil {ps : List (Text × Text)} (h : IsCut ps) :
    ∀ p ∈ ps, IsEnding p.2 ∨ p.2 = [] := by
  induction ps with
  | nil => simp
  | cons p ps ih =>
    intro q hq
    rcases List.mem_cons.mp hq with rfl | hq
    · exact h.2.1.imp_right And.left
    · exact ih h.tail q hq

theorem endsAtGap_ended {e : Text} (he : IsEnding e) (t : Text) : endsAtGap (t ++ e) = true := by
  rw [endsAtGap_append he.ne_nil]
  exact endsAtGap_of_blank he.blank

theorem words_ended {e : Text} (he : IsEnding e) (t rest : Text) :
    words (t ++ (e ++ rest)) = words t ++ words rest := by
  rw [← List.append_assoc, words_append_of_endsAtGap (endsAtGap_ended he t),
    words_append_blank he.blank]

theorem words_joinLines {ps : List (Text × Text)} (h : ∀ p ∈ ps, IsEnding p.2) :
    words (joinLines ps) = ps.flatMap fun p => words p.1 := by
  induction ps with
  | nil => rfl
  | cons p ps ih =>
    obtain ⟨t, e⟩ := p
    rw [joinLines_cons, words_ended (h (t, e) (by simp)),
      ih fun q hq => h q (List.mem_cons_of_mem _ hq)]
    rfl

theorem bareWords_joinLines {ps : List (Text × Text)} (h : ∀ p ∈ ps, IsEnding p.2) :
    bareWords (joinLines ps) = ps.flatMap fun p => bareWords p.1 := by
  rw [bareWords, words_joinLines h, bare_flatMap]
  rfl

theorem IsCut.words_eq {ps : List (Text × Text)} (h : IsCut ps) :
    words (joinLines ps) = ps.flatMap fun p => words p.1 := by
  induction ps with
  | nil => rfl
  | cons p ps ih =>
    obtain ⟨t, e⟩ := p
    rcases h.2.1 with he | ⟨rfl, rfl⟩
    · rw [joinLines_cons, words_ended he, ih h.tail]
      rfl
    · simp

theorem IsCut.bareWords_eq {ps : List (Text × Text)} (h : IsCut ps) :
    bareWords (joinLines ps) = ps.flatMap fun p => bareWords p.1 := by
  rw [bareWords, h.words_eq, bare_flatMap]
  rfl

theorem joinLines_extendLine (c : Char) (ps : List (Text × Text)) :
    joinLines (extendLine c ps) = c :: joinLines ps := by
  cases ps with
  | nil => rfl
  | cons p ps => rfl

theorem joinLines_cut (t : Text) : joinLines (cut t) = t := by
  fun_induction cut t with
  | case1 => rfl
  | case2 rest ih => simp [ih]
  | case3 c rest _ hc ih => simp [ih]
  | case4 c rest _ hc ih => rw [joinLines_extendLine, ih]

theorem cut_isCut (t : Text) : IsCut (cut t) := by
  fun_induction cut t with
  | case1 => trivial
  | case2 rest ih =>
    exact ⟨by simp [Unbroken], Or.inl (Or.inl rfl), by simp, ih⟩
  | case3 c rest hno hc ih =>
    refine ⟨by simp [Unbroken], ?_, ?_, ih⟩
    · simp only [Bool.or_eq_true, decide_eq_true_eq] at hc
      rcases hc with rfl | rfl
      · exact Or.inl (Or.inr (Or.inl rfl))
      · exact Or.inl (Or.inr (Or.inr rfl))
    · -- A CR before LF would have been read as one ending.
      intro he hh
      obtain rfl : c = '\r' := by simpa using he
      rw [joinLines_cut] at hh
      obtain ⟨r, rfl⟩ := List.head?_eq_some_iff.mp hh
      exact hno r rfl rfl
  | case4 c rest _ hc ih =>
    simp only [Bool.or_eq_true, decide_eq_true_eq, not_or] at hc
    cases hcut : cut rest with
    | nil => exact ⟨by simpa [Unbroken] using hc, Or.inr ⟨rfl, rfl⟩, by simp, trivial⟩
    | cons p ps =>
      rw [hcut] at ih
      refine ⟨?_, ih.2⟩
      intro d hd
      rcases List.mem_cons.mp hd with rfl | hd
      · exact hc
      · exact ih.1 d hd

theorem cut_unbroken {t : Text} (ht : Unbroken t) (hne : t ≠ []) : cut t = [(t, [])] := by
  induction t with
  | nil => exact absurd rfl hne
  | cons c t ih =>
    have hc := ht c (by simp)
    have ht' : Unbroken t := fun d hd => ht d (List.mem_cons_of_mem _ hd)
    by_cases hnil : t = []
    · subst hnil
      simp [cut, hc, extendLine]
    · rw [cut]
      · simp [hc, ih ht' hnil, extendLine]
      · intro r h
        exact absurd h hc.1

/-- The first line of a text, if its ending is not the half of a longer one. -/
theorem cut_line {t e : Text} (ht : Unbroken t) (he : IsEnding e) (rest : Text)
    (hwhole : e = ['\r'] → rest.head? ≠ some '\n') :
    cut (t ++ (e ++ rest)) = (t, e) :: cut rest := by
  induction t with
  | nil =>
    rcases he with rfl | rfl | rfl
    · simp [cut]
    · have hlf := hwhole rfl
      rw [List.nil_append, List.singleton_append, cut]
      · simp
      · intro r _ h
        simp [h] at hlf
    · simp [cut]
  | cons c t ih =>
    have hc := ht c (by simp)
    have ht' : Unbroken t := fun d hd => ht d (List.mem_cons_of_mem _ hd)
    rw [List.cons_append, cut]
    · simp [hc, ih ht', extendLine]
    · intro r h
      exact absurd h hc.1

/-- Lines that come out of a text are found again when the text is cut. -/
theorem cut_joinLines {ps : List (Text × Text)} (h : IsCut ps) (hne : ([], []) ∉ ps) :
    cut (joinLines ps) = ps := by
  induction ps with
  | nil => rfl
  | cons p ps ih =>
    obtain ⟨t, e⟩ := p
    obtain ⟨ht, hend, hwhole, hrest⟩ := h
    rw [joinLines_cons]
    rcases hend with he | ⟨rfl, rfl⟩
    · rw [cut_line ht he _ hwhole, ih hrest fun hp => hne (List.mem_cons_of_mem _ hp)]
    · have htne : t ≠ [] := by
        rintro rfl
        exact hne (by simp)
      simpa using cut_unbroken ht htne

theorem firstEnding?_isEnding {t e : Text} (h : firstEnding? t = some e) : IsEnding e := by
  fun_induction firstEnding? t with
  | case1 => simp at h
  | case2 rest => exact Or.inl (Option.some.inj h).symm
  | case3 c rest _ hc =>
    obtain rfl := Option.some.inj h
    simp only [Bool.or_eq_true, decide_eq_true_eq] at hc
    rcases hc with rfl | rfl
    · exact Or.inr (Or.inl rfl)
    · exact Or.inr (Or.inr rfl)
  | case4 c rest _ hc ih => exact ih h

/-- The first line ending of a text, if it is not the half of a longer one. -/
theorem firstEnding?_line {t e : Text} (ht : Unbroken t) (he : IsEnding e) (rest : Text)
    (hwhole : e = ['\r'] → rest.head? ≠ some '\n') : firstEnding? (t ++ (e ++ rest)) = some e := by
  induction t with
  | nil =>
    rcases he with rfl | rfl | rfl
    · simp [firstEnding?]
    · have hlf := hwhole rfl
      rw [List.nil_append, List.singleton_append, firstEnding?]
      · simp
      · intro r _ h
        simp [h] at hlf
    · simp [firstEnding?]
  | cons c t ih =>
    have hc := ht c (by simp)
    have ht' : Unbroken t := fun d hd => ht d (List.mem_cons_of_mem _ hd)
    rw [List.cons_append, firstEnding?]
    · simp [hc, ih ht']
    · intro r h
      exact absurd h hc.1

theorem newEnding_isEnding (t : Text) : IsEnding (newEnding t) := by
  unfold newEnding
  cases h : firstEnding? t with
  | none => exact Or.inr (Or.inr rfl)
  | some e => exact firstEnding?_isEnding h

end Text

/-- A line without its number. -/
def Line.parts (line : Line) : Text × Text :=
  (line.text, line.ending)

@[simp] theorem number_parts (start : Nat) (ps : List (Text × Text)) :
    (Text.number start ps).map Line.parts = ps := by
  induction ps generalizing start with
  | nil => rfl
  | cons p ps ih => simp [Text.number, Line.parts, ih]

@[simp] theorem lines_parts (t : Text) : t.lines.map Line.parts = Text.cut t :=
  number_parts 0 _

end HardWrap
