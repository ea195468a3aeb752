import HardWrap.Line.Environment
import HardWrap.Proofs.Words

/-! Where environment tokens stand. A line is scanned from left to right, and after a token the scan
goes on behind it. Nothing is lost that way: between the first and the last character of a token no
other token starts, because up to the opening brace there is no second backslash, and after it a
closing brace comes before the next opening one. So the scan finds what trying every position would
find. -/

namespace HardWrap

open Text

theorem Border.keyword_ne_empty (border : Border) : border.keyword ≠ "" := by
  cases border <;> decide

theorem Border.keyword_plain (border : Border) :
    ∀ c ∈ border.keyword.toList, c ≠ '\\' ∧ c ≠ '{' ∧ c ≠ '}' := by
  cases border <;> simp [Border.keyword]

namespace EnvironmentToken

/-- Ways to write a token: the command, blanks, and the name in braces with blanks around it. -/
def IsWritten (token : EnvironmentToken) (w : Text) : Prop :=
  ∃ blanks inside, IsBlankText blanks ∧ '{' ∉ inside ∧ '}' ∉ inside ∧
    strip inside = token.name ∧
    w = '\\' :: token.border.keyword.toList ++ blanks ++ '{' :: inside ++ ['}']

/-- A token that is written in a text right after `before`. -/
def StandsAfter (token : EnvironmentToken) (t before : Text) : Prop :=
  ∃ w rest, t = before ++ w ++ rest ∧ token.IsWritten w

/-- A token of a text that no other token precedes. -/
def IsLeftmost (token : EnvironmentToken) (t : Text) : Prop :=
  ∃ before, token.StandsAfter t before ∧
    ∀ other earlier, StandsAfter other t earlier → before.length ≤ earlier.length

/-! ### Reading one token -/

theorem drop_takeWhile (p : Char → Bool) (t : Text) :
    t.drop (t.takeWhile p).length = t.dropWhile p := by
  induction t with
  | nil => rfl
  | cons c t ih =>
    by_cases hc : p c = true
    · simp [hc, ih]
    · simp [hc]

theorem takeWhile_append_cons {p : Char → Bool} {a : Text} {c : Char} (ha : ∀ d ∈ a, p d = true)
    (hc : p c = false) (rest : Text) : (a ++ c :: rest).takeWhile p = a := by
  rw [List.takeWhile_append_of_pos ha, List.takeWhile_cons_of_neg (by simp [hc]), List.append_nil]

theorem braceless_iff {t : Text} :
    (∀ c ∈ t, (c != '{' && c != '}') = true) ↔ '{' ∉ t ∧ '}' ∉ t := by
  simp only [Bool.and_eq_true, bne_iff_ne, ne_eq]
  constructor
  · intro h
    exact ⟨fun hopen => (h _ hopen).1 rfl, fun hclose => (h _ hclose).2 rfl⟩
  · rintro ⟨hopen, hclose⟩ c hc
    exact ⟨fun h => hopen (h ▸ hc), fun h => hclose (h ▸ hc)⟩

theorem readName?_eq_some_iff {t name : Text} {size : Nat} :
    readName? t = some (name, size) ↔ ∃ blanks rest, IsBlankText blanks ∧ '{' ∉ name ∧
      '}' ∉ name ∧ t = blanks ++ '{' :: (name ++ '}' :: rest) ∧
      size = blanks.length + name.length + 2 := by
  unfold readName?
  simp only [drop_takeWhile]
  constructor
  · intro h
    split at h
    next inside hinside =>
      split at h
      next rest hrest =>
        obtain ⟨rfl, rfl⟩ := Prod.mk.inj (Option.some.inj h)
        have hbraceless : ∀ c ∈ inside.takeWhile fun c => c != '{' && c != '}',
            (c != '{' && c != '}') = true := by
          intro c hc
          simpa using List.mem_takeWhile_imp hc
        obtain ⟨hopen, hclose⟩ := braceless_iff.mp hbraceless
        refine ⟨t.takeWhile isBlank, rest, fun c hc => List.mem_takeWhile_imp hc, hopen, hclose,
          ?_, rfl⟩
        rw [← hrest, List.takeWhile_append_dropWhile, ← hinside, List.takeWhile_append_dropWhile]
      next => cases h
    next => cases h
  · rintro ⟨blanks, rest, hblank, hopen, hclose, rfl, rfl⟩
    have hbraceless := braceless_iff.mpr ⟨hopen, hclose⟩
    rw [takeWhile_append_cons hblank (by decide), List.dropWhile_append_of_pos hblank,
      List.dropWhile_cons_of_neg (by decide)]
    simp only [takeWhile_append_cons hbraceless (show ('}' != '{' && '}' != '}') = false by decide),
      List.dropWhile_append_of_pos hbraceless]
    simp

theorem readBorder?_eq_some_iff {border : Border} {t : Text} {token : EnvironmentToken}
    {size : Nat} :
    readBorder? border t = some (token, size) ↔ token.border = border ∧
      ∃ w rest, t = w ++ rest ∧ token.IsWritten w ∧ size = w.length := by
  obtain ⟨side, name⟩ := token
  unfold readBorder?
  simp only [Option.ite_none_right_eq_some, List.isPrefixOf_iff_prefix, Option.map_eq_some_iff]
  constructor
  · rintro ⟨⟨t, rfl⟩, ⟨inside, n⟩, hread, heq⟩
    rw [List.drop_left, readName?_eq_some_iff] at hread
    obtain ⟨blanks, rest, hblank, hopen, hclose, rfl, rfl⟩ := hread
    obtain ⟨htoken, rfl⟩ := Prod.mk.inj heq
    obtain ⟨rfl, rfl⟩ := EnvironmentToken.mk.inj htoken
    refine ⟨rfl, _, rest, ?_, ⟨blanks, inside, hblank, hopen, hclose, rfl, rfl⟩, ?_⟩
    · simp
    · simp only [List.length_append, List.length_cons, List.length_nil]
      omega
  · rintro ⟨rfl, w, rest, rfl, ⟨blanks, inside, hblank, hopen, hclose, rfl, rfl⟩, rfl⟩
    refine ⟨⟨blanks ++ '{' :: inside ++ '}' :: rest, by simp⟩,
      (inside, blanks.length + inside.length + 2), ?_, ?_⟩
    · rw [readName?_eq_some_iff]
      refine ⟨blanks, rest, hblank, hopen, hclose, ?_, rfl⟩
      simp
    · simp only [Prod.mk.injEq, true_and, List.length_append, List.length_cons, List.length_nil]
      omega

theorem read?_eq_some_iff {t : Text} {token : EnvironmentToken} {size : Nat} :
    read? t = some (token, size) ↔
      ∃ w rest, t = w ++ rest ∧ token.IsWritten w ∧ size = w.length := by
  rw [read?, Option.or_eq_some_iff, readBorder?_eq_some_iff, readBorder?_eq_some_iff]
  constructor
  · rintro (⟨-, h⟩ | ⟨-, -, h⟩)
    · exact h
    · exact h
  · intro h
    cases hborder : token.border with
    | opening => exact Or.inl ⟨rfl, h⟩
    | closing =>
      refine Or.inr ⟨?_, rfl, h⟩
      obtain ⟨w, rest, rfl, ⟨blanks, inside, -, -, -, -, rfl⟩, -⟩ := h
      simp [readBorder?, hborder, Border.keyword]

/-! ### No token starts inside another -/

/-- Up to its opening brace a token has one backslash, and inside its braces there is no brace. -/
theorem IsWritten.shape {token : EnvironmentToken} {w : Text} (h : token.IsWritten w) :
    ∃ command inside, w = '\\' :: (command ++ '{' :: (inside ++ ['}'])) ∧
      (∀ c ∈ command, c ≠ '\\' ∧ c ≠ '{' ∧ c ≠ '}') ∧ '{' ∉ inside ∧ '}' ∉ inside := by
  obtain ⟨blanks, inside, hblank, hopen, hclose, -, rfl⟩ := h
  refine ⟨token.border.keyword.toList ++ blanks, inside, by simp, ?_, hopen, hclose⟩
  intro c hc
  rcases List.mem_append.mp hc with hc | hc
  · exact token.border.keyword_plain c hc
  · refine ⟨?_, ?_, ?_⟩
    all_goals
      rintro rfl
      exact absurd (hblank _ hc) (by decide)

theorem read?_of_head {c : Char} (hc : c ≠ '\\') (t : Text) : read? (c :: t) = none := by
  simp [read?, readBorder?, hc.symm]

theorem find?_brace {x : Text} {c : Char} (hx : ∀ d ∈ x, d ≠ '{' ∧ d ≠ '}')
    (hc : c = '{' ∨ c = '}') (rest : Text) :
    (x ++ c :: rest).find? (fun d => d = '{' || d = '}') = some c := by
  rw [List.find?_append, List.find?_eq_none.mpr, Option.none_or]
  · simp [hc]
  · intro d hd
    simpa using hx d hd

/-- No token starts where a brace is closed before one is opened. -/
theorem read?_of_closing {x : Text} (hopen : '{' ∉ x) (hclose : '}' ∉ x) (rest : Text) :
    read? (x ++ '}' :: rest) = none := by
  cases hread : read? (x ++ '}' :: rest) with
  | none => rfl
  | some found =>
    obtain ⟨w, more, heq, hw, -⟩ := read?_eq_some_iff.mp hread
    obtain ⟨command, inside, rfl, hcommand, -, -⟩ := hw.shape
    -- The first brace of the text would be both.
    have hclosing := find?_brace (x := x)
      (fun d hd => ⟨fun h => hopen (h ▸ hd), fun h => hclose (h ▸ hd)⟩) (Or.inr rfl) rest
    have hplain : ∀ d ∈ '\\' :: command, d ≠ '{' ∧ d ≠ '}' := by
      intro d hd
      rcases List.mem_cons.mp hd with rfl | hd
      · decide
      · exact (hcommand d hd).2
    have hopening := find?_brace hplain (Or.inl rfl) (inside ++ ['}'] ++ more)
    rw [heq] at hclosing
    simp only [List.cons_append, List.append_assoc] at hclosing hopening
    rw [hclosing] at hopening
    cases hopening

theorem read?_inside {t : Text} {token : EnvironmentToken} {size k : Nat}
    (h : read? t = some (token, size)) (hk : k + 1 < size) : read? (t.drop (k + 1)) = none := by
  obtain ⟨w, rest, rfl, hw, rfl⟩ := read?_eq_some_iff.mp h
  obtain ⟨command, inside, rfl, hcommand, hopen, hclose⟩ := hw.shape
  simp only [List.length_cons, List.length_append, List.length_nil] at hk
  rw [List.cons_append, List.drop_succ_cons, List.append_assoc, List.cons_append, List.append_assoc,
    List.singleton_append]
  rcases Nat.lt_trichotomy k command.length with hlt | heq | hgt
  · rw [List.drop_append_of_le_length (Nat.le_of_lt hlt), List.drop_eq_getElem_cons hlt]
    exact read?_of_head (hcommand _ (List.getElem_mem hlt)).1 _
  · rw [heq, List.drop_left]
    exact read?_of_head (by decide) _
  · obtain ⟨j, rfl⟩ : ∃ j, k = command.length + (j + 1) := ⟨k - command.length - 1, by omega⟩
    rw [← List.drop_drop, List.drop_left, List.drop_succ_cons,
      List.drop_append_of_le_length (by omega)]
    exact read?_of_closing (fun h => hopen (List.mem_of_mem_drop h))
      (fun h => hclose (List.mem_of_mem_drop h)) rest

/-! ### Scanning -/

/-- The tokens that start at any position of a text. -/
def everywhere : Text → List EnvironmentToken
  | [] => []
  | c :: rest => ((read? (c :: rest)).map Prod.fst).toList ++ everywhere rest

/-- A scan may skip positions where no token starts. -/
theorem scan_eq_everywhere {skip : Nat} {t : Text} (h : ∀ k < skip, read? (t.drop k) = none) :
    scan skip t = everywhere t := by
  -- After a token the scan skips its other characters, and no token starts at these.
  fun_induction scan skip t with
  | case1 => rfl
  | case2 skip c rest ih =>
    have hhere : read? (c :: rest) = none := h 0 (Nat.succ_pos _)
    rw [everywhere, hhere, ih fun k hk => h (k + 1) (Nat.succ_lt_succ hk)]
    rfl
  | case3 c rest token size hread ih =>
    rw [everywhere, hread, ih fun k hk => read?_inside hread (by omega)]
    rfl
  | case4 c rest hread ih =>
    rw [everywhere, hread, ih fun k hk => absurd hk (Nat.not_lt_zero k)]
    rfl

theorem environmentTokens_eq (line : Text) : environmentTokens line = everywhere line :=
  scan_eq_everywhere fun k hk => absurd hk (Nat.not_lt_zero k)

/-! ### Positions -/

theorem standsAfter_nil_iff {token : EnvironmentToken} {t : Text} :
    token.StandsAfter t [] ↔ ∃ size, read? t = some (token, size) := by
  simp only [StandsAfter, read?_eq_some_iff, List.nil_append]
  constructor
  · rintro ⟨w, rest, ht, hw⟩
    exact ⟨w.length, w, rest, ht, hw, rfl⟩
  · rintro ⟨size, w, rest, ht, hw, -⟩
    exact ⟨w, rest, ht, hw⟩

theorem standsAfter_cons_iff {token : EnvironmentToken} {t before : Text} {c d : Char} :
    token.StandsAfter (c :: t) (d :: before) ↔ d = c ∧ token.StandsAfter t before := by
  simp only [StandsAfter, List.cons_append, List.cons.injEq, and_assoc, exists_and_left]
  rw [eq_comm]

theorem not_standsAfter_empty (token : EnvironmentToken) (before : Text) :
    ¬ token.StandsAfter [] before := by
  rintro ⟨w, rest, ht, blanks, inside, -, -, -, -, rfl⟩
  simp at ht

theorem mem_everywhere_iff {token : EnvironmentToken} {t : Text} :
    token ∈ everywhere t ↔ ∃ before, token.StandsAfter t before := by
  induction t with
  | nil => simp [everywhere, not_standsAfter_empty]
  | cons c t ih =>
    have hhere : token ∈ ((read? (c :: t)).map Prod.fst).toList ↔
        token.StandsAfter (c :: t) [] := by
      rw [standsAfter_nil_iff]
      simp
    rw [everywhere, List.mem_append, hhere, ih]
    constructor
    · rintro (h | ⟨before, h⟩)
      · exact ⟨[], h⟩
      · exact ⟨c :: before, standsAfter_cons_iff.mpr ⟨rfl, h⟩⟩
    · rintro ⟨_ | ⟨d, before⟩, h⟩
      · exact Or.inl h
      · exact Or.inr ⟨before, (standsAfter_cons_iff.mp h).2⟩

theorem isLeftmost_cons_iff {token : EnvironmentToken} {c : Char} {t : Text}
    (h : read? (c :: t) = none) : token.IsLeftmost (c :: t) ↔ token.IsLeftmost t := by
  have hnone : ∀ other, ¬ StandsAfter other (c :: t) [] := by
    intro other hother
    obtain ⟨size, hsize⟩ := standsAfter_nil_iff.mp hother
    rw [h] at hsize
    cases hsize
  constructor
  · rintro ⟨_ | ⟨d, before⟩, hstands, hleft⟩
    · exact absurd hstands (hnone token)
    · refine ⟨before, (standsAfter_cons_iff.mp hstands).2, ?_⟩
      intro other earlier hother
      exact Nat.le_of_succ_le_succ
        (hleft other (c :: earlier) (standsAfter_cons_iff.mpr ⟨rfl, hother⟩))
  · rintro ⟨before, hstands, hleft⟩
    refine ⟨c :: before, standsAfter_cons_iff.mpr ⟨rfl, hstands⟩, ?_⟩
    rintro other (_ | ⟨d, earlier⟩) hother
    · exact absurd hother (hnone other)
    · exact Nat.succ_le_succ (hleft other earlier (standsAfter_cons_iff.mp hother).2)

theorem isLeftmost_iff_of_read? {token first : EnvironmentToken} {t : Text} {size : Nat}
    (h : read? t = some (first, size)) : token.IsLeftmost t ↔ first = token := by
  have hfirst : first.StandsAfter t [] := standsAfter_nil_iff.mpr ⟨size, h⟩
  constructor
  · rintro ⟨before, hstands, hleft⟩
    obtain rfl : before = [] :=
      List.eq_nil_of_length_eq_zero (Nat.le_zero.mp (hleft first [] hfirst))
    obtain ⟨n, hn⟩ := standsAfter_nil_iff.mp hstands
    rw [h] at hn
    exact congrArg Prod.fst (Option.some.inj hn)
  · rintro rfl
    exact ⟨[], hfirst, fun other earlier _ => Nat.zero_le _⟩

theorem head?_everywhere_iff {token : EnvironmentToken} {t : Text} :
    (everywhere t).head? = some token ↔ token.IsLeftmost t := by
  induction t with
  | nil => simp [everywhere, IsLeftmost, not_standsAfter_empty]
  | cons c t ih =>
    rw [everywhere]
    cases hread : read? (c :: t) with
    | none =>
      rw [isLeftmost_cons_iff hread, ← ih]
      rfl
    | some found =>
      rw [isLeftmost_iff_of_read? hread]
      simp

/-- A token of a stripped line is a token of the line. -/
theorem StandsAfter.of_strip {token : EnvironmentToken} {line before : Text}
    (h : token.StandsAfter (strip line) before) : ∃ start, token.StandsAfter line start := by
  obtain ⟨left, -, hleft⟩ := stripLeft_split line
  obtain ⟨right, -, hright⟩ := stripRight_split (stripLeft line)
  obtain ⟨w, rest, hline, hw⟩ := h
  refine ⟨left ++ before, w, rest ++ right, ?_, hw⟩
  rw [hleft, hright]
  change left ++ (strip line ++ right) = _
  rw [hline]
  simp

end EnvironmentToken

open EnvironmentToken

theorem environmentCommand_eq_empty_iff {line : Text} :
    environmentCommand line = ("", []) ↔ firstToken? line = none := by
  unfold environmentCommand
  cases firstToken? line with
  | none => simp
  | some token => simp [token.border.keyword_ne_empty]

theorem firstToken?_of_end {line name : Text} (h : environmentCommand line = ("end", name)) :
    firstToken? line = some ⟨.closing, name⟩ := by
  unfold environmentCommand at h
  split at h
  next token htoken =>
    obtain ⟨border, found⟩ := token
    obtain ⟨hkeyword, rfl⟩ := Prod.mk.inj h
    cases border with
    | opening => exact absurd hkeyword (show "begin" ≠ "end" by decide)
    | closing => exact htoken
  next => exact absurd (Prod.mk.inj h).1 (by decide)

/-- Tokens are found wherever they stand. A line closes an environment exactly if an end token with
its name stands anywhere in it, and its command is that of the leftmost token of the stripped line;
it is empty exactly if there is none. So a line whose command ends an environment closes it. -/
theorem environment_tokens_are_found (line name : Text) :
    (closesEnvironment line name = true ↔
        ∃ before, StandsAfter ⟨.closing, name⟩ line before) ∧
      (∀ token, firstToken? line = some token ↔ token.IsLeftmost (strip line)) ∧
      (∀ token : EnvironmentToken, token.IsLeftmost (strip line) →
        environmentCommand line = (token.border.keyword, token.name)) ∧
      (environmentCommand line = ("", []) ↔
        ∀ token before, ¬ StandsAfter token (strip line) before) ∧
      (environmentCommand line = ("end", name) → closesEnvironment line name = true) := by
  have hfirst : ∀ token, firstToken? line = some token ↔ token.IsLeftmost (strip line) := by
    intro token
    rw [firstToken?, environmentTokens_eq, head?_everywhere_iff]
  have hcloses : closesEnvironment line name = true ↔
      ∃ before, StandsAfter ⟨.closing, name⟩ line before := by
    rw [closesEnvironment, List.contains_iff_mem, environmentTokens_eq, mem_everywhere_iff]
  refine ⟨hcloses, hfirst, ?_, ?_, ?_⟩
  · intro token hleft
    rw [environmentCommand, (hfirst token).mpr hleft]
  · rw [environmentCommand_eq_empty_iff, firstToken?, environmentTokens_eq, List.head?_eq_none_iff,
      List.eq_nil_iff_forall_not_mem]
    simp only [mem_everywhere_iff, not_exists]
  · intro hend
    obtain ⟨before, hstands, -⟩ := (hfirst _).mp (firstToken?_of_end hend)
    exact hcloses.mpr hstands.of_strip

/-- Two tokens that are broken off do not hide the third. -/
example : environmentTokens "\\begin\x7b\\end \x7ba\\end\x7b b \x7d\x7d".toList =
    [⟨.closing, ['b']⟩] := by
  decide +kernel

end HardWrap
